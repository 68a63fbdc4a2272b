import ClassScript.Proofs.LegiblePrograms
import ClassScript.Proofs.QuotedTexts
import ClassScript.Proofs.ShortestDecimals
import ClassScript.Syntax.Printer

/-!
# The texts of numbers

The text of a finite double stands for a number in the interval of the double: for the double itself if it is
an integer, otherwise for the shortest decimal. Since these intervals have no number in common, the text tells
the double (`Literal.numberText_inj`).
-/

set_option autoImplicit false

namespace ClassScript

/-! ## Bits -/

namespace Exact

variable {bits bits' m : Nat} {q : Int} {negative : Bool}

theorem ofBits_isDouble (h : ofBits bits = .finite negative m q) : IsDouble m q := by
  have h52 : twoPow 52 = 4503599627370496 := rfl
  have h53 : twoPow 53 = 9007199254740992 := rfl
  have h11 : twoPow 11 = 2048 := rfl
  unfold ofBits at h
  rw [h52, h11] at h
  dsimp only at h
  split at h
  · split at h <;> cases h
  · split at h
    · cases h
      exact ⟨by omega, le_refl _, fun hq => absurd rfl hq⟩
    · obtain ⟨-, rfl, rfl⟩ := Exact.finite.inj h
      exact ⟨by omega, by omega, by omega⟩

/-- The bits of a finite double: its sign, its exponent if the mantissa is not small, and the mantissa. -/
theorem bits_of_ofBits (hb : bits < twoPow 64) (h : ofBits bits = .finite negative m q) :
    bits = (if negative then twoPow 63 else 0) +
      if m < twoPow 52 then m else (q + 1075).toNat * twoPow 52 + (m - twoPow 52) := by
  have h52 : twoPow 52 = 4503599627370496 := rfl
  have h63 : twoPow 63 = 9223372036854775808 := rfl
  have h64 : twoPow 64 = 18446744073709551616 := rfl
  have h11 : twoPow 11 = 2048 := rfl
  unfold ofBits at h
  rw [h52, h11, h63] at h
  rw [h64] at hb
  rw [h52, h63]
  dsimp only at h
  -- Sign, exponent and fraction are the digits of the bits, so the rest is linear arithmetic.
  have hsign : (if decide (bits / 9223372036854775808 % 2 = 1) = true then 9223372036854775808 else 0) =
      bits / 9223372036854775808 * 9223372036854775808 := by
    simp only [decide_eq_true_eq]
    split <;> omega
  split at h
  · split at h <;> cases h
  · split at h
    · obtain ⟨rfl, rfl, rfl⟩ := Exact.finite.inj h
      rw [hsign, if_pos (Nat.mod_lt _ (by decide))]
      omega
    · obtain ⟨rfl, rfl, rfl⟩ := Exact.finite.inj h
      rw [hsign, if_neg (by omega)]
      omega

theorem ofFloat_inj {x y : Float} (hx : ofFloat x = .finite negative m q)
    (hy : ofFloat y = .finite negative m q) : x = y := by
  have hbits := (bits_of_ofBits x.toBits.toNat_lt hx).trans (bits_of_ofBits y.toBits.toNat_lt hy).symm
  obtain ⟨⟨a, ha⟩⟩ := x
  obtain ⟨⟨b, hb⟩⟩ := y
  obtain rfl : a = b := UInt64.toNat_inj.1 hbits
  rfl

theorem ofFloat_isDouble {x : Float} (h : ofFloat x = .finite negative m q) : IsDouble m q :=
  ofBits_isDouble h

/-- The integer part of an integer. -/
theorem floor_of_isWhole (h : isWhole m q = true) : (floor m q : ℚ) = m * 2 ^ q := by
  cases q with
  | ofNat e =>
    show ((m * twoPow e : ℕ) : ℚ) = _
    push_cast [cast_twoPow]
    simp
  | negSucc e =>
    have hmod : m % twoPow (e + 1) = 0 := of_decide_eq_true h
    obtain ⟨k, rfl⟩ := Nat.dvd_of_mod_eq_zero hmod
    show ((twoPow (e + 1) * k / twoPow (e + 1) : ℕ) : ℚ) = _
    have hpos : 0 < twoPow (e + 1) := Nat.pow_pos (by decide)
    rw [Nat.mul_div_cancel_left k hpos, zpow_negSucc]
    push_cast [cast_twoPow]
    field_simp

end Exact

/-! ## Numerals -/

open Lexer (digitsValue)

/-- Only digits. -/
def AllDigits (ds : List Char) : Prop :=
  ∀ c ∈ ds, c.isDigit = true

/-- The text is digits, with or without a point and digits behind it, and stands for the number. -/
inductive Numeral : List Char → ℚ → Prop
  | whole {ds : List Char} : AllDigits ds → ds ≠ [] → Numeral ds (digitsValue ds)
  | point {ds es : List Char} : AllDigits ds → ds ≠ [] → AllDigits es →
    Numeral (ds ++ '.' :: es) (digitsValue (ds ++ es) / 10 ^ es.length)

section

variable {ds es : List Char} {x y : ℚ}

theorem digitsValue_append (ds es : List Char) :
    digitsValue (ds ++ es) = digitsValue ds * 10 ^ es.length + digitsValue es := by
  show Nat.ofDigitChars 10 (ds ++ es) 0 = Nat.ofDigitChars 10 ds 0 * _ + Nat.ofDigitChars 10 es 0
  rw [Nat.ofDigitChars_append, Nat.ofDigitChars_eq_ofDigitChars_zero, Nat.mul_comm]

theorem digitsValue_zeros (n : Nat) : digitsValue (List.replicate n '0') = 0 := by
  show Nat.ofDigitChars 10 _ 0 = 0
  rw [Nat.ofDigitChars_replicate_zero, Nat.mul_zero]

theorem digitsValue_toDigits (n : Nat) : digitsValue (Nat.toDigits 10 n) = n :=
  Nat.ofDigitChars_ten_toDigits

theorem AllDigits.append (hd : AllDigits ds) (he : AllDigits es) : AllDigits (ds ++ es) :=
  List.forall_mem_append.2 ⟨hd, he⟩

theorem allDigits_toDigits (n : Nat) : AllDigits (Nat.toDigits 10 n) :=
  fun _ hc => Nat.isDigit_of_mem_toDigits (by decide) (by decide) hc

theorem allDigits_zeros (n : Nat) : AllDigits (List.replicate n '0') := fun _ hc =>
  (List.eq_of_mem_replicate hc) ▸ rfl

/-- A text stands for one number: the digits in front of the point end at the point. -/
theorem Numeral.unique (h : Numeral ds x) (h' : Numeral ds y) : x = y := by
  cases h with
  | whole hd _ =>
    cases h' with
    | whole => rfl
    | point => cases hd '.' (by simp)
  | @point ds es hd _ _ =>
    generalize htext : ds ++ '.' :: es = text at h'
    cases h' with
    | whole hd' _ => cases hd' '.' (by simp [← htext])
    | point hd' _ _ =>
      obtain ⟨rfl, hrest⟩ := Text.front_inj hd hd' (by rintro _ ⟨⟩; rfl) (by rintro _ ⟨⟩; rfl) htext
      cases hrest
      rfl

theorem Numeral.head (h : Numeral ds x) : ∃ c rest, ds = c :: rest ∧ c.isDigit = true := by
  have hhead {ds : List Char} (hd : AllDigits ds) (hne : ds ≠ []) :
      ∃ c rest, ds = c :: rest ∧ c.isDigit = true := by
    obtain ⟨c, rest, rfl⟩ := List.exists_cons_of_ne_nil hne
    exact ⟨c, rest, rfl, hd c (List.mem_cons_self ..)⟩
  cases h with
  | whole hd hne => exact hhead hd hne
  | point hd hne _ =>
    obtain ⟨c, rest, rfl, hc⟩ := hhead hd hne
    exact ⟨c, _, rfl, hc⟩

theorem Numeral.mem (h : Numeral ds x) : ∀ c ∈ ds, c.isDigit = true ∨ c = '.' := by
  cases h with
  | whole hd _ => exact fun c hc => .inl (hd c hc)
  | point hd _ he =>
    refine List.forall_mem_append.2 ⟨fun c hc => .inl (hd c hc), List.forall_mem_cons.2 ⟨.inr rfl, ?_⟩⟩
    exact fun c hc => .inl (he c hc)

end

theorem Lexer.isWordStart_digit {c : Char} (h : c.isDigit = true) : isWordStart c = false := by
  have hbound : c.val.toNat ≤ 57 := by
    simp only [Char.isDigit, Bool.and_eq_true, decide_eq_true_eq, UInt32.le_iff_toNat_le] at h
    exact h.2
  have hne : c ≠ '_' := by
    rintro rfl
    cases h
  have hupper : c.isUpper = false := decide_eq_false fun h => by
    have hle : 65 ≤ c.val.toNat := h.1
    omega
  have hlower : c.isLower = false := Bool.and_eq_false_iff.2 <| .inl <| decide_eq_false fun h => by
    have hle : 97 ≤ c.val.toNat := h
    omega
  exact Bool.or_eq_false_iff.2 ⟨Bool.or_eq_false_iff.2 ⟨hupper, hlower⟩, decide_eq_false hne⟩

/-! ## Decimals -/

namespace Decimal

theorem digitText_toList (n : Nat) : (digitText n).toList = Nat.toDigits 10 n :=
  String.toList_ofList

/-- A point in front of the last digits divides by a power of ten. -/
theorem numeral_split {ds : List Char} {n : Nat} (hd : AllDigits ds) (hn : n < ds.length) :
    Numeral (ds.take (ds.length - n) ++ '.' :: ds.drop (ds.length - n)) (digitsValue ds / 10 ^ n) := by
  have hlength : (ds.drop (ds.length - n)).length = n := by
    rw [List.length_drop]
    omega
  have hne : ds.take (ds.length - n) ≠ [] := by
    rw [← List.length_pos_iff, List.length_take]
    omega
  have htake : AllDigits (ds.take (ds.length - n)) := fun c hc => hd c (List.mem_of_mem_take hc)
  have hdrop : AllDigits (ds.drop (ds.length - n)) := fun c hc => hd c (List.mem_of_mem_drop hc)
  have hnumeral := Numeral.point htake hne hdrop
  rwa [List.take_append_drop, hlength] at hnumeral

theorem positional_numeral (d : Decimal) : Numeral d.positional.toList d.value := by
  unfold positional
  dsimp only
  split
  next e he =>
    have hvalue : d.value = digitsValue (Nat.toDigits 10 d.digits ++ List.replicate e '0') := by
      rw [digitsValue_append, digitsValue_zeros, digitsValue_toDigits, value, he]
      simp
    rw [String.toList_append, digitText_toList, zeros, String.toList_ofList, hvalue]
    exact .whole ((allDigits_toDigits _).append (allDigits_zeros e)) (by simp [Nat.toDigits_ne_nil])
  next e he =>
    simp only [String.toList_append, digitText_toList, zeros, String.toList_ofList, List.append_assoc]
    have hvalue (k : Nat) :
        d.value = digitsValue (List.replicate k '0' ++ Nat.toDigits 10 d.digits) / 10 ^ (e + 1) := by
      rw [digitsValue_append, digitsValue_zeros, digitsValue_toDigits, value, he, zpow_negSucc]
      push_cast
      ring
    rw [hvalue (e + 1 + 1 - digitCount d.digits)]
    refine numeral_split ((allDigits_zeros _).append (allDigits_toDigits _)) ?_
    rw [List.length_append, List.length_replicate, digitCount]
    omega

end Decimal

/-! ## Doubles -/

namespace Literal

open Decimal

/-- The text of a double without its sign. -/
def digitsText (m : Nat) (q : Int) : String :=
  if Exact.isWhole m q then digitText (Exact.floor m q) ++ ".0"
  else (shortest .awayFromZero m q).positional

variable {m : Nat} {q : Int} {negative : Bool} {x y : Float}

theorem numberText_finite (h : Exact.ofFloat x = .finite negative m q) :
    (numberText x).toList = (if negative then ['-'] else []) ++ (digitsText m q).toList := by
  unfold numberText digitsText
  rw [h]
  dsimp only
  cases negative <;> split <;> simp

/-- The text of a double stands for a number in the interval of the double. -/
theorem digitsText_numeral (h : Exact.IsDouble m q) :
    ∃ v, Numeral (digitsText m q).toList v ∧ (Interval.ofDouble m q).Holds v := by
  unfold digitsText
  split
  next hwhole =>
    refine ⟨m * 2 ^ q, ?_, Interval.ofDouble_holds⟩
    have hpoint := Numeral.point (allDigits_toDigits (Exact.floor m q)) Nat.toDigits_ne_nil
      (allDigits_zeros 1)
    rw [digitsValue_append, digitsValue_zeros, digitsValue_toDigits] at hpoint
    rw [String.toList_append, digitText_toList, ← Exact.floor_of_isWhole hwhole]
    simpa using hpoint
  next hwhole =>
    have hm : 0 < m := Nat.pos_of_ne_zero fun hm => hwhole (by
      subst hm
      cases q with
      | ofNat e => rfl
      | negSucc e => simp [Exact.isWhole])
    exact ⟨_, positional_numeral _, shortest_holds h hm⟩

theorem exists_finite (h : (Exact.ofFloat x).isFinite = true) :
    ∃ negative m q, Exact.ofFloat x = .finite negative m q := by
  generalize Exact.ofFloat x = e at h ⊢
  cases e with
  | finite negative m q => exact ⟨negative, m, q, rfl⟩
  | nan => cases h
  | infinite => cases h

theorem numberText_numeral (h : (Exact.ofFloat x).isFinite = true) :
    ∃ (negative : Bool) (ds : List Char) (v : ℚ), (numberText x).toList = (if negative then ['-'] else []) ++ ds ∧ Numeral ds v := by
  obtain ⟨negative, m, q, h⟩ := exists_finite h
  obtain ⟨v, hv, -⟩ := digitsText_numeral (Exact.ofFloat_isDouble h)
  exact ⟨negative, _, v, numberText_finite h, hv⟩

/-- No word is the text of a number. -/
theorem numberText_head (h : (Exact.ofFloat x).isFinite = true) :
    (numberText x).toList.head?.any Lexer.isWordStart = false := by
  obtain ⟨negative, ds, v, htext, hv⟩ := numberText_numeral h
  obtain ⟨c, rest, rfl, hc⟩ := hv.head
  rw [htext]
  cases negative with
  | true => rfl
  | false => exact Lexer.isWordStart_digit hc

/-- No numeral starts with a sign, so a sign in front of one can be told. -/
theorem sign_inj {ds es : List Char} {v w : ℚ} {negative negative' : Bool} (hd : Numeral ds v)
    (he : Numeral es w)
    (h : (if negative then ['-'] else []) ++ ds = (if negative' then ['-'] else []) ++ es) :
    negative = negative' ∧ ds = es := by
  obtain ⟨c, rest, rfl, hc⟩ := hd.head
  obtain ⟨d, rest', rfl, hd⟩ := he.head
  cases negative with
  | false =>
    cases negative' with
    | false => exact ⟨rfl, h⟩
    | true =>
      obtain ⟨rfl, -⟩ := List.cons.inj h
      cases hc
  | true =>
    cases negative' with
    | false =>
      obtain ⟨rfl, -⟩ := List.cons.inj h
      cases hd
    | true => exact ⟨rfl, (List.cons.inj h).2⟩

/-- Finite doubles with the same text are the same. -/
theorem numberText_inj (hx : (Exact.ofFloat x).isFinite = true)
    (hy : (Exact.ofFloat y).isFinite = true) (h : numberText x = numberText y) : x = y := by
  obtain ⟨negative, m, q, hx⟩ := exists_finite hx
  obtain ⟨negative', n, r, hy⟩ := exists_finite hy
  obtain ⟨v, hv, hvholds⟩ := digitsText_numeral (Exact.ofFloat_isDouble hx)
  obtain ⟨w, hw, hwholds⟩ := digitsText_numeral (Exact.ofFloat_isDouble hy)
  have htext := congrArg String.toList h
  rw [numberText_finite hx, numberText_finite hy] at htext
  obtain ⟨rfl, hdigits⟩ := sign_inj hv hw htext
  rw [hdigits] at hv
  obtain rfl := hv.unique hw
  obtain ⟨rfl, rfl⟩ := Interval.eq_of_holds (Exact.ofFloat_isDouble hx) (Exact.ofFloat_isDouble hy)
    hvholds hwholds
  exact Exact.ofFloat_inj hx hy

end Literal

end ClassScript
