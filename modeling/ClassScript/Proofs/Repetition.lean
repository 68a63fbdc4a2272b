import ClassScript.Proofs.RoundingIntervals
import ClassScript.Value.Operators
import Mathlib.Algebra.Order.Floor.Semifield
import Mathlib.Data.Rat.Floor

/-!
# Repeated texts

A text times a number is as many copies of the text as the integer part of the number says. The
count becomes a word, and every word above the largest stands for the largest; the size is a product
of words, which may be no word; and no text is longer than `maxBytes`. Whatever the first two
limits change is too large for the third (`size_toWord`), so together they let through what fits and
nothing else.
-/

set_option autoImplicit false

namespace ClassScript

namespace Exact

/-- The rational number with this sign, mantissa and exponent. -/
def rational (negative : Bool) (mantissa : Nat) (exponent : Int) : ℚ :=
  if negative then -(mantissa * 2 ^ exponent) else mantissa * 2 ^ exponent

variable {m : Nat} {q : Int}

theorem floor_eq (m : Nat) (q : Int) : floor m q = ⌊(m : ℚ) * 2 ^ q⌋₊ := by
  cases q with
  | ofNat e =>
    have hcast : (m : ℚ) * 2 ^ (Int.ofNat e) = ((m * twoPow e : ℕ) : ℚ) := by
      push_cast [cast_twoPow]
      rfl
    rw [hcast, Nat.floor_natCast]
    rfl
  | negSucc e =>
    have hcast : (m : ℚ) * 2 ^ (Int.negSucc e) = (m : ℚ) / ((twoPow (e + 1) : ℕ) : ℚ) := by
      rw [cast_twoPow, zpow_negSucc, div_eq_mul_inv]
    rw [hcast, Nat.floor_div_eq_div]
    rfl

/-- A number is less than 1 if it is negative or has no integer part. -/
theorem rational_lt_one {negative : Bool} :
    rational negative m q < 1 ↔ negative = true ∨ floor m q = 0 := by
  have hpos : (0 : ℚ) ≤ m * 2 ^ q := by positivity
  cases negative with
  | true =>
    have hneg : rational true m q ≤ 0 := neg_nonpos.mpr hpos
    exact iff_of_true (lt_of_le_of_lt hneg one_pos) (.inl rfl)
  | false =>
    rw [floor_eq, Nat.floor_eq_zero]
    simp [rational]

theorem floor_zero (n : Nat) : floor n 0 = n :=
  Nat.mul_one n

end Exact

namespace Operators

open Exact

variable {s : String} {line : Nat}

/-- What a text times a number is, with the number read as a rational one. -/
def repeated (line : Nat) (s : String) : Exact → Except RuntimeError Value
  | .nan => .ok (.string "")
  | .infinite negative =>
    if s.utf8ByteSize = 0 ∨ negative then .ok (.string "") else .error ⟨.repetitionTooLarge, line⟩
  | .finite negative m q =>
    let c := rational negative m q
    if s.utf8ByteSize = 0 ∨ c < 1 then .ok (.string "")
    else if s.utf8ByteSize * ⌊c⌋₊ ≤ 2 ^ 63 - 1 then
      .ok (.string (String.join (List.replicate ⌊c⌋₊ s)))
    else .error ⟨.repetitionTooLarge, line⟩

theorem appendCopies_eq (start s : String) (n : Nat) :
    appendCopies start s n = start ++ String.join (List.replicate n s) := by
  induction n generalizing start with
  | zero => exact String.append_empty.symm
  | succ n ih => rw [appendCopies, ih, List.replicate_succ, String.join_cons, String.append_assoc]

theorem copies_eq (s : String) (n : Nat) (h : s.utf8ByteSize * n ≤ maxBytes) :
    copies s n h = String.join (List.replicate n s) := by
  rw [copies, appendCopies_eq, String.empty_append]

theorem maxBytes_lt_maxWord : maxBytes < maxWord := by
  decide

/-- A size that no text may have keeps being one when the count becomes the nearest word, and the
other counts are words. -/
theorem size_toWord {size count : Nat} (hs : 0 < size) :
    size * min count maxWord ≤ maxBytes ↔ size * count ≤ maxBytes := by
  rcases Nat.le_total count maxWord with hle | hle
  · rw [Nat.min_eq_left hle]
  · rw [Nat.min_eq_right hle]
    have hword : maxBytes < size * maxWord :=
      Nat.lt_of_lt_of_le maxBytes_lt_maxWord (Nat.le_mul_of_pos_left maxWord hs)
    have hcount := Nat.lt_of_lt_of_le hword (Nat.mul_le_mul_left size hle)
    exact iff_of_false (Nat.not_le_of_lt hword) (Nat.not_le_of_lt hcount)

theorem min_maxWord {size count : Nat} (hs : 0 < size) (h : size * count ≤ maxBytes) :
    min count maxWord = count :=
  Nat.min_eq_left <|
    Nat.le_trans (Nat.le_mul_of_pos_left count hs) (Nat.le_trans h maxBytes_lt_maxWord.le)

/-- A text that is not empty times a positive count: the product is a word where there is room for
the copies. -/
theorem repetition?_of_positive {x : Float} (hs : s.isEmpty = false)
    (hn : (ofFloat x).trunc.isNan = false) (hp : (ofFloat x).trunc.isNonpositive = false) :
    repetition? s x =
      if s.utf8ByteSize * (ofFloat x).trunc.toWord ≤ maxBytes then
        some (String.join (List.replicate (ofFloat x).trunc.toWord s))
      else none := by
  unfold repetition?
  simp only [hs, hn, hp, Bool.or_self, Bool.false_eq_true, if_false, copies_eq]
  split
  next size hsize =>
    obtain ⟨-, rfl⟩ := wordProduct?_eq_some.1 hsize
    rfl
  next hnone =>
    have hword : ¬ s.utf8ByteSize * (ofFloat x).trunc.toWord ≤ maxWord := fun hle => by
      rw [wordProduct?_eq_some.2 ⟨hle, rfl⟩] at hnone
      cases hnone
    rw [if_neg fun hle => hword (hle.trans maxBytes_lt_maxWord.le)]

theorem repetition_of_nothing {x : Float} (h : s.isEmpty = true ∨
    (ofFloat x).trunc.isNan = true ∨ (ofFloat x).trunc.isNonpositive = true) :
    repetition line s x = .ok (.string "") := by
  unfold repetition repetition?
  rw [if_pos]
  simpa only [Bool.or_eq_true, or_assoc] using h

theorem repetition_of_infinite {x : Float} (hs : s.isEmpty = false) (hsize : 0 < s.utf8ByteSize)
    (hx : ofFloat x = .infinite false) :
    repetition line s x = .error ⟨.repetitionTooLarge, line⟩ := by
  have htoo : ¬ s.utf8ByteSize * (ofFloat x).trunc.toWord ≤ maxBytes := by
    rw [hx]
    exact Nat.not_le_of_lt (maxBytes_lt_maxWord.trans_le (Nat.le_mul_of_pos_left maxWord hsize))
  unfold repetition
  rw [repetition?_of_positive hs (by rw [hx]; rfl) (by rw [hx]; rfl), if_neg htoo]

theorem repetition_of_finite {x : Float} {m : Nat} {q : Int} (hs : s.isEmpty = false)
    (hsize : 0 < s.utf8ByteSize) (hx : ofFloat x = .finite false m q) (hk : floor m q ≠ 0) :
    repetition line s x =
      if s.utf8ByteSize * floor m q ≤ maxBytes then
        .ok (.string (String.join (List.replicate (floor m q) s)))
      else .error ⟨.repetitionTooLarge, line⟩ := by
  have htrunc : (ofFloat x).trunc = .finite false (floor m q) 0 := by
    rw [hx]
    rfl
  have hpositive : (ofFloat x).trunc.isNonpositive = false := by
    rw [htrunc]
    simpa [isNonpositive] using hk
  have hword : (ofFloat x).trunc.toWord = min (floor m q) maxWord := by
    rw [htrunc]
    simp [toWord, floor_zero]
  unfold repetition
  rw [repetition?_of_positive hs (by rw [htrunc]; rfl) hpositive, hword]
  simp only [size_toWord hsize]
  by_cases hfits : s.utf8ByteSize * floor m q ≤ maxBytes
  · rw [if_pos hfits, if_pos hfits, min_maxWord hsize hfits]
  · rw [if_neg hfits, if_neg hfits]

theorem repetition_eq (line : Nat) (s : String) (x : Float) :
    repetition line s x = repeated line s (ofFloat x) := by
  by_cases hs : s.utf8ByteSize = 0
  · rw [repetition_of_nothing (.inl (String.isEmpty_iff_utf8ByteSize_eq_zero.2 hs))]
    cases ofFloat x <;> simp [repeated, hs]
  have hempty : s.isEmpty = false :=
    Bool.eq_false_iff.2 fun h => hs (String.isEmpty_iff_utf8ByteSize_eq_zero.1 h)
  have hsize : 0 < s.utf8ByteSize := Nat.pos_of_ne_zero hs
  cases hx : ofFloat x with
  | nan => exact repetition_of_nothing (.inr (.inl (by rw [hx]; rfl)))
  | infinite negative =>
    cases negative with
    | true =>
      rw [repetition_of_nothing (.inr (.inr (by rw [hx]; rfl)))]
      simp [repeated]
    | false =>
      rw [repetition_of_infinite hempty hsize hx]
      simp [repeated, hs]
  | finite negative m q =>
    by_cases hone : rational negative m q < 1
    · have hnonpos : (ofFloat x).trunc.isNonpositive = true := by
        rw [hx]
        simpa [isNonpositive, trunc] using rational_lt_one.1 hone
      rw [repetition_of_nothing (.inr (.inr hnonpos))]
      simp [repeated, hone]
    · obtain ⟨hsign, hk⟩ := not_or.1 (mt rational_lt_one.2 hone)
      obtain rfl := Bool.eq_false_iff.2 hsign
      have hfloor : ⌊rational false m q⌋₊ = floor m q := (floor_eq m q).symm
      rw [repetition_of_finite hempty hsize hx hk]
      simp only [repeated, hs, hone, or_self, if_false, hfloor]
      rfl

/-- A text times a number, in either order: empty for an empty text, for no number and below 1, and
otherwise as many copies as the integer part of the number says if they have at most `2 ^ 63 - 1`
bytes, and the error if they have more or the number is infinite. -/
theorem star_repeats (line : Nat) (lexeme s : String) (x : Float) :
    binary ⟨.symbol .star, lexeme, line⟩ (.string s) (.number x) = repeated line s (ofFloat x) ∧
    binary ⟨.symbol .star, lexeme, line⟩ (.number x) (.string s) = repeated line s (ofFloat x) ∧
    RuntimeCause.repetitionTooLarge.message = "String repetition is too large." :=
  ⟨repetition_eq line s x, repetition_eq line s x, rfl⟩

end Operators
end ClassScript
