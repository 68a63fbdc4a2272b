import ClassScript.Proofs.RoundingIntervals
import Mathlib.Data.Nat.Cast.Order.Field

/-!
# The shortest decimal reads back

Every decimal that the search gives lies in the interval (`Interval.search_holds`). The search of a double
does not fail: the seventeenth digit stands for less than the width of the interval, so one of the two
neighbours of the double with seventeen digits lies in it (`Interval.nearest?_isSome`). So the shortest decimal
of a double lies in the interval of the double (`shortest_holds`).
-/

set_option autoImplicit false

namespace ClassScript

namespace Decimal

variable {d : Decimal} {tie : Tie} {m n : Nat} {q e : Int}

/-! ## Digits -/

theorem digitCount_pos (n : Nat) : 0 < digitCount n :=
  Nat.length_toDigits_pos

theorem lt_tenPow_digitCount (n : Nat) : n < 10 ^ digitCount n :=
  (Nat.length_toDigits_le_iff (by decide) (digitCount_pos n)).1 (le_refl _)

theorem tenPow_digitCount_le (h : 0 < n) : 10 ^ (digitCount n - 1) ≤ n := by
  by_contra hlt
  obtain hone | hmore : digitCount n = 1 ∨ 0 < digitCount n - 1 := by
    have := digitCount_pos n
    omega
  · rw [hone] at hlt
    omega
  · have hle := (Nat.length_toDigits_le_iff (b := 10) (by decide) hmore).2 (Nat.not_le.1 hlt)
    unfold digitCount at hle hmore
    omega

/-- The quotient is no less than the power of ten at its first digit. -/
theorem leadingExponent_le (hm : 0 < m) (hn : 0 < n) :
    (10 : ℚ) ^ leadingExponent m n ≤ m / n := by
  have hnpos : (0 : ℚ) < n := by exact_mod_cast hn
  unfold leadingExponent
  dsimp only
  split
  next h =>
    generalize ((digitCount m : Int) - digitCount n) = guess at h ⊢
    have h : ((n * tenPow guess.toNat : ℕ) : ℚ) ≤ ((m * tenPow (-guess).toNat : ℕ) : ℚ) := by
      exact_mod_cast h
    push_cast [cast_tenPow] at h
    rw [zpow_eq_div, div_le_div_iff₀ (by positivity) hnpos]
    linarith
  · have hlow : (10 : ℚ) ^ (digitCount m - 1) ≤ m := by exact_mod_cast tenPow_digitCount_le hm
    have hhigh : (n : ℚ) ≤ 10 ^ digitCount n := by exact_mod_cast (lt_tenPow_digitCount n).le
    have hexp : (digitCount m : Int) - digitCount n - 1 = (digitCount m - 1 : ℕ) - digitCount n := by
      have := digitCount_pos m
      omega
    rw [hexp, zpow_sub₀ (by norm_num), zpow_natCast, zpow_natCast]
    exact div_le_div₀ (by positivity) hlow hnpos hhigh

theorem dropZeros_value (fuel : Nat) (d : Decimal) : (dropZeros fuel d).value = d.value := by
  induction fuel generalizing d with
  | zero => rfl
  | succ fuel ih =>
    rw [dropZeros]
    split
    next h =>
      rw [ih]
      obtain ⟨k, hk⟩ := Nat.dvd_of_mod_eq_zero h.2
      rw [value, value, hk, Nat.mul_div_cancel_left k (by decide), zpow_add_one₀ (by norm_num)]
      push_cast
      ring
    · rfl

namespace Interval

variable {i : Interval} {es : List Int}

/-! ## The search -/

theorem nearest?_contains (h : i.nearest? tie e = some d) : i.contains d = true := by
  unfold nearest? at h
  dsimp only at h
  split at h
  next hbelow habove =>
    cases h
    repeat' split
    all_goals assumption
  next hbelow habove =>
    cases h
    exact hbelow
  next hbelow habove =>
    cases h
    exact habove
  · cases h

theorem search_contains (h : i.search tie es = some d) : i.contains d = true := by
  induction es with
  | nil => cases h
  | cons e es ih =>
    rw [search] at h
    split at h
    next d' hd =>
      cases h
      exact nearest?_contains hd
    · exact ih h

theorem search_isSome (he : e ∈ es) (h : (i.nearest? tie e).isSome = true) :
    (i.search tie es).isSome = true := by
  induction es with
  | nil => cases he
  | cons e' es ih =>
    rw [search]
    split
    · rfl
    next hnone =>
      obtain rfl | he := List.mem_cons.1 he
      · rw [hnone] at h
        cases h
      · exact ih he

/-- The number in the middle of the interval. -/
def middle (i : Interval) : ℚ :=
  i.numerator / i.denominator

theorem inUnits_eq (i : Interval) (e : Int) :
    ((i.inUnits e).1 / (i.inUnits e).2 : ℚ) * 10 ^ e = i.middle := by
  have hten : (10 : ℚ) ^ (-e).toNat ≠ 0 := by positivity
  have hten' : (10 : ℚ) ^ e.toNat ≠ 0 := by positivity
  unfold inUnits middle
  push_cast [cast_tenPow]
  rw [zpow_eq_div e]
  field_simp

variable {x y : ℚ}

theorem Holds.of_le (h : i.Holds y) (hlow : i.lowEnd < x) (hle : x ≤ y) : i.Holds x := by
  refine ⟨hlow.le, hle.trans h.high, ?_⟩
  rintro (he | he)
  · exact absurd he hlow.ne'
  · exact h.ends (.inr (le_antisymm h.high (he ▸ hle)))

theorem Holds.of_ge (h : i.Holds y) (hhigh : x < i.highEnd) (hle : y ≤ x) : i.Holds x := by
  refine ⟨h.low.trans hle, hhigh.le, ?_⟩
  rintro (he | he)
  · exact h.ends (.inl (le_antisymm (he ▸ hle) h.low))
  · exact absurd he hhigh.ne

/-- If two neighbours of a number in an interval are nearer to each other than the ends of the interval, one
of them lies in the interval. -/
theorem holds_or_holds {a b : ℚ} (h : i.Holds x) (ha : a ≤ x) (hb : x ≤ b)
    (hwidth : b - a < i.highEnd - i.lowEnd) : i.Holds a ∨ i.Holds b := by
  by_cases hlow : i.lowEnd < a
  · exact .inl (h.of_le hlow ha)
  by_cases hhigh : b < i.highEnd
  · exact .inr (h.of_ge hhigh hb)
  · linarith

theorem nearest?_isSome (hi : 0 < i.denominator) (hmiddle : i.Holds i.middle)
    (hunit : (10 : ℚ) ^ e < i.highEnd - i.lowEnd) : (i.nearest? tie e).isSome = true := by
  have hten : (0 : ℚ) < 10 ^ e := by positivity
  have hd : 0 < (i.inUnits e).2 := Nat.mul_pos hi (Nat.pow_pos (by decide))
  have hd' : (0 : ℚ) < (i.inUnits e).2 := by exact_mod_cast hd
  have hunits := inUnits_eq i e
  generalize hn : (i.inUnits e).1 = n, hm : (i.inUnits e).2 = m at hd hd' hunits
  have hbelow : Decimal.value ⟨n / m, e⟩ ≤ i.middle := by
    rw [← hunits]
    exact mul_le_mul_of_nonneg_right Nat.cast_div_le hten.le
  have habove : i.middle ≤ Decimal.value ⟨n / m + 1, e⟩ := by
    rw [← hunits]
    refine mul_le_mul_of_nonneg_right ((div_le_iff₀ hd').2 ?_) hten.le
    exact_mod_cast (mul_comm m _ ▸ Nat.lt_mul_div_succ n hd).le
  have hstep : Decimal.value ⟨n / m + 1, e⟩ - Decimal.value ⟨n / m, e⟩ = 10 ^ e := by
    rw [value, value]
    push_cast
    ring
  have hcontains := holds_or_holds hmiddle hbelow habove (hstep ▸ hunit)
  rw [← contains_iff hi, ← contains_iff hi] at hcontains
  unfold nearest?
  dsimp only
  rw [hn, hm]
  split
  · rfl
  · rfl
  · rfl
  next hnone hnone' =>
    rw [hnone, hnone'] at hcontains
    simp at hcontains

/-! ## Doubles -/

theorem ofDouble_middle : (ofDouble m q).middle = m * 2 ^ q := by
  show ((4 * m * twoPow q.toNat : ℕ) : ℚ) / ((4 * twoPow (-q).toNat : ℕ) : ℚ) = _
  push_cast [cast_twoPow]
  rw [scale_div]
  ring

theorem gapBelow_pos (m : Nat) (q : Int) : 0 < gapBelow m q := by
  unfold gapBelow
  split <;> decide

/-- A double lies in its own interval, and not at an end of it unless it is zero. -/
theorem ofDouble_holds : (ofDouble m q).Holds (m * 2 ^ q) := by
  have hunit : (0 : ℚ) < 2 ^ q := by positivity
  have hhigh : (m : ℚ) * 2 ^ q < (ofDouble m q).highEnd := by
    rw [ofDouble_highEnd]
    exact mul_lt_mul_of_pos_right (by linarith) hunit
  obtain rfl | hm := Nat.eq_zero_or_pos m
  · have hlow : (ofDouble 0 q).lowEnd = 0 := by
      show (((4 * 0 - gapBelow 0 q) * twoPow q.toNat : ℕ) : ℚ) / _ = 0
      simp
    exact ⟨by simp [hlow], hhigh.le, fun _ => rfl⟩
  · have hgap := gapBelow_le m q
    have hlow : (ofDouble m q).lowEnd < m * 2 ^ q := by
      rw [ofDouble_lowEnd (by omega)]
      have hgap : (0 : ℚ) < gapBelow m q := by exact_mod_cast gapBelow_pos m q
      exact mul_lt_mul_of_pos_right (by linarith) hunit
    refine ⟨hlow.le, hhigh.le, ?_⟩
    rintro (he | he)
    · exact absurd he hlow.ne'
    · exact absurd he hhigh.ne

/-- The seventeenth digit of a double is less than the width of its interval. -/
theorem seventeenth_lt_width (h : Exact.IsDouble m q) (hm : 0 < m) {top : Int}
    (htop : (10 : ℚ) ^ top ≤ m * 2 ^ q) :
    (10 : ℚ) ^ (top - 16) < (ofDouble m q).highEnd - (ofDouble m q).lowEnd := by
  have hunit : (0 : ℚ) < 2 ^ q := by positivity
  have hgap := gapBelow_le m q
  rw [ofDouble_highEnd, ofDouble_lowEnd (by omega), ← sub_mul, zpow_sub₀ (by norm_num)]
  rw [div_lt_iff₀ (by positivity)]
  refine htop.trans_lt ?_
  rw [mul_right_comm]
  refine mul_lt_mul_of_pos_right ?_ hunit
  -- A mantissa is less than `2 ^ 53`, which is less than `10 ^ 16` units; below the least normal mantissa the gap
  -- is half as wide, but that mantissa is only `2 ^ 52`.
  unfold gapBelow
  split
  next hleast =>
    rw [hleast.1]
    push_cast [cast_twoPow]
    norm_num
  · have hm : (m : ℚ) < 2 ^ 53 := by exact_mod_cast h.mantissa
    push_cast
    norm_num at hm ⊢
    linarith

end Interval

open Decimal.Interval in
/-- The shortest decimal of a double lies in the interval of the double. -/
theorem shortest_holds (h : Exact.IsDouble m q) (hm : 0 < m) :
    (ofDouble m q).Holds (shortest tie m q).value := by
  have hden : 0 < (ofDouble m q).denominator := ofDouble_denominator_pos
  have hnum : 0 < (ofDouble m q).numerator :=
    Nat.mul_pos (Nat.mul_pos (by decide) hm) (Nat.pow_pos (by decide))
  have htop := leadingExponent_le hnum hden
  rw [← middle, ofDouble_middle] at htop
  unfold shortest
  dsimp only
  generalize leadingExponent (ofDouble m q).numerator (ofDouble m q).denominator = top at htop ⊢
  have hnearest : ((ofDouble m q).nearest? tie (top - 16)).isSome = true :=
    nearest?_isSome hden (ofDouble_middle (m := m) ▸ ofDouble_holds) (seventeenth_lt_width h hm htop)
  have hmem : top - 16 ∈ (List.range 17).map fun (n : Nat) => top - n :=
    List.mem_map.2 ⟨16, by decide, rfl⟩
  have hsome := search_isSome hmem hnearest
  obtain ⟨d, hd⟩ := Option.isSome_iff_exists.1 hsome
  rw [hd]
  dsimp only
  rw [dropZeros_value]
  exact (contains_iff hden).1 (search_contains hd)

end Decimal

end ClassScript
