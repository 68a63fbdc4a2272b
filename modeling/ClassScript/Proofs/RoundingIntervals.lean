import ClassScript.Number.Shortest
import Mathlib.Algebra.Order.Field.Power
import Mathlib.Algebra.Order.Field.Rat
import Mathlib.Tactic.FieldSimp
import Mathlib.Tactic.Linarith
import Mathlib.Tactic.NormNum
import Mathlib.Tactic.Positivity
import Mathlib.Tactic.Ring

/-!
# Intervals of numbers that read back

The numbers that read back as a double are those between the two points half-way to its neighbours. So
intervals of different doubles have no number in common (`Interval.eq_of_holds`): where two of them touch, one
of the mantissas is odd and its interval does not have its ends.
-/

set_option autoImplicit false

namespace ClassScript

/-! ## Powers -/

@[simp] theorem cast_twoPow (e : Nat) : (twoPow e : ℚ) = 2 ^ e := by
  show ((2 ^ e : ℕ) : ℚ) = 2 ^ e
  push_cast
  rfl

@[simp] theorem cast_tenPow (e : Nat) : (tenPow e : ℚ) = 10 ^ e := by
  show ((10 ^ e : ℕ) : ℚ) = 10 ^ e
  push_cast
  rfl

/-- An integral power as a quotient of natural ones. -/
theorem zpow_eq_div {b : ℚ} (e : Int) : b ^ e = b ^ e.toNat / b ^ (-e).toNat := by
  cases e with
  | ofNat n => simp
  | negSucc n => simp [Int.neg_negSucc, zpow_negSucc]

/-- The mantissa and the exponent of a double: a small mantissa has the least exponent. -/
structure Exact.IsDouble (m : Nat) (q : Int) : Prop where
  mantissa : m < twoPow 53
  exponent : -1074 ≤ q
  normal : q ≠ -1074 → twoPow 52 ≤ m

namespace Decimal

/-- The number that the decimal stands for. -/
def value (d : Decimal) : ℚ :=
  d.digits * 10 ^ d.exponent

namespace Interval

/-- The lower end. -/
def lowEnd (i : Interval) : ℚ :=
  i.low / i.denominator

/-- The upper end. -/
def highEnd (i : Interval) : ℚ :=
  i.high / i.denominator

/-- The number lies in the interval. -/
structure Holds (i : Interval) (x : ℚ) : Prop where
  low : i.lowEnd ≤ x
  high : x ≤ i.highEnd
  ends : x = i.lowEnd ∨ x = i.highEnd → i.closed = true

variable {i : Interval} {d : Decimal} {m n : Nat} {q r : Int} {x : ℚ}

/-! ## The test of a decimal -/

theorem bound_le_iff (b : Nat) (hi : 0 < i.denominator) :
    b * tenPow (-d.exponent).toNat ≤ d.digits * tenPow d.exponent.toNat * i.denominator ↔
      (b / i.denominator : ℚ) ≤ d.value := by
  have hden : (0 : ℚ) < i.denominator := by exact_mod_cast hi
  rw [value, zpow_eq_div, ← mul_div_assoc, div_le_div_iff₀ hden (by positivity),
    ← Nat.cast_le (α := ℚ)]
  push_cast [cast_tenPow]
  rfl

theorem le_bound_iff (b : Nat) (hi : 0 < i.denominator) :
    d.digits * tenPow d.exponent.toNat * i.denominator ≤ b * tenPow (-d.exponent).toNat ↔
      d.value ≤ (b / i.denominator : ℚ) := by
  have hden : (0 : ℚ) < i.denominator := by exact_mod_cast hi
  rw [value, zpow_eq_div, ← mul_div_assoc, div_le_div_iff₀ (by positivity) hden,
    ← Nat.cast_le (α := ℚ)]
  push_cast [cast_tenPow]
  rfl

theorem contains_iff (hi : 0 < i.denominator) : i.contains d = true ↔ i.Holds d.value := by
  have hlow := bound_le_iff (d := d) i.low hi
  have hhigh := le_bound_iff (d := d) i.high hi
  have hlow' := le_bound_iff (d := d) i.low hi
  have hhigh' := bound_le_iff (d := d) i.high hi
  rw [← lowEnd] at hlow hlow'
  rw [← highEnd] at hhigh hhigh'
  unfold contains
  dsimp only
  split
  next hclosed =>
    rw [decide_eq_true_iff, hlow, hhigh]
    exact ⟨fun h => ⟨h.1, h.2, fun _ => hclosed⟩, fun h => ⟨h.low, h.high⟩⟩
  next hopen =>
    rw [decide_eq_true_iff, ← not_le, ← not_le, hlow', hhigh', not_le, not_le]
    refine ⟨fun h => ⟨h.1.le, h.2.le, ?_⟩, fun h => ?_⟩
    · rintro (he | he)
      · exact absurd he h.1.ne'
      · exact absurd he h.2.ne
    · exact ⟨h.low.lt_of_ne fun he => hopen (h.ends (.inl he.symm)),
        h.high.lt_of_ne fun he => hopen (h.ends (.inr he))⟩

/-! ## The interval of a double -/

/-- How far the lower end is from the double, in quarters of a unit. -/
def gapBelow (m : Nat) (q : Int) : Nat :=
  if m = twoPow 52 ∧ q ≠ -1074 then 1 else 2

theorem ofDouble_denominator_pos : 0 < (ofDouble m q).denominator :=
  Nat.mul_pos (by decide) (Nat.pow_pos (by decide))

theorem scale_div (a : ℚ) (q : Int) : a * 2 ^ q.toNat / (4 * 2 ^ (-q).toNat) = a / 4 * 2 ^ q := by
  rw [zpow_eq_div q, mul_div_mul_comm]

theorem ofDouble_lowEnd (h : gapBelow m q ≤ 4 * m) :
    (ofDouble m q).lowEnd = (m - gapBelow m q / 4) * 2 ^ q := by
  show (((4 * m - gapBelow m q) * twoPow q.toNat : ℕ) : ℚ) / ((4 * twoPow (-q).toNat : ℕ) : ℚ) = _
  push_cast [cast_twoPow, h]
  rw [scale_div]
  ring

theorem ofDouble_highEnd : (ofDouble m q).highEnd = (m + 1 / 2) * 2 ^ q := by
  show (((4 * m + 2) * twoPow q.toNat : ℕ) : ℚ) / ((4 * twoPow (-q).toNat : ℕ) : ℚ) = _
  push_cast [cast_twoPow]
  rw [scale_div]
  ring

theorem ofDouble_closed : (ofDouble m q).closed = true ↔ m % 2 = 0 :=
  decide_eq_true_iff

/-! ## Different doubles -/

theorem gapBelow_le (m : Nat) (q : Int) : gapBelow m q ≤ 2 := by
  unfold gapBelow
  split <;> decide

/-- Doubles with one exponent. -/
theorem ofDouble_apart_mantissa (h : m < n) :
    (ofDouble m q).highEnd ≤ (ofDouble n q).lowEnd ∧
      ((ofDouble m q).highEnd = (ofDouble n q).lowEnd → ¬ (m % 2 = 0 ∧ n % 2 = 0)) := by
  have hgap := gapBelow_le n q
  have hunit : (0 : ℚ) < 2 ^ q := by positivity
  rw [ofDouble_highEnd, ofDouble_lowEnd (by omega), mul_left_inj' hunit.ne']
  refine ⟨mul_le_mul_of_nonneg_right ?_ hunit.le, fun he => ?_⟩
  · have hgap : (gapBelow n q : ℚ) ≤ 2 := by exact_mod_cast hgap
    have hmn : (m : ℚ) + 1 ≤ n := by exact_mod_cast h
    linarith
  · have he : 4 * m + 2 + gapBelow n q = 4 * n := by
      have he : (4 * m + 2 + gapBelow n q : ℚ) = 4 * n := by linarith
      exact_mod_cast he
    omega

/-- Doubles with different exponents. -/
theorem ofDouble_apart_exponent (hm : m < twoPow 53) (hn : twoPow 52 ≤ n) (hr : r ≠ -1074)
    (h : q < r) :
    (ofDouble m q).highEnd ≤ (ofDouble n r).lowEnd ∧
      ((ofDouble m q).highEnd = (ofDouble n r).lowEnd → m % 2 = 1) := by
  have hunit : (0 : ℚ) < 2 ^ q := by positivity
  have htwice : 2 * (2 : ℚ) ^ q ≤ 2 ^ r := by
    rw [← zpow_one_add₀ (by norm_num)]
    exact zpow_le_zpow_right₀ (by norm_num) (by omega)
  have hm' : (m : ℚ) ≤ 2 ^ 53 - 1 := by
    have hm : m + 1 ≤ 2 ^ 53 := hm
    have hm : (m : ℚ) + 1 ≤ 2 ^ 53 := by exact_mod_cast hm
    linarith
  have hpos : gapBelow n r ≤ 4 * n := (gapBelow_le n r).trans (by
    have hn : 2 ^ 52 ≤ n := hn
    omega)
  rw [ofDouble_highEnd, ofDouble_lowEnd hpos]
  obtain rfl | hlt := hn.eq_or_lt
  · -- The least mantissa: the lower neighbour has the greatest one.
    rw [show gapBelow (twoPow 52) r = 1 from if_pos ⟨rfl, hr⟩, cast_twoPow]
    have hstep : ((2 : ℚ) ^ 53 - 1 / 2) * 2 ^ q ≤ (2 ^ 52 - ((1 : ℕ) : ℚ) / 4) * 2 ^ r := by
      push_cast
      linarith
    refine ⟨le_trans (mul_le_mul_of_nonneg_right (by linarith) hunit.le) hstep, fun he => ?_⟩
    have hm'' : (2 : ℚ) ^ 53 - 1 / 2 ≤ m + 1 / 2 :=
      le_of_mul_le_mul_right (he ▸ hstep) hunit
    have hm'' : 2 ^ 53 ≤ m + 1 := by
      have hm'' : (2 : ℚ) ^ 53 ≤ m + 1 := by linarith
      exact_mod_cast hm''
    have hm : m < 2 ^ 53 := hm
    omega
  · rw [show gapBelow n r = 2 from if_neg fun hn => hlt.ne' hn.1]
    have hn' : (2 : ℚ) ^ 52 + 1 ≤ n := by
      have hlt : 2 ^ 52 + 1 ≤ n := hlt
      exact_mod_cast hlt
    have hstep : ((2 : ℚ) ^ 53 + 1) * 2 ^ q ≤ (n - ((2 : ℕ) : ℚ) / 4) * 2 ^ r := by
      calc ((2 : ℚ) ^ 53 + 1) * 2 ^ q
          = (2 ^ 52 + 1 / 2) * (2 * 2 ^ q) := by ring
        _ ≤ (2 ^ 52 + 1 / 2) * 2 ^ r := mul_le_mul_of_nonneg_left htwice (by norm_num)
        _ ≤ (n - ((2 : ℕ) : ℚ) / 4) * 2 ^ r := by
          refine mul_le_mul_of_nonneg_right ?_ (by positivity)
          push_cast
          linarith
    have hless : ((m : ℚ) + 1 / 2) * 2 ^ q < ((2 : ℚ) ^ 53 + 1) * 2 ^ q :=
      mul_lt_mul_of_pos_right (by linarith) hunit
    exact ⟨(hless.trans_le hstep).le, fun he => absurd he (hless.trans_le hstep).ne⟩

/-- The intervals of different doubles have no number in common. -/
theorem ofDouble_apart (hm : Exact.IsDouble m q) (hn : Exact.IsDouble n r)
    (h : q < r ∨ q = r ∧ m < n) (hx : (ofDouble m q).Holds x) (hx' : (ofDouble n r).Holds x) :
    False := by
  have hapart : (ofDouble m q).highEnd ≤ (ofDouble n r).lowEnd ∧
      ((ofDouble m q).highEnd = (ofDouble n r).lowEnd → ¬ (m % 2 = 0 ∧ n % 2 = 0)) := by
    obtain hlt | ⟨rfl, hlt⟩ := h
    · have hr : r ≠ -1074 := by
        have := hm.exponent
        omega
      obtain ⟨hle, hodd⟩ := ofDouble_apart_exponent hm.mantissa (hn.normal hr) hr hlt
      exact ⟨hle, fun he heven => by simp [hodd he] at heven⟩
    · exact ofDouble_apart_mantissa hlt
  have hhigh : x = (ofDouble m q).highEnd := le_antisymm hx.high (hapart.1.trans hx'.low)
  have hlow : x = (ofDouble n r).lowEnd := le_antisymm (hx.high.trans hapart.1) hx'.low
  exact hapart.2 (hhigh.symm.trans hlow)
    ⟨ofDouble_closed.1 (hx.ends (.inr hhigh)), ofDouble_closed.1 (hx'.ends (.inl hlow))⟩

theorem eq_of_holds (hm : Exact.IsDouble m q) (hn : Exact.IsDouble n r)
    (hx : (ofDouble m q).Holds x) (hx' : (ofDouble n r).Holds x) : m = n ∧ q = r := by
  obtain hlt | rfl | hlt := lt_trichotomy q r
  · exact (ofDouble_apart hm hn (.inl hlt) hx hx').elim
  · obtain hlt | rfl | hlt := lt_trichotomy m n
    · exact (ofDouble_apart hm hn (.inr ⟨rfl, hlt⟩) hx hx').elim
    · exact ⟨rfl, rfl⟩
    · exact (ofDouble_apart hn hm (.inr ⟨rfl, hlt⟩) hx' hx).elim
  · exact (ofDouble_apart hn hm (.inl hlt) hx' hx).elim

end Interval
end Decimal
end ClassScript
