import ClassScript.Number.Exact

/-!
# The shortest decimal that reads back

`shortest` finds, for a positive double `m * 2 ^ q`, the fewest digits of a decimal that reads back
as the same double, and of those decimals the nearest one. A decimal reads back when it lies in
the interval half-way to the two neighbouring doubles, ends included if `m` is even. For each
number of digits only the two neighbours of the value on that decimal grid can be nearest, so these
two are tested, in exact arithmetic.
-/

set_option autoImplicit false

namespace ClassScript

/-- The power of ten. -/
def tenPow (e : Nat) : Nat := Nat.pow 10 e

/-- The decimal `digits * 10 ^ exponent`. -/
structure Decimal where
  digits : Nat
  exponent : Int
  deriving Repr, DecidableEq

namespace Decimal

/-- Which of two equally near decimals is taken. -/
inductive Tie where
  | toEven
  | awayFromZero
  deriving Repr, DecidableEq

/-- Drops trailing zeros, at most `fuel` of them. -/
def dropZeros : Nat → Decimal → Decimal
  | 0, d => d
  | fuel + 1, d =>
    if d.digits ≠ 0 ∧ d.digits % 10 = 0 then dropZeros fuel ⟨d.digits / 10, d.exponent + 1⟩
    else d

/-- A positive number `numerator / denominator` with the interval of numbers that read back as it:
from `low / denominator` to `high / denominator`, ends included if `closed`. -/
structure Interval where
  low : Nat
  numerator : Nat
  high : Nat
  denominator : Nat
  closed : Bool
  deriving Repr, DecidableEq

namespace Interval

/-- The interval of the double `m * 2 ^ q`: the lower neighbour is half as far below the least
mantissa, unless that double is the least normal one. -/
def ofDouble (m : Nat) (q : Int) : Interval :=
  let below := if m = twoPow 52 ∧ q ≠ -1074 then 1 else 2
  let scale := twoPow q.toNat
  { low := (4 * m - below) * scale
    numerator := 4 * m * scale
    high := (4 * m + 2) * scale
    denominator := 4 * twoPow (-q).toNat
    closed := m % 2 = 0 }

/-- Whether the decimal lies in the interval. -/
def contains (i : Interval) (d : Decimal) : Bool :=
  let point := d.digits * tenPow d.exponent.toNat * i.denominator
  let unit := tenPow (-d.exponent).toNat
  if i.closed then i.low * unit ≤ point ∧ point ≤ i.high * unit
  else i.low * unit < point ∧ point < i.high * unit

/-- The number `numerator / denominator` in units of `10 ^ exponent`, as a quotient. -/
def inUnits (i : Interval) (exponent : Int) : Nat × Nat :=
  (i.numerator * tenPow (-exponent).toNat, i.denominator * tenPow exponent.toNat)

/-- The nearest decimal with this exponent that reads back, if there is one. -/
def nearest? (i : Interval) (tie : Tie) (exponent : Int) : Option Decimal :=
  let (n, d) := i.inUnits exponent
  let below : Decimal := ⟨n / d, exponent⟩
  let above : Decimal := ⟨n / d + 1, exponent⟩
  let up : Bool :=
    if 2 * (n % d) = d then
      match tie with
      | .toEven => n / d % 2 = 1
      | .awayFromZero => true
    else d < 2 * (n % d)
  match i.contains below, i.contains above with
  | true, true => some (if up then above else below)
  | true, false => some below
  | false, true => some above
  | false, false => none

/-- The first of the given exponents with a decimal that reads back. -/
def search (i : Interval) (tie : Tie) : List Int → Option Decimal
  | [] => none
  | e :: rest =>
    match i.nearest? tie e with
    | some d => some d
    | none => i.search tie rest

end Interval

/-- The number of decimal digits of a natural number; zero has one. -/
def digitCount (n : Nat) : Nat :=
  (Nat.toDigits 10 n).length

/-- The decimal exponent of the first digit of `n / d`: the difference of the numbers of digits, or
one less. -/
def leadingExponent (n d : Nat) : Int :=
  let guess : Int := (digitCount n : Int) - digitCount d
  if d * tenPow guess.toNat ≤ n * tenPow (-guess).toNat then guess else guess - 1

/-- The shortest decimal that reads back as `m * 2 ^ q`, without trailing zeros. Seventeen digits
are enough for every double. -/
def shortest (tie : Tie) (m : Nat) (q : Int) : Decimal :=
  let i := Interval.ofDouble m q
  let top := leadingExponent i.numerator i.denominator
  let exponents := (List.range 17).map fun (n : Nat) => top - n
  match i.search tie exponents with
  | some d => dropZeros (digitCount d.digits) d
  | none => ⟨0, 0⟩

/-- The decimal digits of a natural number. -/
def digitText (n : Nat) : String :=
  String.ofList (Nat.toDigits 10 n)

/-- The decimal exponent of the first digit. -/
def leading (d : Decimal) : Int :=
  d.exponent + (digitCount d.digits - 1 : Nat)

/-- A run of zeros. -/
def zeros (n : Nat) : String :=
  String.ofList (List.replicate n '0')

/-- The decimal in positional notation, without a point if it is an integer. -/
def positional (d : Decimal) : String :=
  let text := digitText d.digits
  match d.exponent with
  | .ofNat e => text ++ zeros e
  | .negSucc e =>
    let places := e + 1
    let padded := (zeros (places + 1 - digitCount d.digits) ++ text).toList
    let whole := padded.length - places
    String.ofList (padded.take whole) ++ "." ++ String.ofList (padded.drop whole)

/-- The decimal in scientific notation with a signed exponent: `1e+16`, `1.5e+20`, `5e-324`. -/
def scientific (d : Decimal) : String :=
  let (first, rest) := ((digitText d.digits).toList.take 1, (digitText d.digits).toList.drop 1)
  let fraction := if rest.isEmpty then "" else "." ++ String.ofList rest
  let sign := if d.leading < 0 then "-" else "+"
  String.ofList first ++ fraction ++ "e" ++ sign ++ digitText d.leading.natAbs

end Decimal

end ClassScript
