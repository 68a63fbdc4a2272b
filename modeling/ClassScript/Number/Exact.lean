/-!
# Doubles as exact numbers

A double is not a number, an infinity, or a sign with `mantissa * 2 ^ exponent`. The text of a
number and the count of a repetition are computed from this form, so both are exact. A number becomes a
word of the machine, which has 64 bits, by cutting off its fraction; what no word can hold becomes the
nearest word.
-/

set_option autoImplicit false

namespace ClassScript

/-- The power of two. -/
def twoPow (e : Nat) : Nat := Nat.pow 2 e

/-- The exact value of a double. -/
inductive Exact where
  | nan
  | infinite (negative : Bool)
  | finite (negative : Bool) (mantissa : Nat) (exponent : Int)
  deriving Repr, DecidableEq

namespace Exact

/-- The exact value that a bit pattern of 64 bits stands for. -/
def ofBits (bits : Nat) : Exact :=
  let negative := bits / twoPow 63 % 2 = 1
  let biased : Nat := bits / twoPow 52 % twoPow 11
  let fraction := bits % twoPow 52
  if biased = 2047 then
    if fraction = 0 then .infinite negative else .nan
  else if biased = 0 then .finite negative fraction (-1074)
  else .finite negative (twoPow 52 + fraction) (biased - 1075)

/-- The exact value of a double. -/
def ofFloat (x : Float) : Exact :=
  ofBits x.toBits.toNat

/-- The integer part of `mantissa * 2 ^ exponent`. -/
def floor (mantissa : Nat) : Int → Nat
  | .ofNat e => mantissa * twoPow e
  | .negSucc e => mantissa / twoPow (e + 1)

/-- Whether `mantissa * 2 ^ exponent` is an integer. -/
def isWhole (mantissa : Nat) : Int → Bool
  | .ofNat _ => true
  | .negSucc e => mantissa % twoPow (e + 1) = 0

/-- The value without its fraction. -/
def trunc : Exact → Exact
  | finite negative m q => finite negative (floor m q) 0
  | x => x

/-- Whether the value is no number. -/
def isNan : Exact → Bool
  | nan => true
  | _ => false

/-- Whether the value is a number that is not positive; both zeros are. -/
def isNonpositive : Exact → Bool
  | nan => false
  | infinite negative => negative
  | finite negative m _ => negative || m == 0

/-- The largest word. -/
def maxWord : Nat := twoPow 64 - 1

/-- The word nearest to the value without its fraction, and 0 for what is no number. -/
def toWord : Exact → Nat
  | nan => 0
  | infinite negative => if negative then 0 else maxWord
  | finite negative m q => if negative then 0 else min (floor m q) maxWord

/-- The product of two words, if it is a word. -/
def wordProduct? (a b : Nat) : Option Nat :=
  if a * b ≤ maxWord then some (a * b) else none

theorem wordProduct?_eq_some {a b c : Nat} :
    wordProduct? a b = some c ↔ a * b ≤ maxWord ∧ a * b = c := by
  unfold wordProduct?
  by_cases h : a * b ≤ maxWord <;> simp [h]

end Exact

end ClassScript
