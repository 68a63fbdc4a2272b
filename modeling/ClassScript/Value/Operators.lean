import ClassScript.Machine.Error
import ClassScript.Value.Basic

/-!
# Operators on values

Arithmetic is that of doubles, so a division by zero is no fault. A number times a string repeats
the string. Strings are ordered by their length, booleans with `false` first.
-/

set_option autoImplicit false

namespace ClassScript.Operators

/-- The longest text in bytes. -/
def maxBytes : Nat := twoPow 63 - 1

/-- A text followed by so many copies of another one. -/
def appendCopies (start s : String) : Nat → String
  | 0 => start
  | n + 1 => appendCopies (start ++ s) s n

/-- So many copies of a text, where there is room for them: more bytes cannot be asked for. -/
def copies (s : String) (n : Nat) (_ : s.utf8ByteSize * n ≤ maxBytes) : String :=
  appendCopies "" s n

/-- The text repeated as often as the integer part of a number says, unless the result is too long.
An infinite number is the largest word here, which is too often for every text that has a byte. -/
def repetition? (s : String) (x : Float) : Option String :=
  let count := (Exact.ofFloat x).trunc
  if s.isEmpty || count.isNan || count.isNonpositive then some ""
  else
    match h : Exact.wordProduct? s.utf8ByteSize count.toWord with
    | some size =>
      if fits : size ≤ maxBytes then
        some (copies s count.toWord ((Exact.wordProduct?_eq_some.1 h).2 ▸ fits))
      else none
    | none => none

/-- The text repeated. -/
def repetition (line : Nat) (s : String) (x : Float) : Except RuntimeError Value :=
  match repetition? s x with
  | some r => .ok (.string r)
  | none => .error ⟨.repetitionTooLarge, line⟩

/-- The four ways to compare. -/
inductive Order where
  | greater
  | greaterEqual
  | less
  | lessEqual
  deriving Repr, DecidableEq

namespace Order

/-- Compares numbers; nothing compares with what is no number. -/
def floats (o : Order) (x y : Float) : Bool :=
  match o with
  | greater => y < x
  | greaterEqual => y ≤ x
  | less => x < y
  | lessEqual => x ≤ y

/-- Compares sizes. -/
def sizes (o : Order) (m n : Nat) : Bool :=
  match o with
  | greater => n < m
  | greaterEqual => n ≤ m
  | less => m < n
  | lessEqual => m ≤ n

end Order

/-- A fault of the operands of an operator. -/
def mismatch {α : Type} (fault : OperandFault) (line : Nat) : Except RuntimeError α :=
  .error ⟨.operands fault, line⟩

/-- Adds numbers and joins strings. -/
def add (line : Nat) : Value → Value → Except RuntimeError Value
  | .number x, .number y => .ok (.number (x + y))
  | .string s, .string t => .ok (.string (s ++ t))
  | _, _ => mismatch .addition line

/-- An operation on two numbers. -/
def numeric (line : Nat) (op : Float → Float → Float) : Value → Value → Except RuntimeError Value
  | .number x, .number y => .ok (.number (op x y))
  | _, _ => mismatch .arithmetic line

/-- Multiplies numbers and repeats strings. -/
def multiply (line : Nat) : Value → Value → Except RuntimeError Value
  | .number x, .number y => .ok (.number (x * y))
  | .number x, .string s => repetition line s x
  | .string s, .number x => repetition line s x
  | _, _ => mismatch .repetition line

/-- Compares two numbers, two strings by length, or two booleans. -/
def compare (line : Nat) (o : Order) : Value → Value → Except RuntimeError Value
  | .number x, .number y => .ok (.boolean (o.floats x y))
  | .string s, .string t => .ok (.boolean (o.sizes s.length t.length))
  | .boolean a, .boolean b => .ok (.boolean (o.sizes a.toNat b.toNat))
  | _, _ => mismatch .comparison line

/-- The value of an operator with two operands. -/
def binary (operator : Token) (left right : Value) : Except RuntimeError Value :=
  let line := operator.line
  match operator.kind with
  | .symbol .plus => add line left right
  | .symbol .minus => numeric line (· - ·) left right
  | .symbol .slash => numeric line (· / ·) left right
  | .symbol .star => multiply line left right
  | .symbol .greater => compare line .greater left right
  | .symbol .greaterEqual => compare line .greaterEqual left right
  | .symbol .less => compare line .less left right
  | .symbol .lessEqual => compare line .lessEqual left right
  | .symbol .equalEqual => .ok (.boolean (left.isEqual right))
  | .symbol .bangEqual => .ok (.boolean (!left.isEqual right))
  | _ => .error ⟨.invalidBinary operator.lexeme, line⟩

/-- The opposite of a number. -/
def negate (line : Nat) : Value → Except RuntimeError Value
  | .number x => .ok (.number (-x))
  | _ => mismatch .number line

/-! ## What operators give -/

theorem add_number_or_string {line : Nat} {left right v : Value} (h : add line left right = .ok v) :
    (∃ x, v = .number x) ∨ ∃ s, v = .string s := by
  unfold add at h
  split at h
  · exact .inl ⟨_, (Except.ok.inj h).symm⟩
  · exact .inr ⟨_, (Except.ok.inj h).symm⟩
  · cases h

theorem multiply_number_or_string {line : Nat} {left right v : Value}
    (h : multiply line left right = .ok v) : (∃ x, v = .number x) ∨ ∃ s, v = .string s := by
  have hrep {line : Nat} {s : String} {x : Float} (h : repetition line s x = .ok v) :
      ∃ r, v = .string r := by
    unfold repetition at h
    split at h
    · exact ⟨_, (Except.ok.inj h).symm⟩
    · cases h
  unfold multiply at h
  split at h
  · exact .inl ⟨_, (Except.ok.inj h).symm⟩
  · exact .inr (hrep h)
  · exact .inr (hrep h)
  · cases h

theorem numeric_number {line : Nat} {op : Float → Float → Float} {left right v : Value}
    (h : numeric line op left right = .ok v) : ∃ x, v = .number x := by
  unfold numeric at h
  split at h
  · exact ⟨_, (Except.ok.inj h).symm⟩
  · cases h

theorem compare_boolean {line : Nat} {o : Order} {left right v : Value}
    (h : Operators.compare line o left right = .ok v) : ∃ b, v = .boolean b := by
  unfold Operators.compare at h
  split at h
  · exact ⟨_, (Except.ok.inj h).symm⟩
  · exact ⟨_, (Except.ok.inj h).symm⟩
  · exact ⟨_, (Except.ok.inj h).symm⟩
  · cases h

/-- Operators with two operands give numbers, strings and booleans only. -/
theorem binary_constant {operator : Token} {left right v : Value}
    (h : binary operator left right = .ok v) :
    (∃ x, v = .number x) ∨ (∃ s, v = .string s) ∨ ∃ b, v = .boolean b := by
  unfold binary at h
  dsimp only at h
  split at h
  · exact (add_number_or_string h).imp_right .inl
  · exact .inl (numeric_number h)
  · exact .inl (numeric_number h)
  · exact (multiply_number_or_string h).imp_right .inl
  · exact .inr (.inr (compare_boolean h))
  · exact .inr (.inr (compare_boolean h))
  · exact .inr (.inr (compare_boolean h))
  · exact .inr (.inr (compare_boolean h))
  · exact .inr (.inr ⟨_, (Except.ok.inj h).symm⟩)
  · exact .inr (.inr ⟨_, (Except.ok.inj h).symm⟩)
  · cases h
end ClassScript.Operators
