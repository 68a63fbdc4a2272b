/-!
# UTF-8

Reads bytes as text and says where they stop being UTF-8. The reader takes one byte at a time; in
the middle of a character it knows the range of the next byte, which is narrower than usual after
the first bytes that could start an overlong form, a surrogate or a number above `0x10FFFF`.
-/

set_option autoImplicit false

namespace ClassScript.Text

/-- Where a sequence of bytes stops being UTF-8. -/
inductive Utf8Error where
  /-- After the valid bytes stand `length` bytes that start no character. -/
  | invalid (valid length : Nat)
  /-- After the valid bytes the input ends inside a character. -/
  | incomplete (valid : Nat)
  deriving Repr, DecidableEq

namespace Utf8Error

/-- The number of bytes before the fault. -/
def valid : Utf8Error → Nat
  | invalid valid _ => valid
  | incomplete valid => valid

/-- The fault in words. -/
def message : Utf8Error → String
  | invalid valid length =>
    "invalid utf-8 sequence of " ++ toString length ++ " bytes from index " ++ toString valid
  | incomplete valid => "incomplete utf-8 byte sequence from index " ++ toString valid

end Utf8Error

namespace Utf8

/-- A character of which some bytes have been read: the bits and the number of these bytes, the
range of the next byte, and the number of bytes that follow the next one. -/
structure Begun where
  bits : Nat
  seen : Nat
  low : Nat
  high : Nat
  later : Nat
  deriving Repr, DecidableEq

/-- What the first byte of a character says about the rest of it. -/
inductive Lead where
  | whole (c : Char)
  | more (p : Begun)
  | none
  deriving Repr

/-- Classifies the first byte of a character. -/
def lead (b : Nat) : Lead :=
  if b < 0x80 then .whole (Char.ofNat b)
  else if b < 0xC2 then .none
  else if b < 0xE0 then .more ⟨b - 0xC0, 1, 0x80, 0xBF, 0⟩
  else if b = 0xE0 then .more ⟨b - 0xE0, 1, 0xA0, 0xBF, 1⟩
  else if b = 0xED then .more ⟨b - 0xE0, 1, 0x80, 0x9F, 1⟩
  else if b < 0xF0 then .more ⟨b - 0xE0, 1, 0x80, 0xBF, 1⟩
  else if b = 0xF0 then .more ⟨b - 0xF0, 1, 0x90, 0xBF, 2⟩
  else if b < 0xF4 then .more ⟨b - 0xF0, 1, 0x80, 0xBF, 2⟩
  else if b = 0xF4 then .more ⟨b - 0xF0, 1, 0x80, 0x8F, 2⟩
  else .none

/-- Reads on from the state `begun`, the character begun after `valid` bytes; `done` holds the
characters read so far, the last one first. -/
def read (begun : Option Begun) (valid : Nat) (done : List Char) :
    List UInt8 → Except Utf8Error (List Char)
  | [] =>
    match begun with
    | none => .ok done.reverse
    | some _ => .error (.incomplete valid)
  | b :: rest =>
    let b := b.toNat
    match begun with
    | none =>
      match lead b with
      | .whole c => read none (valid + 1) (c :: done) rest
      | .more p => read (some p) valid done rest
      | .none => .error (.invalid valid 1)
    | some p =>
      if p.low ≤ b ∧ b ≤ p.high then
        let bits := p.bits * 64 + (b - 0x80)
        match p.later with
        | 0 => read none (valid + p.seen + 1) (Char.ofNat bits :: done) rest
        | later + 1 => read (some ⟨bits, p.seen + 1, 0x80, 0xBF, later⟩) valid done rest
      else .error (.invalid valid p.seen)

end Utf8

/-- The text that the bytes encode. -/
def decode (bytes : List UInt8) : Except Utf8Error String :=
  (Utf8.read none 0 [] bytes).map String.ofList

/-- The longest text that the bytes start with, and a replacement character if bytes remain. -/
def decodeLossy (bytes : List UInt8) : String :=
  match decode bytes with
  | .ok s => s
  | .error e =>
    match decode (bytes.take e.valid) with
    | .ok s => s ++ "\ufffd"
    | .error _ => "\ufffd"

end ClassScript.Text
