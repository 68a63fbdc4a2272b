import ClassScript.Syntax.Error

/-!
# What a rule of the grammar makes of tokens

A rule reads tokens from the front of a list. Its outcome carries the proof that it leaves no more
tokens than it found, and fewer if it is strict, so rules that call each other terminate. A rule
that recovers from errors inside it also keeps the errors it has recovered from.
-/

set_option autoImplicit false

namespace ClassScript

variable {α β : Type} {a b : Bool} {s r : List Token} {t : Token}

/-- What a rule makes of the tokens `s`: a value and the tokens after it, or an error and the
tokens at which it stopped. A strict rule uses at least one token for its value. -/
inductive Outcome (strict : Bool) (α : Type) (s : List Token) where
  | ok (value : α) (rest : List Token) (fewer : rest.length + strict.toNat ≤ s.length)
  | fail (error : SyntaxError) (rest : List Token) (fewer : rest.length ≤ s.length)

namespace Outcome

/-- The outcome of a second rule, for the tokens `s` of which a first rule left `r`. -/
def after (o : Outcome b β r) (h : r.length + a.toNat ≤ s.length) : Outcome (a || b) β s :=
  match o with
  | .ok v r' h' => .ok v r' (by cases a <;> cases b <;> simp at h h' ⊢ <;> omega)
  | .fail e r' h' => .fail e r' (by omega)

/-- Reads on after a value. -/
def andThen (o : Outcome a α s)
    (next : α → (r : List Token) → r.length + a.toNat ≤ s.length → Outcome b β r) :
    Outcome (a || b) β s :=
  match o with
  | .ok v r h => (next v r h).after h
  | .fail e r h => .fail e r h

/-- Changes the value. -/
def map (f : α → β) : Outcome a α s → Outcome a β s
  | .ok v r h => .ok (f v) r h
  | .fail e r h => .fail e r h

/-- The same outcome for more tokens. -/
def within (o : Outcome a α r) (h : r.length ≤ s.length) : Outcome a α s :=
  match o with
  | .ok v r' h' => .ok v r' (by omega)
  | .fail e r' h' => .fail e r' (by omega)

/-- The outcome after one more token. -/
def past (o : Outcome a α r) : Outcome b α (t :: r) :=
  match o with
  | .ok v r' h => .ok v r' (by have := b.toNat_le; simp; omega)
  | .fail e r' h => .fail e r' (by simp; omega)

/-- Forgets that a token was used. -/
def lax (o : Outcome a α s) : Outcome false α s :=
  match o with
  | .ok v r h => .ok v r (by simp; omega)
  | .fail e r h => .fail e r h

/-- A value that used no token. -/
def done (v : α) (s : List Token) : Outcome false α s :=
  .ok v s (by simp)

/-- A value that used one token. -/
def one (v : α) (t : Token) (r : List Token) : Outcome b α (t :: r) :=
  .ok v r (by have := b.toNat_le; simp; omega)

end Outcome

/-- What a recovering rule makes of tokens: its outcome and the errors it has recovered from. -/
structure Reply (strict : Bool) (α : Type) (s : List Token) where
  log : List SyntaxError
  outcome : Outcome strict α s

namespace Reply

/-- The reply of a rule that recovers from nothing. -/
def quiet (o : Outcome a α s) : Reply a α s :=
  ⟨[], o⟩

/-- Reads on after a value. -/
def andThen (x : Reply a α s)
    (next : α → (r : List Token) → r.length + a.toNat ≤ s.length → Reply b β r) :
    Reply (a || b) β s :=
  match x.outcome with
  | .ok v r h => ⟨x.log ++ (next v r h).log, (next v r h).outcome.after h⟩
  | .fail e r h => ⟨x.log, .fail e r h⟩

/-- Changes the value. -/
def map (f : α → β) (x : Reply a α s) : Reply a β s :=
  ⟨x.log, x.outcome.map f⟩

/-- The same reply for more tokens. -/
def within (x : Reply a α r) (h : r.length ≤ s.length) : Reply a α s :=
  ⟨x.log, x.outcome.within h⟩

/-- The reply after one more token. -/
def past (x : Reply a α r) : Reply b α (t :: r) :=
  ⟨x.log, x.outcome.past⟩

end Reply

end ClassScript
