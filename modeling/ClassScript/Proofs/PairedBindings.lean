import ClassScript.Scope.Bindings
import Mathlib.Data.List.Forall2

/-!
# Bindings one by one

Two maps of names may bind the same names in the same order, to values that are related one by one.
-/

set_option autoImplicit false

namespace ClassScript

variable {α β : Type}

/-- Two optional values that are related are so in a weaker relation. -/
theorem rel_mono {R S : α → β → Prop} (h : ∀ a b, R a b → S a b) {a : Option α} {b : Option β}
    (hr : Option.Rel R a b) : Option.Rel S a b := by
  cases hr with
  | none => exact .none
  | some hab => exact .some (h _ _ hab)

/-- Two choices are related if what is chosen first is, and also what is chosen otherwise. -/
theorem rel_or {R : α → β → Prop} {a a' : Option α} {b b' : Option β} (h : Option.Rel R a b)
    (h' : Option.Rel R a' b') : Option.Rel R (a.or a') (b.or b') := by
  cases h with
  | some hab => exact .some hab
  | none => rwa [Option.none_or, Option.none_or]

/-- An optional value whose value is related to itself is so too. -/
theorem rel_self {R : α → α → Prop} {a : Option α} (h : ∀ v, a = some v → R v v) :
    Option.Rel R a a := by
  cases a with
  | none => exact .none
  | some v => exact .some (h v rfl)

/-- The same names are bound, to related values. -/
def Bindings.Forall₂ (R : α → β → Prop) (b : Bindings α) (c : Bindings β) : Prop :=
  List.Forall₂ (fun p q => p.1 = q.1 ∧ R p.2 q.2) b.entries c.entries

namespace Bindings.Forall₂

variable {R : α → β → Prop} {b : Bindings α} {c : Bindings β}

theorem empty : Forall₂ R (Bindings.empty : Bindings α) (Bindings.empty : Bindings β) :=
  .nil

theorem get? (h : Forall₂ R b c) (x : String) : Option.Rel R (b.get? x) (c.get? x) := by
  obtain ⟨l⟩ := b
  obtain ⟨m⟩ := c
  unfold Bindings.get?
  replace h : List.Forall₂ (fun p q => p.1 = q.1 ∧ R p.2 q.2) l m := h
  induction h with
  | nil => exact .none
  | @cons p q _ _ hpq _ ih =>
    obtain ⟨y, v⟩ := p
    obtain ⟨z, w⟩ := q
    obtain ⟨rfl, hvw⟩ := hpq
    simp only [lookupName]
    split
    · exact .some hvw
    · exact ih

theorem insert (h : Forall₂ R b c) (x : String) {v : α} {w : β} (hvw : R v w) :
    Forall₂ R (b.insert x v) (c.insert x w) := by
  obtain ⟨l⟩ := b
  obtain ⟨m⟩ := c
  replace h : List.Forall₂ (fun p q => p.1 = q.1 ∧ R p.2 q.2) l m := h
  show List.Forall₂ _ (insertName x v l) (insertName x w m)
  induction h with
  | nil => exact .cons ⟨rfl, hvw⟩ .nil
  | @cons p q _ _ hpq hrest ih =>
    obtain ⟨y, a⟩ := p
    obtain ⟨z, b⟩ := q
    obtain ⟨rfl, hab⟩ := hpq
    simp only [insertName]
    split
    · exact .cons ⟨rfl, hvw⟩ hrest
    · exact .cons ⟨rfl, hab⟩ ih

theorem single (x : String) {v : α} {w : β} (hvw : R v w) :
    Forall₂ R (Bindings.single x v) (Bindings.single x w) :=
  empty.insert x hvw

theorem ofList {l : List (String × α)} {m : List (String × β)}
    (h : List.Forall₂ (fun p q => p.1 = q.1 ∧ R p.2 q.2) l m) :
    Forall₂ R (Bindings.ofList l) (Bindings.ofList m) := by
  have hfold : ∀ b c, Forall₂ R b c → Forall₂ R (l.foldl (fun b p => b.insert p.1 p.2) b)
      (m.foldl (fun b p => b.insert p.1 p.2) c) := by
    induction h with
    | nil => exact fun _ _ hbc => hbc
    | cons hpq _ ih =>
      intro b c hbc
      rw [List.foldl_cons, List.foldl_cons, ← hpq.1]
      exact ih _ _ (hbc.insert _ hpq.2)
  exact hfold _ _ empty

/-- Two lists of values that go with the same list of names. -/
theorem ofZip {γ : Type} (name : γ → String) (value : γ → β) {as : List α} {cs : List γ}
    (h : List.Forall₂ (fun a c => R a (value c)) as cs) :
    Forall₂ R (Bindings.ofList ((cs.map name).zip as))
      (Bindings.ofList (cs.map fun c => (name c, value c))) := by
  refine ofList ?_
  induction h with
  | nil => exact .nil
  | cons hac _ ih => exact .cons ⟨rfl, hac⟩ ih

theorem mono {Q : α → β → Prop} (h : Forall₂ R b c) (hRQ : ∀ v w, R v w → Q v w) :
    Forall₂ Q b c :=
  h.imp fun _ _ hpq => ⟨hpq.1, hRQ _ _ hpq.2⟩

end Bindings.Forall₂

end ClassScript
