import ClassScript.Proofs.Objects
import ClassScript.Proofs.PaddedCode
import ClassScript.Proofs.PairedBindings
import ClassScript.Proofs.Related

/-!
# Machines with extra frames

A machine may have frames that another one does not have, in which no name is bound. `Homes` says
which of its frames corresponds to which frame of the other one, and where in the chain of this frame
an extra one stands. Values correspond that are the same but for the frames of their code
(`Value.Moved`), and machines correspond whose frames, objects and all else do (`Machine.Moved`). Then
every use of a name finds corresponding values (`Machine.Moved.valueOf`).
-/

set_option autoImplicit false

namespace ClassScript

/-! ## Frames -/

/-- For every frame the corresponding one of the machine with extra frames, and where an extra frame
stands in its chain. -/
abbrev Homes := List (FrameId × Pad)

/-- The frames correspond. -/
def Homes.Home (H : Homes) (f f' : FrameId) (p : Pad) : Prop :=
  H[f]? = some (f', p)

/-- The second chain is the corresponding one with the extra frame. -/
inductive Padded (H : Homes) : Pad → List FrameId → List FrameId → Prop where
  | nowhere {c c' : List FrameId} : List.Forall₂ (fun f f' => ∃ q, H.Home f f' q) c c' →
      Padded H .nowhere c c'
  | here {extra : FrameId} {c c' : List FrameId} :
      List.Forall₂ (fun f f' => ∃ q, H.Home f f' q) c c' → Padded H (.behind 0) c (extra :: c')
  | behind {f f' : FrameId} {q : Pad} {k : Nat} {c c' : List FrameId} : H.Home f f' q →
      Padded H (.behind k) c c' → Padded H (.behind (k + 1)) (f :: c) (f' :: c')

section

variable {H H' : Homes} {f f' : FrameId} {p q : Pad} {c c' : List FrameId}

theorem Homes.Home.later (h : H.Home f f' p) (hle : H <+: H') : H'.Home f f' p := by
  obtain ⟨rest, rfl⟩ := hle
  exact (List.getElem?_append_left (List.getElem?_eq_some_iff.1 h).1).trans h

theorem Homes.Home.unique {g : FrameId} (h : H.Home f f' p) (h' : H.Home f g q) : f' = g ∧ p = q :=
  Prod.mk.inj (Option.some.inj (h.symm.trans h'))

theorem Padded.later (h : Padded H p c c') (hle : H <+: H') : Padded H' p c c' := by
  induction h with
  | nowhere h => exact .nowhere (h.imp fun _ _ ⟨q, hq⟩ => ⟨q, hq.later hle⟩)
  | here h => exact .here (h.imp fun _ _ ⟨q, hq⟩ => ⟨q, hq.later hle⟩)
  | behind hf _ ih => exact .behind (hf.later hle) ih

theorem Padded.cons (hf : H.Home f f' q) (h : Padded H p c c') :
    Padded H p.inner (f :: c) (f' :: c') := by
  cases h with
  | nowhere h => exact .nowhere (.cons ⟨q, hf⟩ h)
  | here h => exact .behind hf (.here h)
  | behind hg h => exact .behind hf (.behind hg h)

theorem forall₂_getElem? {fs fs' : List FrameId}
    (h : List.Forall₂ (fun f f' => ∃ q, H.Home f f' q) fs fs') (d : Nat) :
    Option.Rel (fun f f' => ∃ q, H.Home f f' q) fs[d]? fs'[d]? := by
  induction h generalizing d with
  | nil => exact .none
  | cons hf _ ih =>
    cases d with
    | zero => exact .some hf
    | succ d => exact ih d

/-- The frames at distances that lead as far correspond. -/
theorem Padded.getElem? {fs fs' : List FrameId} (h : Padded H p fs fs') (d : Nat) :
    Option.Rel (fun f f' => ∃ q, H.Home f f' q) fs[d]? fs'[p.shift d]? := by
  induction h generalizing d with
  | nowhere h => exact forall₂_getElem? h d
  | here h => exact forall₂_getElem? h d
  | @behind f f' q k fs fs' hf _ ih =>
    cases d with
    | zero =>
      rw [show (Pad.behind (k + 1)).shift 0 = 0 from Pad.shift_inner_zero (.behind k)]
      exact .some ⟨q, hf⟩
    | succ d =>
      rw [show (Pad.behind (k + 1)).shift (d + 1) = _ from Pad.shift_inner_succ (.behind k) d]
      exact ih d

end

/-- A frame is the first one of its chain. -/
theorem Frames.getAt_zero {V : Type} (s : Frames V) (e : FrameId) (x : String) :
    s.getAt e 0 x = s.getOwn e x := by
  have hhead := s.head?_chain e
  rw [List.head?_eq_getElem?] at hhead
  unfold getAt ancestor
  rw [hhead]
  rfl

/-! ## Values -/

/-- The names of both are the same, bound to values that correspond. -/
def Bindings.Both {V W : Type} (R : V → W → Prop) (b : Bindings V) (c : Bindings W) : Prop :=
  ∀ x, Option.Rel R (b.get? x) (c.get? x)

section

variable {V W : Type} {R : V → W → Prop} {b : Bindings V} {c : Bindings W}

theorem Bindings.Both.mono {Q : V → W → Prop} (h : b.Both R c) (hRQ : ∀ v w, R v w → Q v w) :
    b.Both Q c :=
  fun x => rel_mono hRQ (h x)

theorem Bindings.Both.insert (h : b.Both R c) (x : String) {v : V} {w : W} (hvw : R v w) :
    (b.insert x v).Both R (c.insert x w) := by
  intro y
  rw [Bindings.get?_insert, Bindings.get?_insert]
  split
  · exact .some hvw
  · exact h y

theorem Bindings.Both.contains (h : b.Both R c) (x : String) : c.contains x = b.contains x := by
  have hx := h x
  unfold Bindings.contains
  generalize b.get? x = v at hx ⊢
  generalize c.get? x = w at hx ⊢
  cases hx <;> rfl

theorem Bindings.Both.empty : (Bindings.empty : Bindings V).Both R (Bindings.empty : Bindings W) :=
  fun _ => .none

theorem Bindings.Both.single (x : String) {v : V} {w : W} (hvw : R v w) :
    (Bindings.single x v).Both R (Bindings.single x w) :=
  Bindings.Both.empty.insert x hvw

theorem Bindings.Forall₂.both (h : Bindings.Forall₂ R b c) : b.Both R c :=
  h.get?

end

variable (D : Distances) (H : Homes)

/-- The functions have the same code, which fits their frames. -/
structure Closure.Moved (inside : Pad → Pad) (c c' : Closure) : Prop where
  decl : c'.decl = Stmt.relabelRoutine D.code c.decl
  initializer : c'.isInitializer = c.isInitializer
  home : ∃ p, H.Home c.frame c'.frame p ∧ Stmt.FitsRoutine D (inside p) c.decl

/-- The layers have the same members, whose code fits their frames. A member has one more frame, which
knows the object. -/
structure Layer.Moved (l l' : Layer) : Prop where
  id : l'.id = l.id
  name : l'.name = l.name
  fields : l'.fields = l.fields.map (VarDecl.relabel D.code)
  home : ∃ p, H.Home l.frame l'.frame p ∧ D.MovesAll p.inner (VarDecl.occurrencesAll l.fields)
  methods : l.methods.Both (Closure.Moved D H Pad.inner) l'.methods

/-- The classes have the same layers. -/
structure ClassValue.Moved (c c' : ClassValue) : Prop where
  own : c.own.Moved D H c'.own
  inherited : List.Forall₂ (Layer.Moved D H) c.inherited c'.inherited

/-- The values are the same but for the frames of their code. -/
inductive Value.Moved : Value → Value → Prop where
  | nil : Value.Moved .nil .nil
  | boolean (b : Bool) : Value.Moved (.boolean b) (.boolean b)
  | number (x : Float) : Value.Moved (.number x) (.number x)
  | string (s : String) : Value.Moved (.string s) (.string s)
  | native (id arity : Nat) : Value.Moved (.native id arity) (.native id arity)
  | function {id : Nat} {c c' : Closure} : c.Moved D H (fun p => p) c' →
      Value.Moved (.function id c) (.function id c')
  | classObject {c c' : ClassValue} : c.Moved D H c' → Value.Moved (.classObject c) (.classObject c')
  | object {id : ObjectId} {c c' : ClassValue} : c.Moved D H c' →
      Value.Moved (.object id c) (.object id c')

/-- The statements end in the same way. -/
inductive Flow.Moved : Flow → Flow → Prop where
  | normal : Flow.Moved .normal .normal
  | returned {v v' : Value} : v.Moved D H v' → Flow.Moved (.returned v) (.returned v')

section

variable {D H} {H' : Homes} (hle : H <+: H')
include hle

theorem Closure.Moved.later {inside : Pad → Pad} {c c' : Closure} (h : c.Moved D H inside c') :
    c.Moved D H' inside c' := by
  obtain ⟨hdecl, hinit, p, hp, hfits⟩ := h
  exact ⟨hdecl, hinit, p, hp.later hle, hfits⟩

theorem Layer.Moved.later {l l' : Layer} (h : l.Moved D H l') : l.Moved D H' l' := by
  obtain ⟨hid, hname, hfields, ⟨p, hp, hmoves⟩, hmethods⟩ := h
  exact ⟨hid, hname, hfields, ⟨p, hp.later hle, hmoves⟩, hmethods.mono fun _ _ => .later hle⟩

theorem ClassValue.Moved.later {c c' : ClassValue} (h : c.Moved D H c') : c.Moved D H' c' :=
  ⟨h.own.later hle, h.inherited.imp fun _ _ => .later hle⟩

theorem Value.Moved.later {v v' : Value} (h : v.Moved D H v') : v.Moved D H' v' := by
  cases h with
  | nil => exact .nil
  | boolean b => exact .boolean b
  | number x => exact .number x
  | string s => exact .string s
  | native id arity => exact .native id arity
  | function h => exact .function (h.later hle)
  | classObject h => exact .classObject (h.later hle)
  | object h => exact .object (h.later hle)

theorem Flow.Moved.later {r r' : Flow} (h : r.Moved D H r') : r.Moved D H' r' := by
  cases h with
  | normal => exact .normal
  | returned h => exact .returned (h.later hle)

end

section

variable {D H}

theorem Closure.Moved.decl_eq {inside : Pad → Pad} {c c' : Closure} (h : c.Moved D H inside c') :
    c'.decl = ⟨c.decl.name, c.decl.params, c.decl.result, Stmt.relabelAll D.code c.decl.body⟩ :=
  h.decl.trans (D.routine_code c.decl)

theorem ClassValue.Moved.layers {c c' : ClassValue} (h : c.Moved D H c') :
    List.Forall₂ (Layer.Moved D H) c.layers c'.layers :=
  .cons h.own h.inherited

theorem ClassValue.Moved.findMethod? {c c' : ClassValue} (h : c.Moved D H c') (x : String) :
    Option.Rel (Closure.Moved D H Pad.inner) (c.findMethod? x) (c'.findMethod? x) := by
  have hlayers := h.layers
  unfold ClassValue.findMethod?
  generalize c.layers = ls at hlayers ⊢
  generalize c'.layers = ls' at hlayers ⊢
  induction hlayers with
  | nil => exact .none
  | cons hl _ ih =>
    have hx := hl.methods x
    rw [List.findSome?_cons, List.findSome?_cons]
    generalize Bindings.get? _ x = m at hx ⊢
    generalize Bindings.get? _ x = m' at hx ⊢
    cases hx with
    | none => exact ih
    | some hm => exact .some hm

theorem ClassValue.Moved.initializer? {c c' : ClassValue} (h : c.Moved D H c') :
    Option.Rel (Closure.Moved D H Pad.inner) c.initializer? c'.initializer? := by
  unfold ClassValue.initializer?
  rw [h.own.name]
  exact h.own.methods c.own.name

theorem ClassValue.Moved.arity {c c' : ClassValue} (h : c.Moved D H c') : c'.arity = c.arity := by
  have hinit := h.initializer?
  unfold ClassValue.arity
  generalize c.initializer? = f at hinit ⊢
  generalize c'.initializer? = f' at hinit ⊢
  cases hinit with
  | none => rfl
  | some hf => exact congrArg (fun decl => decl.params.length) hf.decl_eq

variable {v v' w w' : Value}

theorem Value.moved_ofLiteral (l : Literal) : (Value.ofLiteral l).Moved D H (Value.ofLiteral l) := by
  cases l with
  | nil => exact .nil
  | boolean b => exact .boolean b
  | number x => exact .number x
  | string s => exact .string s

theorem Value.Moved.isTruthy (h : v.Moved D H v') : v'.isTruthy = v.isTruthy := by
  cases h <;> rfl

theorem Value.Moved.text (h : v.Moved D H v') : v'.text = v.text := by
  cases h with
  | function h => exact congrArg (fun decl => "<fn " ++ decl.name.text ++ ">") h.decl_eq
  | classObject h => exact h.own.name
  | object h => exact congrArg (· ++ " instance") h.own.name
  | _ => rfl

theorem Value.Moved.isEqual (h : v.Moved D H v') (k : w.Moved D H w') :
    v'.isEqual w' = v.isEqual w := by
  cases h with
  | classObject h =>
    cases k with
    | classObject k => exact congrArg₂ (· == ·) h.own.id k.own.id
    | _ => rfl
  | _ => cases k <;> rfl

end

/-! ## Operators -/

namespace Operators

/-- Both operations give corresponding values or fail with the same fault. -/
def SameResult : Except RuntimeError Value → Except RuntimeError Value → Prop
  | .ok v, .ok v' => v.Moved D H v'
  | .error e, .error e' => e' = e
  | _, _ => False

variable {D H} {v v' w w' : Value}

theorem binary_eq (operator : Token) (hv : v.Moved D H v') (hw : w.Moved D H w') :
    binary operator v' w' = binary operator v w := by
  unfold binary
  dsimp only
  rw [hv.isEqual hw]
  split <;> first | rfl | (cases hv <;> cases hw <;> rfl)

/-- An operator gives a constant, so the same one for operands that correspond. -/
theorem binary_moved (operator : Token) (hv : v.Moved D H v') (hw : w.Moved D H w') :
    SameResult D H (binary operator v w) (binary operator v' w') := by
  rw [binary_eq operator hv hw]
  cases h : binary operator v w with
  | error e => rfl
  | ok u =>
    rcases binary_constant h with ⟨x, rfl⟩ | ⟨s, rfl⟩ | ⟨b, rfl⟩
    · exact .number x
    · exact .string s
    · exact .boolean b

theorem negate_moved (line : Nat) (hv : v.Moved D H v') :
    SameResult D H (negate line v) (negate line v') := by
  cases hv with
  | number x => exact .number (-x)
  | _ => rfl

end Operators

/-- The function does the same with values that correspond: it does not look into functions. -/
def Native.Uniform (f : Native) : Prop :=
  ∀ D H args args', List.Forall₂ (Value.Moved D H) args args' →
    Operators.SameResult D H (f.run args) (f.run args')

/-- The clock does not look at its arguments. -/
theorem Native.clock_uniform (c : Clock) : (Native.clock c).Uniform := by
  intro D H args args' _
  cases c with
  | ok seconds => exact .number seconds
  | error reason => exact rfl

/-! ## Machines -/

/-- The frames of two machines that correspond, the current frames, where an extra one stands in their
chains, and the extra frame of the second machine that is in use, with the frame in which it stands. -/
structure PadWorld where
  homes : Homes
  current : FrameId
  current' : FrameId
  pad : Pad
  extra : Option (FrameId × FrameId)

namespace PadWorld

/-- Frames were added. -/
structure Le (A B : PadWorld) : Prop where
  homes : A.homes <+: B.homes
  current : B.current = A.current
  current' : B.current' = A.current'
  pad : B.pad = A.pad
  extra : B.extra = A.extra

theorem Le.refl (W : PadWorld) : Le W W :=
  ⟨List.prefix_refl _, rfl, rfl, rfl, rfl⟩

theorem Le.trans {A B C : PadWorld} (h : Le A B) (k : Le B C) : Le A C :=
  ⟨h.homes.trans k.homes, k.current.trans h.current, k.current'.trans h.current',
    k.pad.trans h.pad, k.extra.trans h.extra⟩

/-- The frames correspond, or the second one is the extra frame that stands in the first one's. -/
def Stands (W : PadWorld) (f f' : FrameId) (p : Pad) : Prop :=
  W.homes.Home f f' p ∨ W.extra = some (f, f') ∧ p = .behind 0

theorem Stands.home {W : PadWorld} {f f' : FrameId} {p : Pad} (h : W.Stands f f' p)
    (hp : p ≠ .behind 0) : W.homes.Home f f' p :=
  h.resolve_right fun he => hp he.2

theorem Stands.later {A B : PadWorld} {f f' : FrameId} {p : Pad} (h : A.Stands f f' p)
    (hle : A.Le B) : B.Stands f f' p :=
  h.imp (fun hf => hf.later hle.homes) fun he => ⟨hle.extra.trans he.1, he.2⟩

/-- The world with other current frames. -/
def enter (W : PadWorld) (f f' : FrameId) (p : Pad) : PadWorld :=
  { W with current := f, current' := f', pad := p }

/-- The world with one more frame. -/
def add (W : PadWorld) (f' : FrameId) (p : Pad) : PadWorld :=
  { W with homes := W.homes ++ [(f', p)] }

theorem le_add (W : PadWorld) (f' : FrameId) (p : Pad) : W.Le (W.add f' p) :=
  ⟨List.prefix_append _ _, rfl, rfl, rfl, rfl⟩

theorem home_add {W : PadWorld} {f' g g' : FrameId} {p q : Pad} :
    (W.add f' p).homes.Home g g' q ↔
      W.homes.Home g g' q ∨ g = W.homes.length ∧ f' = g' ∧ p = q := by
  show (W.homes ++ [(f', p)])[g]? = some (g', q) ↔ W.homes[g]? = some (g', q) ∨ _
  by_cases hlt : g < W.homes.length
  · rw [List.getElem?_append_left hlt]
    exact ⟨.inl, fun h => h.resolve_right fun he => absurd he.1 (Nat.ne_of_lt hlt)⟩
  · rw [List.getElem?_append_right (Nat.le_of_not_lt hlt),
      List.getElem?_eq_none (Nat.le_of_not_lt hlt)]
    by_cases heq : g = W.homes.length
    · subst heq
      simp
    · have hne : g - W.homes.length ≠ 0 :=
        Nat.sub_ne_zero_of_lt (Nat.lt_of_le_of_ne (Nat.le_of_not_lt hlt) (Ne.symm heq))
      simp [heq, hne]

end PadWorld

/-- The second machine is the first one but for the extra frames. -/
structure Machine.Moved (D : Distances) (W : PadWorld) (m m' : Machine) : Prop where
  count : W.homes.length = m.frames.nextId
  lt : ∀ f f' p, W.homes.Home f f' p → f' < m'.frames.nextId
  injective : ∀ f g f' p q, W.homes.Home f f' p → W.homes.Home g f' q → f = g
  vars : ∀ f f' p, W.homes.Home f f' p →
    (m.frames.vars f).Both (Value.Moved D W.homes) (m'.frames.vars f')
  chain : ∀ f f' p, W.homes.Home f f' p →
    Padded W.homes p (m.frames.chain f) (m'.frames.chain f')
  extra : ∀ f f', W.extra = some (f, f') → f < m.frames.nextId ∧ f' < m'.frames.nextId ∧
    Padded W.homes (.behind 0) (m.frames.chain f) (m'.frames.chain f')
  globals : W.homes.Home Machine.globalFrame Machine.globalFrame .nowhere
  objectCount : m'.objects.size = m.objects.size
  fields : ∀ id x, Option.Rel (Value.Moved D W.homes) (m.field? id x) (m'.field? id x)
  natives : m'.natives = m.natives
  uniform : ∀ f ∈ m.natives, f.Uniform
  nextIdentity : m'.nextIdentity = m.nextIdentity
  sink : m'.sink = m.sink
  plain : ∀ id, m.distance? id = D.plain id
  padded : ∀ id, m'.distance? (D.use id) = D.padded id
  current : m.current = W.current
  current' : m'.current = W.current'
  stands : W.Stands W.current W.current' W.pad

/-- Both look-ups find what corresponds or fail in the same way. -/
inductive SameFind {α β : Type} (R : α → β → Prop) :
    Except LookupError α → Except LookupError β → Prop where
  | ok {a : α} {b : β} : R a b → SameFind R (.ok a) (.ok b)
  | error (e : LookupError) : SameFind R (.error e) (.error e)

theorem SameFind.mono {α β : Type} {R Q : α → β → Prop} {r : Except LookupError α}
    {r' : Except LookupError β} (h : SameFind R r r') (hRQ : ∀ a b, R a b → Q a b) :
    SameFind Q r r' := by
  cases h with
  | ok h => exact .ok (hRQ _ _ h)
  | error e => exact .error e

namespace Machine.Moved

variable {D : Distances} {W : PadWorld} {m m' : Machine} {f f' : FrameId} {p : Pad}

/-! ### Looking names up -/

theorem chain_of_stands (hm : m.Moved D W m') (hf : W.Stands f f' p) :
    Padded W.homes p (m.frames.chain f) (m'.frames.chain f') := by
  rcases hf with hf | ⟨he, rfl⟩
  · exact hm.chain f f' p hf
  · exact (hm.extra f f' he).2.2

theorem getOwn (hm : m.Moved D W m') (hf : W.homes.Home f f' p) (x : String) :
    SameFind (Value.Moved D W.homes) (m.frames.getOwn f x) (m'.frames.getOwn f' x) := by
  have hx := hm.vars f f' p hf x
  unfold Frames.getOwn
  generalize (m.frames.vars f).get? x = v at hx ⊢
  generalize (m'.frames.vars f').get? x = v' at hx ⊢
  cases hx with
  | none => exact .error _
  | some h => exact .ok h

theorem binds_iff (hm : m.Moved D W m') (hf : W.homes.Home f f' p) (x : String) :
    m'.frames.binds f' x = m.frames.binds f x :=
  (hm.vars f f' p hf).contains x

theorem slotOwn (hm : m.Moved D W m') (hf : W.homes.Home f f' p) (x : String) :
    SameFind (fun f f' => ∃ q, W.homes.Home f f' q) (m.frames.slotOwn f x)
      (m'.frames.slotOwn f' x) := by
  unfold Frames.slotOwn
  rw [hm.binds_iff hf]
  split
  · exact .ok ⟨p, hf⟩
  · exact .error _

/-- At a distance that leads as far, both find the same. -/
theorem getAt (hm : m.Moved D W m') (d : Nat) (x : String) :
    SameFind (Value.Moved D W.homes) (m.frames.getAt m.current d x)
      (m'.frames.getAt m'.current (W.pad.shift d) x) := by
  have hd := (hm.chain_of_stands hm.stands).getElem? d
  rw [hm.current, hm.current']
  unfold Frames.getAt Frames.ancestor
  generalize (m.frames.chain W.current)[d]? = f at hd ⊢
  generalize (m'.frames.chain W.current')[W.pad.shift d]? = f' at hd ⊢
  cases hd with
  | none => exact .error _
  | some h =>
    obtain ⟨q, hq⟩ := h
    exact hm.getOwn hq x

theorem slotAt (hm : m.Moved D W m') (d : Nat) (x : String) :
    SameFind (fun f f' => ∃ q, W.homes.Home f f' q) (m.frames.slotAt m.current d x)
      (m'.frames.slotAt m'.current (W.pad.shift d) x) := by
  have hd := (hm.chain_of_stands hm.stands).getElem? d
  rw [hm.current, hm.current']
  unfold Frames.slotAt Frames.ancestor
  generalize (m.frames.chain W.current)[d]? = f at hd ⊢
  generalize (m'.frames.chain W.current')[W.pad.shift d]? = f' at hd ⊢
  cases hd with
  | none => exact .error _
  | some h =>
    obtain ⟨q, hq⟩ := h
    exact hm.slotOwn hq x

/-- What the machines know of a use. -/
theorem distance (hm : m.Moved D W m') {o : Occurrence NodeId} (ho : D.Moves W.pad o) :
    m'.distance? (D.use o.id) = (m.distance? o.id).map W.pad.shift := by
  rw [hm.padded, hm.plain]
  exact ho.shifted

theorem valueOf (hm : m.Moved D W m') {o : Occurrence NodeId} (ho : D.Moves W.pad o) (name : Name) :
    SameFind (Value.Moved D W.homes) (m.valueOf o.id name)
      (m'.valueOf (D.use o.id) name) := by
  unfold Machine.valueOf
  rw [hm.distance ho]
  cases m.distance? o.id with
  | none => exact hm.getOwn hm.globals name.text
  | some d => exact hm.getAt d name.text

theorem slot (hm : m.Moved D W m') {o : Occurrence NodeId} (ho : D.Moves W.pad o) (name : Name) :
    SameFind (fun f f' => ∃ q, W.homes.Home f f' q) (m.slot o.id name)
      (m'.slot (D.use o.id) name) := by
  unfold Machine.slot
  rw [hm.distance ho]
  cases m.distance? o.id with
  | none => exact hm.slotOwn hm.globals name.text
  | some d => exact hm.slotAt d name.text

/-! ### Changes -/

theorem lt_nextId (hm : m.Moved D W m') (hf : W.homes.Home f f' p) : f < m.frames.nextId :=
  hm.count ▸ (List.getElem?_eq_some_iff.1 hf).1

/-- A name is bound in frames that correspond, and in no others. -/
theorem define (hm : m.Moved D W m') (hf : W.homes.Home f f' p) (x : String) {v v' : Value}
    (hv : v.Moved D W.homes v') :
    Moved D W { m with frames := m.frames.define f x v }
      { m' with frames := m'.frames.define f' x v' } := by
  refine { hm with
    count := hm.count.trans (Frames.nextId_define ..).symm
    lt := fun g g' q hg => Nat.lt_of_lt_of_eq (hm.lt g g' q hg) (Frames.nextId_define ..).symm
    vars := fun g g' q hg y => ?_
    chain := fun g g' q hg => ?_
    extra := fun g g' hg => ?_ }
  · dsimp only
    rw [Frames.get?_define, Frames.get?_define]
    by_cases hsame : f = g ∧ f < m.frames.nextId ∧ x = y
    · obtain ⟨rfl, hlt, rfl⟩ := hsame
      rw [if_pos ⟨rfl, hlt, rfl⟩, if_pos ⟨(hf.unique hg).1, hm.lt f f' p hf, rfl⟩]
      exact .some hv
    · have hsame' : ¬ (f' = g' ∧ f' < m'.frames.nextId ∧ x = y) := by
        rintro ⟨rfl, -, rfl⟩
        exact hsame ⟨hm.injective f g f' p q hf hg, hm.lt_nextId hf, rfl⟩
      rw [if_neg hsame, if_neg hsame']
      exact hm.vars g g' q hg y
  · dsimp only
    rw [Frames.chain_define, Frames.chain_define]
    exact hm.chain g g' q hg
  · dsimp only
    rw [Frames.chain_define, Frames.chain_define, Frames.nextId_define, Frames.nextId_define]
    exact hm.extra g g' hg

theorem lt_of_stands (hm : m.Moved D W m') (hf : W.Stands f f' p) :
    f < m.frames.nextId ∧ f' < m'.frames.nextId := by
  rcases hf with hf | ⟨he, -⟩
  · exact ⟨hm.lt_nextId hf, hm.lt f f' p hf⟩
  · exact ⟨(hm.extra f f' he).1, (hm.extra f f' he).2.1⟩

/-- New frames inside frames that correspond correspond. -/
theorem addChild (hm : m.Moved D W m') (hf : W.Stands f f' p) {vars vars' : Bindings Value}
    (hvars : vars.Both (Value.Moved D W.homes) vars') :
    Moved D (W.add m'.frames.nextId p.inner) { m with frames := m.frames.addChild f vars }
      { m' with frames := m'.frames.addChild f' vars' } := by
  have hle := (W.le_add m'.frames.nextId p.inner).homes
  have hchain := hm.chain_of_stands hf
  refine
    { hm with
      count := ?_
      lt := fun g g' q hg => ?_
      injective := fun g h g' q r hg hh => ?_
      vars := fun g g' q hg => ?_
      chain := fun g g' q hg => ?_
      extra := fun g g' hg => ?_
      globals := hm.globals.later hle
      fields := fun id x => rel_mono (fun _ _ => .later hle) (hm.fields id x)
      stands := hm.stands.later (W.le_add _ _) }
  · show (W.homes ++ _).length = _
    rw [List.length_append, hm.count, Frames.nextId_addChild]
    rfl
  · dsimp only
    rw [Frames.nextId_addChild]
    rcases PadWorld.home_add.1 hg with hg | ⟨-, rfl, -⟩
    · exact Nat.lt_succ_of_lt (hm.lt g g' q hg)
    · exact Nat.lt_succ_self _
  · rcases PadWorld.home_add.1 hg with hg | ⟨hg, hg', -⟩ <;>
      rcases PadWorld.home_add.1 hh with hh | ⟨hh, hh', -⟩
    · exact hm.injective g h g' q r hg hh
    · exact absurd hh' (Nat.ne_of_gt (hm.lt g g' q hg))
    · exact absurd hg' (Nat.ne_of_gt (hm.lt h g' r hh))
    · exact hg.trans hh.symm
  · dsimp only
    rcases PadWorld.home_add.1 hg with hg | ⟨rfl, rfl, -⟩
    · rw [Frames.vars_addChild_of_lt _ _ _ (hm.lt_nextId hg),
        Frames.vars_addChild_of_lt _ _ _ (hm.lt g g' q hg)]
      exact (hm.vars g g' q hg).mono fun _ _ => .later hle
    · rw [hm.count, Frames.vars_addChild_nextId, Frames.vars_addChild_nextId]
      exact hvars.mono fun _ _ => .later hle
  · dsimp only
    rcases PadWorld.home_add.1 hg with hg | ⟨rfl, rfl, rfl⟩
    · rw [Frames.chain_addChild_of_lt _ _ _ (hm.lt_nextId hg),
        Frames.chain_addChild_of_lt _ _ _ (hm.lt g g' q hg)]
      exact (hm.chain g g' q hg).later hle
    · rw [hm.count] at hg ⊢
      rw [Frames.chain_addChild_nextId, Frames.chain_addChild_nextId]
      exact (hchain.later hle).cons hg
  · obtain ⟨hlt, hlt', hpadded⟩ := hm.extra g g' hg
    dsimp only
    rw [Frames.nextId_addChild, Frames.nextId_addChild, Frames.chain_addChild_of_lt _ _ _ hlt,
      Frames.chain_addChild_of_lt _ _ _ hlt']
    exact ⟨Nat.lt_succ_of_lt hlt, Nat.lt_succ_of_lt hlt', hpadded.later hle⟩

/-! ### The extra frame -/

/-- The second machine enters an extra frame. -/
theorem addExtra (hm : m.Moved D W m') (hp : W.pad = .nowhere) :
    Moved D ⟨W.homes, W.current, m'.frames.nextId, .behind 0, some (W.current, m'.frames.nextId)⟩ m
      { m' with
        frames := m'.frames.addChild m'.current .empty
        current := m'.frames.nextId } := by
  refine { hm with
    lt := fun g g' q hg => ?_
    vars := fun g g' q hg => ?_
    chain := fun g g' q hg => ?_
    extra := fun g g' hg => ?_
    current' := rfl
    stands := .inr ⟨rfl, rfl⟩ }
  · dsimp only
    rw [Frames.nextId_addChild]
    exact Nat.lt_succ_of_lt (hm.lt g g' q hg)
  · dsimp only
    rw [Frames.vars_addChild_of_lt _ _ _ (hm.lt g g' q hg)]
    exact hm.vars g g' q hg
  · dsimp only
    rw [Frames.chain_addChild_of_lt _ _ _ (hm.lt g g' q hg)]
    exact hm.chain g g' q hg
  · cases hg
    dsimp only
    rw [Frames.nextId_addChild, Frames.chain_addChild_nextId]
    refine ⟨(hm.lt_of_stands hm.stands).1, Nat.lt_succ_self _, ?_⟩
    have hchain := hm.chain_of_stands hm.stands
    rw [hp, ← hm.current'] at hchain
    cases hchain with
    | nowhere h => exact .here h

/-- The second machine leaves the extra frame. -/
theorem dropExtra (hm : m.Moved D W m') (hf : W.homes.Home W.current f' p) :
    Moved D ⟨W.homes, W.current, f', p, none⟩ m { m' with current := f' } :=
  { hm with
    extra := fun _ _ hg => nomatch hg
    current' := rfl
    stands := .inl hf }

end Machine.Moved

end ClassScript
