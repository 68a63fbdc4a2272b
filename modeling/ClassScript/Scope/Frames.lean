import ClassScript.Scope.Bindings

/-!
# Chains of frames

A store of frames, each with its own bindings and the frames around it, nearest first. A name is
found either by walking the chain to the nearest frame that binds it, or at a known distance.
Frames are never removed, so a frame may be kept and entered again later. A change of bindings
leaves every chain as it was (`chain_update`), and a new frame changes no frame that was there
before (`vars_addChild_of_lt`, `chain_addChild_of_lt`).
-/

set_option autoImplicit false

namespace ClassScript

/-- The number of a frame in the store. -/
abbrev FrameId := Nat

/-- Why a name is not found. -/
inductive LookupError where
  /-- No frame that was searched binds the name. -/
  | unbound (name : String)
  /-- The distance leads past the outermost frame. -/
  | outOfScope
  deriving Repr, DecidableEq

namespace LookupError

/-- The name that was not found. -/
def name : LookupError → String
  | unbound name => name
  | outOfScope => "<scope>"

/-- The error in words. -/
def message (e : LookupError) : String :=
  "Undefined variable '" ++ e.name ++ "'."

end LookupError

/-- A frame: its own bindings and the frames around it, nearest first. -/
structure Frame (V : Type) where
  vars : Bindings V
  outer : List FrameId
  deriving Repr

/-- A store of frames. -/
structure Frames (V : Type) where
  frames : Array (Frame V)
  deriving Repr

namespace Frames

variable {V : Type}

/-- One frame without bindings, and no frame around it. -/
def new : Frames V :=
  ⟨#[⟨.empty, []⟩]⟩

/-- The number of the next frame. -/
def nextId (s : Frames V) : FrameId :=
  s.frames.size

/-- The bindings of a frame. -/
def vars (s : Frames V) (e : FrameId) : Bindings V :=
  match s.frames[e]? with
  | some f => f.vars
  | none => .empty

/-- A frame and the frames around it, nearest first. -/
def chain (s : Frames V) (e : FrameId) : List FrameId :=
  match s.frames[e]? with
  | some f => e :: f.outer
  | none => [e]

/-- Adds a frame with no frame around it. -/
def addRoot (s : Frames V) : Frames V :=
  ⟨s.frames.push ⟨.empty, []⟩⟩

/-- Adds a frame inside another one. -/
def addChild (s : Frames V) (e : FrameId) (vars : Bindings V) : Frames V :=
  ⟨s.frames.push ⟨vars, s.chain e⟩⟩

/-- Changes the bindings of a frame. -/
def update (s : Frames V) (e : FrameId) (f : Bindings V → Bindings V) : Frames V :=
  ⟨s.frames.modify e fun frame => ⟨f frame.vars, frame.outer⟩⟩

/-- Binds a name in a frame. -/
def define (s : Frames V) (e : FrameId) (x : String) (v : V) : Frames V :=
  s.update e fun vars => vars.insert x v

/-- Whether the frame itself binds a name. -/
def binds (s : Frames V) (e : FrameId) (x : String) : Bool :=
  (s.vars e).contains x

/-- The value of a name in a frame itself. -/
def getOwn (s : Frames V) (e : FrameId) (x : String) : Except LookupError V :=
  match (s.vars e).get? x with
  | some v => .ok v
  | none => .error (.unbound x)

/-- The frame, if it binds the name itself. -/
def slotOwn (s : Frames V) (e : FrameId) (x : String) : Except LookupError FrameId :=
  if s.binds e x then .ok e else .error (.unbound x)

/-- The nearest frame of the chain that binds a name. -/
def slot (s : Frames V) (e : FrameId) (x : String) : Except LookupError FrameId :=
  match (s.chain e).find? fun f => s.binds f x with
  | some f => .ok f
  | none => .error (.unbound x)

/-- The frame at a distance. -/
def ancestor (s : Frames V) (e : FrameId) (distance : Nat) : Except LookupError FrameId :=
  match (s.chain e)[distance]? with
  | some f => .ok f
  | none => .error .outOfScope

/-- The frame at a distance, if it binds the name. -/
def slotAt (s : Frames V) (e : FrameId) (distance : Nat) (x : String) :
    Except LookupError FrameId := do
  let f ← s.ancestor e distance
  s.slotOwn f x

/-- The value of a name in the nearest frame that binds it. -/
def get (s : Frames V) (e : FrameId) (x : String) : Except LookupError V := do
  let f ← s.slot e x
  s.getOwn f x

/-- Changes the value of a name in a frame that was looked for; the store is as before without one. -/
def assignTo (s : Frames V) (x : String) (v : V) :
    Except LookupError FrameId → Except LookupError Unit × Frames V
  | .ok f => (.ok (), s.define f x v)
  | .error e => (.error e, s)

/-- Changes the value of a name in the nearest frame that binds it. -/
def assign (s : Frames V) (e : FrameId) (x : String) (v : V) : Except LookupError Unit × Frames V :=
  s.assignTo x v (s.slot e x)

/-- The value of a name in the frame at a distance. -/
def getAt (s : Frames V) (e : FrameId) (distance : Nat) (x : String) : Except LookupError V := do
  let f ← s.ancestor e distance
  s.getOwn f x

/-- Changes the value of a name that the frame at a distance binds. -/
def assignAt (s : Frames V) (e : FrameId) (distance : Nat) (x : String) (v : V) :
    Except LookupError Unit × Frames V :=
  s.assignTo x v (s.slotAt e distance x)

/-- Replaces all bindings of a frame. -/
def restore (s : Frames V) (e : FrameId) (vars : Bindings V) : Frames V :=
  s.update e fun _ => vars

/-! ## Frames after a change -/

variable (s : Frames V) (e g : FrameId) (f : Bindings V → Bindings V) (vars : Bindings V)

@[simp] theorem nextId_update : (s.update e f).nextId = s.nextId := by
  simp [update, nextId]

/-- A change of bindings leaves every chain as it was. -/
@[simp] theorem chain_update : (s.update e f).chain g = s.chain g := by
  unfold update chain
  simp only [Array.getElem?_modify]
  by_cases h : e = g
  · cases s.frames[g]? <;> simp [h]
  · simp [h]

theorem vars_update_of_ne {e g : FrameId} (h : e ≠ g) : (s.update e f).vars g = s.vars g := by
  simp [update, Frames.vars, Array.getElem?_modify, h]

theorem vars_update_self {e : FrameId} (h : e < s.nextId) :
    (s.update e f).vars e = f (s.vars e) := by
  have he : s.frames[e]? = some s.frames[e] := Array.getElem?_eq_getElem h
  simp [update, Frames.vars, Array.getElem?_modify, he]

@[simp] theorem nextId_addChild : (s.addChild e vars).nextId = s.nextId + 1 := by
  simp [addChild, nextId]

theorem vars_addChild_of_lt {g : FrameId} (h : g < s.nextId) :
    (s.addChild e vars).vars g = s.vars g := by
  have hg : g ≠ s.frames.size := Nat.ne_of_lt h
  simp [addChild, Frames.vars, Array.getElem?_push, hg]

theorem chain_addChild_of_lt {g : FrameId} (h : g < s.nextId) :
    (s.addChild e vars).chain g = s.chain g := by
  have hg : g ≠ s.frames.size := Nat.ne_of_lt h
  simp [addChild, chain, Array.getElem?_push, hg]

@[simp] theorem vars_addChild_nextId : (s.addChild e vars).vars s.nextId = vars := by
  simp [addChild, Frames.vars, nextId]

/-- A new frame stands in front of the chain of the frame around it. -/
@[simp] theorem chain_addChild_nextId :
    (s.addChild e vars).chain s.nextId = s.nextId :: s.chain e := by
  simp [addChild, chain, nextId]

theorem vars_addChild : (s.addChild e vars).vars g = if g = s.nextId then vars else s.vars g := by
  unfold addChild Frames.vars nextId
  rw [Array.getElem?_push]
  by_cases h : g = s.frames.size <;> simp [h]

theorem chain_addChild :
    (s.addChild e vars).chain g = if g = s.nextId then g :: s.chain e else s.chain g := by
  unfold addChild chain nextId
  rw [Array.getElem?_push]
  by_cases h : g = s.frames.size <;> simp [h]

@[simp] theorem nextId_addRoot : s.addRoot.nextId = s.nextId + 1 := by
  simp [addRoot, nextId]

/-- A new outermost frame has no frame around it, and no chain goes through it. -/
theorem chain_addRoot : s.addRoot.chain g = if g = s.nextId then [g] else s.chain g := by
  unfold addRoot chain nextId
  rw [Array.getElem?_push]
  by_cases h : g = s.frames.size <;> simp [h]

/-- A name in a frame after it has been bound in a frame of the store. -/
theorem get?_define (x y : String) (v : V) :
    ((s.define e x v).vars g).get? y =
      if e = g ∧ e < s.nextId ∧ x = y then some v else (s.vars g).get? y := by
  unfold define
  by_cases he : e = g
  · subst he
    by_cases hlt : e < s.nextId
    · rw [vars_update_self s (fun vars => vars.insert x v) hlt, Bindings.get?_insert]
      simp [hlt]
    · have hnone : s.frames[e]? = none := Array.getElem?_eq_none (Nat.le_of_not_lt hlt)
      simp [update, Frames.vars, hlt, hnone, Array.getElem?_modify]
  · rw [vars_update_of_ne s (fun vars => vars.insert x v) he]
    simp [he]

theorem binds_define {x y : String} {v : V} :
    (s.define e x v).binds g y = true ↔ (e = g ∧ e < s.nextId ∧ x = y) ∨ s.binds g y = true := by
  simp only [binds, Bindings.contains, get?_define]
  split
  next h => exact ⟨fun _ => .inl h, fun _ => rfl⟩
  next h => exact ⟨.inr, fun hor => hor.resolve_left h⟩

@[simp] theorem nextId_define (x : String) (v : V) : (s.define e x v).nextId = s.nextId :=
  nextId_update s e _

@[simp] theorem chain_define (x : String) (v : V) : (s.define e x v).chain g = s.chain g :=
  chain_update s e g _

/-- A chain starts at its own frame. -/
theorem head?_chain : (s.chain e).head? = some e := by
  unfold chain
  cases s.frames[e]? <;> rfl

/-! ## Looking names up -/

theorem getOwn_ok {x : String} {v : V} : s.getOwn e x = .ok v ↔ (s.vars e).get? x = some v := by
  unfold getOwn
  cases (s.vars e).get? x <;> simp

theorem getAt_ok {d : Nat} {x : String} {v : V} :
    s.getAt e d x = .ok v ↔ ∃ g, (s.chain e)[d]? = some g ∧ (s.vars g).get? x = some v := by
  unfold getAt ancestor
  cases (s.chain e)[d]? with
  | none =>
    constructor
    · intro h
      cases h
    · rintro ⟨_, h, -⟩
      cases h
  | some g =>
    refine (getOwn_ok s g).trans ⟨fun h => ⟨g, rfl, h⟩, ?_⟩
    rintro ⟨_, he, h⟩
    cases he
    exact h

theorem slotOwn_ok {x : String} {f : FrameId} :
    s.slotOwn e x = .ok f ↔ e = f ∧ s.binds e x = true := by
  unfold slotOwn
  cases s.binds e x <;> simp

theorem slotAt_ok {d : Nat} {x : String} {f : FrameId} :
    s.slotAt e d x = .ok f ↔ (s.chain e)[d]? = some f ∧ s.binds f x = true := by
  unfold slotAt ancestor
  cases (s.chain e)[d]? with
  | none =>
    constructor
    · intro h
      cases h
    · rintro ⟨h, -⟩
      cases h
  | some g =>
    refine (slotOwn_ok s g).trans ⟨?_, ?_⟩
    · rintro ⟨rfl, hb⟩
      exact ⟨rfl, hb⟩
    · rintro ⟨he, hb⟩
      cases he
      exact ⟨rfl, hb⟩

theorem binds_iff {x : String} : s.binds e x = true ↔ ∃ v, (s.vars e).get? x = some v :=
  Option.isSome_iff_exists

theorem lt_of_binds {s : Frames V} {f : FrameId} {x : String} (h : s.binds f x = true) :
    f < s.nextId := by
  refine Nat.lt_of_not_le fun hle => ?_
  have hnone : s.frames[f]? = none := Array.getElem?_eq_none hle
  simp [binds, Frames.vars, hnone] at h

end Frames

end ClassScript
