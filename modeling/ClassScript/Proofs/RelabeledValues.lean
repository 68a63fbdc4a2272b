import ClassScript.Proofs.Relabel
import ClassScript.Value.Operators

/-!
# Values with other lines and labels

Functions and classes carry their code. Relabelling the code of a value changes neither what the value
is equal to nor its text, and operators do the same with relabelled operands. Bindings and frames whose
values are changed one by one bind the same names to the changed values.
-/

set_option autoImplicit false

namespace ClassScript

/-! ## Bindings and frames -/

section

variable {V W : Type} (f : V → W)

/-- The bindings with each value changed. -/
def Bindings.map (b : Bindings V) : Bindings W :=
  ⟨b.entries.map fun p => (p.1, f p.2)⟩

namespace Bindings

@[simp] theorem map_empty : (empty : Bindings V).map f = empty := rfl

@[simp] theorem get?_map (b : Bindings V) (x : String) : (b.map f).get? x = (b.get? x).map f := by
  unfold Bindings.map get?
  generalize b.entries = l
  induction l with
  | nil => rfl
  | cons p rest ih =>
    simp only [List.map_cons, lookupName]
    split
    · rfl
    · exact ih

@[simp] theorem contains_map (b : Bindings V) (x : String) : (b.map f).contains x = b.contains x := by
  simp [contains]

theorem map_insert (b : Bindings V) (x : String) (v : V) :
    (b.insert x v).map f = (b.map f).insert x (f v) := by
  unfold Bindings.map insert
  generalize b.entries = l
  congr 1
  induction l with
  | nil => rfl
  | cons p rest ih =>
    simp only [List.map_cons, insertName]
    split
    · rfl
    · rw [List.map_cons, ih]

theorem map_ofList (pairs : List (String × V)) :
    (ofList pairs).map f = ofList (pairs.map fun p => (p.1, f p.2)) := by
  unfold ofList
  rw [← map_empty f]
  generalize (empty : Bindings V) = b
  induction pairs generalizing b with
  | nil => rfl
  | cons p rest ih =>
    rw [List.foldl_cons, ih, map_insert, List.map_cons, List.foldl_cons]

end Bindings

/-- The store of frames with each value changed. -/
def Frames.map (s : Frames V) : Frames W :=
  ⟨s.frames.map fun frame => ⟨frame.vars.map f, frame.outer⟩⟩

namespace Frames

variable (s : Frames V) (e : FrameId) (x : String)

theorem map_new : (Frames.new : Frames V).map f = Frames.new := by
  simp [Frames.map, Frames.new]

@[simp] theorem nextId_map : (s.map f).nextId = s.nextId := by
  simp [Frames.map, nextId]

@[simp] theorem vars_map : (s.map f).vars e = (s.vars e).map f := by
  unfold Frames.map vars
  rw [Array.getElem?_map]
  cases s.frames[e]? <;> rfl

@[simp] theorem chain_map : (s.map f).chain e = s.chain e := by
  unfold Frames.map chain
  rw [Array.getElem?_map]
  cases s.frames[e]? <;> rfl

theorem map_addChild (vars : Bindings V) :
    (s.addChild e vars).map f = (s.map f).addChild e (vars.map f) := by
  unfold addChild
  rw [chain_map]
  unfold Frames.map
  rw [Array.map_push]

theorem map_update {u : Bindings V → Bindings V} {w : Bindings W → Bindings W}
    (h : ∀ b, (u b).map f = w (b.map f)) : (s.update e u).map f = (s.map f).update e w := by
  unfold update Frames.map
  congr 1
  refine Array.ext_getElem? fun i => ?_
  simp only [Array.getElem?_map, Array.getElem?_modify]
  split
  · cases s.frames[i]? <;> simp [h]
  · rfl

theorem map_define (v : V) : (s.define e x v).map f = (s.map f).define e x (f v) :=
  map_update f s e fun b => b.map_insert f x v

theorem map_restore (vars : Bindings V) :
    (s.restore e vars).map f = (s.map f).restore e (vars.map f) :=
  map_update f s e fun _ => rfl

@[simp] theorem binds_map : (s.map f).binds e x = s.binds e x := by
  simp [binds]

@[simp] theorem getOwn_map : (s.map f).getOwn e x = (s.getOwn e x).map f := by
  unfold getOwn
  rw [vars_map, Bindings.get?_map]
  cases (s.vars e).get? x <;> rfl

@[simp] theorem slotOwn_map : (s.map f).slotOwn e x = s.slotOwn e x := by
  simp [slotOwn]

@[simp] theorem ancestor_map (d : Nat) : (s.map f).ancestor e d = s.ancestor e d := by
  simp [ancestor]

@[simp] theorem getAt_map (d : Nat) : (s.map f).getAt e d x = (s.getAt e d x).map f := by
  unfold getAt
  rw [ancestor_map]
  cases s.ancestor e d with
  | error => rfl
  | ok g => exact getOwn_map f s g x

@[simp] theorem slotAt_map (d : Nat) : (s.map f).slotAt e d x = s.slotAt e d x := by
  simp [slotAt]

end Frames

end

/-! ## Values -/

variable (ρ : Relabel NodeId NodeId)

/-- The function with other lines and labels in its code. -/
def Closure.relabel (f : Closure) : Closure :=
  ⟨Stmt.relabelRoutine ρ f.decl, f.frame, f.isInitializer⟩

/-- The layer of a class with other lines and labels in its code. -/
def Layer.relabel (l : Layer) : Layer :=
  ⟨l.id, l.name, l.fields.map (VarDecl.relabel ρ), l.methods.map (Closure.relabel ρ), l.frame⟩

/-- The class with other lines and labels in its code. -/
def ClassValue.relabel (c : ClassValue) : ClassValue :=
  ⟨c.own.relabel ρ, c.inherited.map (Layer.relabel ρ)⟩

/-- The value with other lines and labels in its code. -/
def Value.relabel : Value → Value
  | .nil => .nil
  | .boolean b => .boolean b
  | .number x => .number x
  | .string s => .string s
  | .native id arity => .native id arity
  | .function id closure => .function id (closure.relabel ρ)
  | .classObject c => .classObject (c.relabel ρ)
  | .object id c => .object id (c.relabel ρ)

/-- The fault on another line. -/
def RuntimeError.onLine (f : Nat → Nat) (e : RuntimeError) : RuntimeError :=
  ⟨e.cause, f e.line⟩

/-- The way a run stops, with its fault on another line. -/
def Stop.onLine (f : Nat → Nat) : Stop → Stop
  | .fault e => .fault (e.onLine f)
  | .output e => .output e
  | .outOfFuel => .outOfFuel

theorem ClassValue.layers_relabel (c : ClassValue) :
    (c.relabel ρ).layers = c.layers.map (Layer.relabel ρ) := rfl

theorem Closure.params_relabel (f : Closure) :
    (f.relabel ρ).decl.params = f.decl.params.map (Param.onLine ρ.line) := by
  rw [Closure.relabel, Stmt.relabelRoutine_eq]

theorem Closure.name_relabel (f : Closure) :
    (f.relabel ρ).decl.name = f.decl.name.onLine ρ.line := by
  rw [Closure.relabel, Stmt.relabelRoutine_eq]

theorem Closure.body_relabel (f : Closure) :
    (f.relabel ρ).decl.body = Stmt.relabelAll ρ f.decl.body := by
  rw [Closure.relabel, Stmt.relabelRoutine_eq]

theorem ClassValue.findMethod?_relabel (c : ClassValue) (name : String) :
    (c.relabel ρ).findMethod? name = (c.findMethod? name).map (Closure.relabel ρ) := by
  unfold findMethod?
  rw [layers_relabel]
  induction c.layers with
  | nil => rfl
  | cons l rest ih =>
    simp only [List.map_cons, List.findSome?_cons, Layer.relabel, Bindings.get?_map]
    cases l.methods.get? name with
    | none => exact ih
    | some f => rfl

theorem ClassValue.initializer?_relabel (c : ClassValue) :
    (c.relabel ρ).initializer? = c.initializer?.map (Closure.relabel ρ) :=
  Bindings.get?_map (Closure.relabel ρ) c.own.methods c.own.name

theorem ClassValue.arity_relabel (c : ClassValue) : (c.relabel ρ).arity = c.arity := by
  unfold arity
  rw [initializer?_relabel]
  cases c.initializer? with
  | none => rfl
  | some f =>
    simp only [Option.map_some, Closure.params_relabel]
    exact List.length_map ..

namespace Value

@[simp] theorem ofLiteral_relabel (l : Literal) : (ofLiteral l).relabel ρ = ofLiteral l := by
  cases l <;> rfl

@[simp] theorem isTruthy_relabel (v : Value) : (v.relabel ρ).isTruthy = v.isTruthy := by
  cases v <;> rfl

@[simp] theorem isEqual_relabel (v w : Value) :
    (v.relabel ρ).isEqual (w.relabel ρ) = v.isEqual w := by
  cases v <;> cases w <;> rfl

@[simp] theorem text_relabel (v : Value) : (v.relabel ρ).text = v.text := by
  cases v with
  | boolean b => cases b <;> rfl
  | function id closure =>
    simp only [relabel, text, Closure.name_relabel]
    rfl
  | _ => rfl

end Value

/-! ## Operators -/

namespace Operators

variable (f : Nat → Nat) (v w : Value)

/-- What an operation gives, with other lines and labels. -/
def relabelResult : Except RuntimeError Value → Except RuntimeError Value
  | .ok v => .ok (v.relabel ρ)
  | .error e => .error (e.onLine ρ.line)

theorem add_relabel (line : Nat) :
    add (ρ.line line) (v.relabel ρ) (w.relabel ρ) = relabelResult ρ (add line v w) := by
  cases v <;> cases w <;> rfl

theorem numeric_relabel (line : Nat) (op : Float → Float → Float) :
    numeric (ρ.line line) op (v.relabel ρ) (w.relabel ρ) =
      relabelResult ρ (numeric line op v w) := by
  cases v <;> cases w <;> rfl

theorem repetition_relabel (line : Nat) (s : String) (x : Float) :
    repetition (ρ.line line) s x = relabelResult ρ (repetition line s x) := by
  unfold repetition
  cases repetition? s x <;> rfl

theorem multiply_relabel (line : Nat) :
    multiply (ρ.line line) (v.relabel ρ) (w.relabel ρ) = relabelResult ρ (multiply line v w) := by
  cases v <;> cases w <;> first | rfl | exact repetition_relabel ρ line _ _

theorem compare_relabel (line : Nat) (o : Order) :
    Operators.compare (ρ.line line) o (v.relabel ρ) (w.relabel ρ) =
      relabelResult ρ (Operators.compare line o v w) := by
  cases v <;> cases w <;> rfl

theorem binary_relabel (operator : Token) :
    binary (operator.onLine ρ.line) (v.relabel ρ) (w.relabel ρ) =
      relabelResult ρ (binary operator v w) := by
  unfold binary
  simp only [Token.kind_onLine, Token.line_onLine, Token.lexeme_onLine, add_relabel,
    numeric_relabel, multiply_relabel, compare_relabel, Value.isEqual_relabel]
  split <;> rfl

theorem negate_relabel (line : Nat) :
    negate (ρ.line line) (v.relabel ρ) = relabelResult ρ (negate line v) := by
  cases v <;> rfl

end Operators

end ClassScript
