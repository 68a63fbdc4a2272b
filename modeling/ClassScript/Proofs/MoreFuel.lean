import ClassScript.Machine.Eval
import Mathlib.Logic.Basic

/-!
# Runs with more fuel

A run that ends before its fuel is used up ends in the same way with more fuel, under any watch
(`Run.evalWith_approximates`, `Run.execWith_approximates`). So what a run ends with does not depend on
how its fuel is shared out (`Run.Ends.of_approximates`).
-/

set_option autoImplicit false

namespace ClassScript

namespace Run

variable {α β : Type}

/-- From every machine both parts of a run end in the same way, unless the first one has used up its
fuel. -/
def Approximates (x y : Run α) : Prop :=
  ∀ m, x m = y m ∨ ∃ m', x m = .error .outOfFuel m'

namespace Approximates

variable {x y : Run α} {f g : α → Run β}

theorem refl (x : Run α) : Approximates x x :=
  fun _ => .inl rfl

theorem outOfFuel (y : Run α) : Approximates (throwThe Stop .outOfFuel) y :=
  fun m => .inr ⟨m, rfl⟩

theorem bind (h : Approximates x y) (hf : ∀ a, Approximates (f a) (g a)) :
    Approximates (x >>= f) (y >>= g) := by
  intro m
  show EStateM.bind x f m = EStateM.bind y g m ∨ ∃ m', EStateM.bind x f m = .error .outOfFuel m'
  unfold EStateM.bind
  rcases h m with he | ⟨m', he⟩
  · rw [he]
    cases y m with
    | ok a n => exact hf a n
    | error e n => exact .inl rfl
  · rw [he]
    exact .inr ⟨m', rfl⟩

/-- Both go on in the same way. -/
theorem map (h : Approximates x y) (f : α → Run β) : Approximates (x >>= f) (y >>= f) :=
  h.bind fun a => refl (f a)

theorem inFrame (h : Approximates x y) (frame : FrameId) :
    Approximates (Run.inFrame frame x) (Run.inFrame frame y) := by
  intro m
  unfold Run.inFrame
  rcases h { m with current := frame } with he | ⟨m', he⟩
  · exact .inl (by rw [he])
  · exact .inr ⟨{ m' with current := m.current }, by rw [he]⟩

end Approximates

/-! ## The evaluator -/

section

variable {watch : Watch} {eval eval' : EvalFn} {exec exec' : ExecFn}
  (he : ∀ e, Approximates (eval e) (eval' e)) (hs : ∀ s, Approximates (exec s) (exec' s))

include he in
theorem evalAll_approximates (es : List (Expr NodeId)) :
    Approximates (evalAll eval es) (evalAll eval' es) := by
  induction es with
  | nil => exact .refl _
  | cons e rest ih => exact (he e).bind fun v => ih.map _

include he in
theorem evalOption_approximates (e : Option (Expr NodeId)) :
    Approximates (evalOption eval e) (evalOption eval' e) := by
  cases e with
  | none => exact .refl _
  | some e => exact he e

include hs in
theorem execAll_approximates (ss : List (Stmt NodeId)) :
    Approximates (execAll exec ss) (execAll exec' ss) := by
  induction ss with
  | nil => exact .refl _
  | cons s rest ih =>
    refine (hs s).bind fun flow => ?_
    cases flow with
    | normal => exact ih
    | returned v => exact .refl _

include hs in
theorem execBlock_approximates (body : List (Stmt NodeId)) :
    Approximates (execBlock watch exec body) (execBlock watch exec' body) :=
  (Approximates.refl get).bind fun m =>
    (Approximates.refl (openFrame watch m.current .empty (.block body))).bind fun frame =>
      (execAll_approximates hs body).inFrame frame

include hs in
theorem invoke_approximates (f : Closure) (args : List Value) :
    Approximates (invoke watch exec f args) (invoke watch exec' f args) :=
  (Approximates.refl (openFrame watch f.frame _ _)).bind fun frame =>
    ((execAll_approximates hs f.decl.body).inFrame frame).map (callResult f)

include he in
theorem setFields_approximates (id : ObjectId) (frame : FrameId) (ds : List (VarDecl NodeId)) :
    Approximates (setFields eval id frame ds) (setFields eval' id frame ds) := by
  induction ds with
  | nil => exact .refl _
  | cons d rest ih =>
    exact ((evalOption_approximates he d.initializer).inFrame frame).bind fun v =>
      (Approximates.refl (setField id d.name.text v)).bind fun _ => ih

include he in
theorem setLayer_approximates (id : ObjectId) (this : Value) (layer : Layer) :
    Approximates (setLayer watch eval id this layer) (setLayer watch eval' id this layer) := by
  unfold setLayer
  split
  · exact .refl _
  · exact (Approximates.refl (openFrame watch layer.frame _ _)).bind fun frame =>
      setFields_approximates he id frame layer.fields

include he in
theorem setLayers_approximates (id : ObjectId) (this : Value) (layers : List Layer) :
    Approximates (setLayers watch eval id this layers) (setLayers watch eval' id this layers) := by
  induction layers with
  | nil => exact .refl _
  | cons layer rest ih => exact (setLayer_approximates he id this layer).bind fun _ => ih

include he hs in
theorem construct_approximates (c : ClassValue) (args : List Value) :
    Approximates (construct watch eval exec c args) (construct watch eval' exec' c args) := by
  refine (Approximates.refl newObject).bind fun id =>
    (setLayers_approximates he id (.object id c) c.layers.reverse).bind fun _ => ?_
  cases c.initializer? with
  | none => exact .refl _
  | some f =>
    exact (Approximates.refl (bindMethod watch f (.object id c))).bind fun bound =>
      (invoke_approximates hs bound args).map _

include he hs in
theorem call_approximates (line : Nat) (f : Value) (args : List Value) :
    Approximates (call watch eval exec line f args) (call watch eval' exec' line f args) := by
  cases f with
  | function id closure =>
    exact (Approximates.refl (checkArity line _ _)).bind fun _ =>
      invoke_approximates hs closure args
  | classObject c =>
    exact (Approximates.refl (checkArity line _ _)).bind fun _ =>
      construct_approximates he hs c args
  | _ => exact .refl _

include he in
theorem unary_approximates (operator : Token) (operand : Expr NodeId) :
    Approximates (unary watch eval operator operand) (unary watch eval' operator operand) := by
  unfold unary
  split
  · exact .refl _
  · exact .refl _
  · exact (he operand).map _
  · exact (he operand).map _
  · exact .refl _

end

section

variable {watch : Watch} {n n' : Nat}
  (he : ∀ e, Approximates (evalWith watch n e) (evalWith watch n' e))
  (hs : ∀ s, Approximates (execWith watch n s) (execWith watch n' s))
include he hs

theorem evalWith_step_approximates (e : Expr NodeId) :
    Approximates (evalWith watch (n + 1) e) (evalWith watch (n' + 1) e) := by
  match e with
  | .literal _ => exact .refl _
  | .grouping inner => exact he inner
  | .unary operator operand => exact unary_approximates he operator operand
  | .suffixed _ _ => exact .refl _
  | .binary left _ right => exact (he left).bind fun _ => (he right).map _
  | .logical left operator right =>
    refine (he left).bind fun l => ?_
    split
    · exact .refl _
    · exact he right
  | .variable _ _ => exact .refl _
  | .assign _ _ value => exact (he value).map _
  | .call callee line arguments =>
    exact (he callee).bind fun f => (evalAll_approximates he arguments).bind fun args =>
      call_approximates he hs line f args
  | .get object _ => exact (he object).map _
  | .set object name value =>
    refine (he object).bind fun target =>
      (Approximates.refl (watch (.access target name))).bind fun _ => ?_
    cases target with
    | object id c => exact (he value).map _
    | _ => exact .refl _
  | .this _ _ => exact .refl _
  | .super _ _ _ => exact .refl _

theorem execWith_step_approximates (s : Stmt NodeId) :
    Approximates (execWith watch (n + 1) s) (execWith watch (n' + 1) s) := by
  refine (Approximates.refl (watch (.statement s))).bind fun _ => ?_
  match s with
  | .expression value => exact (he value).map _
  | .print value => exact (he value).map _
  | .var decl => exact (evalOption_approximates he decl.initializer).map _
  | .block body => exact execBlock_approximates hs body
  | .ifThen condition thenBranch =>
    refine (he condition).bind fun v => ?_
    split
    · exact hs thenBranch
    · exact .refl _
  | .ifElse condition thenBranch elseBranch =>
    refine (he condition).bind fun v => ?_
    split
    · exact hs thenBranch
    · exact hs elseBranch
  | .whileLoop condition body =>
    refine (he condition).bind fun v => ?_
    split
    · refine (hs body).bind fun flow => ?_
      cases flow with
      | normal => exact hs (.whileLoop condition body)
      | returned v => exact .refl _
    · exact .refl _
  | .function _ => exact .refl _
  | .returnWith _ value => exact (evalOption_approximates he value).map _
  | .classDecl _ => exact .refl _

end

theorem evaluation_approximates (watch : Watch) {n n' : Nat} (h : n ≤ n') :
    (∀ e, Approximates (evalWith watch n e) (evalWith watch n' e)) ∧
      ∀ s, Approximates (execWith watch n s) (execWith watch n' s) := by
  induction n generalizing n' with
  | zero => exact ⟨fun _ => .outOfFuel _, fun _ => .outOfFuel _⟩
  | succ n ih =>
    obtain ⟨k, rfl⟩ : ∃ k, n' = k + 1 := ⟨n' - 1, by omega⟩
    obtain ⟨he, hs⟩ := ih (Nat.le_of_succ_le_succ h)
    exact ⟨evalWith_step_approximates he hs, execWith_step_approximates he hs⟩

/-- With more fuel an expression has the same value. -/
theorem evalWith_approximates (watch : Watch) {n n' : Nat} (h : n ≤ n') (e : Expr NodeId) :
    Approximates (evalWith watch n e) (evalWith watch n' e) :=
  (evaluation_approximates watch h).1 e

/-- With more fuel a statement does the same. -/
theorem execWith_approximates (watch : Watch) {n n' : Nat} (h : n ≤ n') (s : Stmt NodeId) :
    Approximates (execWith watch n s) (execWith watch n' s) :=
  (evaluation_approximates watch h).2 s

/-! ## Runs that end -/

/-- With enough fuel the run from the machine ends so. -/
def Ends (x : Nat → Run α) (m : Machine) (r : EStateM.Result Stop Machine α) : Prop :=
  (∃ fuel, x fuel m = r) ∧ ∀ m', r ≠ .error .outOfFuel m'

/-- A run that ends does so in another form that it approximates, however much fuel that one takes. -/
theorem Ends.of_approximates {x y : Nat → Run α} {m : Machine}
    {r : EStateM.Result Stop Machine α} (h : Ends x m r)
    (hxy : ∀ n, ∃ n', Approximates (x n) (y n')) : Ends y m r := by
  obtain ⟨⟨n, rfl⟩, hne⟩ := h
  obtain ⟨n', hn⟩ := hxy n
  rcases hn m with he | ⟨m', he⟩
  · exact ⟨⟨n', he.symm⟩, hne⟩
  · exact absurd he (hne m')

end Run

end ClassScript
