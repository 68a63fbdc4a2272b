import ClassScript.Proofs.Inspection
import ClassScript.Proofs.Requests

/-!
# Only declarations at the top level bind global names

A run binds names in its current frame, and every block, call and class runs in a frame of its own, so
a statement binds a global name only if it stands at the top level and is itself a declaration
(`Run.execWith_names`). An assignment changes the value of a name that is bound already.
-/

set_option autoImplicit false

namespace ClassScript

/-! ## Declared names -/

/-- The names that a statement binds in the scope around it. -/
def Stmt.declares {ι : Type} : Stmt ι → List String
  | .var decl => [decl.name.text]
  | .function decl => [decl.name.text]
  | .classDecl decl => [decl.name.text]
  | _ => []

/-- The names that the declarations of a program bind. -/
def declaredNames {ι : Type} (program : List (Stmt ι)) : List String :=
  program.flatMap Stmt.declares

theorem Stmt.declares_of_isBranch {ι : Type} {s : Stmt ι} (h : s.isBranch = true) :
    s.declares = [] := by
  cases s <;> first | rfl | cases h

theorem Stmt.number_declares {ι : Type} (s : Stmt ι) (n : NodeId) :
    (s.number.run n).1.declares = s.declares := by
  cases s with
  | function decl =>
    obtain ⟨name, params, result, body⟩ := decl
    rfl
  | _ => rfl

theorem declaredNames_numberAll {ι : Type} (program : List (Stmt ι)) (n : NodeId) :
    declaredNames ((Stmt.numberAll program).run n).1 = declaredNames program := by
  induction program generalizing n with
  | nil => rfl
  | cons s rest ih =>
    exact congrArg₂ (· ++ ·) (s.number_declares n) (ih _)

/-! ## Global names of a machine -/

/-- A set of global names. -/
abbrev GlobalNames := String → Bool

/-- The set with more names. -/
def GlobalNames.add (N : GlobalNames) (names : List String) : GlobalNames :=
  fun x => N x || names.contains x

@[simp] theorem GlobalNames.add_nil (N : GlobalNames) : N.add [] = N := by
  funext x
  simp [add]

theorem GlobalNames.add_append (N : GlobalNames) (xs ys : List String) :
    N.add (xs ++ ys) = (N.add xs).add ys := by
  funext x
  simp [add, Bool.or_assoc]

/-- What is known of the global frame: that it is there, and which names it binds. -/
structure Machine.GlobalsAre (m : Machine) (N : GlobalNames) : Prop where
  frame : Machine.globalFrame < m.frames.nextId
  names : ∀ x, m.globals.contains x = N x

/-- The logic of global names. -/
def naming : Logic GlobalNames where
  le _ _ := True
  refl _ := trivial
  trans _ _ := trivial
  holds N m := m.GlobalsAre N
  holds_current _ h := ⟨h.frame, h.names⟩
  event _ _ _ := True
  event_mono _ h := h
  stop _ _ _ := True
  stop_current _ _ := trivial

namespace Machine.GlobalsAre

variable {m : Machine} {N : GlobalNames}

/-- Names bound in another frame are not global. -/
theorem define_inner (h : m.GlobalsAre N) {f : FrameId} (hf : f ≠ globalFrame) (x : String)
    (v : Value) : Machine.GlobalsAre { m with frames := m.frames.define f x v } N := by
  refine ⟨by rw [Frames.nextId_define]; exact h.frame, fun y => ?_⟩
  have hvars : (m.frames.define f x v).vars globalFrame = m.frames.vars globalFrame :=
    Frames.vars_update_of_ne _ _ hf
  rw [globals, hvars]
  exact h.names y

theorem define_global (h : m.GlobalsAre N) (x : String) (v : Value) :
    Machine.GlobalsAre { m with frames := m.frames.define globalFrame x v } (N.add [x]) := by
  refine ⟨by rw [Frames.nextId_define]; exact h.frame, fun y => ?_⟩
  have hvars : (m.frames.define globalFrame x v).vars globalFrame =
      (m.frames.vars globalFrame).insert x v :=
    Frames.vars_update_self _ _ h.frame
  have hold : (m.frames.vars globalFrame).contains y = N y := h.names y
  rw [globals, hvars, Bindings.contains_insert, hold, GlobalNames.add, Bool.or_comm]
  simp [Bool.beq_eq_decide_eq, eq_comm]

/-- A name that is bound already may get another value. -/
theorem define_bound (h : m.GlobalsAre N) {f : FrameId} {x : String} (hb : m.frames.binds f x = true)
    (v : Value) : Machine.GlobalsAre { m with frames := m.frames.define f x v } N := by
  by_cases hf : f = globalFrame
  · subst hf
    have hglobal := h.define_global x v
    have hx : N x = true := (h.names x).symm.trans hb
    have hadd : N.add [x] = N := by
      funext y
      by_cases hy : y = x
      · simp [GlobalNames.add, hy, hx]
      · simp [GlobalNames.add, hy]
    rwa [hadd] at hglobal
  · exact h.define_inner hf x v

theorem addFrame (h : m.GlobalsAre N) (outer : FrameId) (vars : Bindings Value) :
    Machine.GlobalsAre { m with frames := m.frames.addChild outer vars } N := by
  refine ⟨by rw [Frames.nextId_addChild]; exact Nat.lt_succ_of_lt h.frame, fun x => ?_⟩
  rw [globals, Frames.vars_addChild_of_lt _ _ _ h.frame]
  exact h.names x

end Machine.GlobalsAre

namespace Run

variable {N : GlobalNames} {m : Machine}

/-- A part of a run binds no global name. -/
abbrev KeepsNames {α : Type} (x : Watch → Run α) (N : GlobalNames) (m : Machine) : Prop :=
  Safe naming N x m fun N' _ _ => N' = N

/-- The value of an expression is found without binding a global name. -/
def EvalNames (eval : Watch → EvalFn) : Prop :=
  ∀ (N : GlobalNames) (m : Machine) (e : Expr NodeId), m.GlobalsAre N →
    KeepsNames (fun w => eval w e) N m

/-- A statement binds the names that it declares, if it stands at the top level. -/
def ExecNames (exec : Watch → ExecFn) : Prop :=
  ∀ (N : GlobalNames) (m : Machine) (s : Stmt NodeId), m.GlobalsAre N →
    (m.current = Machine.globalFrame → s.Shaped) →
    Safe naming N (fun w => exec w s) m fun N' _ _ =>
      N' = if m.current = Machine.globalFrame then N.add s.declares else N

/-! ## Names and frames -/

theorem lookUp_names (hm : m.GlobalsAre N) (id : NodeId) (name : Name) :
    KeepsNames (fun w => lookUp w id name) N m := by
  unfold lookUp
  exact Safe.told hm trivial
    (Safe.get (Safe.ofLookup hm (fun _ _ => rfl) fun _ _ => trivial))

theorem binds_slot {id : NodeId} {name : Name} {f : FrameId} (h : m.slot id name = .ok f) :
    m.frames.binds f name.text = true := by
  unfold Machine.slot at h
  split at h
  · exact ((Frames.slotAt_ok _ _).1 h).2
  · obtain ⟨rfl, hb⟩ := (Frames.slotOwn_ok _ _).1 h
    exact hb

theorem assign_names (hm : m.GlobalsAre N) (id : NodeId) (name : Name) (v : Value) :
    KeepsNames (fun _ => assign id name v) N m := by
  have hslot : Safe naming N (fun _ => ofLookup name.line (m.slot id name)) m fun N' f m' =>
      N' = N ∧ m'.frames.binds f name.text = true :=
    Safe.ofLookup hm (fun _ h => ⟨rfl, binds_slot h⟩) fun _ _ => trivial
  unfold assign
  refine Safe.get (hslot.bind ?_)
  rintro N' f m' - hm' - ⟨rfl, hb⟩
  exact Safe.of_ok (fun _ => rfl) trivial (hm'.define_bound hb v) rfl rfl

theorem openFrame_names (hm : m.GlobalsAre N) (outer : FrameId) (vars : Bindings Value)
    (o : Opening) :
    Safe naming N (fun w => openFrame w outer vars o) m fun N' f _ =>
      N' = N ∧ f ≠ Machine.globalFrame := by
  have hnew : Safe naming N (fun _ => newFrame outer vars) m fun N' f _ =>
      N' = N ∧ f ≠ Machine.globalFrame :=
    Safe.of_ok (fun _ => rfl) trivial (hm.addFrame outer vars) rfl ⟨rfl, Nat.ne_of_gt hm.frame⟩
  unfold openFrame
  refine hnew.bind ?_
  rintro N' f m' - hm' - ⟨rfl, hf⟩
  exact Safe.told hm' trivial (Safe.pure hm' ⟨rfl, hf⟩)

theorem freshIdentity_names (hm : m.GlobalsAre N) : KeepsNames (fun _ => freshIdentity) N m :=
  Safe.of_ok (fun _ => rfl) trivial ⟨hm.frame, hm.names⟩ rfl rfl

theorem define_names (hm : m.GlobalsAre N) (x : String) (v : Value) :
    Safe naming N (fun _ => define x v) m fun N' _ _ =>
      N' = if m.current = Machine.globalFrame then N.add [x] else N := by
  split
  next hc =>
    have hm' := hm.define_global x v
    rw [← hc] at hm'
    exact Safe.of_ok (fun _ => rfl) trivial hm' rfl rfl
  next hc => exact Safe.of_ok (fun _ => rfl) trivial (hm.define_inner hc x v) rfl rfl

theorem print_names (hm : m.GlobalsAre N) (text : String) :
    KeepsNames (fun _ => print text) N m := by
  cases hw : m.sink.write (text ++ "\n") with
  | mk r sink =>
    have hm' : Machine.GlobalsAre { m with sink } N := ⟨hm.frame, hm.names⟩
    cases r with
    | ok _ =>
      have hrun : print text m = .ok () { m with sink } := by simp only [print, hw]
      exact Safe.of_ok (fun _ => hrun) trivial hm' rfl rfl
    | error e =>
      have hrun : print text m = .error (.output e) { m with sink } := by simp only [print, hw]
      exact Safe.of_error (fun _ => hrun) trivial trivial hm'

theorem increment_names (hm : m.GlobalsAre N) (operand : Expr NodeId) (operator : Token) :
    KeepsNames (fun w => increment w operand operator) N m := by
  cases operand with
  | «variable» id name =>
    refine (lookUp_names hm id name).bind ?_
    rintro N' v m' - hm' - rfl
    cases v with
    | number old =>
      refine (assign_names hm' id name _).bind ?_
      rintro N'' _ m'' - hm'' - rfl
      exact Safe.pure hm'' rfl
    | _ => exact Safe.fail hm' trivial
  | _ => exact Safe.fail hm trivial

/-! ## Sequences -/

section

variable {eval : Watch → EvalFn} {exec : Watch → ExecFn}

theorem evalOption_names (heval : EvalNames eval) (hm : m.GlobalsAre N)
    (e : Option (Expr NodeId)) : KeepsNames (fun w => evalOption (eval w) e) N m := by
  cases e with
  | none => exact Safe.pure hm rfl
  | some e => exact heval N m e hm

theorem evalAll_names (heval : EvalNames eval) (hm : m.GlobalsAre N) (es : List (Expr NodeId)) :
    KeepsNames (fun w => evalAll (eval w) es) N m := by
  induction es generalizing m with
  | nil => exact Safe.pure hm rfl
  | cons e rest ih =>
    refine (heval N m e hm).bind ?_
    rintro N' v m' - hm' - rfl
    refine (ih hm').bind ?_
    rintro N'' vs m'' - hm'' - rfl
    exact Safe.pure hm'' rfl

/-- Inside of another frame nothing is bound globally. -/
theorem execAll_names (hexec : ExecNames exec) (hm : m.GlobalsAre N)
    (hc : m.current ≠ Machine.globalFrame) (ss : List (Stmt NodeId)) :
    KeepsNames (fun w => execAll (exec w) ss) N m := by
  induction ss generalizing m with
  | nil => exact Safe.pure hm rfl
  | cons s rest ih =>
    refine (hexec N m s hm fun h => absurd h hc).bind ?_
    rintro N' flow m' - hm' hc' hN
    rw [if_neg hc] at hN
    subst hN
    cases flow with
    | normal => exact ih hm' (hc' ▸ hc)
    | returned v => exact Safe.pure hm' rfl

theorem execBlock_names (hexec : ExecNames exec) (hm : m.GlobalsAre N)
    (body : List (Stmt NodeId)) : KeepsNames (fun w => execBlock w (exec w) body) N m := by
  unfold execBlock
  refine Safe.get ((openFrame_names hm m.current .empty (.block body)).bind ?_)
  rintro N' f m' - hm' - ⟨rfl, hf⟩
  exact (execAll_names hexec (m := { m' with current := f }) ⟨hm'.frame, hm'.names⟩ hf body).inFrame

/-! ## Methods, fields and calls -/

theorem bindMethod_names (hm : m.GlobalsAre N) (method : Closure) (this : Value) :
    KeepsNames (fun w => bindMethod w method this) N m := by
  unfold bindMethod
  refine (openFrame_names hm method.frame (.single "this" this) (.method method.decl)).bind ?_
  rintro N' f m' - hm' - ⟨rfl, -⟩
  exact Safe.pure hm' rfl

theorem methodValue_names (hm : m.GlobalsAre N) (method : Closure) (this : Value) :
    KeepsNames (fun w => methodValue w method this) N m := by
  unfold methodValue
  refine (bindMethod_names hm method this).bind ?_
  rintro N' bound m' - hm' - rfl
  refine (freshIdentity_names hm').bind ?_
  rintro N'' id m'' - hm'' - rfl
  exact Safe.pure hm'' rfl

theorem setFields_names (heval : EvalNames eval) (hm : m.GlobalsAre N) (id : ObjectId)
    (frame : FrameId) (ds : List (VarDecl NodeId)) :
    KeepsNames (fun w => setFields (eval w) id frame ds) N m := by
  induction ds generalizing m with
  | nil => exact Safe.pure hm rfl
  | cons d rest ih =>
    have hinner : Machine.GlobalsAre { m with current := frame } N := ⟨hm.frame, hm.names⟩
    refine (evalOption_names heval hinner d.initializer).inFrame.bind ?_
    rintro N' v m' - hm' - rfl
    have hset : KeepsNames (fun _ => setField id d.name.text v) N' m' :=
      Safe.of_ok (fun _ => rfl) trivial ⟨hm'.frame, hm'.names⟩ rfl rfl
    refine hset.bind ?_
    rintro N'' _ m'' - hm'' - rfl
    exact ih hm''

theorem setLayers_names (heval : EvalNames eval) (hm : m.GlobalsAre N) (id : ObjectId)
    (this : Value) (layers : List Layer) :
    KeepsNames (fun w => setLayers w (eval w) id this layers) N m := by
  induction layers generalizing m with
  | nil => exact Safe.pure hm rfl
  | cons layer rest ih =>
    have hlayer : KeepsNames (fun w => setLayer w (eval w) id this layer) N m := by
      unfold setLayer
      split
      · exact Safe.pure hm rfl
      · refine (openFrame_names hm layer.frame (.single "this" this) (.fields layer.fields)).bind ?_
        rintro N' f m' - hm' - ⟨rfl, -⟩
        exact setFields_names heval hm' id f layer.fields
    refine hlayer.bind ?_
    rintro N' _ m' - hm' - rfl
    exact ih hm'

theorem invoke_names (hexec : ExecNames exec) (hm : m.GlobalsAre N) (f : Closure)
    (args : List Value) : KeepsNames (fun w => invoke w (exec w) f args) N m := by
  unfold invoke
  refine (openFrame_names hm f.frame (paramBindings f.decl.params args) (.call f.decl)).bind ?_
  rintro N' g m' - hm' - ⟨rfl, hg⟩
  refine (execAll_names hexec (m := { m' with current := g }) ⟨hm'.frame, hm'.names⟩ hg
    f.decl.body).inFrame.bind ?_
  rintro N'' flow m'' - hm'' - rfl
  have hinit : KeepsNames (fun _ => callResult.initialized f) N'' m'' :=
    Safe.get (Safe.ofLookup hm'' (fun _ _ => rfl) fun _ _ => trivial)
  unfold callResult
  cases flow <;> dsimp only <;> split
  · exact hinit
  · exact Safe.pure hm'' rfl
  · exact hinit
  · exact Safe.pure hm'' rfl

theorem construct_names (heval : EvalNames eval) (hexec : ExecNames exec) (hm : m.GlobalsAre N)
    (c : ClassValue) (args : List Value) :
    KeepsNames (fun w => construct w (eval w) (exec w) c args) N m := by
  have hnew : KeepsNames (fun _ => newObject) N m :=
    Safe.of_ok (fun _ => rfl) trivial ⟨hm.frame, hm.names⟩ rfl rfl
  unfold construct
  refine hnew.bind ?_
  rintro N' id m' - hm' - rfl
  refine (setLayers_names heval hm' id _ c.layers.reverse).bind ?_
  rintro N'' _ m'' - hm'' - rfl
  split
  next initializer _ =>
    refine (bindMethod_names hm'' initializer _).bind ?_
    rintro V bound n - hn - rfl
    refine (invoke_names hexec hn bound args).bind ?_
    rintro V' _ n' - hn' - rfl
    exact Safe.pure hn' rfl
  next => exact Safe.pure hm'' rfl

theorem checkArity_names (hm : m.GlobalsAre N) (line expected got : Nat) :
    KeepsNames (fun _ => checkArity line expected got) N m := by
  unfold checkArity
  split
  · exact Safe.pure hm rfl
  · exact Safe.fail hm trivial

theorem call_names (heval : EvalNames eval) (hexec : ExecNames exec) (hm : m.GlobalsAre N)
    (line : Nat) (f : Value) (args : List Value) :
    KeepsNames (fun w => call w (eval w) (exec w) line f args) N m := by
  unfold call
  cases f with
  | native id arity =>
    refine (checkArity_names hm line arity args.length).bind ?_
    rintro N' _ m' - hm' - rfl
    unfold callNative
    refine Safe.get ?_
    cases m'.natives[id]? with
    | none => exact Safe.pure hm' rfl
    | some f => exact Safe.ofExcept hm' (fun _ _ => rfl) fun _ _ => trivial
  | function id closure =>
    refine (checkArity_names hm line closure.decl.params.length args.length).bind ?_
    rintro N' _ m' - hm' - rfl
    exact invoke_names hexec hm' closure args
  | classObject c =>
    refine (checkArity_names hm line c.arity args.length).bind ?_
    rintro N' _ m' - hm' - rfl
    exact construct_names heval hexec hm' c args
  | _ => exact Safe.fail hm trivial

/-! ## Properties and operators -/

theorem property_names (hm : m.GlobalsAre N) (object : Value) (name : Name) :
    KeepsNames (fun w => property w object name) N m :=
  Safe.property hm trivial trivial (fun _ _ _ _ _ => rfl)
    (fun _ _ f _ _ _ => methodValue_names hm f object) fun _ _ _ _ _ => trivial

theorem superMethod_names (hm : m.GlobalsAre N) (id : NodeId) (keyword method : Name) :
    KeepsNames (fun w => superMethod w id keyword method) N m := by
  have hget {n : Machine} {V : GlobalNames} (hn : n.GlobalsAre V) (r : Except LookupError Value) :
      KeepsNames (fun _ => ofLookup keyword.line r) V n :=
    Safe.ofLookup hn (fun _ _ => rfl) fun _ _ => trivial
  unfold superMethod
  refine Safe.told hm trivial (Safe.get ?_)
  cases m.distance? id with
  | none => exact Safe.fail hm trivial
  | some d =>
    refine (hget hm _).bind ?_
    rintro N' v m' - hm' - rfl
    cases v with
    | classObject superclass =>
      refine (hget hm' _).bind ?_
      rintro N'' u m'' - hm'' - rfl
      cases u with
      | object i c =>
        dsimp only
        split
        · exact methodValue_names hm'' _ _
        · exact Safe.fail hm'' trivial
      | _ => exact Safe.fail hm'' trivial
    | _ => exact Safe.fail hm' trivial

theorem unary_names (heval : EvalNames eval) (hm : m.GlobalsAre N) (operator : Token)
    (operand : Expr NodeId) : KeepsNames (fun w => unary w (eval w) operator operand) N m := by
  have hincrement := increment_names hm operand operator
  have hoperand := heval N m operand hm
  unfold unary
  split
  · exact hincrement.bind fun _ _ _ _ hm' _ h => Safe.pure hm' h
  · exact hincrement.bind fun _ _ _ _ hm' _ h => Safe.pure hm' h
  · exact hoperand.bind fun _ _ _ _ hm' _ h =>
      Safe.ofExcept hm' (fun _ _ => h) fun _ _ => trivial
  · exact hoperand.bind fun _ _ _ _ hm' _ h => Safe.pure hm' h
  · exact Safe.fail hm trivial

/-! ## Declarations -/

theorem declareFunction_names (hm : m.GlobalsAre N) (decl : FunctionDecl (Stmt NodeId)) :
    Safe naming N (fun _ => declareFunction decl) m fun N' _ _ =>
      N' = if m.current = Machine.globalFrame then N.add [decl.name.text] else N := by
  unfold declareFunction
  refine Safe.get ((freshIdentity_names hm).bind ?_)
  rintro N' id m' - hm' hc rfl
  rw [← hc]
  exact define_names hm' _ _

theorem classContext_names (hm : m.GlobalsAre N) (decl : ClassDecl NodeId (Stmt NodeId)) :
    KeepsNames (fun w => classContext w decl) N m := by
  unfold classContext
  cases decl.superclass with
  | none => exact Safe.get (Safe.pure hm rfl)
  | some s =>
    have hsuper : KeepsNames (fun w => superclass w s) N m := by
      unfold superclass
      refine (lookUp_names hm s.id s.name).bind ?_
      rintro N' v m' - hm' - rfl
      cases v with
      | classObject c => exact Safe.pure hm' rfl
      | _ => exact Safe.fail hm' trivial
    refine hsuper.bind ?_
    rintro N' c m' - hm' - rfl
    refine Safe.get ((openFrame_names hm' m'.current _ _).bind ?_)
    rintro N'' f m'' - hm'' - ⟨rfl, -⟩
    exact Safe.pure hm'' rfl

theorem declareClass_names (hm : m.GlobalsAre N) (decl : ClassDecl NodeId (Stmt NodeId)) :
    Safe naming N (fun w => declareClass w decl) m fun N' _ _ =>
      N' = if m.current = Machine.globalFrame then N.add [decl.name.text] else N := by
  unfold declareClass
  refine (classContext_names hm decl).bind ?_
  rintro N' ⟨inherited, frame⟩ m' - hm' hc rfl
  refine (freshIdentity_names hm').bind ?_
  rintro N'' id m'' - hm'' hc' rfl
  rw [← hc, ← hc']
  exact define_names hm'' _ _

/-! ## Expressions and statements -/

/-- One more level of expressions. -/
theorem evalWith_names_succ {fuel : Nat} (heval : EvalNames fun w => evalWith w fuel)
    (hexec : ExecNames fun w => execWith w fuel) : EvalNames fun w => evalWith w (fuel + 1) := by
  intro N m e hm
  dsimp only
  unfold evalWith
  cases e with
  | literal value => exact Safe.pure hm rfl
  | grouping inner => exact heval N m inner hm
  | unary operator operand => exact unary_names heval hm operator operand
  | suffixed operand operator =>
    exact (increment_names hm operand operator).bind fun _ _ _ _ hm' _ h => Safe.pure hm' h
  | binary left operator right =>
    refine (heval N m left hm).bind ?_
    rintro N' l m' - hm' - rfl
    refine (heval _ m' right hm').bind ?_
    rintro N'' r m'' - hm'' - rfl
    exact Safe.ofExcept hm'' (fun _ _ => rfl) fun _ _ => trivial
  | logical left operator right =>
    refine (heval N m left hm).bind ?_
    rintro N' l m' - hm' - rfl
    split
    · exact Safe.pure hm' rfl
    · exact heval _ m' right hm'
  | «variable» id name => exact lookUp_names hm id name
  | assign id name value =>
    refine (heval N m value hm).bind ?_
    rintro N' v m' - hm' - rfl
    refine (assign_names hm' id name v).bind ?_
    rintro N'' _ m'' - hm'' - rfl
    exact Safe.pure hm'' rfl
  | call callee line arguments =>
    refine (heval N m callee hm).bind ?_
    rintro N' f m' - hm' - rfl
    refine (evalAll_names heval hm' arguments).bind ?_
    rintro N'' args m'' - hm'' - rfl
    exact call_names heval hexec hm'' line f args
  | get object name =>
    refine (heval N m object hm).bind ?_
    rintro N' v m' - hm' - rfl
    exact property_names hm' v name
  | set object name value =>
    refine (heval N m object hm).bind ?_
    rintro N' target m' - hm' - rfl
    refine Safe.told hm' trivial ?_
    cases target with
    | object id c =>
      refine (heval _ m' value hm').bind ?_
      rintro V v n - hn - rfl
      have hset : KeepsNames (fun _ => setField id name.text v) V n :=
        Safe.of_ok (fun _ => rfl) trivial ⟨hn.frame, hn.names⟩ rfl rfl
      exact hset.bind fun _ _ _ _ hm' _ h => Safe.pure hm' h
    | _ => exact Safe.fail hm' trivial
  | this id keyword => exact lookUp_names hm id keyword
  | super id keyword method => exact superMethod_names hm id keyword method

end

/-- Binding nothing at the top level or elsewhere. -/
theorem binds_nothing (N : GlobalNames) (f : FrameId) {α : Type} {x : Watch → Run α}
    (h : KeepsNames x N m) :
    Safe naming N x m fun N' _ _ => N' = if f = Machine.globalFrame then N.add [] else N :=
  h.mono fun N' _ _ _ _ _ hN => by rw [hN, GlobalNames.add_nil, ite_self]

/-- A branch binds no name in the frame around it. -/
theorem execBranch_names {exec : Watch → ExecFn} (hexec : ExecNames exec) (hm : m.GlobalsAre N)
    {s : Stmt NodeId} (hs : m.current = Machine.globalFrame → s.Shaped ∧ s.isBranch = true) :
    KeepsNames (fun w => exec w s) N m := by
  refine (hexec N m s hm fun h => (hs h).1).mono ?_
  intro N' _ _ _ _ _ hN
  rw [hN]
  split
  next h => rw [Stmt.declares_of_isBranch (hs h).2, GlobalNames.add_nil]
  next => rfl

/-- One more level of statements. -/
theorem execWith_names_succ {fuel : Nat} (heval : EvalNames fun w => evalWith w fuel)
    (hexec : ExecNames fun w => execWith w fuel) : ExecNames fun w => execWith w (fuel + 1) := by
  intro N m s hm hs
  dsimp only
  unfold execWith
  refine Safe.told hm trivial ?_
  cases s with
  | expression value =>
    refine binds_nothing N _ ((heval N m value hm).bind ?_)
    rintro N' _ m' - hm' - rfl
    exact Safe.pure hm' rfl
  | print value =>
    refine binds_nothing N _ ((heval N m value hm).bind ?_)
    rintro N' v m' - hm' - rfl
    exact (print_names hm' v.text).bind fun _ _ _ _ hm' _ h => Safe.pure hm' h
  | var decl =>
    refine (evalOption_names heval hm decl.initializer).bind ?_
    rintro N' v m' - hm' hc rfl
    rw [← hc]
    exact (define_names hm' decl.name.text v).bind fun _ _ _ _ hm' _ h => Safe.pure hm' h
  | block body => exact binds_nothing N _ (execBlock_names hexec hm body)
  | ifThen condition thenBranch =>
    refine binds_nothing N _ ((heval N m condition hm).bind ?_)
    rintro N' v m' - hm' hc rfl
    split
    · exact execBranch_names hexec hm' fun h => ⟨(hs (hc ▸ h)).2.1, (hs (hc ▸ h)).2.2⟩
    · exact Safe.pure hm' rfl
  | ifElse condition thenBranch elseBranch =>
    refine binds_nothing N _ ((heval N m condition hm).bind ?_)
    rintro N' v m' - hm' hc rfl
    split
    · exact execBranch_names hexec hm' fun h => (hs (hc ▸ h)).2.1
    · exact execBranch_names hexec hm' fun h => (hs (hc ▸ h)).2.2
  | whileLoop condition body =>
    refine binds_nothing N _ ((heval N m condition hm).bind ?_)
    rintro N' v m' - hm' hc rfl
    split
    · refine (execBranch_names hexec hm' fun h => (hs (hc ▸ h)).2).bind ?_
      rintro N'' flow m'' - hm'' hc' rfl
      cases flow with
      | normal => exact execBranch_names hexec hm'' fun h => ⟨hs (hc ▸ hc' ▸ h), rfl⟩
      | returned v => exact Safe.pure hm'' rfl
    · exact Safe.pure hm' rfl
  | function decl =>
    exact (declareFunction_names hm decl).bind fun _ _ _ _ hm' _ h => Safe.pure hm' h
  | returnWith keyword value =>
    refine binds_nothing N _ ((evalOption_names heval hm value).bind ?_)
    rintro N' v m' - hm' - rfl
    exact Safe.pure hm' rfl
  | classDecl decl =>
    exact (declareClass_names hm decl).bind fun _ _ _ _ hm' _ h => Safe.pure hm' h

theorem run_names (fuel : Nat) :
    EvalNames (fun w => evalWith w fuel) ∧ ExecNames fun w => execWith w fuel := by
  induction fuel with
  | zero =>
    constructor
    · intro N m e hm
      dsimp only
      unfold evalWith
      exact Safe.throw hm trivial
    · intro N m s hm _
      dsimp only
      unfold execWith
      exact Safe.throw hm trivial
  | succ fuel ih => exact ⟨evalWith_names_succ ih.1 ih.2, execWith_names_succ ih.1 ih.2⟩

end Run

/-- A program that runs to its end binds exactly the names that it declares. -/
theorem Machine.runAll_names {exec : Watch → Run.ExecFn} (hexec : Run.ExecNames exec)
    {N : GlobalNames} {m : Machine} (hm : m.GlobalsAre N) (hc : m.current = globalFrame)
    {program : List (Stmt NodeId)} (hs : Stmt.ShapedAll program) :
    Safe naming N (fun w => runAll (exec w) program) m fun N' _ _ =>
      N' = N.add (declaredNames program) := by
  induction program generalizing N m with
  | nil => exact Safe.pure hm (GlobalNames.add_nil N).symm
  | cons s rest ih =>
    refine (hexec N m s hm fun _ => hs.1).bind ?_
    rintro N' flow m' - hm' hc' hN
    rw [if_pos hc] at hN
    subst hN
    refine (ih hm' (hc'.trans hc) hs.2).mono ?_
    rintro N'' _ _ - - - rfl
    exact (GlobalNames.add_append N s.declares (declaredNames rest)).symm

/-- A run of a program, whether it fails or not, keeps the global frame, and binds exactly the declared
names if it succeeds. -/
theorem Machine.interpret_names {N : GlobalNames} {m : Machine} (hm : m.GlobalsAre N) (fuel : Nat)
    {program : List (Stmt NodeId)} (hs : Stmt.ShapedAll program) :
    globalFrame < (m.interpret fuel program).2.frames.nextId ∧
      ((m.interpret fuel program).1 = .ok () →
        (m.interpret fuel program).2.GlobalsAre (N.add (declaredNames program))) := by
  have hrun := runAll_names (Run.run_names fuel).2 (m := { m with current := globalFrame })
    ⟨hm.frame, hm.names⟩ rfl hs
  obtain ⟨N', -, hm', hdone, -⟩ := hrun.interpret
  exact ⟨hm'.frame, fun h => hdone h ▸ hm'⟩

end ClassScript
