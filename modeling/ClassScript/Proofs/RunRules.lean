import ClassScript.Machine.Eval

/-!
# Rules for parts of runs

The evaluator is built from a few operations on the machine, from what it tells a watch, and from
parts that run one after the other or in another frame. A property of parts of runs with a rule for
each of these (`Run.Rules`) holds of every expression, statement and program (`Run.Rules.run`,
`Run.Rules.program`). None of the rules but that for printing is about the output: what is read from
the machine does not depend on where the output goes.
-/

set_option autoImplicit false

namespace ClassScript

namespace Run

/-- A property of parts of runs, under any watch, that holds of what they are built from and goes over
from parts to what is built from them. -/
structure Rules (C : (α : Type) → (Watch → Run α) → Prop) : Prop where
  pure {α : Type} (a : α) : C α fun _ => Pure.pure a
  throw {α : Type} (e : Stop) : C α fun _ => throwThe Stop e
  bind {α β : Type} {x : Watch → Run α} {f : Watch → α → Run β} :
    C α x → (∀ a, C β fun w => f w a) → C β fun w => x w >>= f w
  get {α : Type} {f : Watch → Machine → Run α} :
    (∀ w m sink, f w { m with sink } = f w m) → (∀ m, C α fun w => f w m) →
      C α fun w => MonadState.get >>= f w
  tell (e : Event) : C Unit fun w => w e
  inFrame {α : Type} {x : Watch → Run α} (frame : FrameId) :
    C α x → C α fun w => Run.inFrame frame (x w)
  freshIdentity : C Nat fun _ => Run.freshIdentity
  newFrame (outer : FrameId) (vars : Bindings Value) : C FrameId fun _ => Run.newFrame outer vars
  newObject : C ObjectId fun _ => Run.newObject
  setField (i : ObjectId) (x : String) (v : Value) : C Unit fun _ => Run.setField i x v
  define (x : String) (v : Value) : C Unit fun _ => Run.define x v
  defineIn (frame : FrameId) (x : String) (v : Value) :
    C Unit fun _ => modify fun m => { m with frames := m.frames.define frame x v }
  print (text : String) : C Unit fun _ => Run.print text

namespace Rules

variable {C : (α : Type) → (Watch → Run α) → Prop} {α β : Type}

section

variable (h : Rules C)
include h

theorem fail (cause : RuntimeCause) (line : Nat) : C α fun _ => Run.fail cause line :=
  h.throw _

theorem ofExcept (r : Except RuntimeError α) : C α fun _ => Run.ofExcept r := by
  cases r with
  | ok a => exact h.pure a
  | error e => exact h.throw _

theorem ofLookup (line : Nat) (r : Except LookupError α) : C α fun _ => Run.ofLookup line r := by
  cases r with
  | ok a => exact h.pure a
  | error e => exact h.fail _ _

/-- A part after which its value is made into another one. -/
theorem map {x : Watch → Run α} (hx : C α x) (f : α → β) :
    C β fun w => x w >>= fun a => Pure.pure (f a) :=
  h.bind hx fun a => h.pure (f a)

/-! ## Operations -/

theorem openFrame (outer : FrameId) (vars : Bindings Value) (o : Opening) :
    C FrameId fun w => Run.openFrame w outer vars o := by
  unfold Run.openFrame
  exact h.bind (h.newFrame outer vars) fun f => h.map (h.tell (.opened f o)) fun _ => f

theorem lookUp (id : NodeId) (name : Name) : C Value fun w => Run.lookUp w id name := by
  unfold Run.lookUp
  exact h.bind (h.tell (.read id name)) fun _ => h.get (fun _ _ _ => rfl) fun _ => h.ofLookup _ _

theorem assign (id : NodeId) (name : Name) (v : Value) : C Unit fun _ => Run.assign id name v := by
  unfold Run.assign
  refine h.get (fun _ _ _ => rfl) fun m => ?_
  exact h.bind (h.ofLookup name.line (m.slot id name)) fun slot => h.defineIn slot name.text v

theorem getField? (i : ObjectId) (x : String) :
    C (Option Value) fun _ => Run.getField? i x :=
  h.get (fun _ _ _ => rfl) fun _ => h.pure _

theorem bindMethod (method : Closure) (this : Value) :
    C Closure fun w => Run.bindMethod w method this := by
  unfold Run.bindMethod
  exact h.map (h.openFrame method.frame _ (.method method.decl)) _

theorem methodValue (method : Closure) (this : Value) :
    C Value fun w => Run.methodValue w method this := by
  unfold Run.methodValue
  exact h.bind (h.bindMethod method this) fun _ => h.map h.freshIdentity _

theorem callResult (f : Closure) (flow : Flow) : C Value fun _ => Run.callResult f flow := by
  have hinit : C Value fun _ => Run.callResult.initialized f :=
    h.get (fun _ _ _ => rfl) fun _ => h.ofLookup _ _
  unfold Run.callResult
  cases flow <;> dsimp only <;> split
  · exact hinit
  · exact h.pure _
  · exact hinit
  · exact h.pure _

theorem checkArity (line expected got : Nat) :
    C Unit fun _ => Run.checkArity line expected got := by
  unfold Run.checkArity
  split
  · exact h.pure ()
  · exact h.fail _ _

theorem callNative (id : Nat) (args : List Value) : C Value fun _ => Run.callNative id args := by
  unfold Run.callNative
  refine h.get (fun _ _ _ => rfl) fun n => ?_
  cases n.natives[id]? with
  | none => exact h.pure Value.nil
  | some f => exact h.ofExcept _

theorem property (object : Value) (name : Name) : C Value fun w => Run.property w object name := by
  unfold Run.property
  refine h.bind (h.tell (.access object name)) fun _ => ?_
  cases object with
  | object id c =>
    refine h.bind (h.getField? id name.text) fun r => ?_
    cases r with
    | some v => exact h.pure v
    | none =>
      dsimp only
      split
      · exact h.methodValue _ _
      · exact h.fail _ _
  | _ => exact h.fail _ _

theorem superMethod (id : NodeId) (keyword method : Name) :
    C Value fun w => Run.superMethod w id keyword method := by
  unfold Run.superMethod
  refine h.bind (h.tell (.super id keyword method)) fun _ => h.get (fun _ _ _ => rfl) fun n => ?_
  cases n.distance? id with
  | none => exact h.fail _ _
  | some d =>
    refine h.bind (h.ofLookup _ _) fun v => ?_
    cases v with
    | classObject superclass =>
      refine h.bind (h.ofLookup _ _) fun u => ?_
      cases u with
      | object i c =>
        dsimp only
        split
        · exact h.methodValue _ _
        · exact h.fail _ _
      | _ => exact h.fail _ _
    | _ => exact h.fail _ _

theorem increment (operand : Expr NodeId) (operator : Token) :
    C (Value × Value) fun w => Run.increment w operand operator := by
  cases operand with
  | «variable» id name =>
    refine h.bind (h.lookUp id name) fun v => ?_
    cases v with
    | number old => exact h.map (h.assign id name _) _
    | _ => exact h.fail _ _
  | _ => exact h.fail _ _

/-! ## Declarations -/

theorem declareFunction (decl : FunctionDecl (Stmt NodeId)) :
    C Unit fun _ => Run.declareFunction decl := by
  unfold Run.declareFunction
  exact h.get (fun _ _ _ => rfl) fun _ => h.bind h.freshIdentity fun _ => h.define _ _

theorem superclass (s : SuperclassRef NodeId) : C ClassValue fun w => Run.superclass w s := by
  unfold Run.superclass
  refine h.bind (h.lookUp s.id s.name) fun v => ?_
  cases v with
  | classObject c => exact h.pure c
  | _ => exact h.fail _ _

theorem classContext (decl : ClassDecl NodeId (Stmt NodeId)) :
    C (List Layer × FrameId) fun w => Run.classContext w decl := by
  unfold Run.classContext
  cases decl.superclass with
  | none => exact h.get (fun _ _ _ => rfl) fun _ => h.pure _
  | some s =>
    refine h.bind (h.superclass s) fun c => h.get (fun _ _ _ => rfl) fun n => ?_
    exact h.map (h.openFrame n.current _ (.superclass decl)) _

theorem declareClass (decl : ClassDecl NodeId (Stmt NodeId)) :
    C Unit fun w => Run.declareClass w decl := by
  unfold Run.declareClass
  refine h.bind (h.classContext decl) fun context => ?_
  exact h.bind h.freshIdentity fun _ => h.define _ _

/-! ## Sequences and calls -/

section

variable {eval : Watch → EvalFn} (heval : ∀ e, C Value fun w => eval w e)
include heval

theorem evalAll (es : List (Expr NodeId)) : C (List Value) fun w => Run.evalAll (eval w) es := by
  induction es with
  | nil => exact h.pure []
  | cons e rest ih => exact h.bind (heval e) fun v => h.map ih _

theorem evalOption (e : Option (Expr NodeId)) : C Value fun w => Run.evalOption (eval w) e := by
  cases e with
  | none => exact h.pure Value.nil
  | some e => exact heval e

theorem setFields (id : ObjectId) (frame : FrameId) (ds : List (VarDecl NodeId)) :
    C Unit fun w => Run.setFields (eval w) id frame ds := by
  induction ds with
  | nil => exact h.pure ()
  | cons d rest ih =>
    refine h.bind (h.inFrame frame (h.evalOption heval d.initializer)) fun v => ?_
    exact h.bind (h.setField id d.name.text v) fun _ => ih

theorem setLayers (id : ObjectId) (this : Value) (layers : List Layer) :
    C Unit fun w => Run.setLayers w (eval w) id this layers := by
  induction layers with
  | nil => exact h.pure ()
  | cons layer rest ih =>
    have hlayer : C Unit fun w => Run.setLayer w (eval w) id this layer := by
      unfold Run.setLayer
      split
      · exact h.pure ()
      · exact h.bind (h.openFrame layer.frame _ (.fields layer.fields))
          fun frame => h.setFields heval id frame layer.fields
    exact h.bind hlayer fun _ => ih

theorem unary (operator : Token) (operand : Expr NodeId) :
    C Value fun w => Run.unary w (eval w) operator operand := by
  have hincrement := h.increment operand operator
  unfold Run.unary
  split
  · exact h.map hincrement _
  · exact h.map hincrement _
  · exact h.bind (heval operand) fun _ => h.ofExcept _
  · exact h.map (heval operand) _
  · exact h.fail _ _

end

section

variable {exec : Watch → ExecFn} (hexec : ∀ s, C Flow fun w => exec w s)
include hexec

theorem execAll (ss : List (Stmt NodeId)) : C Flow fun w => Run.execAll (exec w) ss := by
  induction ss with
  | nil => exact h.pure Flow.normal
  | cons s rest ih =>
    refine h.bind (hexec s) fun flow => ?_
    cases flow with
    | normal => exact ih
    | returned v => exact h.pure (Flow.returned v)

theorem execBlock (body : List (Stmt NodeId)) :
    C Flow fun w => Run.execBlock w (exec w) body := by
  unfold Run.execBlock
  refine h.get (fun _ _ _ => rfl) fun n => ?_
  exact h.bind (h.openFrame n.current .empty (.block body))
    fun frame => h.inFrame frame (h.execAll hexec body)

theorem invoke (f : Closure) (args : List Value) :
    C Value fun w => Run.invoke w (exec w) f args := by
  unfold Run.invoke
  refine h.bind (h.openFrame f.frame _ (.call f.decl)) fun frame => ?_
  exact h.bind (h.inFrame frame (h.execAll hexec f.decl.body)) fun flow => h.callResult f flow

end

section

variable {eval : Watch → EvalFn} {exec : Watch → ExecFn}
  (heval : ∀ e, C Value fun w => eval w e) (hexec : ∀ s, C Flow fun w => exec w s)
include heval hexec

theorem construct (c : ClassValue) (args : List Value) :
    C Value fun w => Run.construct w (eval w) (exec w) c args := by
  unfold Run.construct
  refine h.bind h.newObject fun id => ?_
  refine h.bind (h.setLayers heval id _ c.layers.reverse) fun _ => ?_
  cases c.initializer? with
  | none => exact h.pure _
  | some initializer =>
    refine h.bind (h.bindMethod initializer _) fun bound => ?_
    exact h.map (h.invoke hexec bound args) _

theorem call (line : Nat) (f : Value) (args : List Value) :
    C Value fun w => Run.call w (eval w) (exec w) line f args := by
  unfold Run.call
  cases f with
  | native id arity =>
    exact h.bind (h.checkArity line arity args.length) fun _ => h.callNative id args
  | function id closure =>
    exact h.bind (h.checkArity line closure.decl.params.length args.length)
      fun _ => h.invoke hexec closure args
  | classObject c =>
    exact h.bind (h.checkArity line c.arity args.length) fun _ => h.construct heval hexec c args
  | _ => exact h.fail _ _

end

/-! ## Expressions and statements -/

section

variable {fuel : Nat} (heval : ∀ e, C Value fun w => evalWith w fuel e)
  (hexec : ∀ s, C Flow fun w => execWith w fuel s)
include heval hexec

/-- One more level of expressions. -/
theorem evalWith_succ (e : Expr NodeId) : C Value fun w => evalWith w (fuel + 1) e := by
  unfold evalWith
  cases e with
  | literal value => exact h.pure _
  | grouping inner => exact heval inner
  | unary operator operand => exact h.unary heval operator operand
  | suffixed operand operator => exact h.map (h.increment operand operator) _
  | binary left operator right =>
    exact h.bind (heval left) fun _ => h.bind (heval right) fun _ => h.ofExcept _
  | logical left operator right =>
    refine h.bind (heval left) fun l => ?_
    split
    · exact h.pure l
    · exact heval right
  | «variable» id name => exact h.lookUp id name
  | assign id name value => exact h.bind (heval value) fun v => h.map (h.assign id name v) _
  | call callee line arguments =>
    refine h.bind (heval callee) fun f => h.bind (h.evalAll heval arguments) fun args => ?_
    exact h.call heval hexec line f args
  | get object name => exact h.bind (heval object) fun v => h.property v name
  | set object name value =>
    refine h.bind (heval object) fun target => h.bind (h.tell (.access target name)) fun _ => ?_
    cases target with
    | object id c => exact h.bind (heval value) fun v => h.map (h.setField id name.text v) _
    | _ => exact h.fail _ _
  | this id keyword => exact h.lookUp id keyword
  | super id keyword method => exact h.superMethod id keyword method

/-- One more level of statements. -/
theorem execWith_succ (s : Stmt NodeId) : C Flow fun w => execWith w (fuel + 1) s := by
  unfold execWith
  refine h.bind (h.tell (.statement s)) fun _ => ?_
  cases s with
  | expression value => exact h.map (heval value) _
  | print value => exact h.bind (heval value) fun v => h.map (h.print v.text) _
  | var decl =>
    exact h.bind (h.evalOption heval decl.initializer)
      fun v => h.map (h.define decl.name.text v) _
  | block body => exact h.execBlock hexec body
  | ifThen condition thenBranch =>
    refine h.bind (heval condition) fun v => ?_
    split
    · exact hexec thenBranch
    · exact h.pure _
  | ifElse condition thenBranch elseBranch =>
    refine h.bind (heval condition) fun v => ?_
    split
    · exact hexec thenBranch
    · exact hexec elseBranch
  | whileLoop condition body =>
    refine h.bind (heval condition) fun v => ?_
    split
    · refine h.bind (hexec body) fun flow => ?_
      cases flow with
      | normal => exact hexec (.whileLoop condition body)
      | returned v => exact h.pure _
    · exact h.pure _
  | function decl => exact h.map (h.declareFunction decl) _
  | returnWith keyword value => exact h.map (h.evalOption heval value) _
  | classDecl decl => exact h.map (h.declareClass decl) _

end

/-- What has the rules holds of every expression and every statement. -/
theorem run (fuel : Nat) : (∀ e, C Value fun w => evalWith w fuel e) ∧
    ∀ s, C Flow fun w => execWith w fuel s := by
  induction fuel with
  | zero =>
    constructor
    · intro e
      unfold evalWith
      exact h.throw _
    · intro s
      unfold execWith
      exact h.throw _
  | succ fuel ih => exact ⟨h.evalWith_succ ih.1 ih.2, h.execWith_succ ih.1 ih.2⟩

/-- What has the rules holds of every program. -/
theorem program (fuel : Nat) (program : List (Stmt NodeId)) :
    C Unit fun w => Machine.runAll (execWith w fuel) program := by
  induction program with
  | nil => exact h.pure ()
  | cons s rest ih => exact h.bind ((h.run fuel).2 s) fun _ => ih

end

end Rules

end Run

end ClassScript
