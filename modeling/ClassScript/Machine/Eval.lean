import ClassScript.Machine.Basic
import ClassScript.Value.Operators

/-!
# Running programs

`eval` finds the value of an expression and `exec` runs a statement, which ends normally or with a
`return`. Fuel bounds the depth of the recursion; a run that ends before the fuel is used up ends
the same way with more fuel. What a call, a construction or a block does is said once, over any
way to run expressions and statements. `evalWith` and `execWith` are the same under a watch.
-/

set_option autoImplicit false

namespace ClassScript

/-- How a statement ends. -/
inductive Flow where
  | normal
  | returned (v : Value)
  deriving Repr

namespace Run

/-- A way to run expressions. -/
abbrev EvalFn := Expr NodeId → Run Value

/-- A way to run statements. -/
abbrev ExecFn := Stmt NodeId → Run Flow

/-! ## Sequences -/

/-- The values of expressions, from left to right. -/
def evalAll (eval : EvalFn) : List (Expr NodeId) → Run (List Value)
  | [] => return []
  | e :: rest => do
    let v ← eval e
    let vs ← evalAll eval rest
    return v :: vs

/-- The value of an expression that may be missing, `nil` without one. -/
def evalOption (eval : EvalFn) : Option (Expr NodeId) → Run Value
  | none => return .nil
  | some e => eval e

/-- Statements in order, up to the first one that returns. -/
def execAll (exec : ExecFn) : List (Stmt NodeId) → Run Flow
  | [] => return .normal
  | s :: rest => do
    match ← exec s with
    | .normal => execAll exec rest
    | .returned v => return .returned v

/-- Statements in a new frame inside the current one. -/
def execBlock (watch : Watch) (exec : ExecFn) (body : List (Stmt NodeId)) : Run Flow := do
  let frame ← openFrame watch (← get).current .empty (.block body)
  inFrame frame (execAll exec body)

/-! ## Calls -/

/-- The method as a function of an object: in a frame of its own it knows the object as `this`. -/
def bindMethod (watch : Watch) (method : Closure) (this : Value) : Run Closure := do
  let frame ← openFrame watch method.frame (.single "this" this) (.method method.decl)
  return { method with frame }

/-- The method of an object as a value. -/
def methodValue (watch : Watch) (method : Closure) (this : Value) : Run Value := do
  let bound ← bindMethod watch method this
  return .function (← freshIdentity) bound

/-- The parameters of a function bound to arguments. -/
def paramBindings (params : List Param) (args : List Value) : Bindings Value :=
  .ofList ((params.map fun p => p.name.text).zip args)

/-- What a call returns: an initializer its object, any other function what it has returned, or
else `nil`. -/
def callResult (f : Closure) : Flow → Run Value
  | .normal =>
    if f.isInitializer then initialized f else return .nil
  | .returned v =>
    if f.isInitializer then initialized f else return v
where
  /-- The object that a bound initializer has set up. -/
  initialized (f : Closure) : Run Value := do
    ofLookup f.decl.name.line ((← get).frames.getAt f.frame 0 "this")

/-- Runs the body of a function in a new frame with its arguments. -/
def invoke (watch : Watch) (exec : ExecFn) (f : Closure) (args : List Value) : Run Value := do
  let frame ← openFrame watch f.frame (paramBindings f.decl.params args) (.call f.decl)
  let flow ← inFrame frame (execAll exec f.decl.body)
  callResult f flow

/-- Sets the fields of one layer of a class, in order. -/
def setFields (eval : EvalFn) (id : ObjectId) (frame : FrameId) : List (VarDecl NodeId) → Run Unit
  | [] => return ()
  | d :: rest => do
    let v ← inFrame frame (evalOption eval d.initializer)
    setField id d.name.text v
    setFields eval id frame rest

/-- Sets the fields of one layer of a class; their initial values know the object as `this`. -/
def setLayer (watch : Watch) (eval : EvalFn) (id : ObjectId) (this : Value) (layer : Layer) :
    Run Unit := do
  if layer.fields.isEmpty then return ()
  let frame ← openFrame watch layer.frame (.single "this" this) (.fields layer.fields)
  setFields eval id frame layer.fields

/-- Sets the fields of layers, in order. -/
def setLayers (watch : Watch) (eval : EvalFn) (id : ObjectId) (this : Value) :
    List Layer → Run Unit
  | [] => return ()
  | layer :: rest => do
    setLayer watch eval id this layer
    setLayers watch eval id this rest

/-- A new object: its fields are set, those of ancestors first, and then the initializer of its
class runs. -/
def construct (watch : Watch) (eval : EvalFn) (exec : ExecFn) (c : ClassValue)
    (args : List Value) : Run Value := do
  let id ← newObject
  let this := Value.object id c
  setLayers watch eval id this c.layers.reverse
  match c.initializer? with
  | some initializer =>
    let bound ← bindMethod watch initializer this
    let _ ← invoke watch exec bound args
    return this
  | none => return this

/-- Fails unless a call has the expected number of arguments. -/
def checkArity (line expected got : Nat) : Run Unit :=
  if expected = got then pure () else fail (.arity expected got) line

/-- Calls a value. -/
def call (watch : Watch) (eval : EvalFn) (exec : ExecFn) (line : Nat) (f : Value)
    (args : List Value) : Run Value := do
  match f with
  | .native id arity =>
    checkArity line arity args.length
    callNative id args
  | .function _ closure =>
    checkArity line closure.decl.params.length args.length
    invoke watch exec closure args
  | .classObject c =>
    checkArity line c.arity args.length
    construct watch eval exec c args
  | _ => fail .notCallable line

/-! ## Properties -/

/-- A property of an object: a field, or else a method. -/
def property (watch : Watch) (object : Value) (name : Name) : Run Value := do
  watch (.access object name)
  match object with
  | .object id c =>
    match ← getField? id name.text with
    | some v => return v
    | none =>
      match c.findMethod? name.text with
      | some method => methodValue watch method object
      | none => fail (.undefinedProperty name.text) name.line
  | _ => fail .notObject name.line

/-- A method of the superclass for the current object. The frame that binds `this` is the one just
inside the frame that binds `super`. -/
def superMethod (watch : Watch) (id : NodeId) (keyword method : Name) : Run Value := do
  watch (.super id keyword method)
  let m ← get
  match m.distance? id with
  | none => fail .superOutsideClass keyword.line
  | some d =>
    match ← ofLookup keyword.line (m.frames.getAt m.current d "super") with
    | .classObject superclass =>
      match ← ofLookup keyword.line (m.frames.getAt m.current (d - 1) "this") with
      | .object i c =>
        match superclass.findMethod? method.text with
        | some found => methodValue watch found (.object i c)
        | none => fail (.undefinedProperty method.text) method.line
      | _ => fail .superOutsideMethod keyword.line
    | _ => fail .superclass keyword.line

/-! ## Increments -/

/-- The values of a variable before and after an increment or a decrement. -/
def increment (watch : Watch) (operand : Expr NodeId) (operator : Token) :
    Run (Value × Value) := do
  match operand with
  | .variable id name =>
    match ← lookUp watch id name with
    | .number old =>
      let new := if operator.isSymbol .plusPlus then old + 1 else old - 1
      assign id name (.number new)
      return (.number old, .number new)
    | _ => fail (.operands .number) operator.line
  | _ => fail (.operandNotVariable operator.lexeme) operator.line

/-- The value of an operator in front of an expression. -/
def unary (watch : Watch) (eval : EvalFn) (operator : Token) (operand : Expr NodeId) :
    Run Value := do
  match operator.kind with
  | .symbol .plusPlus => return (← increment watch operand operator).2
  | .symbol .minusMinus => return (← increment watch operand operator).2
  | .symbol .minus => ofExcept (Operators.negate operator.line (← eval operand))
  | .symbol .bang => return .boolean (!(← eval operand).isTruthy)
  | _ => fail (.invalidUnary operator.lexeme) operator.line

/-- Whether the left operand decides a logical operator: a true one decides `or`, a false one any
other operator. -/
def decides (operator : Token) (left : Value) : Bool :=
  if operator.isSymbol .orWord then left.isTruthy else !left.isTruthy

/-! ## Classes -/

/-- The class that a superclass name stands for. -/
def superclass (watch : Watch) (s : SuperclassRef NodeId) : Run ClassValue := do
  match ← lookUp watch s.id s.name with
  | .classObject c => return c
  | _ => fail .superclass s.name.line

/-- The layers of a superclass and the frame around the members of a class: with a superclass, a
new frame that knows it as `super`. -/
def classContext (watch : Watch) (decl : ClassDecl NodeId (Stmt NodeId)) :
    Run (List Layer × FrameId) := do
  match decl.superclass with
  | none => return ([], (← get).current)
  | some s =>
    let c ← superclass watch s
    let frame ← openFrame watch (← get).current (.single "super" (.classObject c))
      (.superclass decl)
    return (c.layers, frame)

/-- The methods of a class; the last one of a name stays. -/
def classMethods (className : Name) (frame : FrameId)
    (methods : List (FunctionDecl (Stmt NodeId))) : Bindings Closure :=
  .ofList (methods.map fun d => (d.name.text, ⟨d, frame, d.name.text == className.text⟩))

/-- Binds the name of a class to the class. -/
def declareClass (watch : Watch) (decl : ClassDecl NodeId (Stmt NodeId)) : Run Unit := do
  let (inherited, frame) ← classContext watch decl
  let methods := classMethods decl.name frame decl.methods
  let own : Layer := ⟨← freshIdentity, decl.name.text, decl.fields, methods, frame⟩
  define decl.name.text (.classObject ⟨own, inherited⟩)

/-- Binds the name of a function to the function. -/
def declareFunction (decl : FunctionDecl (Stmt NodeId)) : Run Unit := do
  let closure : Closure := ⟨decl, (← get).current, false⟩
  define decl.name.text (.function (← freshIdentity) closure)

/-! ## Expressions and statements -/

mutual

/-- The value of an expression, under a watch. -/
def evalWith (watch : Watch) : (fuel : Nat) → Expr NodeId → Run Value
  | 0, _ => throw .outOfFuel
  | fuel + 1, e =>
    match e with
    | .literal value => return .ofLiteral value
    | .grouping inner => evalWith watch fuel inner
    | .unary operator operand => unary watch (evalWith watch fuel) operator operand
    | .suffixed operand operator => do return (← increment watch operand operator).1
    | .binary left operator right => do
      let l ← evalWith watch fuel left
      let r ← evalWith watch fuel right
      ofExcept (Operators.binary operator l r)
    | .logical left operator right => do
      let l ← evalWith watch fuel left
      if decides operator l then return l
      evalWith watch fuel right
    | .variable id name => lookUp watch id name
    | .assign id name value => do
      let v ← evalWith watch fuel value
      assign id name v
      return v
    | .call callee line arguments => do
      let f ← evalWith watch fuel callee
      let args ← evalAll (evalWith watch fuel) arguments
      call watch (evalWith watch fuel) (execWith watch fuel) line f args
    | .get object name => do
      let v ← evalWith watch fuel object
      property watch v name
    | .set object name value => do
      let target ← evalWith watch fuel object
      watch (.access target name)
      match target with
      | .object id _ =>
        let v ← evalWith watch fuel value
        setField id name.text v
        return v
      | _ => fail .fieldOfNoObject name.line
    | .this id keyword => lookUp watch id keyword
    | .super id keyword method => superMethod watch id keyword method

/-- Runs a statement, under a watch. -/
def execWith (watch : Watch) : (fuel : Nat) → Stmt NodeId → Run Flow
  | 0, _ => throw .outOfFuel
  | fuel + 1, s => do
    watch (.statement s)
    match s with
    | .expression value => do
      let _ ← evalWith watch fuel value
      return .normal
    | .print value => do
      let v ← evalWith watch fuel value
      print v.text
      return .normal
    | .var decl => do
      let v ← evalOption (evalWith watch fuel) decl.initializer
      define decl.name.text v
      return .normal
    | .block body => execBlock watch (execWith watch fuel) body
    | .ifThen condition thenBranch => do
      if (← evalWith watch fuel condition).isTruthy then execWith watch fuel thenBranch else return .normal
    | .ifElse condition thenBranch elseBranch => do
      if (← evalWith watch fuel condition).isTruthy then execWith watch fuel thenBranch else execWith watch fuel elseBranch
    | .whileLoop condition body => do
      if (← evalWith watch fuel condition).isTruthy then
        match ← execWith watch fuel body with
        | .normal => execWith watch fuel (.whileLoop condition body)
        | .returned v => return .returned v
      else return .normal
    | .function decl => do
      declareFunction decl
      return .normal
    | .returnWith _ value => do
      let v ← evalOption (evalWith watch fuel) value
      return .returned v
    | .classDecl decl => do
      declareClass watch decl
      return .normal

end

/-- The value of an expression. -/
def eval (fuel : Nat) (e : Expr NodeId) : Run Value :=
  evalWith .none fuel e

/-- Runs a statement. -/
def exec (fuel : Nat) (s : Stmt NodeId) : Run Flow :=
  execWith .none fuel s

end Run

namespace Machine

/-- Runs the statements of a program, up to the first one that stops the run. -/
def runAll (exec : Run.ExecFn) : List (Stmt NodeId) → Run Unit
  | [] => return ()
  | s :: rest => do
    let _ ← exec s
    runAll exec rest

/-- Flushes the output after a run; a failure to do so is the outcome of the run. -/
def finish (outcome : Except Stop Unit) (m : Machine) : Except Stop Unit × Machine :=
  match m.sink.flush with
  | .ok _ => (outcome, m)
  | .error e => (.error (.output e), m)

/-- A flush leaves the machine as it is. -/
theorem finish_machine (outcome : Except Stop Unit) (m : Machine) : (finish outcome m).2 = m := by
  unfold finish
  split <;> rfl

/-- Runs a program among the global names, under a watch. -/
def interpretWith (watch : Watch) (fuel : Nat) (program : List (Stmt NodeId)) (m : Machine) :
    Except Stop Unit × Machine :=
  match runAll (Run.execWith watch fuel) program { m with current := globalFrame } with
  | .ok _ m => finish (.ok ()) m
  | .error e m => finish (.error e) m

/-- Runs a program among the global names. -/
def interpret (fuel : Nat) (program : List (Stmt NodeId)) (m : Machine) :
    Except Stop Unit × Machine :=
  m.interpretWith .none fuel program

end Machine

end ClassScript
