import ClassScript.Number.Shortest
import ClassScript.Scope.Frames
import ClassScript.Syntax.Basic
import ClassScript.Text.Quoted

/-!
# Values

Constants compare by what they are, everything else by identity: functions, classes and objects
carry a number of their own. A class is its own layer on top of the layers of its ancestors, each
with the fields and methods of one declaration.
-/

set_option autoImplicit false

namespace ClassScript

/-- The number of an object. -/
abbrev ObjectId := Nat

/-- A function with the frame in which it was declared. An initializer returns its object. -/
structure Closure where
  decl : FunctionDecl (Stmt NodeId)
  frame : FrameId
  isInitializer : Bool
  deriving Repr

/-- What one declaration adds to a class: fields, methods, and the frame around them. -/
structure Layer where
  id : Nat
  name : String
  fields : List (VarDecl NodeId)
  methods : Bindings Closure
  frame : FrameId
  deriving Repr

/-- A class: its own layer and the layers of its ancestors, nearest first. -/
structure ClassValue where
  own : Layer
  inherited : List Layer
  deriving Repr

namespace ClassValue

/-- All layers, the class's own first. -/
def layers (c : ClassValue) : List Layer :=
  c.own :: c.inherited

/-- The method of this name in the nearest layer that has one. -/
def findMethod? (c : ClassValue) (name : String) : Option Closure :=
  c.layers.findSome? fun l => l.methods.get? name

/-- The initializer: the class's own method with its own name. -/
def initializer? (c : ClassValue) : Option Closure :=
  c.own.methods.get? c.own.name

/-- The number of arguments of a constructor call. -/
def arity (c : ClassValue) : Nat :=
  match c.initializer? with
  | some f => f.decl.params.length
  | none => 0

end ClassValue

/-- A value. A native function is provided by the host. -/
inductive Value where
  | nil
  | boolean (b : Bool)
  | number (x : Float)
  | string (s : String)
  | native (id arity : Nat)
  | function (id : Nat) (closure : Closure)
  | classObject (c : ClassValue)
  | object (id : ObjectId) (c : ClassValue)
  deriving Repr

namespace Value

/-- The value of a constant. -/
def ofLiteral : Literal → Value
  | .nil => .nil
  | .boolean b => .boolean b
  | .number x => .number x
  | .string s => .string s

/-- Only `nil` and `false` do not count as true. -/
def isTruthy : Value → Bool
  | nil => false
  | boolean b => b
  | _ => true

/-- Equality: constants by value, where a number that is no number differs from itself, and all
else by identity. -/
def isEqual : Value → Value → Bool
  | nil, nil => true
  | boolean a, boolean b => a == b
  | number x, number y => x == y
  | string s, string t => s == t
  | native i _, native j _ => i == j
  | function i _, function j _ => i == j
  | classObject c, classObject d => c.own.id == d.own.id
  | object i _, object j _ => i == j
  | _, _ => false

/-- The number of arguments that a value takes when it is called. -/
def arity? : Value → Option Nat
  | native _ arity => some arity
  | function _ closure => some closure.decl.params.length
  | classObject c => some c.arity
  | _ => none

/-- The name of the kind of a value. -/
def kind : Value → String
  | nil => "nil"
  | boolean _ => "boolean"
  | number _ => "number"
  | string _ => "string"
  | native _ _ => "function"
  | function _ _ => "function"
  | classObject _ => "class"
  | object _ _ => "instance"

/-- A number as text: an integral one has all its digits, any other one the shortest digits that
read back; neither has an exponent. -/
def numberText (x : Float) : String :=
  match Exact.ofFloat x with
  | .nan => "NaN"
  | .infinite negative => if negative then "-inf" else "inf"
  | .finite negative m q =>
    let sign := if negative then "-" else ""
    if Exact.isWhole m q then sign ++ Decimal.digitText (Exact.floor m q)
    else sign ++ (Decimal.shortest .awayFromZero m q).positional

/-- A value as it is printed. -/
def text : Value → String
  | nil => "nil"
  | boolean true => "true"
  | boolean false => "false"
  | number x => numberText x
  | string s => s
  | native _ _ => "<native fn>"
  | function _ closure => "<fn " ++ closure.decl.name.text ++ ">"
  | classObject c => c.own.name
  | object _ c => c.own.name ++ " instance"

/-- A value as it is printed, but a string in quotes. -/
def quotedText : Value → String
  | string s => Text.quoted s
  | v => v.text

end Value

end ClassScript
