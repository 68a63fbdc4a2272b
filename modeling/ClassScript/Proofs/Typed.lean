import ClassScript.Proofs.BindingAgreement
import ClassScript.Proofs.ClassOrder

/-!
# Typed programs

What the check of a program means for its runs, as rules. A `Plan` fixes what holds for a whole
session: all classes that are ever entered, the types of the global names, and the distances of the
uses of names. `Expr.Typed` and `Stmt.Typed` relate code to types under a plan, so code that was
checked when fewer classes were known stays typed. Types stand without names of functions. A plan
that is `strict` has no use of a name that may miss it; another one lets the initial value of a
local variable assign to the variable, which stops the run. Under one that is `sealed` the initial
values of fields do not use the object whose fields they are.
-/

set_option autoImplicit false

namespace ClassScript

open Typing

/-- What is fixed while the programs of a session run. -/
structure Plan where
  classes : ClassTable
  coherent : classes.Coherent
  globals : String → Option Ty
  distance : NodeId → Option Nat
  uses : Nat
  strict : Bool
  sealed : Bool

namespace Plan

/-- A use of a name finds it where the check did, with this type. -/
structure Use (P : Plan) (Γ : TypeScope) (id : NodeId) (x : String) (ty : Ty) : Prop where
  type : Γ.get? x = some ty
  distance : P.distance id = Γ.depth? x
  lt : id < P.uses
  word : x ≠ "super"

/-- An assignment to the local variable whose initial value it stands in. -/
structure Own (P : Plan) (init : Option Name) (id : NodeId) (x : String) : Prop where
  loose : P.strict = false
  name : ∃ y, init = some y ∧ y.text = x
  distance : P.distance id = some 0
  lt : id < P.uses

/-- A use of `super` finds the superclass `p`, just outside the object that is `this`. -/
structure Super (P : Plan) (Γ : TypeScope) (id : NodeId) (p : ClassId) : Prop where
  lt : id < P.uses
  found : ∃ d outer inner c, P.distance id = some (d + 1) ∧
    Γ.locals[d + 1]? = some outer ∧ outer.get? "super" = some (.object p) ∧
    Γ.locals[d]? = some inner ∧ inner.get? "this" = some (.object c) ∧
    P.classes.isSubclass c p = true

/-- The name may be bound to the type. -/
structure Binds (P : Plan) (Γ : TypeScope) (name : Name) (ty : Ty) : Prop where
  fresh : Γ.Fresh name
  global : Γ.locals = [] → P.globals name.text = some ty.erase

/-- What the initial values of the fields of a class know of the object: nothing if they do not use
it. -/
def fieldScope (P : Plan) (id : ClassId) : Bindings Ty :=
  if P.sealed then .empty else .single "this" (.object id)

end Plan

/-- The scope around the members of a class, without `this`. -/
def memberScope (parent : Option ClassId) (Γ : TypeScope) : TypeScope :=
  match parent with
  | none => Γ
  | some p => Γ.enter (.single "super" (.object p))

theorem enterClass_eq (id : ClassId) (parent : Option ClassId) (Γ : TypeScope) :
    enterClass id parent Γ = (memberScope parent Γ).enter (.single "this" (.object id)) := by
  cases parent <;> rfl

/-! ## Expressions -/

mutual

/-- The expression has the type; `init` is the local variable whose initial value it stands in. -/
inductive Expr.Typed (P : Plan) (Γ : TypeScope) (init : Option Name) : Expr NodeId → Ty → Prop
  | literal {value : Literal} : Expr.Typed P Γ init (.literal value) (Typing.literal value)
  | grouping {inner : Expr NodeId} {τ : Ty} :
    Expr.Typed P Γ init inner τ → Expr.Typed P Γ init (.grouping inner) τ
  | change {operator : Token} {id : NodeId} {name : Name} :
    isIncrement operator = true → name.Free → P.Use Γ id name.text .number →
    Expr.Typed P Γ init (.unary operator (.variable id name)) .number
  | not {operator : Token} {operand : Expr NodeId} {τ : Ty} :
    operator.isSymbol .bang = true → Expr.Typed P Γ init operand τ →
    Expr.Typed P Γ init (.unary operator operand) .boolean
  | negate {operator : Token} {operand : Expr NodeId} :
    operator.isSymbol .minus = true → Expr.Typed P Γ init operand .number →
    Expr.Typed P Γ init (.unary operator operand) .number
  | suffixed {id : NodeId} {name : Name} {operator : Token} :
    name.Free → P.Use Γ id name.text .number →
    Expr.Typed P Γ init (.suffixed (.variable id name) operator) .number
  | binary {left right : Expr NodeId} {operator : Token} {σ τ υ : Ty} :
    Expr.Typed P Γ init left σ → Expr.Typed P Γ init right τ →
    Typing.binary P.classes operator σ τ = .ok υ →
    Expr.Typed P Γ init (.binary left operator right) υ
  | logical {left right : Expr NodeId} {operator : Token} :
    Expr.Typed P Γ init left .boolean → Expr.Typed P Γ init right .boolean →
    Expr.Typed P Γ init (.logical left operator right) .boolean
  | variable {id : NodeId} {name : Name} {ty : Ty} :
    P.Use Γ id name.text ty → Expr.Typed P Γ init (.variable id name) ty.erase
  | assign {id : NodeId} {name : Name} {value : Expr NodeId} {ty τ : Ty} :
    name.Free → P.Use Γ id name.text ty → Expr.Typed P Γ init value τ →
    P.classes.accepts ty τ = true → Expr.Typed P Γ init (.assign id name value) ty.erase
  | assignOwn {id : NodeId} {name : Name} {value : Expr NodeId} {τ υ : Ty} :
    P.Own init id name.text → Expr.Typed P Γ init value τ →
    Expr.Typed P Γ init (.assign id name value) υ
  | construct {callee : Expr NodeId} {line : Nat} {args : List (Expr NodeId)} {c : ClassId}
      {τs : List Ty} :
    Expr.Typed P Γ init callee (.classObject c) → Expr.TypedAll P Γ init args τs →
    List.Forall₂ (fun p τ => P.classes.accepts p τ = true) (constructorParams P.classes c) τs →
    Expr.Typed P Γ init (.call callee line args) (.object c)
  | call {callee : Expr NodeId} {line : Nat} {args : List (Expr NodeId)} {params τs : List Ty}
      {τ : Ty} :
    Expr.Typed P Γ init callee (.function "" params τ) → Expr.TypedAll P Γ init args τs →
    List.Forall₂ (fun p τ => P.classes.accepts p τ = true) params τs →
    Expr.Typed P Γ init (.call callee line args) τ
  | get {object : Expr NodeId} {name : Name} {c : ClassId} {ty : Ty} :
    Expr.Typed P Γ init object (.object c) → property? P.classes c name.text = some ty →
    Expr.Typed P Γ init (.get object name) ty.erase
  | set {object value : Expr NodeId} {name : Name} {c : ClassId} {ty τ : Ty} :
    Expr.Typed P Γ init object (.object c) → P.classes.findField? c name.text = some ty →
    Expr.Typed P Γ init value τ → P.classes.accepts ty τ = true →
    Expr.Typed P Γ init (.set object name value) ty.erase
  | this {id : NodeId} {keyword : Name} {ty : Ty} :
    P.Use Γ id keyword.text ty → Expr.Typed P Γ init (.this id keyword) ty.erase
  | super {id : NodeId} {keyword method : Name} {p : ClassId} {s : Signature} :
    P.Super Γ id p → P.classes.findMethod? p method.text = some s →
    Expr.Typed P Γ init (.super id keyword method) s.ty.erase

/-- The arguments of a call have the types, one by one. -/
inductive Expr.TypedAll (P : Plan) (Γ : TypeScope) (init : Option Name) :
    List (Expr NodeId) → List Ty → Prop
  | nil : Expr.TypedAll P Γ init [] []
  | cons {e : Expr NodeId} {rest : List (Expr NodeId)} {τ : Ty} {τs : List Ty} :
    Expr.Typed P Γ init e τ → Expr.TypedAll P Γ init rest τs →
    Expr.TypedAll P Γ init (e :: rest) (τ :: τs)

end

/-- An expression that may be missing has the type, that of `nil` without one. -/
def Expr.TypedOption (P : Plan) (Γ : TypeScope) (init : Option Name) :
    Option (Expr NodeId) → Ty → Prop
  | none, τ => τ = .nil
  | some e, τ => e.Typed P Γ init τ

/-! ## Statements -/

/-- The initial value of a field does not use the object: it mentions neither `this` nor `super`. -/
def VarDecl.plain (d : VarDecl NodeId) : Bool :=
  (Expr.occurrencesOption d.initializer).all fun o => o.kind != .this && o.kind != .super

/-- The initial value of a field of a class fits the type of the field. -/
def VarDecl.FieldTyped (P : Plan) (Γ : TypeScope) (id : ClassId) (d : VarDecl NodeId) : Prop :=
  ∃ ty τ, P.classes.findField? id d.name.text = some ty ∧
    Expr.TypedOption P Γ none d.initializer τ ∧ P.classes.accepts ty τ = true

/-- What the plan knows of a class fits its declaration; `Γ` binds its name. -/
structure ClassDecl.Planned (P : Plan) (Γ : TypeScope) (decl : ClassDecl NodeId (Stmt NodeId))
    (id : ClassId) (parent : Option ClassId) (signatures : List Signature) : Prop where
  name : P.classes.name id = decl.name.text
  lineage : P.classes.lineage id = id :: P.classes.lineageOption parent
  methods : ∀ x, P.classes.ownMethod? id x =
    (Bindings.ofList ((decl.methods.map fun d => d.name.text).zip signatures)).get? x
  fields : ∀ d ∈ decl.fields, d.FieldTyped P ((memberScope parent Γ).enter (P.fieldScope id)) id
  declared : ∀ x ty, P.classes.ownField? id x = some ty → ∃ d ∈ decl.fields, d.name.text = x

/-- The superclass of a class is the class `parent`. -/
def SuperclassRef.TypedOption (P : Plan) (Γ : TypeScope) :
    Option (SuperclassRef NodeId) → Option ClassId → Prop
  | none, parent => parent = none
  | some s, parent => ∃ p, parent = some p ∧ P.Use Γ s.id s.name.text (.classObject p)

mutual

/-- The statement is typed in a body with results of type `returns`; it leads from the names of one
scope to those of another one. -/
inductive Stmt.Typed (P : Plan) : Ty → TypeScope → Stmt NodeId → TypeScope → Prop
  | expression {returns : Ty} {Γ : TypeScope} {value : Expr NodeId} {τ : Ty} :
    value.Typed P Γ none τ → Stmt.Typed P returns Γ (.expression value) Γ
  | print {returns : Ty} {Γ : TypeScope} {value : Expr NodeId} {τ : Ty} :
    value.Typed P Γ none τ → Stmt.Typed P returns Γ (.print value) Γ
  | var {returns : Ty} {Γ : TypeScope} {decl : VarDecl NodeId} {ty τ : Ty} :
    Expr.TypedOption P Γ (initializing Γ decl.name) decl.initializer τ →
    P.classes.accepts ty τ = true → P.Binds Γ decl.name ty →
    Stmt.Typed P returns Γ (.var decl) (Γ.define decl.name.text ty)
  | block {returns : Ty} {Γ Γ' : TypeScope} {body : List (Stmt NodeId)} :
    Stmt.TypedAll P returns (Γ.enter .empty) body Γ' → Stmt.Typed P returns Γ (.block body) Γ
  | ifThen {returns : Ty} {Γ : TypeScope} {condition : Expr NodeId} {thenBranch : Stmt NodeId} :
    condition.Typed P Γ none .boolean → Stmt.Typed P returns Γ thenBranch Γ →
    Stmt.Typed P returns Γ (.ifThen condition thenBranch) Γ
  | ifElse {returns : Ty} {Γ : TypeScope} {condition : Expr NodeId}
      {thenBranch elseBranch : Stmt NodeId} :
    condition.Typed P Γ none .boolean → Stmt.Typed P returns Γ thenBranch Γ →
    Stmt.Typed P returns Γ elseBranch Γ →
    Stmt.Typed P returns Γ (.ifElse condition thenBranch elseBranch) Γ
  | whileLoop {returns : Ty} {Γ : TypeScope} {condition : Expr NodeId} {body : Stmt NodeId} :
    condition.Typed P Γ none .boolean → Stmt.Typed P returns Γ body Γ →
    Stmt.Typed P returns Γ (.whileLoop condition body) Γ
  | function {returns : Ty} {Γ : TypeScope} {decl : FunctionDecl (Stmt NodeId)} {s : Signature} :
    P.Binds Γ decl.name s.ty → Stmt.TypedRoutine P (Γ.define decl.name.text s.ty) s decl →
    Stmt.Typed P returns Γ (.function decl) (Γ.define decl.name.text s.ty)
  | returnWith {returns : Ty} {Γ : TypeScope} {keyword : Name} {value : Option (Expr NodeId)}
      {τ : Ty} :
    Expr.TypedOption P Γ none value τ → P.classes.accepts returns τ = true →
    Stmt.Typed P returns Γ (.returnWith keyword value) Γ
  | classDecl {returns : Ty} {Γ : TypeScope} {decl : ClassDecl NodeId (Stmt NodeId)} {id : ClassId}
      {parent : Option ClassId} {signatures : List Signature} :
    P.Binds Γ decl.name (.classObject id) → SuperclassRef.TypedOption P Γ decl.superclass parent →
    decl.Planned P (Γ.define decl.name.text (.classObject id)) id parent signatures →
    Stmt.TypedRoutines P (enterClass id parent (Γ.define decl.name.text (.classObject id)))
      signatures decl.methods →
    Stmt.Typed P returns Γ (.classDecl decl) (Γ.define decl.name.text (.classObject id))

/-- Statements are typed, one after the other. -/
inductive Stmt.TypedAll (P : Plan) :
    Ty → TypeScope → List (Stmt NodeId) → TypeScope → Prop
  | nil {returns : Ty} {Γ : TypeScope} : Stmt.TypedAll P returns Γ [] Γ
  | cons {returns : Ty} {Γ Γ' Γ'' : TypeScope} {s : Stmt NodeId} {rest : List (Stmt NodeId)} :
    Stmt.Typed P returns Γ s Γ' → Stmt.TypedAll P returns Γ' rest Γ'' →
    Stmt.TypedAll P returns Γ (s :: rest) Γ''

/-- The body of a function is typed in a scope with its parameters. -/
inductive Stmt.TypedRoutine (P : Plan) : TypeScope → Signature → FunctionDecl (Stmt NodeId) → Prop
  | mk {Γ Γ' : TypeScope} {s : Signature} {decl : FunctionDecl (Stmt NodeId)} :
    s.params.length = decl.params.length → (∀ p ∈ decl.params, p.name.Free) →
    Stmt.TypedAll P s.result (Γ.enter (paramScope decl.params s.params)) decl.body Γ' →
    (mustReturn s.result = true → someReturns decl.body = true) →
    Stmt.TypedRoutine P Γ s decl

/-- The bodies of methods are typed. -/
inductive Stmt.TypedRoutines (P : Plan) :
    TypeScope → List Signature → List (FunctionDecl (Stmt NodeId)) → Prop
  | nil {Γ : TypeScope} : Stmt.TypedRoutines P Γ [] []
  | cons {Γ : TypeScope} {s : Signature} {others : List Signature}
      {d : FunctionDecl (Stmt NodeId)} {rest : List (FunctionDecl (Stmt NodeId))} :
    Stmt.TypedRoutine P Γ s d → Stmt.TypedRoutines P Γ others rest →
    Stmt.TypedRoutines P Γ (s :: others) (d :: rest)

end

/-! ## Hidden names -/

/-- The use is that of a name that is not in the scope. -/
structure Occurrence.Outside (b : Bindings Ty) (o : Occurrence NodeId) : Prop where
  this : o.kind ≠ .this
  super : o.kind ≠ .super
  name : b.get? o.name.text = none

section

variable {P : Plan} {Γ : TypeScope} {b : Bindings Ty} {init : Option Name}

/-- A name that the innermost scope does not bind is found where it is without the names of the scope. -/
theorem Plan.Use.hide {id : NodeId} {x : String} {ty : Ty} (hu : P.Use (Γ.enter b) id x ty)
    (hx : b.get? x = none) : P.Use (Γ.enter .empty) id x ty := by
  refine ⟨?_, hu.distance.trans ?_, hu.lt, hu.word⟩
  · rw [← hu.type]
    simp [TypeScope.get?, TypeScope.enter, TypeScope.lookupLocal?, hx]
  · simp [TypeScope.depth?, TypeScope.enter, TypeScope.depthIn?, Bindings.contains, hx]

mutual

/-- Code that uses no name of the innermost scope is typed without these names. -/
theorem Expr.Typed.hide : ∀ (e : Expr NodeId) {τ : Ty}, (∀ o ∈ e.occurrences, o.Outside b) →
    e.Typed P (Γ.enter b) init τ → e.Typed P (Γ.enter .empty) init τ
  | .literal _, _, _, .literal => .literal
  | .grouping inner, _, ho, .grouping hi => .grouping (Expr.Typed.hide inner ho hi)
  | .unary _ _, _, ho, .change hop hn hu =>
    .change hop hn (hu.hide (ho _ (List.mem_singleton_self _)).name)
  | .unary _ operand, _, ho, .not hop he => .not hop (Expr.Typed.hide operand ho he)
  | .unary _ operand, _, ho, .negate hop he => .negate hop (Expr.Typed.hide operand ho he)
  | .suffixed _ _, _, ho, .suffixed hn hu =>
    .suffixed hn (hu.hide (ho _ (List.mem_singleton_self _)).name)
  | .binary left _ right, _, ho, .binary hl hr hb => by
    obtain ⟨hol, hor⟩ := List.forall_mem_append.1 ho
    exact .binary (Expr.Typed.hide left hol hl) (Expr.Typed.hide right hor hr) hb
  | .logical left _ right, _, ho, .logical hl hr => by
    obtain ⟨hol, hor⟩ := List.forall_mem_append.1 ho
    exact .logical (Expr.Typed.hide left hol hl) (Expr.Typed.hide right hor hr)
  | .variable _ _, _, ho, .variable hu =>
    .variable (hu.hide (ho _ (List.mem_singleton_self _)).name)
  | .assign _ _ value, _, ho, .assign hn hu hv ha => by
    obtain ⟨hname, hov⟩ := List.forall_mem_cons.1 ho
    exact .assign hn (hu.hide hname.name) (Expr.Typed.hide value hov hv) ha
  | .assign _ _ value, _, ho, .assignOwn hown hv =>
    .assignOwn hown (Expr.Typed.hide value (List.forall_mem_cons.1 ho).2 hv)
  | .call callee _ args, _, ho, .construct hc ha hp => by
    obtain ⟨hoc, hoa⟩ := List.forall_mem_append.1 ho
    exact .construct (Expr.Typed.hide callee hoc hc) (Expr.TypedAll.hide args hoa ha) hp
  | .call callee _ args, _, ho, .call hc ha hp => by
    obtain ⟨hoc, hoa⟩ := List.forall_mem_append.1 ho
    exact .call (Expr.Typed.hide callee hoc hc) (Expr.TypedAll.hide args hoa ha) hp
  | .get object _, _, ho, .get hobject hp => .get (Expr.Typed.hide object ho hobject) hp
  | .set object _ value, _, ho, .set hobject hf hv ha => by
    obtain ⟨hoo, hov⟩ := List.forall_mem_append.1 ho
    exact .set (Expr.Typed.hide object hoo hobject) hf (Expr.Typed.hide value hov hv) ha
  | .this _ _, _, ho, .this _ => absurd rfl (ho _ (List.mem_singleton_self _)).this
  | .super _ _ _, _, ho, .super _ _ => absurd rfl (ho _ (List.mem_singleton_self _)).super
termination_by structural e => e

theorem Expr.TypedAll.hide : ∀ (es : List (Expr NodeId)) {τs : List Ty},
    (∀ o ∈ Expr.occurrencesAll es, o.Outside b) → Expr.TypedAll P (Γ.enter b) init es τs →
    Expr.TypedAll P (Γ.enter .empty) init es τs
  | [], _, _, .nil => .nil
  | e :: rest, _, ho, .cons he hr => by
    obtain ⟨hoe, hor⟩ := List.forall_mem_append.1 ho
    exact .cons (Expr.Typed.hide e hoe he) (Expr.TypedAll.hide rest hor hr)
termination_by structural es => es

end

end

/-! ## More uses of names -/

namespace Plan

/-- The plan knows more uses of names. -/
structure Le (P Q : Plan) : Prop where
  classes : Q.classes = P.classes
  globals : Q.globals = P.globals
  strict : Q.strict = P.strict
  sealed : Q.sealed = P.sealed
  uses : P.uses ≤ Q.uses
  distance : ∀ id < P.uses, Q.distance id = P.distance id

variable {P Q : Plan} (h : Le P Q) {Γ : TypeScope} {id : NodeId}
include h

theorem Use.mono {x : String} {ty : Ty} (hu : P.Use Γ id x ty) : Q.Use Γ id x ty :=
  ⟨hu.type, (h.distance id hu.lt).trans hu.distance, Nat.lt_of_lt_of_le hu.lt h.uses, hu.word⟩

theorem Own.mono {init : Option Name} {x : String} (ho : P.Own init id x) : Q.Own init id x :=
  ⟨h.strict.trans ho.loose, ho.name, (h.distance id ho.lt).trans ho.distance,
    Nat.lt_of_lt_of_le ho.lt h.uses⟩

theorem Super.mono {p : ClassId} (hs : P.Super Γ id p) : Q.Super Γ id p := by
  refine ⟨Nat.lt_of_lt_of_le hs.lt h.uses, ?_⟩
  rw [h.distance id hs.lt, h.classes]
  exact hs.found

theorem Binds.mono {name : Name} {ty : Ty} (hb : P.Binds Γ name ty) : Q.Binds Γ name ty :=
  ⟨hb.fresh, by rw [h.globals]; exact hb.global⟩

theorem fieldScope_mono (c : ClassId) : Q.fieldScope c = P.fieldScope c := by
  rw [fieldScope, fieldScope, h.sealed]

end Plan

section

variable {P Q : Plan}

mutual

/-- Code that is typed stays so when more uses of names are known. -/
theorem Expr.Typed.mono (h : P.Le Q) : ∀ (e : Expr NodeId) {Γ : TypeScope}
    {init : Option Name} {τ : Ty}, e.Typed P Γ init τ → e.Typed Q Γ init τ
  | .literal _, _, _, _, .literal => .literal
  | .grouping inner, _, _, _, .grouping hi => .grouping (Expr.Typed.mono h inner hi)
  | .unary _ _, _, _, _, .change ho hn hu => .change ho hn (hu.mono h)
  | .unary _ operand, _, _, _, .not ho he => .not ho (Expr.Typed.mono h operand he)
  | .unary _ operand, _, _, _, .negate ho he => .negate ho (Expr.Typed.mono h operand he)
  | .suffixed _ _, _, _, _, .suffixed hn hu => .suffixed hn (hu.mono h)
  | .binary left _ right, _, _, _, .binary hl hr hb =>
    .binary (Expr.Typed.mono h left hl) (Expr.Typed.mono h right hr) (by rw [h.classes]; exact hb)
  | .logical left _ right, _, _, _, .logical hl hr =>
    .logical (Expr.Typed.mono h left hl) (Expr.Typed.mono h right hr)
  | .variable _ _, _, _, _, .variable hu => .variable (hu.mono h)
  | .assign _ _ value, _, _, _, .assign hn hu hv ha =>
    .assign hn (hu.mono h) (Expr.Typed.mono h value hv) (by rw [h.classes]; exact ha)
  | .assign _ _ value, _, _, _, .assignOwn ho hv =>
    .assignOwn (ho.mono h) (Expr.Typed.mono h value hv)
  | .call callee _ args, _, _, _, .construct hc ha hp =>
    .construct (Expr.Typed.mono h callee hc) (Expr.TypedAll.mono h args ha)
      (by rw [h.classes]; exact hp)
  | .call callee _ args, _, _, _, .call hc ha hp =>
    .call (Expr.Typed.mono h callee hc) (Expr.TypedAll.mono h args ha)
      (by rw [h.classes]; exact hp)
  | .get object _, _, _, _, .get ho hp =>
    .get (Expr.Typed.mono h object ho) (by rw [h.classes]; exact hp)
  | .set object _ value, _, _, _, .set ho hf hv ha =>
    .set (Expr.Typed.mono h object ho) (by rw [h.classes]; exact hf) (Expr.Typed.mono h value hv)
      (by rw [h.classes]; exact ha)
  | .this _ _, _, _, _, .this hu => .this (hu.mono h)
  | .super _ _ _, _, _, _, .super hs hm => .super (hs.mono h) (by rw [h.classes]; exact hm)
termination_by structural e => e

theorem Expr.TypedAll.mono (h : P.Le Q) : ∀ (es : List (Expr NodeId)) {Γ : TypeScope}
    {init : Option Name} {τs : List Ty}, Expr.TypedAll P Γ init es τs → Expr.TypedAll Q Γ init es τs
  | [], _, _, _, .nil => .nil
  | e :: rest, _, _, _, .cons he hr => .cons (Expr.Typed.mono h e he) (Expr.TypedAll.mono h rest hr)
termination_by structural es => es

end

theorem Expr.TypedOption.mono (h : P.Le Q) {e : Option (Expr NodeId)} {Γ : TypeScope}
    {init : Option Name} {τ : Ty} (he : Expr.TypedOption P Γ init e τ) :
    Expr.TypedOption Q Γ init e τ := by
  cases e with
  | none => exact he
  | some e => exact Expr.Typed.mono h e he

theorem VarDecl.FieldTyped.mono (h : P.Le Q) {Γ : TypeScope} {id : ClassId} {d : VarDecl NodeId}
    (hd : d.FieldTyped P Γ id) : d.FieldTyped Q Γ id := by
  obtain ⟨ty, τ, hf, he, ha⟩ := hd
  refine ⟨ty, τ, ?_, he.mono h, ?_⟩
  · rw [h.classes]
    exact hf
  · rw [h.classes]
    exact ha

theorem ClassDecl.Planned.mono (h : P.Le Q) {Γ : TypeScope} {decl : ClassDecl NodeId (Stmt NodeId)}
    {id : ClassId} {parent : Option ClassId} {signatures : List Signature}
    (hp : decl.Planned P Γ id parent signatures) : decl.Planned Q Γ id parent signatures :=
  ⟨by rw [h.classes]; exact hp.name, by rw [h.classes]; exact hp.lineage,
    by rw [h.classes]; exact hp.methods,
    fun d hd => by rw [Plan.fieldScope_mono h]; exact (hp.fields d hd).mono h,
    by rw [h.classes]; exact hp.declared⟩

theorem SuperclassRef.TypedOption.mono (h : P.Le Q) {Γ : TypeScope}
    {s : Option (SuperclassRef NodeId)} {parent : Option ClassId}
    (hs : SuperclassRef.TypedOption P Γ s parent) : SuperclassRef.TypedOption Q Γ s parent := by
  cases s with
  | none => exact hs
  | some s =>
    obtain ⟨p, hp, hu⟩ := hs
    exact ⟨p, hp, hu.mono h⟩

mutual

theorem Stmt.Typed.mono (h : P.Le Q) : ∀ (s : Stmt NodeId) {returns : Ty} {Γ Γ' : TypeScope},
    s.Typed P returns Γ Γ' → s.Typed Q returns Γ Γ'
  | .expression value, _, _, _, .expression hv => .expression (Expr.Typed.mono h value hv)
  | .print value, _, _, _, .print hv => .print (Expr.Typed.mono h value hv)
  | .var _, _, _, _, .var hi ha hb => .var (hi.mono h) (by rw [h.classes]; exact ha) (hb.mono h)
  | .block body, _, _, _, .block hb => .block (Stmt.TypedAll.mono h body hb)
  | .ifThen condition thenBranch, _, _, _, .ifThen hc ht =>
    .ifThen (Expr.Typed.mono h condition hc) (Stmt.Typed.mono h thenBranch ht)
  | .ifElse condition thenBranch elseBranch, _, _, _, .ifElse hc ht he =>
    .ifElse (Expr.Typed.mono h condition hc) (Stmt.Typed.mono h thenBranch ht)
      (Stmt.Typed.mono h elseBranch he)
  | .whileLoop condition body, _, _, _, .whileLoop hc hb =>
    .whileLoop (Expr.Typed.mono h condition hc) (Stmt.Typed.mono h body hb)
  | .function decl, _, _, _, .function hb hr =>
    .function (hb.mono h) (Stmt.TypedRoutine.mono h decl hr)
  | .returnWith _ _, _, _, _, .returnWith hv ha =>
    .returnWith (hv.mono h) (by rw [h.classes]; exact ha)
  | .classDecl ⟨_, _, _, methods⟩, _, _, _, .classDecl hb hs hp hr =>
    .classDecl (hb.mono h) (hs.mono h) (hp.mono h) (Stmt.TypedRoutines.mono h methods hr)
termination_by structural s => s

theorem Stmt.TypedAll.mono (h : P.Le Q) : ∀ (ss : List (Stmt NodeId)) {returns : Ty}
    {Γ Γ' : TypeScope}, Stmt.TypedAll P returns Γ ss Γ' → Stmt.TypedAll Q returns Γ ss Γ'
  | [], _, _, _, .nil => .nil
  | s :: rest, _, _, _, .cons hs hr => .cons (Stmt.Typed.mono h s hs) (Stmt.TypedAll.mono h rest hr)
termination_by structural ss => ss

theorem Stmt.TypedRoutine.mono (h : P.Le Q) : ∀ (d : FunctionDecl (Stmt NodeId)) {Γ : TypeScope}
    {s : Signature}, Stmt.TypedRoutine P Γ s d → Stmt.TypedRoutine Q Γ s d
  | ⟨_, _, _, body⟩, _, _, .mk hl hf hb hp => .mk hl hf (Stmt.TypedAll.mono h body hb) hp
termination_by structural d => d

theorem Stmt.TypedRoutines.mono (h : P.Le Q) : ∀ (ds : List (FunctionDecl (Stmt NodeId)))
    {Γ : TypeScope} {signatures : List Signature}, Stmt.TypedRoutines P Γ signatures ds →
    Stmt.TypedRoutines Q Γ signatures ds
  | [], _, _, .nil => .nil
  | d :: rest, _, _, .cons hd hr =>
    .cons (Stmt.TypedRoutine.mono h d hd) (Stmt.TypedRoutines.mono h rest hr)
termination_by structural ds => ds

end

end

end ClassScript
