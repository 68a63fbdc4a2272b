import ClassScript.Proofs.CheckerWalk
import ClassScript.Syntax.Numbering
import Mathlib.Data.List.Forall2

/-!
# What a check goes through

`Stmt.moments` lists what the check of a statement meets, in order: the uses of names, each with the
names in force there, the names it binds and the fields it enters. The lemmas on `checkStmt` take a
check that ends without an error apart, statement by statement.
-/

set_option autoImplicit false

namespace ClassScript

namespace TypeScope

/-- How many scopes out a name is bound among local scopes. -/
def depthIn? (name : String) : List (Bindings Ty) → Option Nat
  | [] => none
  | scope :: outer => if scope.contains name then some 0 else (depthIn? name outer).map (· + 1)

/-- The number of scopes between a place and the local scope in which a name is found, none for a
name that no local scope binds. -/
def depth? (s : TypeScope) (name : String) : Option Nat :=
  depthIn? name s.locals

end TypeScope

namespace Typing

variable {α β : Type} {st st' : TypeState}

/-! ## Checks that end without an error -/

theorem bind_ok {x : Check α} {f : α → Check β} {b : β} :
    (x >>= f) st = .ok b st' ↔ ∃ a mid, x st = .ok a mid ∧ f a mid = .ok b st' := by
  show EStateM.bind x f st = _ ↔ _
  unfold EStateM.bind
  cases h : x st with
  | ok a mid =>
    constructor
    · exact fun hf => ⟨a, mid, rfl, hf⟩
    · rintro ⟨a', mid', ha, hf⟩
      cases ha
      exact hf
  | error e mid =>
    constructor
    · exact fun hf => nomatch hf
    · rintro ⟨a', mid', ha, -⟩
      cases ha

theorem pure_ok {a b : α} : (pure a : Check α) st = .ok b st' ↔ a = b ∧ st = st' := by
  show EStateM.Result.ok a st = .ok b st' ↔ _
  simp only [EStateM.Result.ok.injEq]

theorem ask_ok {question : ClassTable → TypeScope → Except TypeError α} {a : α} :
    ask question st = .ok a st' ↔ question st.classes st.scope = .ok a ∧ st = st' := by
  unfold ask
  cases question st.classes st.scope <;> simp

/-- A question changes nothing, so what follows it is done in the same state. -/
theorem ask_bind_ok {question : ClassTable → TypeScope → Except TypeError α} {f : α → Check β}
    {b : β} :
    (ask question >>= f) st = .ok b st' ↔
      ∃ a, question st.classes st.scope = .ok a ∧ f a st = .ok b st' := by
  rw [bind_ok]
  constructor
  · rintro ⟨a, mid, hask, hf⟩
    obtain ⟨ha, rfl⟩ := ask_ok.1 hask
    exact ⟨a, ha, hf⟩
  · rintro ⟨a, ha, hf⟩
    exact ⟨a, st, ask_ok.2 ⟨ha, rfl⟩, hf⟩

theorem ask_then_ok {question : ClassTable → TypeScope → Except TypeError Unit} {x : Check β}
    {b : β} :
    (ask question >>= fun _ => x) st = .ok b st' ↔
      question st.classes st.scope = .ok () ∧ x st = .ok b st' := by
  rw [ask_bind_ok]
  constructor
  · rintro ⟨_, h⟩
    exact h
  · exact fun h => ⟨(), h⟩

theorem then_ok {x : Check Unit} {y : Check β} {b : β} :
    (x >>= fun _ => y) st = .ok b st' ↔ ∃ mid, x st = .ok () mid ∧ y mid = .ok b st' := by
  rw [bind_ok]
  constructor
  · rintro ⟨_, h⟩
    exact h
  · exact fun h => ⟨(), h⟩

theorem define_ok {name : String} {ty : Ty} {u : Unit} :
    define name ty st = .ok u st' ↔ st' = ⟨st.classes, st.scope.define name ty⟩ := by
  show EStateM.Result.ok () _ = .ok u st' ↔ _
  simp only [EStateM.Result.ok.injEq, true_and, eq_comm]

theorem modifyClasses_ok {f : ClassTable → ClassTable} {u : Unit} :
    modifyClasses f st = .ok u st' ↔ st' = ⟨f st.classes, st.scope⟩ := by
  show EStateM.Result.ok () _ = .ok u st' ↔ _
  simp only [EStateM.Result.ok.injEq, true_and, eq_comm]

theorem inside_ok {enter : TypeScope → TypeScope} {x : Check α} {a : α} :
    inside enter x st = .ok a st' ↔
      ∃ inner, x ⟨st.classes, enter st.scope⟩ = .ok a inner ∧
        st' = ⟨inner.classes, st.scope⟩ := by
  unfold inside
  cases x ⟨st.classes, enter st.scope⟩ with
  | ok b inner =>
    simp only [EStateM.Result.ok.injEq]
    constructor
    · rintro ⟨rfl, rfl⟩
      exact ⟨inner, ⟨rfl, rfl⟩, rfl⟩
    · rintro ⟨_, ⟨rfl, rfl⟩, rfl⟩
      exact ⟨rfl, rfl⟩
  | error e inner => simp

theorem except_bind_ok {ε : Type} {x : Except ε α} {f : α → Except ε β} {b : β} :
    (x >>= f) = .ok b ↔ ∃ a, x = .ok a ∧ f a = .ok b := by
  cases x with
  | ok a =>
    constructor
    · exact fun h => ⟨a, rfl, h⟩
    · rintro ⟨_, ha, hf⟩
      cases ha
      exact hf
  | error e =>
    constructor
    · exact fun h => nomatch h
    · rintro ⟨_, ha, -⟩
      cases ha

theorem require_ok {condition : Bool} {cause : TypeCause} {line : Nat} {u : Unit} :
    require condition cause line = .ok u ↔ condition = true := by
  unfold require
  cases condition <;> simp

theorem except_pure_ok {ε : Type} {a b : α} : (pure a : Except ε α) = .ok b ↔ a = b := by
  show Except.ok a = .ok b ↔ _
  simp only [Except.ok.injEq]

/-! ## Types of expressions -/

section

variable {ι : Type} {t : ClassTable} {scope : TypeScope} {ty : Ty}

-- Makes the equations of `typeOf` once, before the proofs below ask for them side by side.
attribute [local simp] typeOf

theorem lookUp_ok {name : String} {line : Nat} :
    lookUp scope name line = .ok ty ↔ scope.get? name = some ty := by
  unfold lookUp
  cases scope.get? name <;> simp

theorem increment_ok {operand : Expr ι} {operator : Token} :
    increment t scope operand operator = .ok ty ↔
      ∃ id name got, operand = .variable id name ∧ scope.get? name.text = some got ∧
        got.same .number = true ∧ ty = .number := by
  cases operand with
  | «variable» id name =>
    simp only [increment, except_bind_ok, lookUp_ok, require_ok, except_pure_ok]
    constructor
    · rintro ⟨got, hg, _, hn, rfl⟩
      exact ⟨id, name, got, rfl, hg, hn, rfl⟩
    · rintro ⟨_, _, got, he, hg, hn, rfl⟩
      cases he
      exact ⟨got, hg, (), hn, rfl⟩
  | _ => simp [increment]

theorem typeOf_unary {operator : Token} {operand : Expr ι} :
    typeOf t scope (.unary operator operand) = .ok ty ↔
      (isIncrement operator = true ∧ increment t scope operand operator = .ok ty) ∨
      (isIncrement operator = false ∧ ∃ got, typeOf t scope operand = .ok got ∧
        ((operator.isSymbol .bang = true ∧ ty = .boolean) ∨
          (operator.isSymbol .bang = false ∧ got.same .number = true ∧ ty = .number))) := by
  simp only [typeOf]
  cases isIncrement operator with
  | true => simp
  | false =>
    simp only [Bool.false_eq_true, if_false, except_bind_ok, false_and, false_or, true_and]
    cases operator.isSymbol .bang with
    | true =>
      simp only [if_true, except_pure_ok, true_and, Bool.true_eq_false, false_and, or_false]
      constructor
      · rintro ⟨got, hg, rfl⟩
        exact ⟨got, hg, rfl⟩
      · rintro ⟨got, hg, rfl⟩
        exact ⟨got, hg, rfl⟩
    | false =>
      simp only [Bool.false_eq_true, if_false, except_bind_ok, require_ok, except_pure_ok, false_and,
        false_or, true_and]
      constructor
      · rintro ⟨got, hg, _, hn, rfl⟩
        exact ⟨got, hg, hn, rfl⟩
      · rintro ⟨got, hg, hn, rfl⟩
        exact ⟨got, hg, (), hn, rfl⟩

theorem typeOf_binary {left right : Expr ι} {operator : Token} :
    typeOf t scope (.binary left operator right) = .ok ty ↔
      ∃ l r, typeOf t scope left = .ok l ∧ typeOf t scope right = .ok r ∧
        binary t operator l r = .ok ty := by
  simp only [typeOf, except_bind_ok]
  constructor
  · rintro ⟨l, hl, r, hr, hb⟩
    exact ⟨l, r, hl, hr, hb⟩
  · rintro ⟨l, r, hl, hr, hb⟩
    exact ⟨l, hl, r, hr, hb⟩

theorem typeOf_logical {left right : Expr ι} {operator : Token} :
    typeOf t scope (.logical left operator right) = .ok ty ↔
      ∃ l r, typeOf t scope left = .ok l ∧ typeOf t scope right = .ok r ∧
        (l.same .boolean && r.same .boolean) = true ∧ ty = .boolean := by
  simp only [typeOf, except_bind_ok, require_ok, except_pure_ok]
  constructor
  · rintro ⟨l, hl, r, hr, _, hs, rfl⟩
    exact ⟨l, r, hl, hr, hs, rfl⟩
  · rintro ⟨l, r, hl, hr, hs, rfl⟩
    exact ⟨l, hl, r, hr, (), hs, rfl⟩

theorem typeOf_assign {id : ι} {name : Name} {value : Expr ι} :
    typeOf t scope (.assign id name value) = .ok ty ↔
      scope.get? name.text = some ty ∧
        ∃ got, typeOf t scope value = .ok got ∧ t.accepts ty got = true := by
  simp only [typeOf, except_bind_ok, lookUp_ok, require_ok, except_pure_ok]
  constructor
  · rintro ⟨target, ht, got, hg, _, ha, rfl⟩
    exact ⟨ht, got, hg, ha⟩
  · rintro ⟨ht, got, hg, ha⟩
    exact ⟨ty, ht, got, hg, (), ha, rfl⟩

theorem typeOf_call {callee : Expr ι} {line : Nat} {args : List (Expr ι)} :
    typeOf t scope (.call callee line args) = .ok ty ↔
      ∃ f tys, typeOf t scope callee = .ok f ∧ typesOf t scope args = .ok tys ∧
        call t line f tys = .ok ty := by
  simp only [typeOf, except_bind_ok]
  constructor
  · rintro ⟨f, hf, tys, ht, hc⟩
    exact ⟨f, tys, hf, ht, hc⟩
  · rintro ⟨f, tys, hf, ht, hc⟩
    exact ⟨f, hf, tys, ht, hc⟩

theorem typeOf_get {object : Expr ι} {name : Name} :
    typeOf t scope (.get object name) = .ok ty ↔
      ∃ o, typeOf t scope object = .ok o ∧ property t o name = .ok ty := by
  simp only [typeOf, except_bind_ok]

theorem typeOf_set {object : Expr ι} {name : Name} {value : Expr ι} :
    typeOf t scope (.set object name value) = .ok ty ↔
      ∃ o got, typeOf t scope object = .ok o ∧ field t o name = .ok ty ∧
        typeOf t scope value = .ok got ∧ t.accepts ty got = true := by
  simp only [typeOf, except_bind_ok, require_ok, except_pure_ok]
  constructor
  · rintro ⟨o, ho, declared, hd, got, hg, _, ha, rfl⟩
    exact ⟨o, got, ho, hd, hg, ha⟩
  · rintro ⟨o, got, ho, hd, hg, ha⟩
    exact ⟨o, ho, ty, hd, got, hg, (), ha, rfl⟩

theorem superMethod_ok {keyword method : Name} :
    superMethod t scope keyword method = .ok ty ↔
      ∃ id s, scope.get? "super" = some (.object id) ∧ t.findMethod? id method.text = some s ∧
        ty = s.ty := by
  simp only [superMethod, except_bind_ok, lookUp_ok]
  constructor
  · rintro ⟨found, hf, h⟩
    split at h
    next id =>
      split at h
      next s hs =>
        rw [except_pure_ok] at h
        exact ⟨id, s, hf, hs, h.symm⟩
      · cases h
    · cases h
  · rintro ⟨id, s, hf, hs, rfl⟩
    exact ⟨_, hf, by simp only [hs]; rfl⟩

theorem typesOf_cons {e : Expr ι} {rest : List (Expr ι)} {tys : List Ty} :
    typesOf t scope (e :: rest) = .ok tys ↔
      ∃ ty others, typeOf t scope e = .ok ty ∧ typesOf t scope rest = .ok others ∧
        tys = ty :: others := by
  simp only [typesOf, except_bind_ok, except_pure_ok]
  constructor
  · rintro ⟨ty, ht, others, ho, rfl⟩
    exact ⟨ty, others, ht, ho, rfl⟩
  · rintro ⟨ty, others, ht, ho, rfl⟩
    exact ⟨ty, ht, others, ho, rfl⟩

theorem initialType_ok {e : Option (Expr ι)} {ty? : Option Ty} :
    initialType t scope e = .ok ty? ↔
      (e = none ∧ ty? = none) ∨
        ∃ e' ty, e = some e' ∧ ty? = some ty ∧ typeOf t scope e' = .ok ty := by
  cases e with
  | none => simp [initialType, @eq_comm _ none]
  | some e =>
    simp only [initialType]
    cases h : typeOf t scope e with
    | error err => simp [Except.map, h]
    | ok got => simp [Except.map, h, @eq_comm _ (some got)]

/-! ## Types of declarations -/

theorem declaredType_ok {d : VarDecl ι} :
    declaredType d t scope = .ok ty ↔
      ∃ declared initial, namedTypeOption scope d.typeName = .ok declared ∧
        initialType t scope d.initializer = .ok initial ∧
        variableType t d.name declared initial = .ok ty := by
  simp only [declaredType, except_bind_ok]
  constructor
  · rintro ⟨declared, hd, initial, hi, hv⟩
    exact ⟨declared, initial, hd, hi, hv⟩
  · rintro ⟨declared, initial, hd, hi, hv⟩
    exact ⟨declared, hd, initial, hi, hv⟩

theorem fieldType_ok {id : ClassId} {d : VarDecl ι} :
    fieldType id d t scope = .ok ty ↔
      declaredType d t scope = .ok ty ∧ checkField t id d.name ty = .ok () := by
  simp only [fieldType, except_bind_ok, except_pure_ok]
  constructor
  · rintro ⟨got, hg, _, hc, rfl⟩
    exact ⟨hg, hc⟩
  · rintro ⟨hg, hc⟩
    exact ⟨ty, hg, (), hc, rfl⟩

theorem checkCondition_ok {keyword : String} {condition : Expr ι} {u : Unit} :
    checkCondition keyword condition t scope = .ok u ↔
      ∃ got, typeOf t scope condition = .ok got ∧ got.same .boolean = true := by
  simp only [checkCondition, except_bind_ok, require_ok]

theorem checkReturn_ok {returns : Ty} {keyword : Name} {value : Option (Expr ι)} {u : Unit} :
    checkReturn returns keyword value t scope = .ok u ↔
      ∃ got, initialType t scope value = .ok got ∧ t.accepts returns (got.getD .nil) = true := by
  simp only [checkReturn, except_bind_ok, require_ok]

theorem paramTypes_cons {p : Param} {rest : List Param} {tys : List Ty} :
    paramTypes scope (p :: rest) = .ok tys ↔
      ∃ ty others, tys = ty :: others ∧ namedType scope p.typeName = .ok ty ∧
        ty.same .void = false ∧ paramTypes scope rest = .ok others := by
  simp only [paramTypes, except_bind_ok, require_ok, except_pure_ok]
  constructor
  · rintro ⟨ty, ht, _, hv, others, ho, rfl⟩
    exact ⟨ty, others, rfl, ht, by simpa using hv, ho⟩
  · rintro ⟨ty, others, rfl, ht, hv, ho⟩
    exact ⟨ty, ht, (), by simpa using hv, others, ho, rfl⟩

theorem signature_ok {σ : Type} {d : FunctionDecl σ} {s : Signature} :
    signature d scope = .ok s ↔
      s.name = d.name.text ∧ paramTypes scope d.params = .ok s.params ∧
        resultType scope d.result = .ok s.result := by
  simp only [signature, except_bind_ok, except_pure_ok]
  constructor
  · rintro ⟨ps, hp, r, hr, rfl⟩
    exact ⟨rfl, hp, hr⟩
  · rintro ⟨hn, hp, hr⟩
    obtain ⟨name, params, result⟩ := s
    cases hn
    exact ⟨params, hp, result, hr, rfl⟩

theorem methodSignature_ok {σ : Type} {className : Name} {parent : Option ClassId}
    {d : FunctionDecl σ} {s : Signature} :
    methodSignature className parent d t scope = .ok s ↔
      signature d scope = .ok s ∧
        (d.name.text != className.text || s.result.same .void) = true ∧
        (∀ id, parent = some id → checkOverride t id d.name s = .ok ()) := by
  cases parent with
  | none =>
    simp only [methodSignature, except_bind_ok, require_ok, except_pure_ok]
    constructor
    · rintro ⟨_, hs, _, hi, rfl⟩
      exact ⟨hs, hi, fun _ h => nomatch h⟩
    · rintro ⟨hs, hi, -⟩
      exact ⟨s, hs, (), hi, rfl⟩
  | some id =>
    simp only [methodSignature, except_bind_ok, require_ok, except_pure_ok]
    constructor
    · rintro ⟨_, hs, _, hi, _, ho, rfl⟩
      refine ⟨hs, hi, ?_⟩
      rintro _ ⟨⟩
      exact ho
    · rintro ⟨hs, hi, ho⟩
      exact ⟨s, hs, (), hi, (), ho id rfl, rfl⟩

theorem superclassOf_ok {name : Name} {superclass : Option (SuperclassRef ι)}
    {parent : Option ClassId} :
    superclassOf name superclass t scope = .ok parent ↔
      (superclass = none ∧ parent = none) ∨
        ∃ s id, superclass = some s ∧ parent = some id ∧ s.name.text ≠ name.text ∧
          scope.get? s.name.text = some (.classObject id) := by
  cases superclass with
  | none => simp [superclassOf, @eq_comm _ none]
  | some s =>
    simp only [superclassOf, except_bind_ok, require_ok, lookUp_ok, reduceCtorEq, false_and,
      false_or, bne_iff_ne, ne_eq]
    constructor
    · rintro ⟨_, hn, got, hg, h⟩
      split at h
      next id =>
        obtain rfl := except_pure_ok.1 h
        exact ⟨s, id, rfl, rfl, hn, hg⟩
      · cases h
    · rintro ⟨_, id, he, rfl, hn, hg⟩
      cases he
      exact ⟨(), hn, _, hg, rfl⟩

end

theorem paramTypes_length {scope : TypeScope} {params : List Param} {tys : List Ty}
    (h : paramTypes scope params = .ok tys) : tys.length = params.length := by
  induction params generalizing tys with
  | nil => cases h; rfl
  | cons p rest ih =>
    obtain ⟨ty, others, rfl, -, -, ho⟩ := paramTypes_cons.1 h
    rw [List.length_cons, List.length_cons, ih ho]

end Typing

/-! ## Moments -/

/-- A use of a name, the names in force there and, in the initial value of a local variable, this
variable. -/
structure CheckedUse where
  use : Occurrence NodeId
  scope : TypeScope
  initializing : Option Name

/-- What a check meets. -/
inductive Moment where
  /-- A use of a name. -/
  | used (u : CheckedUse)
  /-- A name about to be bound to a type in the innermost of the scopes. -/
  | bound (name : Name) (ty : Ty) (scope : TypeScope)
  /-- A field of a class about to be entered in the table of classes. -/
  | entered (id : ClassId) (decl : VarDecl NodeId) (ty : Ty) (classes : ClassTable)

/-- The uses of names among what a check meets. -/
def checkedUses (ms : List Moment) : List CheckedUse :=
  ms.filterMap fun
    | .used u => some u
    | _ => none

namespace Typing

/-- The uses of names in an expression that is checked where the names of `scope` are in force. -/
def usesIn (scope : TypeScope) (initializing : Option Name) (uses : List (Occurrence NodeId)) :
    List Moment :=
  uses.map fun o => .used ⟨o, scope, initializing⟩

/-- The variable that a declaration is initializing, if it is a local one. -/
def initializing (scope : TypeScope) (name : Name) : Option Name :=
  match scope.locals with
  | [] => none
  | _ :: _ => some name

/-- What follows a check that ends without an error. -/
def thenMoments {α : Type} (x : Check α) (st : TypeState) (next : α → TypeState → List Moment) :
    List Moment :=
  match x st with
  | .ok a st' => next a st'
  | .error _ _ => []

/-- What the check of fields meets. -/
def fieldMoments (id : ClassId) : List (VarDecl NodeId) → TypeState → List Moment
  | [], _ => []
  | d :: rest, st =>
    usesIn st.scope none (Expr.occurrencesOption d.initializer) ++
      thenMoments (ask (fieldType id d)) st fun ty _ =>
        .entered id d ty st.classes ::
          fieldMoments id rest ⟨st.classes.addField id d.name.text ty, st.scope⟩

mutual

/-- What the check of a statement meets. -/
def stmtMoments (returns : Ty) : Stmt NodeId → TypeState → List Moment
  | .expression value, st => usesIn st.scope none value.occurrences
  | .print value, st => usesIn st.scope none value.occurrences
  | .var decl, st =>
    usesIn st.scope (initializing st.scope decl.name) (Expr.occurrencesOption decl.initializer) ++
      thenMoments (ask (declaredType decl)) st fun ty _ => [.bound decl.name ty st.scope]
  | .block body, st => stmtsMoments returns body ⟨st.classes, st.scope.enter .empty⟩
  | .ifThen condition thenBranch, st =>
    usesIn st.scope none condition.occurrences ++ stmtMoments returns thenBranch st
  | .ifElse condition thenBranch elseBranch, st =>
    usesIn st.scope none condition.occurrences ++ stmtMoments returns thenBranch st ++
      thenMoments (checkStmt returns thenBranch) st fun _ => stmtMoments returns elseBranch
  | .whileLoop condition body, st =>
    usesIn st.scope none condition.occurrences ++ stmtMoments returns body st
  | .function decl, st =>
    thenMoments (ask fun _ scope => signature decl scope) st fun s _ =>
      .bound decl.name s.ty st.scope ::
        routineMoments s decl ⟨st.classes, st.scope.define decl.name.text s.ty⟩
  | .returnWith _ value, st => usesIn st.scope none (Expr.occurrencesOption value)
  | .classDecl ⟨name, superclass, fields, methods⟩, st =>
    usesIn st.scope none (SuperclassRef.occurrences superclass) ++
      thenMoments (ask (superclassOf name superclass)) st fun parent st =>
        .bound name (.classObject st.classes.nextId) st.scope ::
          thenMoments (newClass name parent) st fun id st =>
            thenMoments (enterMethods id name parent methods) st fun signatures st =>
              let inner : TypeState := ⟨st.classes, enterClass id parent st.scope⟩
              fieldMoments id fields inner ++
                thenMoments (enterFields id fields) inner fun _ =>
                  routinesMoments signatures methods
termination_by structural s => s

/-- What the check of statements meets. -/
def stmtsMoments (returns : Ty) : List (Stmt NodeId) → TypeState → List Moment
  | [], _ => []
  | s :: rest, st =>
    stmtMoments returns s st ++
      thenMoments (checkStmt returns s) st fun _ => stmtsMoments returns rest
termination_by structural ss => ss

/-- What the check of the body of a function meets. -/
def routineMoments (s : Signature) : FunctionDecl (Stmt NodeId) → TypeState → List Moment
  | ⟨_, params, _, body⟩, st =>
    stmtsMoments s.result body ⟨st.classes, st.scope.enter (paramScope params s.params)⟩
termination_by structural d => d

/-- What the check of the bodies of methods meets. -/
def routinesMoments (signatures : List Signature) :
    List (FunctionDecl (Stmt NodeId)) → TypeState → List Moment
  | [], _ => []
  | d :: rest, st =>
    match signatures with
    | [] => []
    | s :: others =>
      routineMoments s d st ++
        thenMoments (checkRoutine s d) st fun _ => routinesMoments others rest
termination_by structural ds => ds

end

end Typing

/-- What a check of a program meets. -/
def Checker.moments (c : Checker) (program : List (Stmt NodeId)) : List Moment :=
  Typing.stmtsMoments .void program c.start

/-! ## Checks of statements -/

namespace Typing

variable {returns : Ty} {u : Unit} {st st' : TypeState}

-- As for `typeOf` above.
attribute [local simp] checkStmt

theorem checkStmt_expression {value : Expr NodeId} :
    checkStmt returns (.expression value) st = .ok u st' ↔
      (∃ ty, typeOf st.classes st.scope value = .ok ty) ∧ st = st' := by
  simp only [checkStmt, ask_bind_ok, pure_ok, true_and, exists_and_right]

theorem checkStmt_print {value : Expr NodeId} :
    checkStmt returns (.print value) st = .ok u st' ↔
      (∃ ty, typeOf st.classes st.scope value = .ok ty) ∧ st = st' :=
  @checkStmt_expression returns u st st' value

theorem checkStmt_var {decl : VarDecl NodeId} :
    checkStmt returns (.var decl) st = .ok u st' ↔
      ∃ ty, declaredType decl st.classes st.scope = .ok ty ∧
        st' = ⟨st.classes, st.scope.define decl.name.text ty⟩ := by
  simp only [checkStmt, ask_bind_ok, define_ok]

theorem checkStmt_block {body : List (Stmt NodeId)} :
    checkStmt returns (.block body) st = .ok u st' ↔
      ∃ inner, checkStmts returns body ⟨st.classes, st.scope.enter .empty⟩ = .ok u inner ∧
        st' = ⟨inner.classes, st.scope⟩ := by
  simp only [checkStmt, inside_ok]

theorem checkStmt_ifThen {condition : Expr NodeId} {thenBranch : Stmt NodeId} :
    checkStmt returns (.ifThen condition thenBranch) st = .ok u st' ↔
      checkCondition "if" condition st.classes st.scope = .ok () ∧
        checkStmt returns thenBranch st = .ok u st' := by
  simp only [checkStmt, ask_then_ok]

theorem checkStmt_ifElse {condition : Expr NodeId} {thenBranch elseBranch : Stmt NodeId} :
    checkStmt returns (.ifElse condition thenBranch elseBranch) st = .ok u st' ↔
      checkCondition "if" condition st.classes st.scope = .ok () ∧
        ∃ mid, checkStmt returns thenBranch st = .ok () mid ∧
          checkStmt returns elseBranch mid = .ok u st' := by
  simp only [checkStmt]
  rw [ask_then_ok, then_ok]

theorem checkStmt_whileLoop {condition : Expr NodeId} {body : Stmt NodeId} :
    checkStmt returns (.whileLoop condition body) st = .ok u st' ↔
      checkCondition "while" condition st.classes st.scope = .ok () ∧
        checkStmt returns body st = .ok u st' := by
  simp only [checkStmt, ask_then_ok]

theorem checkStmt_function {decl : FunctionDecl (Stmt NodeId)} :
    checkStmt returns (.function decl) st = .ok u st' ↔
      ∃ s, signature decl st.scope = .ok s ∧
        checkRoutine s decl ⟨st.classes, st.scope.define decl.name.text s.ty⟩ = .ok u st' := by
  simp only [checkStmt, ask_bind_ok, then_ok, define_ok, exists_eq_left]

theorem checkStmt_returnWith {keyword : Name} {value : Option (Expr NodeId)} :
    checkStmt returns (.returnWith keyword value) st = .ok u st' ↔
      checkReturn returns keyword value st.classes st.scope = .ok () ∧ st = st' := by
  simp only [checkStmt, ask_ok]

theorem newClass_ok {name : Name} {parent : Option ClassId} {id : ClassId} :
    newClass name parent st = .ok id st' ↔
      id = st.classes.nextId ∧
        st' = ⟨st.classes.add name.text parent,
          st.scope.define name.text (.classObject st.classes.nextId)⟩ := by
  show EStateM.Result.ok _ _ = .ok id st' ↔ _
  simp only [EStateM.Result.ok.injEq, eq_comm]

/-- A class that passes the check: its superclass, the signatures of its methods, and the states
after its methods and its fields have been entered. -/
structure ClassChecked (decl : ClassDecl NodeId (Stmt NodeId)) (st st' : TypeState)
    (parent : Option ClassId) (signatures : List Signature) (entered filled : TypeState) :
    Prop where
  superclass : superclassOf decl.name decl.superclass st.classes st.scope = .ok parent
  methods :
    enterMethods st.classes.nextId decl.name parent decl.methods
      ⟨st.classes.add decl.name.text parent,
        st.scope.define decl.name.text (.classObject st.classes.nextId)⟩ =
      .ok signatures entered
  fields :
    enterFields st.classes.nextId decl.fields
      ⟨entered.classes, enterClass st.classes.nextId parent entered.scope⟩ = .ok () filled
  routines : ∃ last, checkRoutines signatures decl.methods filled = .ok () last ∧
    st' = ⟨last.classes, entered.scope⟩

theorem checkStmt_classDecl {decl : ClassDecl NodeId (Stmt NodeId)} :
    checkStmt returns (.classDecl decl) st = .ok u st' ↔
      ∃ parent signatures entered filled,
        ClassChecked decl st st' parent signatures entered filled := by
  obtain ⟨name, superclass, fields, methods⟩ := decl
  simp only [checkStmt]
  rw [ask_bind_ok]
  simp only [bind_ok, newClass_ok, inside_ok]
  constructor
  · rintro ⟨parent, hp, _, _, ⟨rfl, rfl⟩, signatures, entered, hm, last, ⟨_, filled, hf, hr⟩, rfl⟩
    exact ⟨parent, signatures, entered, filled, hp, hm, hf, last, hr, rfl⟩
  · rintro ⟨parent, signatures, entered, filled, hp, hm, hf, last, hr, rfl⟩
    exact ⟨parent, hp, _, _, ⟨rfl, rfl⟩, signatures, entered, hm, last, ⟨(), filled, hf, hr⟩, rfl⟩

theorem checkStmts_nil : checkStmts returns ([] : List (Stmt NodeId)) st = .ok u st' ↔ st = st' := by
  simp only [checkStmts, pure_ok, true_and]

theorem checkStmts_cons {s : Stmt NodeId} {rest : List (Stmt NodeId)} :
    checkStmts returns (s :: rest) st = .ok u st' ↔
      ∃ mid, checkStmt returns s st = .ok () mid ∧ checkStmts returns rest mid = .ok u st' := by
  simp only [checkStmts, then_ok]

theorem checkRoutine_ok {s : Signature} {decl : FunctionDecl (Stmt NodeId)} :
    checkRoutine s decl st = .ok u st' ↔
      ∃ inner,
        checkStmts s.result decl.body
          ⟨st.classes, st.scope.enter (paramScope decl.params s.params)⟩ = .ok () inner ∧
        (!mustReturn s.result || someReturns decl.body) = true ∧
        st' = ⟨inner.classes, st.scope⟩ := by
  obtain ⟨name, params, result, body⟩ := decl
  simp only [checkRoutine, then_ok, inside_ok, ask_ok, checkPaths, require_ok]
  constructor
  · rintro ⟨_, ⟨inner, hi, rfl⟩, hp, rfl⟩
    exact ⟨inner, hi, hp, rfl⟩
  · rintro ⟨inner, hi, hp, rfl⟩
    exact ⟨_, ⟨inner, hi, rfl⟩, hp, rfl⟩

theorem checkRoutines_cons {s : Signature} {others : List Signature}
    {d : FunctionDecl (Stmt NodeId)} {rest : List (FunctionDecl (Stmt NodeId))} :
    checkRoutines (s :: others) (d :: rest) st = .ok u st' ↔
      ∃ mid, checkRoutine s d st = .ok () mid ∧ checkRoutines others rest mid = .ok u st' := by
  simp only [checkRoutines, then_ok]

theorem enterMethods_cons {id : ClassId} {className : Name} {parent : Option ClassId}
    {d : FunctionDecl (Stmt NodeId)} {rest : List (FunctionDecl (Stmt NodeId))}
    {signatures : List Signature} :
    enterMethods id className parent (d :: rest) st = .ok signatures st' ↔
      ∃ s others, signatures = s :: others ∧
        methodSignature className parent d st.classes st.scope = .ok s ∧
        enterMethods id className parent rest
          ⟨st.classes.addMethod id d.name.text s, st.scope⟩ = .ok others st' := by
  rw [enterMethods, ask_bind_ok]
  simp only [bind_ok, modifyClasses_ok, pure_ok]
  constructor
  · rintro ⟨s, hs, _, _, rfl, others, _, ho, rfl, rfl⟩
    exact ⟨s, others, rfl, hs, ho⟩
  · rintro ⟨s, others, rfl, hs, ho⟩
    exact ⟨s, hs, (), _, rfl, others, _, ho, rfl, rfl⟩

theorem enterFields_cons {id : ClassId} {d : VarDecl NodeId} {rest : List (VarDecl NodeId)} :
    enterFields id (d :: rest) st = .ok u st' ↔
      ∃ ty, fieldType id d st.classes st.scope = .ok ty ∧
        enterFields id rest ⟨st.classes.addField id d.name.text ty, st.scope⟩ = .ok u st' := by
  simp only [enterFields, ask_bind_ok, then_ok, modifyClasses_ok, exists_eq_left]

/-- The scope stays the same while methods are entered, and each gets its signature. -/
theorem enterMethods_scope {id : ClassId} {className : Name} {parent : Option ClassId}
    {methods : List (FunctionDecl (Stmt NodeId))} {signatures : List Signature}
    (h : enterMethods id className parent methods st = .ok signatures st') :
    st'.scope = st.scope ∧
      List.Forall₂ (fun s d => signature d st.scope = .ok s) signatures methods := by
  induction methods generalizing st signatures with
  | nil =>
    obtain ⟨rfl, rfl⟩ := pure_ok.1 h
    exact ⟨rfl, .nil⟩
  | cons d rest ih =>
    obtain ⟨s, others, rfl, hs, ho⟩ := enterMethods_cons.1 h
    obtain ⟨hscope, hl⟩ := ih ho
    exact ⟨hscope, .cons (methodSignature_ok.1 hs).1 hl⟩

theorem enterFields_scope {id : ClassId} {fields : List (VarDecl NodeId)}
    (h : enterFields id fields st = .ok u st') : st'.scope = st.scope := by
  induction fields generalizing st with
  | nil => obtain ⟨-, rfl⟩ := pure_ok.1 h; rfl
  | cons d rest ih =>
    obtain ⟨ty, -, hr⟩ := enterFields_cons.1 h
    rw [ih hr]

/-! ## Moments of checks that end without an error -/

theorem thenMoments_ok {α : Type} {x : Check α} {a : α} {next : α → TypeState → List Moment}
    (h : x st = .ok a st') : thenMoments x st next = next a st' := by
  rw [thenMoments, h]

theorem fieldMoments_cons {id : ClassId} {d : VarDecl NodeId} {rest : List (VarDecl NodeId)}
    {ty : Ty} (h : fieldType id d st.classes st.scope = .ok ty) :
    fieldMoments id (d :: rest) st =
      usesIn st.scope none (Expr.occurrencesOption d.initializer) ++
        .entered id d ty st.classes ::
          fieldMoments id rest ⟨st.classes.addField id d.name.text ty, st.scope⟩ := by
  rw [fieldMoments, thenMoments_ok (ask_ok.2 ⟨h, rfl⟩)]

theorem var_moments {decl : VarDecl NodeId} {ty : Ty}
    (h : declaredType decl st.classes st.scope = .ok ty) :
    stmtMoments returns (.var decl) st =
      usesIn st.scope (initializing st.scope decl.name)
        (Expr.occurrencesOption decl.initializer) ++ [.bound decl.name ty st.scope] := by
  rw [stmtMoments, thenMoments_ok (ask_ok.2 ⟨h, rfl⟩)]

theorem ifElse_moments {condition : Expr NodeId} {thenBranch elseBranch : Stmt NodeId}
    (h : checkStmt returns thenBranch st = .ok () st') :
    stmtMoments returns (.ifElse condition thenBranch elseBranch) st =
      usesIn st.scope none condition.occurrences ++ stmtMoments returns thenBranch st ++
        stmtMoments returns elseBranch st' := by
  rw [stmtMoments, thenMoments_ok h]

theorem function_moments {decl : FunctionDecl (Stmt NodeId)} {s : Signature}
    (h : signature decl st.scope = .ok s) :
    stmtMoments returns (.function decl) st =
      .bound decl.name s.ty st.scope ::
        routineMoments s decl ⟨st.classes, st.scope.define decl.name.text s.ty⟩ := by
  rw [stmtMoments, thenMoments_ok (x := ask fun _ scope => signature decl scope)
    (ask_ok.2 ⟨h, rfl⟩)]

theorem ClassChecked.moments {decl : ClassDecl NodeId (Stmt NodeId)} {parent : Option ClassId}
    {signatures : List Signature} {entered filled : TypeState}
    (h : ClassChecked decl st st' parent signatures entered filled) :
    stmtMoments returns (.classDecl decl) st =
      usesIn st.scope none (SuperclassRef.occurrences decl.superclass) ++
        .bound decl.name (.classObject st.classes.nextId) st.scope ::
          (fieldMoments st.classes.nextId decl.fields
              ⟨entered.classes, enterClass st.classes.nextId parent entered.scope⟩ ++
            routinesMoments signatures decl.methods filled) := by
  obtain ⟨name, superclass, fields, methods⟩ := decl
  have hclass : newClass name parent st = .ok st.classes.nextId
      ⟨st.classes.add name.text parent,
        st.scope.define name.text (.classObject st.classes.nextId)⟩ := newClass_ok.2 ⟨rfl, rfl⟩
  rw [stmtMoments, thenMoments_ok (ask_ok.2 ⟨h.superclass, rfl⟩), thenMoments_ok hclass,
    thenMoments_ok h.methods]
  dsimp only
  rw [thenMoments_ok h.fields]

theorem cons_moments {s : Stmt NodeId} {rest : List (Stmt NodeId)}
    (h : checkStmt returns s st = .ok () st') :
    stmtsMoments returns (s :: rest) st =
      stmtMoments returns s st ++ stmtsMoments returns rest st' := by
  rw [stmtsMoments, thenMoments_ok h]

theorem routines_moments {s : Signature} {others : List Signature}
    {d : FunctionDecl (Stmt NodeId)} {rest : List (FunctionDecl (Stmt NodeId))}
    (h : checkRoutine s d st = .ok () st') :
    routinesMoments (s :: others) (d :: rest) st =
      routineMoments s d st ++ routinesMoments others rest st' := by
  rw [routinesMoments, thenMoments_ok h]

end Typing

end ClassScript
