import ClassScript.Proofs.ParserShape
import ClassScript.Proofs.ResolverWalk
import Mathlib.Data.List.Nodup

/-!
# The places where names are used

`Stmt.places` lists the uses of names in a statement, each with the scopes around it, and says of
every scope to which part of the program it belongs. The walk that resolves names sees the same
scopes: unless it reports an error, it notes for every place the depth of the name among these
scopes and nothing else (`Stmt.places_noted`). So a machine that has loaded a program knows this
depth for every place (`Session.load_distance`).
-/

set_option autoImplicit false

namespace ClassScript

open Resolution

/-! ## Scopes -/

/-- The part of a program that a scope belongs to. -/
inductive Site where
  | block (body : List (Stmt NodeId))
  | routine (decl : FunctionDecl (Stmt NodeId))
  | members (decl : ClassDecl NodeId (Stmt NodeId))
  | superclass (decl : ClassDecl NodeId (Stmt NodeId))

/-- A scope with the names that are bound in it. -/
structure LexicalScope where
  site : Site
  names : Bindings Bool

/-- The scopes around a place, innermost first. -/
abbrev Lexical := List LexicalScope

namespace Lexical

/-- The names alone. -/
def scopes (l : Lexical) : Scopes :=
  l.map (·.names)

/-- Announces a name in the innermost scope. -/
def declare (l : Lexical) (name : Name) : Lexical :=
  match l with
  | [] => []
  | ⟨site, names⟩ :: outer =>
    if names.contains name.text then ⟨site, names⟩ :: outer
    else ⟨site, names.insert name.text false⟩ :: outer

/-- Announces and binds a name in the innermost scope. -/
def bind (l : Lexical) (name : Name) : Lexical :=
  match l.declare name with
  | [] => []
  | ⟨site, names⟩ :: outer => ⟨site, names.insert name.text true⟩ :: outer

/-- Announces and binds parameters. -/
def bindAll (l : Lexical) : List Param → Lexical
  | [] => l
  | p :: rest => (l.bind p.name).bindAll rest

/-- The scopes inside a class. -/
def inClass (l : Lexical) (decl : ClassDecl NodeId (Stmt NodeId)) : Lexical :=
  match decl.superclass with
  | none => ⟨.members decl, .single "this" true⟩ :: l
  | some _ =>
    ⟨.members decl, .single "this" true⟩ :: ⟨.superclass decl, .single "super" true⟩ :: l

/-- The scopes inside a function. -/
def inRoutine (l : Lexical) (decl : FunctionDecl (Stmt NodeId)) : Lexical :=
  bindAll (⟨.routine decl, .empty⟩ :: l) decl.params

/-- The scopes inside a block. -/
def inBlock (l : Lexical) (body : List (Stmt NodeId)) : Lexical :=
  ⟨.block body, .empty⟩ :: l

/-- A name that is bound in a scope is announced there first, unless it is bound there already. -/
theorem bind_cons (site : Site) (names : Bindings Bool) (outer : Lexical) (name : Name) :
    bind (⟨site, names⟩ :: outer) name =
      ⟨site, (if names.contains name.text then names
        else names.insert name.text false).insert name.text true⟩ :: outer := by
  simp only [bind, declare]
  cases names.contains name.text <;> rfl

/-- The parameters are bound in the innermost scope. -/
theorem bindAll_cons (site : Site) (names : Bindings Bool) (outer : Lexical)
    (params : List Param) :
    ∃ names', bindAll (⟨site, names⟩ :: outer) params = ⟨site, names'⟩ :: outer ∧
      ∀ x, names'.contains x = true ↔
        names.contains x = true ∨ x ∈ params.map fun p => p.name.text := by
  induction params generalizing names with
  | nil => exact ⟨names, rfl, by simp⟩
  | cons p rest ih =>
    obtain ⟨names', hb, hn⟩ := ih
      ((if names.contains p.name.text then names
        else names.insert p.name.text false).insert p.name.text true)
    refine ⟨names', by rw [bindAll, bind_cons, hb], fun x => ?_⟩
    have hone : ((if names.contains p.name.text then names
        else names.insert p.name.text false).insert p.name.text true).contains x = true ↔
        names.contains x = true ∨ x = p.name.text := by
      by_cases hx : p.name.text = x
      · simp [Bindings.contains_insert, hx]
      · have hne : x ≠ p.name.text := Ne.symm hx
        split <;> simp [Bindings.contains_insert, hx, hne]
    rw [hn, hone, List.map_cons, List.mem_cons, or_assoc]

theorem inRoutine_cons (l : Lexical) (decl : FunctionDecl (Stmt NodeId)) :
    ∃ names, l.inRoutine decl = ⟨.routine decl, names⟩ :: l ∧
      ∀ x, names.contains x = true ↔ x ∈ decl.params.map fun p => p.name.text := by
  obtain ⟨names, hb, hn⟩ := bindAll_cons (.routine decl) .empty l decl.params
  exact ⟨names, hb, fun x => by simp [hn]⟩

theorem scopes_declare (l : Lexical) (name : Name) :
    (l.declare name).scopes = (Resolution.declare l.scopes name).1 := by
  cases l with
  | nil => rfl
  | cons s outer =>
    simp only [declare, Resolution.declare, scopes, List.map_cons]
    split <;> rfl

theorem scopes_bind (l : Lexical) (name : Name) :
    (l.bind name).scopes = (declareAndDefine l.scopes name).1 := by
  simp only [bind, declareAndDefine, ← scopes_declare]
  cases l.declare name <;> rfl

theorem scopes_bindAll (l : Lexical) (params : List Param) :
    (l.bindAll params).scopes = (declareAll l.scopes params).1 := by
  induction params generalizing l with
  | nil => rfl
  | cons p rest ih => simp only [bindAll, declareAll, ih, scopes_bind]

theorem scopes_inClass (l : Lexical) (decl : ClassDecl NodeId (Stmt NodeId)) :
    (l.inClass decl).scopes = classScopes l.scopes decl.superclass := by
  unfold inClass
  split <;> simp_all [classScopes, scopes]

/-- Announcing a name does not change where other names are found. -/
theorem depth?_declare_of_ne (l : Lexical) {x : Name} {y : String} (h : x.text ≠ y) :
    Resolution.depth? y (l.declare x).scopes = Resolution.depth? y l.scopes := by
  cases l with
  | nil => rfl
  | cons a outer =>
    obtain ⟨site, names⟩ := a
    have hb : (x.text == y) = false := beq_eq_false_iff_ne.2 h
    unfold declare
    dsimp only
    split
    · rfl
    · simp only [scopes, List.map_cons, Resolution.depth?, Bindings.contains_insert, hb,
        Bool.false_or]

theorem depth?_bind_of_ne (l : Lexical) {x : Name} {y : String} (h : x.text ≠ y) :
    Resolution.depth? y (l.bind x).scopes = Resolution.depth? y l.scopes := by
  cases l with
  | nil => rfl
  | cons a outer =>
    obtain ⟨site, names⟩ := a
    have hb : (x.text == y) = false := beq_eq_false_iff_ne.2 h
    rw [bind_cons]
    simp only [scopes, List.map_cons, Resolution.depth?, Bindings.contains_insert, hb,
      Bool.false_or]
    split
    · rfl
    · rw [Bindings.contains_insert, hb, Bool.false_or]

theorem sites_declare (l : Lexical) (x : Name) :
    (l.declare x).map (·.site) = l.map (·.site) := by
  cases l with
  | nil => rfl
  | cons a outer =>
    obtain ⟨site, names⟩ := a
    unfold declare
    dsimp only
    split <;> rfl

theorem sites_bind (l : Lexical) (x : Name) : (l.bind x).map (·.site) = l.map (·.site) := by
  cases l with
  | nil => rfl
  | cons a outer =>
    obtain ⟨site, names⟩ := a
    rw [bind_cons]
    rfl

end Lexical

/-! ## Places -/

/-- A use of a name and the scopes around it. -/
structure Place where
  use : Occurrence NodeId
  around : Lexical

/-- How many scopes out the name of the place is bound. -/
def Place.depth? (p : Place) : Option Nat :=
  Resolution.depth? p.use.name.text p.around.scopes

/-- The places of uses within the same scopes. -/
def placesAt (l : Lexical) (uses : List (Occurrence NodeId)) : List Place :=
  uses.map fun o => ⟨o, l⟩

/-- The scopes after a statement. -/
def Stmt.scopesAfter (l : Lexical) : Stmt NodeId → Lexical
  | .var decl => l.bind decl.name
  | .function decl => l.bind decl.name
  | .classDecl decl => l.bind decl.name
  | .ifThen _ thenBranch => thenBranch.scopesAfter l
  | .ifElse _ thenBranch elseBranch => elseBranch.scopesAfter (thenBranch.scopesAfter l)
  | .whileLoop _ body => body.scopesAfter l
  | _ => l
termination_by structural s => s

/-- The scopes after statements. -/
def Stmt.scopesAfterAll (l : Lexical) : List (Stmt NodeId) → Lexical
  | [] => l
  | s :: rest => Stmt.scopesAfterAll (s.scopesAfter l) rest

mutual

/-- The places in a statement. -/
def Stmt.places (l : Lexical) : Stmt NodeId → List Place
  | .expression value => placesAt l value.occurrences
  | .print value => placesAt l value.occurrences
  | .var decl => placesAt (l.declare decl.name) (Expr.occurrencesOption decl.initializer)
  | .block body => Stmt.placesAll (l.inBlock body) body
  | .ifThen condition thenBranch => placesAt l condition.occurrences ++ thenBranch.places l
  | .ifElse condition thenBranch elseBranch =>
    placesAt l condition.occurrences ++ thenBranch.places l ++
      elseBranch.places (thenBranch.scopesAfter l)
  | .whileLoop condition body => placesAt l condition.occurrences ++ body.places l
  | .function decl => Stmt.placesRoutine (l.bind decl.name) decl
  | .returnWith _ value => placesAt l (Expr.occurrencesOption value)
  | .classDecl ⟨name, superclass, fields, methods⟩ =>
    let inner := (l.bind name).inClass ⟨name, superclass, fields, methods⟩
    placesAt (l.bind name) (SuperclassRef.occurrences superclass) ++
      placesAt inner (VarDecl.occurrencesAll fields) ++ Stmt.placesRoutines inner methods
termination_by structural s => s

/-- The places in statements. -/
def Stmt.placesAll (l : Lexical) : List (Stmt NodeId) → List Place
  | [] => []
  | s :: rest => s.places l ++ Stmt.placesAll (s.scopesAfter l) rest
termination_by structural ss => ss

/-- The places in a function or a method. -/
def Stmt.placesRoutine (l : Lexical) : FunctionDecl (Stmt NodeId) → List Place
  | ⟨name, params, result, body⟩ =>
    Stmt.placesAll (l.inRoutine ⟨name, params, result, body⟩) body
termination_by structural d => d

/-- The places in methods. -/
def Stmt.placesRoutines (l : Lexical) : List (FunctionDecl (Stmt NodeId)) → List Place
  | [] => []
  | d :: rest => Stmt.placesRoutine l d ++ Stmt.placesRoutines l rest
termination_by structural ds => ds

end

/-- The places of a whole program. -/
def programPlaces (program : List (Stmt NodeId)) : List Place :=
  Stmt.placesAll [] program

mutual

/-- The walk that resolves names goes on with the same scopes after a statement. -/
theorem Stmt.scopes_scopesAfter (routine : Routine) (enclosing : Enclosing) :
    ∀ (s : Stmt NodeId) (l : Lexical),
      (s.scopesAfter l).scopes = (statement routine enclosing l.scopes s).1
  | .expression _, _ => rfl
  | .print _, _ => rfl
  | .var decl, l => l.scopes_bind decl.name
  | .block _, _ => rfl
  | .ifThen _ thenBranch, l => Stmt.scopes_scopesAfter routine enclosing thenBranch l
  | .ifElse _ thenBranch elseBranch, l => by
    rw [Stmt.scopesAfter, Stmt.scopes_scopesAfter routine enclosing elseBranch,
      Stmt.scopes_scopesAfter routine enclosing thenBranch l]
    rfl
  | .whileLoop _ body, l => Stmt.scopes_scopesAfter routine enclosing body l
  | .function decl, l => l.scopes_bind decl.name
  | .returnWith _ _, _ => rfl
  | .classDecl ⟨name, _, _, _⟩, l => l.scopes_bind name
termination_by structural s => s

end

/-! ## Notes -/

/-- Unless the report has errors, it notes the depths of the names of the places, and no more. -/
def Report.Notes (r : Report) (ps : List Place) : Prop :=
  r.errors = [] →
    ∀ id d, (id, d) ∈ r.notes ↔ ∃ p ∈ ps, p.use.id = id ∧ p.depth? = some d

namespace Report.Notes

variable {r r' : Report} {ps qs : List Place}

theorem empty : Report.empty.Notes [] := by
  intro _ id d
  simp [Report.empty]

theorem error (cause : ScopeCause) (name : Name) : (Report.error cause name).Notes ps :=
  fun h => nomatch h

theorem errorIf (condition : Bool) (cause : ScopeCause) (name : Name) :
    (Report.errorIf condition cause name).Notes [] := by
  unfold Report.errorIf
  split
  · exact error cause name
  · exact empty

theorem append (h : r.Notes ps) (h' : r'.Notes qs) : (r ++ r').Notes (ps ++ qs) := by
  intro he id d
  obtain ⟨h1, h2⟩ := List.append_eq_nil_iff.1 (show r.errors ++ r'.errors = [] from he)
  show (id, d) ∈ r.notes ++ r'.notes ↔ _
  simp only [List.mem_append, h h1 id d, h' h2 id d, or_and_right, exists_or]

/-- The order of the parts of a report does not matter. -/
theorem swap (h : r.Notes ps) (h' : r'.Notes qs) : (r ++ r').Notes (qs ++ ps) := by
  intro he id d
  rw [h.append h' he id d]
  simp only [List.mem_append, or_comm]

theorem note (l : Lexical) (kind : UseKind) (id : NodeId) (name : Name) :
    (Resolution.note l.scopes id name).Notes [⟨⟨kind, id, name⟩, l⟩] := by
  intro _ id' d
  unfold Resolution.note
  cases hd : Resolution.depth? name.text l.scopes with
  | none => simp [Report.empty, Place.depth?, hd]
  | some d' => simp [Place.depth?, hd, eq_comm]

end Report.Notes

theorem placesAt_append (l : Lexical) (os os' : List (Occurrence NodeId)) :
    placesAt l (os ++ os') = placesAt l os ++ placesAt l os' :=
  List.map_append

mutual

theorem Expr.notes (enclosing : Enclosing) (l : Lexical) : ∀ e : Expr NodeId,
    (expression enclosing l.scopes e).Notes (placesAt l e.occurrences)
  | .literal _ => .empty
  | .unary _ operand => Expr.notes enclosing l operand
  | .suffixed operand _ => Expr.notes enclosing l operand
  | .binary left _ right => by
    rw [Expr.occurrences, placesAt_append]
    exact (Expr.notes enclosing l left).append (Expr.notes enclosing l right)
  | .logical left _ right => by
    rw [Expr.occurrences, placesAt_append]
    exact (Expr.notes enclosing l left).append (Expr.notes enclosing l right)
  | .grouping inner => Expr.notes enclosing l inner
  | .variable id name =>
    (Report.Notes.errorIf _ .ownInitializer name).append (.note l .variable id name)
  | .assign id name value => (Expr.notes enclosing l value).swap (.note l .assign id name)
  | .call callee _ arguments => by
    rw [Expr.occurrences, placesAt_append]
    exact (Expr.notes enclosing l callee).append (Expr.notesAll enclosing l arguments)
  | .get object _ => Expr.notes enclosing l object
  | .set object _ value => by
    rw [Expr.occurrences, placesAt_append]
    exact (Expr.notes enclosing l value).swap (Expr.notes enclosing l object)
  | .this id keyword => by
    cases enclosing with
    | none => exact .error _ _
    | baseClass => exact .note l .this id keyword
    | subclass => exact .note l .this id keyword
  | .super id keyword _ => by
    cases enclosing with
    | none => exact .error _ _
    | baseClass => exact .error _ _
    | subclass => exact .note l .super id keyword
termination_by structural e => e

theorem Expr.notesAll (enclosing : Enclosing) (l : Lexical) : ∀ es : List (Expr NodeId),
    (expressions enclosing l.scopes es).Notes (placesAt l (Expr.occurrencesAll es))
  | [] => .empty
  | e :: rest => by
    rw [Expr.occurrencesAll, placesAt_append]
    exact (Expr.notes enclosing l e).append (Expr.notesAll enclosing l rest)
termination_by structural es => es

end

theorem Expr.notesOption (enclosing : Enclosing) (l : Lexical) (e : Option (Expr NodeId)) :
    (expressionOption enclosing l.scopes e).Notes (placesAt l (Expr.occurrencesOption e)) := by
  cases e with
  | none => exact .empty
  | some e => exact e.notes enclosing l

theorem VarDecl.notesAll (enclosing : Enclosing) (l : Lexical) (ds : List (VarDecl NodeId)) :
    (Resolution.fields enclosing l.scopes ds).Notes (placesAt l (VarDecl.occurrencesAll ds)) := by
  induction ds with
  | nil => exact .empty
  | cons d rest ih =>
    show (Resolution.fields enclosing l.scopes (d :: rest)).Notes
      (placesAt l (Expr.occurrencesOption d.initializer ++ VarDecl.occurrencesAll rest))
    rw [placesAt_append]
    exact (Expr.notesOption enclosing l d.initializer).append ih

theorem SuperclassRef.notes (l : Lexical) (name : Name) (s : Option (SuperclassRef NodeId)) :
    (Resolution.superclass l.scopes name s).Notes (placesAt l (SuperclassRef.occurrences s)) := by
  cases s with
  | none => exact .empty
  | some s =>
    exact (Report.Notes.errorIf _ .ownSuperclass s.name).append
      (Expr.notes .subclass l (.variable s.id s.name))

/-- Announcing a name notes nothing. -/
theorem declare_notes (scopes : Scopes) (name : Name) : (declare scopes name).2.Notes [] := by
  unfold declare
  split
  · exact .empty
  · split
    · exact .error _ _
    · exact .empty

theorem declareAll_notes (scopes : Scopes) (params : List Param) :
    (declareAll scopes params).2.Notes [] := by
  induction params generalizing scopes with
  | nil => exact .empty
  | cons p rest ih => exact (declare_notes scopes p.name).append (ih _)

mutual

/-- What the walk notes in a statement are the depths of its places. -/
theorem Stmt.notes : ∀ (s : Stmt NodeId) (routine : Routine) (enclosing : Enclosing) (l : Lexical),
    (statement routine enclosing l.scopes s).2.Notes (s.places l)
  | .expression value, _, enclosing, l => value.notes enclosing l
  | .print value, _, enclosing, l => value.notes enclosing l
  | .var decl, _, enclosing, l => by
    have h := Expr.notesOption enclosing (l.declare decl.name) decl.initializer
    rw [Lexical.scopes_declare] at h
    exact (declare_notes l.scopes decl.name).append h
  | .block body, routine, enclosing, l => Stmt.notesAll body routine enclosing (l.inBlock body)
  | .ifThen condition thenBranch, routine, enclosing, l =>
    (condition.notes enclosing l).append (Stmt.notes thenBranch routine enclosing l)
  | .ifElse condition thenBranch elseBranch, routine, enclosing, l => by
    have h := Stmt.notes elseBranch routine enclosing (thenBranch.scopesAfter l)
    rw [Stmt.scopes_scopesAfter routine enclosing thenBranch l] at h
    exact ((condition.notes enclosing l).append (Stmt.notes thenBranch routine enclosing l)).append h
  | .whileLoop condition body, routine, enclosing, l =>
    (condition.notes enclosing l).append (Stmt.notes body routine enclosing l)
  | .function decl, _, enclosing, l => by
    have h := Stmt.notesRoutine decl .function enclosing (l.bind decl.name)
    rw [Lexical.scopes_bind] at h
    exact (declare_notes l.scopes decl.name).append h
  | .returnWith keyword value, _, enclosing, l =>
    ((Report.Notes.errorIf _ .topLevelReturn keyword).append
      (.errorIf _ .initializerReturn keyword)).append (Expr.notesOption enclosing l value)
  | .classDecl ⟨name, superclass, fields, methods⟩, _, _, l => by
    have hs := SuperclassRef.notes (l.bind name) name superclass
    have hf := VarDecl.notesAll (enclosingOf superclass)
      ((l.bind name).inClass ⟨name, superclass, fields, methods⟩) fields
    have hm := Stmt.notesRoutines methods (enclosingOf superclass)
      ((l.bind name).inClass ⟨name, superclass, fields, methods⟩) name
    rw [Lexical.scopes_inClass] at hf hm
    rw [Lexical.scopes_bind] at hs hf hm
    exact (((declare_notes l.scopes name).append hs).append hf).append hm
termination_by structural s => s

theorem Stmt.notesAll : ∀ (ss : List (Stmt NodeId)) (routine : Routine) (enclosing : Enclosing)
    (l : Lexical), (statements routine enclosing l.scopes ss).2.Notes (Stmt.placesAll l ss)
  | [], _, _, _ => .empty
  | s :: rest, routine, enclosing, l => by
    have h := Stmt.notesAll rest routine enclosing (s.scopesAfter l)
    rw [Stmt.scopes_scopesAfter routine enclosing s l] at h
    exact (Stmt.notes s routine enclosing l).append h
termination_by structural ss => ss

theorem Stmt.notesRoutine : ∀ (d : FunctionDecl (Stmt NodeId)) (routine : Routine)
    (enclosing : Enclosing) (l : Lexical),
    (Resolution.function routine enclosing l.scopes d).Notes (Stmt.placesRoutine l d)
  | ⟨name, params, result, body⟩, routine, enclosing, l => by
    have h := Stmt.notesAll body routine enclosing (l.inRoutine ⟨name, params, result, body⟩)
    rw [Lexical.inRoutine, Lexical.scopes_bindAll] at h
    exact (declareAll_notes (.empty :: l.scopes) params).append h
termination_by structural d => d

theorem Stmt.notesRoutines : ∀ (ds : List (FunctionDecl (Stmt NodeId))) (enclosing : Enclosing)
    (l : Lexical) (className : Name),
    (Resolution.methods enclosing l.scopes className ds).Notes (Stmt.placesRoutines l ds)
  | [], _, _, _ => .empty
  | d :: rest, enclosing, l, className =>
    (Stmt.notesRoutine d _ enclosing l).append (Stmt.notesRoutines rest enclosing l className)
termination_by structural ds => ds

end

/-- A report without errors notes the depth of the name for every place, if the places have different
numbers. -/
theorem Report.Notes.depth?_place {r : Report} {ps : List Place} (h : r.Notes ps)
    (he : r.errors = []) (hn : (ps.map fun p => p.use.id).Nodup) {p : Place} (hp : p ∈ ps) :
    r.depth? p.use.id = p.depth? := by
  unfold Report.depth?
  cases hl : r.notes.lookup p.use.id with
  | some d =>
    obtain ⟨a, b, hs, -⟩ := List.lookup_eq_some_iff.1 hl
    have hm : (p.use.id, d) ∈ r.notes := by
      rw [hs]
      exact List.mem_append_right a (List.mem_cons_self ..)
    obtain ⟨q, hq, hid, hd⟩ := (h he _ d).1 hm
    rw [List.inj_on_of_nodup_map hn hp hq hid.symm, hd]
  | none =>
    cases hd : p.depth? with
    | none => rfl
    | some d =>
      have hm := (h he p.use.id d).2 ⟨p, hp, rfl, hd⟩
      exact absurd (List.lookup_eq_none_iff.1 hl _ hm) (by simp)

/-! ## Walks without errors -/

theorem Report.append_errors {a b : Report} :
    (a ++ b).errors = [] ↔ a.errors = [] ∧ b.errors = [] :=
  List.append_eq_nil_iff

theorem Report.errorIf_errors {condition : Bool} {cause : ScopeCause} {name : Name} :
    (Report.errorIf condition cause name).errors = [] ↔ condition = false := by
  cases condition <;> simp [Report.errorIf, Report.error, Report.empty]

mutual

/-- Without an error, no variable is read while its own initial value is computed. -/
theorem settled_of_errors {enclosing : Enclosing} {scopes : Scopes} : ∀ (e : Expr NodeId),
    (expression enclosing scopes e).errors = [] →
      ∀ o ∈ e.occurrences, o.kind = .variable → inInitializer scopes o.name = false
  | .literal _, _ => fun _ h => nomatch h
  | .unary _ operand, h => settled_of_errors operand h
  | .suffixed operand _, h => settled_of_errors operand h
  | .binary left _ right, h =>
    have ⟨hl, hr⟩ := Report.append_errors.1 h
    List.forall_mem_append.2 ⟨settled_of_errors left hl, settled_of_errors right hr⟩
  | .logical left _ right, h =>
    have ⟨hl, hr⟩ := Report.append_errors.1 h
    List.forall_mem_append.2 ⟨settled_of_errors left hl, settled_of_errors right hr⟩
  | .grouping inner, h => settled_of_errors inner h
  | .variable _ _, h =>
    have ⟨hi, _⟩ := Report.append_errors.1 h
    List.forall_mem_singleton.2 fun _ => Report.errorIf_errors.1 hi
  | .assign _ _ value, h =>
    have ⟨hv, _⟩ := Report.append_errors.1 h
    List.forall_mem_cons.2 ⟨fun hk => (nomatch hk), settled_of_errors value hv⟩
  | .call callee _ arguments, h =>
    have ⟨hc, ha⟩ := Report.append_errors.1 h
    List.forall_mem_append.2 ⟨settled_of_errors callee hc, settledAll_of_errors arguments ha⟩
  | .get object _, h => settled_of_errors object h
  | .set object _ value, h =>
    have ⟨hv, ho⟩ := Report.append_errors.1 h
    List.forall_mem_append.2 ⟨settled_of_errors object ho, settled_of_errors value hv⟩
  | .this _ _, _ => List.forall_mem_singleton.2 fun hk => nomatch hk
  | .super _ _ _, _ => List.forall_mem_singleton.2 fun hk => nomatch hk
termination_by structural e => e

theorem settledAll_of_errors {enclosing : Enclosing} {scopes : Scopes} :
    ∀ (es : List (Expr NodeId)), (expressions enclosing scopes es).errors = [] →
      ∀ o ∈ Expr.occurrencesAll es, o.kind = .variable → inInitializer scopes o.name = false
  | [], _ => fun _ h => nomatch h
  | e :: rest, h =>
    have ⟨he, hr⟩ := Report.append_errors.1 h
    List.forall_mem_append.2 ⟨settled_of_errors e he, settledAll_of_errors rest hr⟩
termination_by structural es => es

end

/-- Without an error, the innermost scope does not bind a name that is announced in it. -/
theorem not_contains_of_declare {site : Site} {names : Bindings Bool} {outer : Lexical}
    {name : Name} (h : (declare (Lexical.scopes (⟨site, names⟩ :: outer)) name).2.errors = []) :
    names.contains name.text = false := by
  cases hc : names.contains name.text with
  | false => rfl
  | true =>
    simp only [Lexical.scopes, List.map_cons, declare, hc, if_true] at h
    cases h

theorem declare_cons {site : Site} {names : Bindings Bool} {outer : Lexical} {x : Name}
    (hc : names.contains x.text = false) :
    Lexical.declare (⟨site, names⟩ :: outer) x = ⟨site, names.insert x.text false⟩ :: outer := by
  simp only [Lexical.declare, hc, Bool.false_eq_true, if_false]

/-- Without an error, the initial value of a local variable uses the name of the variable in
assignments only. -/
theorem ne_of_initializer {site : Site} {names : Bindings Bool} {outer : Lexical} {x : Name}
    (hx : x.Free) (hc : names.contains x.text = false) {enclosing : Enclosing} {e : Expr NodeId}
    (he : (expression enclosing (Lexical.scopes (Lexical.declare (⟨site, names⟩ :: outer) x))
      e).errors = [])
    (hs : e.Shaped) {o : Occurrence NodeId} (ho : o ∈ e.occurrences) (hk : o.kind ≠ .assign) :
    x.text ≠ o.name.text := by
  intro heq
  have hspelled := Expr.Shaped.spelled e hs o ho
  unfold Occurrence.Spelled at hspelled
  cases hkind : o.kind with
  | «variable» =>
    have hsettled := settled_of_errors e he o ho hkind
    rw [declare_cons hc] at hsettled
    simp [Lexical.scopes, inInitializer, ← heq] at hsettled
  | assign => exact hk hkind
  | this =>
    rw [hkind] at hspelled
    exact hx.ne_this (heq.trans hspelled)
  | super =>
    rw [hkind] at hspelled
    exact hx.ne_super (heq.trans hspelled)

section

variable {routine : Routine} {enclosing : Enclosing} {l : Lexical}

theorem var_errors {decl : VarDecl NodeId} :
    (statement routine enclosing l.scopes (.var decl)).2.errors = [] ↔
      (declare l.scopes decl.name).2.errors = [] ∧
        (expressionOption enclosing (l.declare decl.name).scopes decl.initializer).errors = [] := by
  rw [Lexical.scopes_declare]
  exact Report.append_errors

theorem block_errors {body : List (Stmt NodeId)} :
    (statement routine enclosing l.scopes (.block body)).2.errors = [] ↔
      (statements routine enclosing (l.inBlock body).scopes body).2.errors = [] :=
  Iff.rfl

theorem ifThen_errors {condition : Expr NodeId} {thenBranch : Stmt NodeId} :
    (statement routine enclosing l.scopes (.ifThen condition thenBranch)).2.errors = [] ↔
      (expression enclosing l.scopes condition).errors = [] ∧
        (statement routine enclosing l.scopes thenBranch).2.errors = [] :=
  Report.append_errors

theorem ifElse_errors {condition : Expr NodeId} {thenBranch elseBranch : Stmt NodeId} :
    (statement routine enclosing l.scopes (.ifElse condition thenBranch elseBranch)).2.errors = [] ↔
      (expression enclosing l.scopes condition).errors = [] ∧
        (statement routine enclosing l.scopes thenBranch).2.errors = [] ∧
        (statement routine enclosing (thenBranch.scopesAfter l).scopes elseBranch).2.errors = [] := by
  rw [Stmt.scopes_scopesAfter routine enclosing thenBranch l, ← and_assoc, ← Report.append_errors]
  exact Report.append_errors

theorem whileLoop_errors {condition : Expr NodeId} {body : Stmt NodeId} :
    (statement routine enclosing l.scopes (.whileLoop condition body)).2.errors = [] ↔
      (expression enclosing l.scopes condition).errors = [] ∧
        (statement routine enclosing l.scopes body).2.errors = [] :=
  Report.append_errors

theorem function_errors {decl : FunctionDecl (Stmt NodeId)} :
    (statement routine enclosing l.scopes (.function decl)).2.errors = [] ↔
      (declare l.scopes decl.name).2.errors = [] ∧
        (Resolution.function .function enclosing (l.bind decl.name).scopes decl).errors = [] := by
  rw [Lexical.scopes_bind]
  exact Report.append_errors

theorem returnWith_errors {keyword : Name} {value : Option (Expr NodeId)}
    (h : (statement routine enclosing l.scopes (.returnWith keyword value)).2.errors = []) :
    (expressionOption enclosing l.scopes value).errors = [] :=
  (Report.append_errors.1 h).2

theorem classDecl_errors {decl : ClassDecl NodeId (Stmt NodeId)} :
    (statement routine enclosing l.scopes (.classDecl decl)).2.errors = [] ↔
      (declare l.scopes decl.name).2.errors = [] ∧
        (Resolution.superclass (l.bind decl.name).scopes decl.name decl.superclass).errors = [] ∧
        (Resolution.fields (enclosingOf decl.superclass) ((l.bind decl.name).inClass decl).scopes
          decl.fields).errors = [] ∧
        (Resolution.methods (enclosingOf decl.superclass) ((l.bind decl.name).inClass decl).scopes
          decl.name decl.methods).errors = [] := by
  obtain ⟨name, superclass, fields, methods⟩ := decl
  rw [Lexical.scopes_inClass, Lexical.scopes_bind, ← and_assoc, ← Report.append_errors,
    ← and_assoc, ← Report.append_errors]
  exact Report.append_errors

theorem superclass_errors {name : Name} {s : SuperclassRef NodeId}
    (h : (Resolution.superclass l.scopes name (some s)).errors = []) : s.name.text ≠ name.text := by
  have hself := (Report.append_errors.1 h).1
  rw [Report.errorIf_errors] at hself
  simpa using hself

theorem methods_errors {className : Name} {ds : List (FunctionDecl (Stmt NodeId))}
    (h : (Resolution.methods enclosing l.scopes className ds).errors = []) :
    ∀ d ∈ ds, ∃ routine, (Resolution.function routine enclosing l.scopes d).errors = [] := by
  induction ds with
  | nil => simp
  | cons d rest ih =>
    obtain ⟨hd, hr⟩ := Report.append_errors.1 h
    exact List.forall_mem_cons.2 ⟨⟨_, hd⟩, ih hr⟩

theorem cons_errors {s : Stmt NodeId} {rest : List (Stmt NodeId)} :
    (statements routine enclosing l.scopes (s :: rest)).2.errors = [] ↔
      (statement routine enclosing l.scopes s).2.errors = [] ∧
        (statements routine enclosing (s.scopesAfter l).scopes rest).2.errors = [] := by
  rw [Stmt.scopes_scopesAfter routine enclosing s l]
  exact Report.append_errors

theorem routine_errors {d : FunctionDecl (Stmt NodeId)} :
    (Resolution.function routine enclosing l.scopes d).errors = [] ↔
      (declareAll (.empty :: l.scopes) d.params).2.errors = [] ∧
        (statements routine enclosing (l.inRoutine d).scopes d.body).2.errors = [] := by
  obtain ⟨name, params, result, body⟩ := d
  rw [Lexical.inRoutine, Lexical.scopes_bindAll]
  exact Report.append_errors

end

/-! ## Places and uses -/

theorem Stmt.mem_placesRoutines {l : Lexical} {ds : List (FunctionDecl (Stmt NodeId))} {p : Place} :
    p ∈ Stmt.placesRoutines l ds ↔ ∃ d ∈ ds, p ∈ Stmt.placesRoutine l d := by
  induction ds with
  | nil => simp [Stmt.placesRoutines]
  | cons d rest ih => simp [Stmt.placesRoutines, ih]

/-- Statements outside of all scopes stay there. -/
theorem Stmt.scopesAfter_nil : ∀ s : Stmt NodeId, s.scopesAfter [] = []
  | .expression _ => rfl
  | .print _ => rfl
  | .var _ => rfl
  | .block _ => rfl
  | .ifThen _ thenBranch => Stmt.scopesAfter_nil thenBranch
  | .ifElse _ thenBranch elseBranch => by
    rw [Stmt.scopesAfter, Stmt.scopesAfter_nil thenBranch, Stmt.scopesAfter_nil elseBranch]
  | .whileLoop _ body => Stmt.scopesAfter_nil body
  | .function _ => rfl
  | .returnWith _ _ => rfl
  | .classDecl _ => rfl
termination_by structural s => s

/-- No scope changes with a statement that is no declaration. -/
theorem Stmt.scopesAfter_of_isBranch (l : Lexical) :
    ∀ s : Stmt NodeId, s.Shaped → s.isBranch = true → s.scopesAfter l = l
  | .expression _, _, _ => rfl
  | .print _, _, _ => rfl
  | .block _, _, _ => rfl
  | .ifThen _ thenBranch, hs, _ => Stmt.scopesAfter_of_isBranch l thenBranch hs.2.1 hs.2.2
  | .ifElse _ thenBranch elseBranch, hs, _ => by
    rw [Stmt.scopesAfter, Stmt.scopesAfter_of_isBranch l thenBranch hs.2.1.1 hs.2.1.2]
    exact Stmt.scopesAfter_of_isBranch l elseBranch hs.2.2.1 hs.2.2.2
  | .whileLoop _ body, hs, _ => Stmt.scopesAfter_of_isBranch l body hs.2.1 hs.2.2
  | .returnWith _ _, _, _ => rfl
termination_by structural s => s

theorem uses_placesAt (l : Lexical) (os : List (Occurrence NodeId)) :
    (placesAt l os).map (·.use) = os := by
  simp [placesAt, Function.comp_def]

mutual

/-- The places of a statement are its uses of names, in the same order. -/
theorem Stmt.uses_places : ∀ (s : Stmt NodeId) (l : Lexical),
    (s.places l).map (·.use) = s.occurrences
  | .expression value, l => uses_placesAt l value.occurrences
  | .print value, l => uses_placesAt l value.occurrences
  | .var _, _ => uses_placesAt _ _
  | .block body, l => Stmt.uses_placesAll body (l.inBlock body)
  | .ifThen _ thenBranch, l => by
    rw [Stmt.places, List.map_append, uses_placesAt, Stmt.uses_places thenBranch, Stmt.occurrences]
  | .ifElse _ thenBranch elseBranch, l => by
    rw [Stmt.places, List.map_append, List.map_append, uses_placesAt, Stmt.uses_places thenBranch,
      Stmt.uses_places elseBranch, Stmt.occurrences]
  | .whileLoop _ body, l => by
    rw [Stmt.places, List.map_append, uses_placesAt, Stmt.uses_places body, Stmt.occurrences]
  | .function decl, l => Stmt.uses_placesRoutine decl (l.bind decl.name)
  | .returnWith _ _, _ => uses_placesAt _ _
  | .classDecl ⟨_, _, _, methods⟩, l => by
    rw [Stmt.places, List.map_append, List.map_append, uses_placesAt, uses_placesAt,
      Stmt.uses_placesRoutines methods, Stmt.occurrences]
termination_by structural s => s

theorem Stmt.uses_placesAll : ∀ (ss : List (Stmt NodeId)) (l : Lexical),
    (Stmt.placesAll l ss).map (·.use) = Stmt.occurrencesAll ss
  | [], _ => rfl
  | s :: rest, l => by
    rw [Stmt.placesAll, List.map_append, Stmt.uses_places s, Stmt.uses_placesAll rest,
      Stmt.occurrencesAll]
termination_by structural ss => ss

theorem Stmt.uses_placesRoutine : ∀ (d : FunctionDecl (Stmt NodeId)) (l : Lexical),
    (Stmt.placesRoutine l d).map (·.use) = Stmt.occurrencesRoutine d
  | ⟨name, params, result, body⟩, l => Stmt.uses_placesAll body (l.inRoutine ⟨name, params, result, body⟩)
termination_by structural d => d

theorem Stmt.uses_placesRoutines : ∀ (ds : List (FunctionDecl (Stmt NodeId))) (l : Lexical),
    (Stmt.placesRoutines l ds).map (·.use) = Stmt.occurrencesRoutines ds
  | [], _ => rfl
  | d :: rest, l => by
    rw [Stmt.placesRoutines, List.map_append, Stmt.uses_placesRoutine d,
      Stmt.uses_placesRoutines rest, Stmt.occurrencesRoutines]
termination_by structural ds => ds

end

/-! ## Loaded programs -/

/-- What is known of a program that was read and resolved: it has the shape of programs that are
read, its uses of names are numbered from `first` on, and the walk over it reports no error. -/
structure Loaded.Accepted (first : NodeId) (l : Loaded) : Prop where
  shaped : Stmt.ShapedAll l.program
  numbers : Numbers first l.next (Stmt.occurrencesAll l.program)
  report : l.report = resolve l.program
  errors : l.report.errors = []

theorem Session.load_accepted {s : Session} {source : String} {l : Loaded}
    (h : s.load source = .ok l) : l.Accepted s.machine.nextUse := by
  obtain ⟨program, hp, rfl, he⟩ := Session.load_ok_iff.1 h
  exact ⟨Loaded.ofProgram_shaped _ (parse_shaped hp), Stmt.numberAll_numbers program _, rfl, he⟩

namespace Loaded.Accepted

variable {first : NodeId} {l : Loaded} {p : Place}

theorem noted (h : l.Accepted first) (id : NodeId) (d : Nat) :
    (id, d) ∈ l.report.notes ↔ ∃ p ∈ programPlaces l.program, p.use.id = id ∧ p.depth? = some d := by
  have hn := Stmt.notesAll l.program .none .none []
  have he := h.errors
  rw [h.report, resolve_eq] at he ⊢
  exact hn he id d

/-- Different places of a program have different numbers. -/
theorem nodup_places (h : l.Accepted first) :
    ((programPlaces l.program).map fun p => p.use.id).Nodup := by
  have hn := h.numbers.nodup
  rw [← Stmt.uses_placesAll l.program [], List.map_map] at hn
  exact hn

theorem place_bounds (h : l.Accepted first) (hp : p ∈ programPlaces l.program) :
    first ≤ p.use.id ∧ p.use.id < l.next := by
  refine h.numbers.bounds ?_
  rw [← Stmt.uses_placesAll l.program []]
  exact List.mem_map_of_mem hp

theorem notes (h : l.Accepted first) : l.report.Notes (programPlaces l.program) :=
  fun _ id d => h.noted id d

/-- The report notes the depth of the name for every place. -/
theorem depth?_place (h : l.Accepted first) (hp : p ∈ programPlaces l.program) :
    l.report.depth? p.use.id = p.depth? :=
  h.notes.depth?_place h.errors h.nodup_places hp

end Loaded.Accepted

/-- The uses of names of a program, accepted or not, are numbered from `first` on, and so are those
with a note. -/
structure Loaded.Numbered (first : NodeId) (l : Loaded) : Prop where
  le : first ≤ l.next
  notes : ∀ n ∈ l.report.notes, first ≤ n.1 ∧ n.1 < l.next

theorem Loaded.Accepted.numbered {first : NodeId} {l : Loaded} (h : l.Accepted first) :
    l.Numbered first := by
  refine ⟨h.numbers.le, fun n hn => ?_⟩
  obtain ⟨p, hp, hid, -⟩ := (h.noted n.1 n.2).1 hn
  exact hid ▸ h.place_bounds hp

/-! ## Distances of a machine -/

namespace Machine

theorem distance?_reserve (m : Machine) (next id : NodeId) :
    (m.reserve next).distance? id = m.distance? id := by
  simp only [reserve, distance?, Array.getElem?_append]
  split
  · rfl
  next hlt =>
    rw [Array.getElem?_eq_none (Nat.le_of_not_lt hlt), Array.getElem?_replicate]
    split <;> rfl

theorem nextUse_reserve (m : Machine) {next : NodeId} (h : m.nextUse ≤ next) :
    (m.reserve next).nextUse = next := by
  simp only [reserve, nextUse, Array.size_append, Array.size_replicate]
  exact Nat.add_sub_cancel' h

theorem nextUse_note (m : Machine) (notes : List (NodeId × Nat)) :
    (m.note notes).nextUse = m.nextUse := by
  simp only [note, nextUse]
  induction notes generalizing m with
  | nil => rfl
  | cons n rest ih =>
    have := ih { m with distances := m.distances.modify n.1 fun _ => some n.2 }
    simpa using this

/-- A note says what the machine knows of a use, if there is one for it. -/
theorem distance?_note (m : Machine) (notes : List (NodeId × Nat)) {id : NodeId}
    (h : id < m.nextUse) :
    (∃ d, (id, d) ∈ notes ∧ (m.note notes).distance? id = some d) ∨
      (∀ d, (id, d) ∉ notes) ∧ (m.note notes).distance? id = m.distance? id := by
  induction notes generalizing m with
  | nil => exact .inr ⟨fun d hd => (nomatch hd), rfl⟩
  | cons n rest ih =>
    obtain ⟨i, d⟩ := n
    let m' : Machine := { m with distances := m.distances.modify i fun _ => some d }
    have hsize : id < m'.nextUse := by simpa [m', nextUse] using h
    have hgoal : (m.note ((i, d) :: rest)).distance? id = (m'.note rest).distance? id := rfl
    rw [hgoal]
    rcases ih m' hsize with ⟨e, he, hv⟩ | ⟨hnone, hv⟩
    · exact .inl ⟨e, List.mem_cons_of_mem _ he, hv⟩
    · by_cases hi : i = id
      · subst hi
        refine .inl ⟨d, List.mem_cons_self .., ?_⟩
        rw [hv]
        have hlt : i < m.distances.size := h
        simp [m', distance?, hlt, Array.getElem_modify]
      · refine .inr ⟨fun e he => ?_, ?_⟩
        · rcases List.mem_cons.1 he with heq | hr
          · exact hi (congrArg Prod.fst heq).symm
          · exact hnone e hr
        · rw [hv]
          simp [m', distance?, Array.getElem?_modify, hi]

variable {m : Machine} {l : Loaded}

theorem distance?_of_le {id : NodeId} (h : m.nextUse ≤ id) : m.distance? id = none := by
  unfold distance?
  rw [Array.getElem?_eq_none h]
  rfl

theorem nextUse_load (h : l.Numbered m.nextUse) : (m.load l).nextUse = l.next := by
  rw [load, nextUse_note, nextUse_reserve m h.le]

/-- A machine that has learned the notes of a report knows the depth of the name for every place, if the
places have different numbers that are new. -/
theorem distance?_noted (m : Machine) {next : NodeId} {r : Report} {ps : List Place} (h : r.Notes ps)
    (he : r.errors = []) (hn : (ps.map fun p => p.use.id).Nodup) {p : Place} (hp : p ∈ ps)
    (hlow : m.nextUse ≤ p.use.id) (hhigh : p.use.id < next) :
    ((m.reserve next).note r.notes).distance? p.use.id = p.depth? := by
  have hlt : p.use.id < (m.reserve next).nextUse := by
    rw [nextUse_reserve m (Nat.le_of_lt (Nat.lt_of_le_of_lt hlow hhigh))]
    exact hhigh
  rcases distance?_note (m.reserve next) r.notes hlt with ⟨d, hd, hv⟩ | ⟨hnone, hv⟩
  · obtain ⟨q, hq, hid, hqd⟩ := (h he _ d).1 hd
    rw [hv, List.inj_on_of_nodup_map hn hp hq hid.symm, hqd]
  · rw [hv, distance?_reserve]
    have hout : m.distance? p.use.id = none := distance?_of_le hlow
    rw [hout]
    cases hd : p.depth? with
    | none => rfl
    | some d => exact absurd ((h he _ d).2 ⟨p, hp, rfl, hd⟩) (hnone d)

/-- A machine that has loaded a program knows the depth of the name for every place in it. -/
theorem distance?_load (h : l.Accepted m.nextUse) {p : Place} (hp : p ∈ programPlaces l.program) :
    (m.load l).distance? p.use.id = p.depth? := by
  obtain ⟨hlow, hhigh⟩ := h.place_bounds hp
  exact distance?_noted m h.notes h.errors h.nodup_places hp hlow hhigh

/-- What is learned depends on nothing but what was known. -/
theorem distances_load {a b : Machine} (h : a.distances = b.distances) (l : Loaded) :
    (a.load l).distances = (b.load l).distances := by
  unfold load reserve note
  rw [h]

theorem le_nextUse_load (m : Machine) (l : Loaded) :
    m.nextUse ≤ (m.load l).nextUse ∧ l.next ≤ (m.load l).nextUse := by
  have hsize : (m.load l).nextUse = m.nextUse + (l.next - m.nextUse) := by
    rw [load, nextUse_note]
    simp only [reserve, nextUse, Array.size_append, Array.size_replicate]
  rw [hsize]
  exact ⟨Nat.le_add_right .., Nat.sub_le_iff_le_add'.1 (Nat.le_refl _)⟩

/-- Loading a program changes nothing for uses that it does not note. -/
theorem distance?_load_of_not_mem (m : Machine) {id : NodeId}
    (h : ∀ d, (id, d) ∉ l.report.notes) : (m.load l).distance? id = m.distance? id := by
  by_cases hlt : id < (m.reserve l.next).nextUse
  · rcases distance?_note (m.reserve l.next) l.report.notes hlt with ⟨d, hd, -⟩ | ⟨-, hv⟩
    · exact absurd hd (h d)
    · rw [load, hv, distance?_reserve]
  · have hout : (m.load l).nextUse ≤ id := by
      rw [load, nextUse_note]
      exact Nat.le_of_not_lt hlt
    rw [distance?_of_le hout, ← distance?_reserve m l.next, distance?_of_le (Nat.le_of_not_lt hlt)]

/-- Loading a program changes nothing for uses that were there before. -/
theorem distance?_load_of_lt (h : l.Numbered m.nextUse) {id : NodeId} (hid : id < m.nextUse) :
    (m.load l).distance? id = m.distance? id :=
  m.distance?_load_of_not_mem fun _ hd => Nat.not_lt.2 (h.notes _ hd).1 hid

end Machine

end ClassScript
