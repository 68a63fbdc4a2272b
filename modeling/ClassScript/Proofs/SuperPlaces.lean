import ClassScript.Proofs.Places

/-!
# Where `super` stands

A program without errors uses `super` only inside classes with a superclass: from the place of the
use some scopes that are not those of a class lead out to the scope of the members, which binds
`this`, and the next one binds `super` (`Lexical.InSubclass`). So `this` is bound at the place one
scope nearer than `super`.
-/

set_option autoImplicit false

namespace ClassScript

open Resolution

namespace Lexical

/-- The innermost class around the scopes is one with a superclass, and the scope of its members is
`d` scopes out. Inside of it neither `this` nor `super` is bound. -/
inductive InSubclass (decl : ClassDecl NodeId (Stmt NodeId)) : Lexical → Nat → Prop
  | members {names around : Bindings Bool} {outer : Lexical} :
      names.contains "this" = true → names.contains "super" = false →
      around.contains "super" = true →
      InSubclass decl (⟨.members decl, names⟩ :: ⟨.superclass decl, around⟩ :: outer) 0
  | within {site : Site} {names : Bindings Bool} {outer : Lexical} {d : Nat} :
      (∀ c, site ≠ .members c) → names.contains "this" = false → names.contains "super" = false →
      InSubclass decl outer d → InSubclass decl (⟨site, names⟩ :: outer) (d + 1)

namespace InSubclass

variable {decl : ClassDecl NodeId (Stmt NodeId)} {l : Lexical} {d : Nat}

theorem depth?_this (h : InSubclass decl l d) : Resolution.depth? "this" l.scopes = some d := by
  induction h with
  | members hthis _ _ => simp [scopes, Resolution.depth?, hthis]
  | within _ hthis _ _ ih =>
    simp only [scopes, List.map_cons, Resolution.depth?, hthis, Bool.false_eq_true, if_false]
    exact congrArg (Option.map (· + 1)) ih

theorem depth?_super (h : InSubclass decl l d) :
    Resolution.depth? "super" l.scopes = some (d + 1) := by
  induction h with
  | members _ hmembers hsuper => simp [scopes, Resolution.depth?, hmembers, hsuper]
  | within _ _ hsuper _ ih =>
    simp only [scopes, List.map_cons, Resolution.depth?, hsuper, Bool.false_eq_true, if_false]
    exact congrArg (Option.map (· + 1)) ih

theorem sites (h : InSubclass decl l d) :
    (l.map (·.site))[d]? = some (.members decl) ∧
      (l.map (·.site))[d + 1]? = some (.superclass decl) := by
  induction h with
  | members _ _ _ => exact ⟨rfl, rfl⟩
  | within _ _ _ _ ih => exact ih

/-- What a scope binds besides `this` and `super` does not matter. -/
theorem insert {site : Site} {names : Bindings Bool} {outer : Lexical} {x : Name} (hx : x.Free)
    (b : Bool) (h : InSubclass decl (⟨site, names⟩ :: outer) d) :
    InSubclass decl (⟨site, names.insert x.text b⟩ :: outer) d := by
  have hthis : (x.text == "this") = false := beq_eq_false_iff_ne.2 hx.ne_this
  have hsuper : (x.text == "super") = false := beq_eq_false_iff_ne.2 hx.ne_super
  cases h with
  | members ht hm hs =>
    refine .members ?_ ?_ hs
    · rw [Bindings.contains_insert, hthis, ht]
      rfl
    · rw [Bindings.contains_insert, hsuper, hm]
      rfl
  | within hsite ht hs houter =>
    refine .within hsite ?_ ?_ houter
    · rw [Bindings.contains_insert, hthis, ht]
      rfl
    · rw [Bindings.contains_insert, hsuper, hs]
      rfl

theorem declare (h : InSubclass decl l d) {x : Name} (hx : x.Free) :
    InSubclass decl (l.declare x) d := by
  cases l with
  | nil => exact h
  | cons a outer =>
    obtain ⟨site, names⟩ := a
    unfold Lexical.declare
    dsimp only
    split
    · exact h
    · exact h.insert hx false

theorem bind (h : InSubclass decl l d) {x : Name} (hx : x.Free) : InSubclass decl (l.bind x) d := by
  cases l with
  | nil => exact h
  | cons a outer =>
    obtain ⟨site, names⟩ := a
    rw [bind_cons]
    refine insert hx true ?_
    split
    · exact h
    · exact h.insert hx false

theorem bindAll {params : List Param} (hx : ∀ p ∈ params, p.name.Free) (h : InSubclass decl l d) :
    InSubclass decl (l.bindAll params) d := by
  induction params generalizing l with
  | nil => exact h
  | cons p rest ih =>
    obtain ⟨hp, hrest⟩ := List.forall_mem_cons.1 hx
    exact ih hrest (h.bind hp)

theorem inBlock (h : InSubclass decl l d) (body : List (Stmt NodeId)) :
    InSubclass decl (l.inBlock body) (d + 1) :=
  .within (fun _ he => nomatch he) rfl rfl h

theorem inRoutine (h : InSubclass decl l d) {routine : FunctionDecl (Stmt NodeId)}
    (hx : ∀ p ∈ routine.params, p.name.Free) : InSubclass decl (l.inRoutine routine) (d + 1) :=
  bindAll hx (.within (fun _ he => nomatch he) rfl rfl h)

theorem inClass (l : Lexical) {s : SuperclassRef NodeId} (hs : decl.superclass = some s) :
    InSubclass decl (l.inClass decl) 0 := by
  unfold Lexical.inClass
  rw [hs]
  exact .members rfl rfl rfl

/-- Declarations bind neither `this` nor `super`. -/
theorem scopesAfter (h : InSubclass decl l d) : ∀ s : Stmt NodeId, s.Shaped →
    InSubclass decl (s.scopesAfter l) d
  | .var _, hs => h.bind hs.1
  | .function ⟨_, _, _, _⟩, hs => h.bind hs.1
  | .classDecl ⟨_, _, _, _⟩, hs => h.bind hs.1
  | .ifThen condition thenBranch, hs => by
    rw [Stmt.scopesAfter_of_isBranch l (.ifThen condition thenBranch) hs rfl]
    exact h
  | .ifElse condition thenBranch elseBranch, hs => by
    rw [Stmt.scopesAfter_of_isBranch l (.ifElse condition thenBranch elseBranch) hs rfl]
    exact h
  | .whileLoop condition body, hs => by
    rw [Stmt.scopesAfter_of_isBranch l (.whileLoop condition body) hs rfl]
    exact h
  | .expression _, _ => h
  | .print _, _ => h
  | .block _, _ => h
  | .returnWith _ _, _ => h

end InSubclass

end Lexical

/-- The name of the use is spelled as its kind says, and `super` stands inside a class with a
superclass. -/
structure Place.Proper (p : Place) : Prop where
  spelled : p.use.Spelled
  super : p.use.kind = .super → ∃ decl d, p.around.InSubclass decl d

/-- Scopes that are those of a class with a superclass if the walk takes them for such. -/
def Placed (enclosing : Enclosing) (l : Lexical) : Prop :=
  enclosing = .subclass → ∃ decl d, l.InSubclass decl d

/-! ## Expressions -/

mutual

/-- Without an error, `super` stands inside a class with a superclass. -/
theorem subclass_of_errors {enclosing : Enclosing} {scopes : Scopes} : ∀ (e : Expr NodeId),
    (expression enclosing scopes e).errors = [] →
      ∀ o ∈ e.occurrences, o.kind = .super → enclosing = .subclass
  | .literal _, _ => fun _ h => nomatch h
  | .unary _ operand, h => subclass_of_errors operand h
  | .suffixed operand _, h => subclass_of_errors operand h
  | .binary left _ right, h =>
    have ⟨hl, hr⟩ := Report.append_errors.1 h
    List.forall_mem_append.2 ⟨subclass_of_errors left hl, subclass_of_errors right hr⟩
  | .logical left _ right, h =>
    have ⟨hl, hr⟩ := Report.append_errors.1 h
    List.forall_mem_append.2 ⟨subclass_of_errors left hl, subclass_of_errors right hr⟩
  | .grouping inner, h => subclass_of_errors inner h
  | .variable _ _, _ => List.forall_mem_singleton.2 fun hk => nomatch hk
  | .assign _ _ value, h =>
    have ⟨hv, _⟩ := Report.append_errors.1 h
    List.forall_mem_cons.2 ⟨fun hk => (nomatch hk), subclass_of_errors value hv⟩
  | .call callee _ arguments, h =>
    have ⟨hc, ha⟩ := Report.append_errors.1 h
    List.forall_mem_append.2 ⟨subclass_of_errors callee hc, subclassAll_of_errors arguments ha⟩
  | .get object _, h => subclass_of_errors object h
  | .set object _ value, h =>
    have ⟨hv, ho⟩ := Report.append_errors.1 h
    List.forall_mem_append.2 ⟨subclass_of_errors object ho, subclass_of_errors value hv⟩
  | .this _ _, _ => List.forall_mem_singleton.2 fun hk => nomatch hk
  | .super _ _ _, h => List.forall_mem_singleton.2 fun _ => by
    cases enclosing with
    | none => cases h
    | baseClass => cases h
    | subclass => rfl
termination_by structural e => e

theorem subclassAll_of_errors {enclosing : Enclosing} {scopes : Scopes} :
    ∀ (es : List (Expr NodeId)), (expressions enclosing scopes es).errors = [] →
      ∀ o ∈ Expr.occurrencesAll es, o.kind = .super → enclosing = .subclass
  | [], _ => fun _ h => nomatch h
  | e :: rest, h =>
    have ⟨he, hr⟩ := Report.append_errors.1 h
    List.forall_mem_append.2 ⟨subclass_of_errors e he, subclassAll_of_errors rest hr⟩
termination_by structural es => es

end

section

variable {routine : Routine} {enclosing : Enclosing} {l : Lexical}

theorem Expr.places_proper {e : Expr NodeId} (hs : e.Shaped)
    (he : (expression enclosing l.scopes e).errors = []) (hl : Placed enclosing l) :
    ∀ p ∈ placesAt l e.occurrences, p.Proper := by
  intro p hp
  obtain ⟨o, ho, rfl⟩ := List.mem_map.1 hp
  exact ⟨Expr.Shaped.spelled e hs o ho, fun hk => hl (subclass_of_errors e he o ho hk)⟩

theorem Expr.placesOption_proper {e : Option (Expr NodeId)} (hs : Expr.ShapedOption e)
    (he : (expressionOption enclosing l.scopes e).errors = []) (hl : Placed enclosing l) :
    ∀ p ∈ placesAt l (Expr.occurrencesOption e), p.Proper := by
  cases e with
  | none => exact fun p hp => nomatch hp
  | some e => exact Expr.places_proper hs he hl

theorem VarDecl.places_proper {ds : List (VarDecl NodeId)} (hs : ∀ d ∈ ds, d.Shaped)
    (he : (Resolution.fields enclosing l.scopes ds).errors = []) (hl : Placed enclosing l) :
    ∀ p ∈ placesAt l (VarDecl.occurrencesAll ds), p.Proper := by
  induction ds with
  | nil => exact fun p hp => nomatch hp
  | cons d rest ih =>
    obtain ⟨hd, hrest⟩ := List.forall_mem_cons.1 hs
    obtain ⟨hde, hre⟩ := Report.append_errors.1 he
    show ∀ p ∈ placesAt l (Expr.occurrencesOption d.initializer ++ VarDecl.occurrencesAll rest), _
    rw [placesAt_append]
    exact List.forall_mem_append.2 ⟨Expr.placesOption_proper hd.2 hde hl, ih hrest hre⟩

theorem SuperclassRef.places_proper {s : Option (SuperclassRef NodeId)}
    (hs : SuperclassRef.ShapedOption s) :
    ∀ p ∈ placesAt l (SuperclassRef.occurrences s), p.Proper := by
  cases s with
  | none => exact fun p hp => nomatch hp
  | some s =>
    intro p hp
    obtain rfl := List.mem_singleton.1 hp
    exact ⟨hs, fun hk => nomatch hk⟩

theorem Placed.inClass (l : Lexical) (decl : ClassDecl NodeId (Stmt NodeId)) :
    Placed (enclosingOf decl.superclass) (l.inClass decl) := by
  intro h
  cases hs : decl.superclass with
  | none =>
    rw [hs] at h
    cases h
  | some s => exact ⟨decl, 0, .inClass l hs⟩

theorem Placed.scopesAfter (h : Placed enclosing l) {s : Stmt NodeId} (hs : s.Shaped) :
    Placed enclosing (s.scopesAfter l) := by
  intro he
  obtain ⟨decl, d, hl⟩ := h he
  exact ⟨decl, d, hl.scopesAfter s hs⟩

end

/-! ## Statements -/

mutual

/-- Without an error, all places of a statement are proper. -/
theorem Stmt.places_proper : ∀ (s : Stmt NodeId) {routine : Routine} {enclosing : Enclosing}
    {l : Lexical}, s.Shaped → (statement routine enclosing l.scopes s).2.errors = [] →
      Placed enclosing l → ∀ p ∈ s.places l, p.Proper
  | .expression _, _, _, _, hs, he, hl => Expr.places_proper hs he hl
  | .print _, _, _, _, hs, he, hl => Expr.places_proper hs he hl
  | .var _, _, _, _, hs, he, hl =>
    Expr.placesOption_proper hs.2 (var_errors.1 he).2 fun hk =>
      have ⟨decl, d, h⟩ := hl hk
      ⟨decl, d, h.declare hs.1⟩
  | .block body, _, _, _, hs, he, hl =>
    Stmt.placesAll_proper body hs (block_errors.1 he) fun hk =>
      have ⟨decl, d, h⟩ := hl hk
      ⟨decl, d + 1, h.inBlock body⟩
  | .ifThen _ thenBranch, _, _, _, hs, he, hl =>
    have ⟨hc, ht⟩ := ifThen_errors.1 he
    List.forall_mem_append.2 ⟨Expr.places_proper hs.1 hc hl,
      Stmt.places_proper thenBranch hs.2.1 ht hl⟩
  | .ifElse _ thenBranch elseBranch, _, _, _, hs, he, hl =>
    have ⟨hc, ht, hf⟩ := ifElse_errors.1 he
    List.forall_mem_append.2 ⟨List.forall_mem_append.2 ⟨Expr.places_proper hs.1 hc hl,
      Stmt.places_proper thenBranch hs.2.1.1 ht hl⟩,
      Stmt.places_proper elseBranch hs.2.2.1 hf (hl.scopesAfter hs.2.1.1)⟩
  | .whileLoop _ body, _, _, _, hs, he, hl =>
    have ⟨hc, hb⟩ := whileLoop_errors.1 he
    List.forall_mem_append.2 ⟨Expr.places_proper hs.1 hc hl, Stmt.places_proper body hs.2.1 hb hl⟩
  | .function decl, _, _, _, hs, he, hl =>
    Stmt.placesRoutine_proper decl hs (function_errors.1 he).2
      (hl.scopesAfter (s := .function decl) hs)
  | .returnWith _ _, _, _, _, hs, he, hl => Expr.placesOption_proper hs (returnWith_errors he) hl
  | .classDecl ⟨name, superclass, fields, methods⟩, _, _, l, hs, he, _ =>
    have ⟨_, _, hf, hm⟩ := classDecl_errors.1 he
    have hl := Placed.inClass (l.bind name) ⟨name, superclass, fields, methods⟩
    List.forall_mem_append.2 ⟨List.forall_mem_append.2 ⟨SuperclassRef.places_proper hs.2.1,
      VarDecl.places_proper hs.2.2.1 hf hl⟩, Stmt.placesRoutines_proper methods hs.2.2.2 hm hl⟩
termination_by structural s => s

theorem Stmt.placesAll_proper : ∀ (ss : List (Stmt NodeId)) {routine : Routine}
    {enclosing : Enclosing} {l : Lexical}, Stmt.ShapedAll ss →
      (statements routine enclosing l.scopes ss).2.errors = [] → Placed enclosing l →
        ∀ p ∈ Stmt.placesAll l ss, p.Proper
  | [], _, _, _, _, _, _ => fun _ hp => nomatch hp
  | s :: rest, _, _, _, hs, he, hl =>
    have ⟨hfirst, hrest⟩ := cons_errors.1 he
    List.forall_mem_append.2 ⟨Stmt.places_proper s hs.1 hfirst hl,
      Stmt.placesAll_proper rest hs.2 hrest (hl.scopesAfter hs.1)⟩
termination_by structural ss => ss

theorem Stmt.placesRoutine_proper : ∀ (d : FunctionDecl (Stmt NodeId)) {routine : Routine}
    {enclosing : Enclosing} {l : Lexical}, Stmt.ShapedRoutine d →
      (Resolution.function routine enclosing l.scopes d).errors = [] → Placed enclosing l →
        ∀ p ∈ Stmt.placesRoutine l d, p.Proper
  | ⟨_, _, _, body⟩, _, _, _, hs, he, hl =>
    Stmt.placesAll_proper body hs.2.2 (routine_errors.1 he).2 fun hk =>
      have ⟨decl, d, h⟩ := hl hk
      ⟨decl, d + 1, h.inRoutine hs.2.1⟩
termination_by structural d => d

theorem Stmt.placesRoutines_proper : ∀ (ds : List (FunctionDecl (Stmt NodeId)))
    {enclosing : Enclosing} {l : Lexical} {className : Name}, Stmt.ShapedRoutines ds →
      (Resolution.methods enclosing l.scopes className ds).errors = [] → Placed enclosing l →
        ∀ p ∈ Stmt.placesRoutines l ds, p.Proper
  | [], _, _, _, _, _, _ => fun _ hp => nomatch hp
  | d :: rest, _, _, _, hs, he, hl =>
    have ⟨hd, hr⟩ := Report.append_errors.1 he
    List.forall_mem_append.2 ⟨Stmt.placesRoutine_proper d hs.1 hd hl,
      Stmt.placesRoutines_proper rest hs.2 hr hl⟩
termination_by structural ds => ds

end

/-- All places of a program that was read and resolved are proper. -/
theorem Loaded.Accepted.proper {first : NodeId} {l : Loaded} (h : l.Accepted first) :
    ∀ p ∈ programPlaces l.program, p.Proper := by
  have he : (statements .none .none (Lexical.scopes []) l.program).2.errors = [] := by
    rw [← h.errors, h.report, resolve_eq]
    rfl
  exact Stmt.placesAll_proper l.program h.shaped he fun hk => nomatch hk

end ClassScript
