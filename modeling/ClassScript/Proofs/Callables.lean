import ClassScript.Proofs.CheckTrace
import ClassScript.Proofs.Places
import ClassScript.Proofs.Returns

/-!
# The functions and methods of a program

`Stmt.callables` lists the functions and the methods of a program, however deep they are nested in
each other and in classes, each with whether it is an initializer. The check of a program has
checked each of them: one with a result other than `void` returns on every path
(`Checker.callables_checked`). The walk over a program has placed each of them: an initializer gives
nothing back, and neither does what stands in no function (`resolve_placed`).
-/

set_option autoImplicit false

namespace ClassScript

/-- A function or a method, and whether it is an initializer. -/
structure Callable where
  decl : FunctionDecl (Stmt NodeId)
  isInitializer : Bool

/-- What is called when the function is. -/
def Closure.callable (c : Closure) : Callable :=
  ⟨c.decl, c.isInitializer⟩

mutual

/-- The functions and methods in a statement, also those in other ones. -/
def Stmt.callables : Stmt NodeId → List Callable
  | .block body => Stmt.callablesAll body
  | .ifThen _ thenBranch => thenBranch.callables
  | .ifElse _ thenBranch elseBranch => thenBranch.callables ++ elseBranch.callables
  | .whileLoop _ body => body.callables
  | .function decl => ⟨decl, false⟩ :: Stmt.callablesIn decl
  | .classDecl ⟨name, _, _, methods⟩ => Stmt.callablesOf name methods
  | _ => []
termination_by structural s => s

/-- The functions and methods in statements. -/
def Stmt.callablesAll : List (Stmt NodeId) → List Callable
  | [] => []
  | s :: rest => s.callables ++ Stmt.callablesAll rest
termination_by structural ss => ss

/-- The functions and methods in the body of a function. -/
def Stmt.callablesIn : FunctionDecl (Stmt NodeId) → List Callable
  | ⟨_, _, _, body⟩ => Stmt.callablesAll body
termination_by structural d => d

/-- The methods of a class and what is in them; the one with the name of the class is its
initializer. -/
def Stmt.callablesOf (className : Name) : List (FunctionDecl (Stmt NodeId)) → List Callable
  | [] => []
  | d :: rest =>
    ⟨d, d.name.text == className.text⟩ :: (Stmt.callablesIn d ++ Stmt.callablesOf className rest)
termination_by structural ds => ds

end

/-! ## What is in a callable -/

/-- The functions and methods in the body of each of these are among them. -/
def Nested (cs : List Callable) : Prop :=
  ∀ c ∈ cs, Stmt.callablesAll c.decl.body ⊆ cs

namespace Nested

variable {cs ds : List Callable}

theorem nil : Nested [] :=
  List.forall_mem_nil _

theorem append (h : Nested cs) (h' : Nested ds) : Nested (cs ++ ds) := by
  intro c hc
  rcases List.mem_append.1 hc with hl | hr
  · exact List.Subset.trans (h c hl) (List.subset_append_left ..)
  · exact List.Subset.trans (h' c hr) (List.subset_append_right ..)

theorem cons {d : FunctionDecl (Stmt NodeId)} {isInitializer : Bool} (h : Nested cs)
    (hd : Stmt.callablesIn d ⊆ cs) : Nested (⟨d, isInitializer⟩ :: cs) := by
  refine List.forall_mem_cons.2 ⟨?_, fun c hc => ?_⟩
  · obtain ⟨_, _, _, body⟩ := d
    exact List.subset_cons_of_subset _ hd
  · exact List.subset_cons_of_subset _ (h c hc)

end Nested

mutual

theorem Stmt.callables_nested : ∀ s : Stmt NodeId, Nested s.callables
  | .expression _ => .nil
  | .print _ => .nil
  | .var _ => .nil
  | .block body => Stmt.callablesAll_nested body
  | .ifThen _ thenBranch => thenBranch.callables_nested
  | .ifElse _ thenBranch elseBranch =>
    thenBranch.callables_nested.append elseBranch.callables_nested
  | .whileLoop _ body => body.callables_nested
  | .function decl => (Stmt.callablesIn_nested decl).cons (List.Subset.refl _)
  | .returnWith _ _ => .nil
  | .classDecl ⟨name, _, _, methods⟩ => Stmt.callablesOf_nested name methods
termination_by structural s => s

theorem Stmt.callablesAll_nested : ∀ ss : List (Stmt NodeId), Nested (Stmt.callablesAll ss)
  | [] => .nil
  | s :: rest => s.callables_nested.append (Stmt.callablesAll_nested rest)
termination_by structural ss => ss

theorem Stmt.callablesIn_nested : ∀ d : FunctionDecl (Stmt NodeId), Nested (Stmt.callablesIn d)
  | ⟨_, _, _, body⟩ => Stmt.callablesAll_nested body
termination_by structural d => d

theorem Stmt.callablesOf_nested (className : Name) : ∀ ds : List (FunctionDecl (Stmt NodeId)),
    Nested (Stmt.callablesOf className ds)
  | [] => .nil
  | d :: rest =>
    ((Stmt.callablesIn_nested d).append (Stmt.callablesOf_nested className rest)).cons
      (List.subset_append_left ..)
termination_by structural ds => ds

end

/-- The methods of a class are among its callables. -/
theorem Stmt.mem_callablesOf {className : Name} {ds : List (FunctionDecl (Stmt NodeId))}
    {d : FunctionDecl (Stmt NodeId)} (h : d ∈ ds) :
    ⟨d, d.name.text == className.text⟩ ∈ Stmt.callablesOf className ds := by
  induction h with
  | head rest => exact List.mem_cons_self ..
  | tail d' _ ih => exact List.mem_cons_of_mem _ (List.mem_append_right _ ih)

/-! ## Checked callables -/

/-- The result of the function is declared, and not as `void`. -/
def FunctionDecl.ReturnsValue {σ : Type} (d : FunctionDecl σ) : Prop :=
  ∃ a, d.result = some a ∧ a.kind ≠ .symbol .voidWord

open Typing

/-- No name stands for the type of `nil`, and `void` only for itself. -/
theorem Typing.mustReturn_namedType {scope : TypeScope} {a : Token} {ty : Ty}
    (h : namedType scope a = .ok ty) (ha : a.kind ≠ .symbol .voidWord) : mustReturn ty = true := by
  unfold namedType at h
  split at h
  · cases h; rfl
  · cases h; rfl
  · cases h; rfl
  next hvoid => exact absurd hvoid ha
  · split at h
    · cases h; rfl
    · cases h

/-- What a check has found out about a function or a method: its signature; a result other than
`void` is returned on every path, and no initializer has one. -/
def Callable.Checked (c : Callable) : Prop :=
  ∃ scope s, signature c.decl scope = .ok s ∧
    (!mustReturn s.result || someReturns c.decl.body) = true ∧
    (c.isInitializer = true → s.result.same .void = true)

/-- A function with a result other than `void` is no initializer and returns on every path. -/
theorem Callable.Checked.returns {c : Callable} (h : c.Checked) (hc : c.decl.ReturnsValue) :
    c.isInitializer = false ∧ someReturns c.decl.body = true := by
  obtain ⟨scope, s, hs, hpaths, hinit⟩ := h
  obtain ⟨a, ha, hvoid⟩ := hc
  have hmust : mustReturn s.result = true := by
    have hresult := (signature_ok.1 hs).2.2
    rw [ha] at hresult
    exact mustReturn_namedType hresult hvoid
  constructor
  · by_contra hi
    have hsame := hinit (Bool.not_eq_false _ ▸ hi)
    cases hr : s.result <;> simp [hr, Ty.same, mustReturn] at hsame hmust
  · simpa [hmust] using hpaths

namespace Typing

mutual

theorem checkStmt_callables {returns : Ty} {u : Unit} : ∀ (s : Stmt NodeId) {st st' : TypeState},
    checkStmt returns s st = .ok u st' → ∀ c ∈ s.callables, c.Checked
  | .expression _, _, _, _ => List.forall_mem_nil _
  | .print _, _, _, _ => List.forall_mem_nil _
  | .var _, _, _, _ => List.forall_mem_nil _
  | .block body, _, _, h => by
    obtain ⟨_, hbody, -⟩ := checkStmt_block.1 h
    exact checkStmts_callables body hbody
  | .ifThen _ thenBranch, _, _, h =>
    checkStmt_callables thenBranch (checkStmt_ifThen.1 h).2
  | .ifElse _ thenBranch elseBranch, _, _, h => by
    obtain ⟨-, _, ht, he⟩ := checkStmt_ifElse.1 h
    exact List.forall_mem_append.2
      ⟨checkStmt_callables thenBranch ht, checkStmt_callables elseBranch he⟩
  | .whileLoop _ body, _, _, h => checkStmt_callables body (checkStmt_whileLoop.1 h).2
  | .function decl, _, _, h => by
    obtain ⟨s, hs, hr⟩ := checkStmt_function.1 h
    obtain ⟨hdecl, hin⟩ := checkRoutine_callables decl hs hr
    exact List.forall_mem_cons.2 ⟨hdecl false (fun hi => nomatch hi), hin⟩
  | .returnWith _ _, _, _, _ => List.forall_mem_nil _
  | .classDecl ⟨_, _, _, methods⟩, _, _, h => by
    obtain ⟨_, _, _, _, hclass⟩ := checkStmt_classDecl.1 h
    obtain ⟨_, hr, -⟩ := hclass.routines
    exact checkRoutines_callables methods hclass.methods hr
termination_by structural s => s

theorem checkStmts_callables {returns : Ty} {u : Unit} :
    ∀ (ss : List (Stmt NodeId)) {st st' : TypeState}, checkStmts returns ss st = .ok u st' →
      ∀ c ∈ Stmt.callablesAll ss, c.Checked
  | [], _, _, _ => List.forall_mem_nil _
  | s :: rest, _, _, h => by
    obtain ⟨_, hs, hrest⟩ := checkStmts_cons.1 h
    exact List.forall_mem_append.2 ⟨checkStmt_callables s hs, checkStmts_callables rest hrest⟩
termination_by structural ss => ss

theorem checkRoutine_callables {s : Signature} {scope : TypeScope} {u : Unit} :
    ∀ (d : FunctionDecl (Stmt NodeId)) {st st' : TypeState}, signature d scope = .ok s →
      checkRoutine s d st = .ok u st' →
      (∀ i, (i = true → s.result.same .void = true) → Callable.Checked ⟨d, i⟩) ∧
        ∀ c ∈ Stmt.callablesIn d, c.Checked
  | ⟨_, _, _, body⟩, _, _, hs, h => by
    obtain ⟨_, hbody, hpaths, -⟩ := checkRoutine_ok.1 h
    exact ⟨fun _ hi => ⟨scope, s, hs, hpaths, hi⟩, checkStmts_callables body hbody⟩
termination_by structural d => d

theorem checkRoutines_callables {id : ClassId} {className : Name} {parent : Option ClassId}
    {u : Unit} : ∀ (ds : List (FunctionDecl (Stmt NodeId))) {signatures : List Signature}
      {before entered st st' : TypeState},
      enterMethods id className parent ds before = .ok signatures entered →
      checkRoutines signatures ds st = .ok u st' →
      ∀ c ∈ Stmt.callablesOf className ds, c.Checked
  | [], _, _, _, _, _, _, _ => List.forall_mem_nil _
  | d :: rest, _, _, _, _, _, he, h => by
    obtain ⟨s, others, rfl, hs, ho⟩ := enterMethods_cons.1 he
    obtain ⟨hsignature, hinit, -⟩ := methodSignature_ok.1 hs
    obtain ⟨_, hd, hrest⟩ := checkRoutines_cons.1 h
    obtain ⟨hdecl, hin⟩ := checkRoutine_callables d hsignature hd
    refine List.forall_mem_cons.2 ⟨hdecl _ fun hi => ?_, ?_⟩
    · simpa [beq_iff_eq.1 hi] using hinit
    · exact List.forall_mem_append.2 ⟨hin, checkRoutines_callables rest ho hrest⟩
termination_by structural ds => ds

end

end Typing

/-- A program that passes the check of types has all its functions and methods checked. -/
theorem Checker.callables_checked {c : Checker} {program : List (Stmt NodeId)}
    (h : (c.check program).1 = .ok ()) : ∀ f ∈ Stmt.callablesAll program, f.Checked := by
  rw [Checker.check_eq] at h
  split at h
  next hs => exact Typing.checkStmts_callables program hs
  next => cases h

/-! ## Placed returns -/

namespace Resolution

/-- Whether a `return` statement may give this back in a body of this kind. -/
def Routine.Allows (routine : Routine) (value : Option (Expr NodeId)) : Prop :=
  match routine with
  | .none => False
  | .initializer => value = .none
  | _ => True

/-- All that a body of this kind gives back, it may. -/
abbrev Routine.AllowsAll (routine : Routine) (values : List (Option (Expr NodeId))) : Prop :=
  ∀ value ∈ values, routine.Allows value

/-- Initializers give nothing back. -/
def Placed (cs : List Callable) : Prop :=
  ∀ c ∈ cs, c.isInitializer = true → Routine.initializer.AllowsAll (Stmt.returnsAll c.decl.body)

theorem Placed.append {cs ds : List Callable} (h : Placed cs) (h' : Placed ds) :
    Placed (cs ++ ds) :=
  List.forall_mem_append.2 ⟨h, h'⟩

theorem returnWith_allowed {routine : Routine} {enclosing : Enclosing} {scopes : Scopes}
    {keyword : Name} {value : Option (Expr NodeId)}
    (h : (statement routine enclosing scopes (.returnWith keyword value)).2.errors = []) :
    routine.Allows value := by
  obtain ⟨htop, hinit⟩ := Report.append_errors.1 (Report.append_errors.1 h).1
  rw [Report.errorIf_errors] at htop hinit
  cases routine with
  | none => simp at htop
  | initializer => simpa [Routine.Allows] using hinit
  | function => trivial
  | method => trivial

mutual

/-- What the walk over a statement accepts is placed, whatever body the statement stands in. -/
theorem statement_placed {routine : Routine} {enclosing : Enclosing} :
    ∀ (s : Stmt NodeId) {scopes : Scopes},
      (statement routine enclosing scopes s).2.errors = [] →
      routine.AllowsAll s.returns ∧ Placed s.callables
  | .expression _, _, _ => ⟨List.forall_mem_nil _, List.forall_mem_nil _⟩
  | .print _, _, _ => ⟨List.forall_mem_nil _, List.forall_mem_nil _⟩
  | .var _, _, _ => ⟨List.forall_mem_nil _, List.forall_mem_nil _⟩
  | .block body, _, h => statements_placed body h
  | .ifThen _ thenBranch, _, h => statement_placed thenBranch (Report.append_errors.1 h).2
  | .ifElse _ thenBranch elseBranch, _, h => by
    obtain ⟨hfirst, hsecond⟩ := Report.append_errors.1 h
    obtain ⟨ht, hct⟩ := statement_placed thenBranch (Report.append_errors.1 hfirst).2
    obtain ⟨he, hce⟩ := statement_placed elseBranch hsecond
    exact ⟨List.forall_mem_append.2 ⟨ht, he⟩, hct.append hce⟩
  | .whileLoop _ body, _, h => statement_placed body (Report.append_errors.1 h).2
  | .function decl, _, h => by
    refine ⟨List.forall_mem_nil _, List.forall_mem_cons.2 ⟨(nomatch ·), ?_⟩⟩
    exact (function_placed decl (Report.append_errors.1 h).2).2
  | .returnWith _ _, _, h =>
    ⟨List.forall_mem_singleton.2 (returnWith_allowed h), List.forall_mem_nil _⟩
  | .classDecl ⟨_, _, _, methodDecls⟩, _, h =>
    ⟨List.forall_mem_nil _, methods_placed methodDecls (Report.append_errors.1 h).2⟩
termination_by structural s => s

theorem statements_placed {routine : Routine} {enclosing : Enclosing} :
    ∀ (ss : List (Stmt NodeId)) {scopes : Scopes},
      (statements routine enclosing scopes ss).2.errors = [] →
      routine.AllowsAll (Stmt.returnsAll ss) ∧ Placed (Stmt.callablesAll ss)
  | [], _, _ => ⟨List.forall_mem_nil _, List.forall_mem_nil _⟩
  | s :: rest, _, h => by
    obtain ⟨hfirst, hrest⟩ := Report.append_errors.1 h
    obtain ⟨hs, hcs⟩ := statement_placed s hfirst
    obtain ⟨hr, hcr⟩ := statements_placed rest hrest
    exact ⟨List.forall_mem_append.2 ⟨hs, hr⟩, hcs.append hcr⟩
termination_by structural ss => ss

theorem function_placed {routine : Routine} {enclosing : Enclosing} :
    ∀ (d : FunctionDecl (Stmt NodeId)) {scopes : Scopes},
      (function routine enclosing scopes d).errors = [] →
      routine.AllowsAll (Stmt.returnsAll d.body) ∧ Placed (Stmt.callablesIn d)
  | ⟨_, _, _, body⟩, _, h => statements_placed body (Report.append_errors.1 h).2
termination_by structural d => d

theorem methods_placed {enclosing : Enclosing} {className : Name} :
    ∀ (ds : List (FunctionDecl (Stmt NodeId))) {scopes : Scopes},
      (methods enclosing scopes className ds).errors = [] →
      Placed (Stmt.callablesOf className ds)
  | [], _, _ => List.forall_mem_nil _
  | d :: rest, _, h => by
    obtain ⟨hd, hrest⟩ := Report.append_errors.1 h
    obtain ⟨hreturns, hin⟩ := function_placed d hd
    refine List.forall_mem_cons.2 ⟨fun hi => ?_, hin.append (methods_placed rest hrest)⟩
    rw [if_pos (beq_iff_eq.1 hi)] at hreturns
    exact hreturns
termination_by structural ds => ds

end

end Resolution

/-- In a program that the walk over it accepts, nothing is returned outside of functions, and no
initializer gives anything back. -/
theorem resolve_placed {program : List (Stmt NodeId)} (h : (resolve program).errors = []) :
    Stmt.returnsAll program = [] ∧
      ∀ c ∈ Stmt.callablesAll program, c.isInitializer = true →
        ∀ value ∈ Stmt.returnsAll c.decl.body, value = none := by
  rw [resolve_eq] at h
  obtain ⟨hnone, hplaced⟩ := Resolution.statements_placed program h
  exact ⟨List.eq_nil_iff_forall_not_mem.2 hnone, hplaced⟩

end ClassScript
