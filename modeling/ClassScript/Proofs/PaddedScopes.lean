import ClassScript.Proofs.PaddedCode
import ClassScript.Proofs.Places

/-!
# Resolving inside an extra scope

An extra scope that binds no name makes some distances larger and does nothing else: the walk that
resolves names reports the same errors and goes on with the same scopes (`Resolution.walk_pad`), as long as
nothing is declared right inside the extra scope (`Resolution.branch_pad`). So code whose uses of names are
as far out as the walks with and without the extra scope find them fits machines with and without an
extra frame (`Stmt.fits_of_places`). The extra scope of a block makes no difference for what stands in
settled scopes (`Scopes.Settled`); in these the walk over a program meets all its statements
(`Meets.settled`).
-/

set_option autoImplicit false

namespace ClassScript

namespace Resolution

/-! ## Scopes -/

/-- The scopes with an extra one that binds no name. -/
def Scopes.pad (p : Pad) (scopes : Scopes) : Scopes :=
  match p with
  | .nowhere => scopes
  | .behind k => scopes.insertIdx k .empty

section

variable {p : Pad} {scopes : Scopes}

@[simp] theorem pad_nil (h : p ≠ .behind 0) : Scopes.pad p [] = [] := by
  cases p with
  | nowhere => rfl
  | behind k =>
    cases k with
    | zero => exact absurd rfl h
    | succ k => rfl

@[simp] theorem pad_inner_cons (scope : Bindings Bool) :
    Scopes.pad p.inner (scope :: scopes) = scope :: Scopes.pad p scopes := by
  cases p <;> rfl

/-- Unless the extra scope comes first, it is one inside the outer scopes. -/
theorem exists_inner (h : p ≠ .behind 0) : p = .nowhere ∨ ∃ q : Pad, p = q.inner := by
  cases p with
  | nowhere => exact .inl rfl
  | behind k =>
    cases k with
    | zero => exact absurd rfl h
    | succ k => exact .inr ⟨.behind k, rfl⟩

/-- In front of the extra scope there is the same innermost one. -/
theorem pad_cons (h : p ≠ .behind 0) (outer : Scopes) :
    ∃ outer', ∀ scope, Scopes.pad p (scope :: outer) = scope :: outer' := by
  rcases exists_inner h with rfl | ⟨q, rfl⟩
  · exact ⟨outer, fun _ => rfl⟩
  · exact ⟨Scopes.pad q outer, fun _ => pad_inner_cons _⟩

/-- Past the extra scope a name is one scope further out. -/
theorem depth?_pad (p : Pad) (x : String) (scopes : Scopes) :
    depth? x (Scopes.pad p scopes) = (depth? x scopes).map p.shift := by
  cases p with
  | nowhere => exact Option.map_id'.symm
  | behind k =>
    induction scopes generalizing k with
    | nil => cases k <;> rfl
    | cons scope outer ih =>
      cases k with
      | zero => rfl
      | succ k =>
        show depth? x (scope :: Scopes.pad (.behind k) outer) = _
        simp only [depth?]
        split
        · exact congrArg some (Pad.shift_inner_zero (.behind k)).symm
        · rw [ih k, Option.map_map, Option.map_map]
          exact congrArg (Option.map · _)
            (funext fun d => (Pad.shift_inner_succ (.behind k) d).symm)

theorem declare_pad (h : p ≠ .behind 0) (scopes : Scopes) (name : Name) :
    declare (Scopes.pad p scopes) name =
      (Scopes.pad p (declare scopes name).1, (declare scopes name).2) := by
  cases scopes with
  | nil => rw [pad_nil h, declare, pad_nil h]
  | cons scope outer =>
    obtain ⟨outer', ho⟩ := pad_cons h outer
    rw [ho, declare, declare]
    split <;> simp only [ho]

theorem define_pad (h : p ≠ .behind 0) (scopes : Scopes) (name : Name) :
    define (Scopes.pad p scopes) name = Scopes.pad p (define scopes name) := by
  cases scopes with
  | nil => rw [pad_nil h, define, pad_nil h]
  | cons scope outer =>
    obtain ⟨outer', ho⟩ := pad_cons h outer
    rw [ho, define, define, ho]

theorem declareAndDefine_pad (h : p ≠ .behind 0) (scopes : Scopes) (name : Name) :
    declareAndDefine (Scopes.pad p scopes) name =
      (Scopes.pad p (declareAndDefine scopes name).1, (declareAndDefine scopes name).2) := by
  unfold declareAndDefine
  rw [declare_pad h]
  exact congrArg (Prod.mk · _) (define_pad h _ name)

theorem declareAll_pad (h : p ≠ .behind 0) (scopes : Scopes) (params : List Param) :
    declareAll (Scopes.pad p scopes) params =
      (Scopes.pad p (declareAll scopes params).1, (declareAll scopes params).2) := by
  induction params generalizing scopes with
  | nil => rfl
  | cons q rest ih => simp only [declareAll, declareAndDefine_pad h, ih]

theorem classScopes_pad (p : Pad) (scopes : Scopes) (s : Option (SuperclassRef NodeId)) :
    classScopes (Scopes.pad p scopes) s = Scopes.pad (p.around s).inner (classScopes scopes s) := by
  cases s with
  | none => exact (pad_inner_cons _).symm
  | some s =>
    show _ = Scopes.pad p.inner.inner (.single "this" true :: .single "super" true :: scopes)
    rw [pad_inner_cons, pad_inner_cons]
    rfl

/-- The walk computes no initial value of a name of the innermost scope. -/
def Scopes.Initialized (scopes : Scopes) : Prop :=
  ∀ name, inInitializer scopes name = false

/-- Where an initial value is computed is not seen behind the extra scope, and otherwise it does not
matter. -/
theorem inInitializer_pad (h : p ≠ .behind 0 ∨ scopes.Initialized) (name : Name) :
    inInitializer (Scopes.pad p scopes) name = inInitializer scopes name := by
  by_cases hp : p = .behind 0
  · subst hp
    exact (h.resolve_left (fun hne => hne rfl) name).symm
  · cases scopes with
    | nil => rw [pad_nil hp]
    | cons scope outer =>
      obtain ⟨outer', ho⟩ := pad_cons hp outer
      rw [ho]
      rfl

end

/-! ## The same errors -/

@[simp] theorem errors_append (a b : Report) : (a ++ b).errors = a.errors ++ b.errors := rfl

@[simp] theorem errors_note (scopes : Scopes) (id : NodeId) (name : Name) :
    (note scopes id name).errors = [] := by
  unfold note
  split <;> rfl

variable {p : Pad} {scopes : Scopes}

mutual

theorem expression_pad (enclosing : Enclosing) (h : p ≠ .behind 0 ∨ scopes.Initialized) :
    ∀ e : Expr NodeId, (expression enclosing (Scopes.pad p scopes) e).errors =
      (expression enclosing scopes e).errors
  | .literal _ => rfl
  | .unary _ operand => expression_pad enclosing h operand
  | .suffixed operand _ => expression_pad enclosing h operand
  | .binary left _ right => by
    simp only [expression, errors_append, expression_pad enclosing h left,
      expression_pad enclosing h right]
  | .logical left _ right => by
    simp only [expression, errors_append, expression_pad enclosing h left,
      expression_pad enclosing h right]
  | .grouping inner => expression_pad enclosing h inner
  | .variable id name => by
    simp only [expression, errors_append, errors_note, inInitializer_pad h]
  | .assign id name value => by
    simp only [expression, errors_append, errors_note, expression_pad enclosing h value]
  | .call callee _ arguments => by
    simp only [expression, errors_append, expression_pad enclosing h callee,
      expressions_pad enclosing h arguments]
  | .get object _ => expression_pad enclosing h object
  | .set object _ value => by
    simp only [expression, errors_append, expression_pad enclosing h object,
      expression_pad enclosing h value]
  | .this _ _ => by cases enclosing <;> simp only [expression, errors_note]
  | .super _ _ _ => by cases enclosing <;> simp only [expression, errors_note]
termination_by structural e => e

theorem expressions_pad (enclosing : Enclosing) (h : p ≠ .behind 0 ∨ scopes.Initialized) :
    ∀ es : List (Expr NodeId), (expressions enclosing (Scopes.pad p scopes) es).errors =
      (expressions enclosing scopes es).errors
  | [] => rfl
  | e :: rest => by
    simp only [expressions, errors_append, expression_pad enclosing h e,
      expressions_pad enclosing h rest]
termination_by structural es => es

end

theorem expressionOption_pad (enclosing : Enclosing) (h : p ≠ .behind 0 ∨ scopes.Initialized)
    (e : Option (Expr NodeId)) : (expressionOption enclosing (Scopes.pad p scopes) e).errors =
      (expressionOption enclosing scopes e).errors := by
  cases e with
  | none => rfl
  | some e => exact expression_pad enclosing h e

theorem fields_pad (enclosing : Enclosing) (h : p ≠ .behind 0) (ds : List (VarDecl NodeId)) :
    (fields enclosing (Scopes.pad p scopes) ds).errors = (fields enclosing scopes ds).errors := by
  induction ds with
  | nil => rfl
  | cons d rest ih =>
    simp only [fields, errors_append, expressionOption_pad enclosing (.inl h) d.initializer, ih]

theorem superclass_pad (h : p ≠ .behind 0) (name : Name) (s : Option (SuperclassRef NodeId)) :
    (superclass (Scopes.pad p scopes) name s).errors = (superclass scopes name s).errors := by
  cases s with
  | none => rfl
  | some s =>
    simp only [superclass, errors_append, expression_pad .subclass (.inl h)]

/-- The walks report the same errors and go on with the same scopes, but for the extra one. -/
structure SameWalk (p : Pad) (w w' : Scopes × Report) : Prop where
  scopes : w'.1 = Scopes.pad p w.1
  errors : w'.2.errors = w.2.errors

mutual

theorem walk_pad : ∀ (s : Stmt NodeId) (routine : Routine) (enclosing : Enclosing) (scopes : Scopes)
    {p : Pad}, p ≠ .behind 0 → SameWalk p (statement routine enclosing scopes s)
      (statement routine enclosing (Scopes.pad p scopes) s)
  | .expression value, _, enclosing, scopes, _, h =>
    ⟨rfl, expression_pad enclosing (.inl h) value⟩
  | .print value, _, enclosing, scopes, _, h => ⟨rfl, expression_pad enclosing (.inl h) value⟩
  | .var decl, _, enclosing, scopes, _, h => by
    constructor
    · simp only [statement, declare_pad h, define_pad h]
    · simp only [statement, declare_pad h, errors_append,
        expressionOption_pad enclosing (.inl h) decl.initializer]
  | .block body, routine, enclosing, scopes, p, h => by
    have hbody := walkAll_pad body routine enclosing (.empty :: scopes) p.inner_ne_here
    rw [pad_inner_cons] at hbody
    exact ⟨rfl, hbody.errors⟩
  | .ifThen condition thenBranch, routine, enclosing, scopes, _, h => by
    have ht := walk_pad thenBranch routine enclosing scopes h
    refine ⟨ht.scopes, ?_⟩
    simp only [statement, errors_append, expression_pad enclosing (.inl h) condition, ht.errors]
  | .ifElse condition thenBranch elseBranch, routine, enclosing, scopes, _, h => by
    have ht := walk_pad thenBranch routine enclosing scopes h
    have he := walk_pad elseBranch routine enclosing (statement routine enclosing scopes thenBranch).1 h
    rw [← ht.scopes] at he
    refine ⟨he.scopes, ?_⟩
    simp only [statement, errors_append, expression_pad enclosing (.inl h) condition, ht.errors,
      he.errors]
  | .whileLoop condition body, routine, enclosing, scopes, _, h => by
    have hb := walk_pad body routine enclosing scopes h
    refine ⟨hb.scopes, ?_⟩
    simp only [statement, errors_append, expression_pad enclosing (.inl h) condition, hb.errors]
  | .function decl, _, enclosing, scopes, _, h => by
    constructor
    · simp only [statement, declareAndDefine_pad h]
    · simp only [statement, declareAndDefine_pad h, errors_append, function_pad decl]
  | .returnWith keyword value, _, enclosing, scopes, _, h => by
    refine ⟨rfl, ?_⟩
    simp only [statement, errors_append, expressionOption_pad enclosing (.inl h) value]
  | .classDecl ⟨name, super?, fieldDecls, methodDecls⟩, _, _, scopes, p, h => by
    constructor
    · simp only [statement, declareAndDefine_pad h]
    · simp only [statement, declareAndDefine_pad h, errors_append, superclass_pad h, classScopes_pad,
        fields_pad _ (p.around super?).inner_ne_here, methods_pad methodDecls]
termination_by structural s => s

theorem walkAll_pad : ∀ (ss : List (Stmt NodeId)) (routine : Routine) (enclosing : Enclosing)
    (scopes : Scopes) {p : Pad}, p ≠ .behind 0 →
    SameWalk p (statements routine enclosing scopes ss)
      (statements routine enclosing (Scopes.pad p scopes) ss)
  | [], _, _, _, _, _ => ⟨rfl, rfl⟩
  | s :: rest, routine, enclosing, scopes, _, h => by
    have hs := walk_pad s routine enclosing scopes h
    have hr := walkAll_pad rest routine enclosing (statement routine enclosing scopes s).1 h
    rw [← hs.scopes] at hr
    refine ⟨hr.scopes, ?_⟩
    simp only [statements, errors_append, hs.errors, hr.errors]
termination_by structural ss => ss

theorem function_pad : ∀ (d : FunctionDecl (Stmt NodeId)) (routine : Routine)
    (enclosing : Enclosing) (scopes : Scopes) (p : Pad),
    (function routine enclosing (Scopes.pad p scopes) d).errors =
      (function routine enclosing scopes d).errors
  | ⟨_, params, _, body⟩, routine, enclosing, scopes, p => by
    have hbody := walkAll_pad body routine enclosing (declareAll (.empty :: scopes) params).1
      p.inner_ne_here
    simp only [function, ← pad_inner_cons, declareAll_pad p.inner_ne_here, errors_append,
      hbody.errors]
termination_by structural d => d

theorem methods_pad : ∀ (ds : List (FunctionDecl (Stmt NodeId))) (enclosing : Enclosing)
    (scopes : Scopes) (className : Name) (p : Pad),
    (methods enclosing (Scopes.pad p scopes) className ds).errors =
      (methods enclosing scopes className ds).errors
  | [], _, _, _, _ => rfl
  | d :: rest, enclosing, scopes, className, p => by
    simp only [methods, errors_append, function_pad d, methods_pad rest]
termination_by structural ds => ds

end

/-- The walk goes on with the same scopes after a statement that binds no name. -/
theorem scopes_of_isBranch (routine : Routine) (enclosing : Enclosing) (scopes : Scopes) :
    ∀ s : Stmt NodeId, s.Shaped → s.isBranch = true →
      (statement routine enclosing scopes s).1 = scopes
  | .expression _, _, _ => rfl
  | .print _, _, _ => rfl
  | .block _, _, _ => rfl
  | .ifThen _ thenBranch, hs, _ =>
    scopes_of_isBranch routine enclosing scopes thenBranch hs.2.1 hs.2.2
  | .ifElse _ thenBranch elseBranch, ⟨_, ⟨hst, hbt⟩, hse, hbe⟩, _ => by
    have ht := scopes_of_isBranch routine enclosing scopes thenBranch hst hbt
    have he := scopes_of_isBranch routine enclosing scopes elseBranch hse hbe
    simp only [statement, ht, he]
  | .whileLoop _ body, hs, _ => scopes_of_isBranch routine enclosing scopes body hs.2.1 hs.2.2
  | .returnWith _ _, _, _ => rfl
termination_by structural s => s

/-- A statement that binds no name may also stand right inside the extra scope. -/
theorem branch_pad (routine : Routine) (enclosing : Enclosing) (p : Pad) (h : scopes.Initialized) :
    ∀ s : Stmt NodeId, s.Shaped → s.isBranch = true →
      (statement routine enclosing (Scopes.pad p scopes) s).2.errors =
        (statement routine enclosing scopes s).2.errors
  | .expression value, _, _ => expression_pad enclosing (.inr h) value
  | .print value, _, _ => expression_pad enclosing (.inr h) value
  | .block body, _, _ => by
    have hbody := walkAll_pad body routine enclosing (.empty :: scopes) p.inner_ne_here
    rw [pad_inner_cons] at hbody
    exact hbody.errors
  | .ifThen condition thenBranch, hs, _ => by
    simp only [statement, errors_append, expression_pad enclosing (.inr h) condition,
      branch_pad routine enclosing p h thenBranch hs.2.1 hs.2.2]
  | .ifElse condition thenBranch elseBranch, ⟨_, ⟨hst, hbt⟩, hse, hbe⟩, _ => by
    simp only [statement, errors_append, expression_pad enclosing (.inr h) condition,
      scopes_of_isBranch routine enclosing _ thenBranch hst hbt,
      branch_pad routine enclosing p h thenBranch hst hbt,
      branch_pad routine enclosing p h elseBranch hse hbe]
  | .whileLoop condition body, hs, _ => by
    simp only [statement, errors_append, expression_pad enclosing (.inr h) condition,
      branch_pad routine enclosing p h body hs.2.1 hs.2.2]
  | .returnWith _ value, _, _ => by
    simp only [statement, errors_append, expressionOption_pad enclosing (.inr h) value]
termination_by structural s => s

/-! ## `super` behind the extra scope -/

/-- The scope right behind the extra one does not know `super`. -/
def Scopes.Clear (p : Pad) (scopes : Scopes) : Prop :=
  ∀ k scope, p = .behind k → scopes[k]? = some scope → scope.contains "super" = false

theorem Scopes.Clear.inner (h : scopes.Clear p) (scope : Bindings Bool) :
    Scopes.Clear p.inner (scope :: scopes) := by
  intro k names hk hget
  cases p with
  | nowhere => cases hk
  | behind j =>
    cases hk
    exact h j names rfl hget

theorem Scopes.Clear.of_tail {scopes' : Scopes} (h : scopes.Clear p) (hp : p ≠ .behind 0)
    (ht : scopes'.tail = scopes.tail) : scopes'.Clear p := by
  intro k names hk hget
  cases k with
  | zero => exact absurd hk hp
  | succ k =>
    refine h (k + 1) names hk ?_
    rw [← List.getElem?_tail] at hget ⊢
    rwa [← ht]

theorem Scopes.Clear.around (h : scopes.Clear p) (s : Option (SuperclassRef NodeId)) :
    Scopes.Clear (p.around s).inner (classScopes scopes s) := by
  cases s with
  | none => exact h.inner _
  | some s => exact (h.inner _).inner _

theorem scope_of_depth? {x : String} {d : Nat} (h : depth? x scopes = some d) :
    ∃ scope, scopes[d]? = some scope ∧ scope.contains x = true := by
  induction scopes generalizing d with
  | nil => cases h
  | cons scope outer ih =>
    simp only [depth?] at h
    split at h
    next hc => cases h; exact ⟨scope, rfl, hc⟩
    next =>
      obtain ⟨k, hk, rfl⟩ := Option.map_eq_some_iff.1 h
      exact ih hk

/-- So `super` is not found there. -/
theorem Scopes.Clear.depth?_ne (h : scopes.Clear p) {d : Nat} (hd : depth? "super" scopes = some d) :
    p ≠ .behind d := by
  intro hp
  obtain ⟨scope, hget, hsuper⟩ := scope_of_depth? hd
  rw [h d scope hp hget] at hsuper
  cases hsuper

/-- A declaration changes the innermost scope only. -/
theorem tail_declare (scopes : Scopes) (name : Name) :
    (declare scopes name).1.tail = scopes.tail := by
  cases scopes with
  | nil => rfl
  | cons scope outer =>
    unfold declare
    dsimp only
    split <;> rfl

theorem tail_define (scopes : Scopes) (name : Name) : (define scopes name).tail = scopes.tail := by
  cases scopes <;> rfl

theorem tail_declareAndDefine (scopes : Scopes) (name : Name) :
    (declareAndDefine scopes name).1.tail = scopes.tail :=
  (tail_define _ name).trans (tail_declare scopes name)

theorem tail_declareAll (scopes : Scopes) (params : List Param) :
    (declareAll scopes params).1.tail = scopes.tail := by
  induction params generalizing scopes with
  | nil => rfl
  | cons q rest ih => exact (ih _).trans (tail_declareAndDefine scopes q.name)

theorem tail_statement (routine : Routine) (enclosing : Enclosing) :
    ∀ (s : Stmt NodeId) (scopes : Scopes), (statement routine enclosing scopes s).1.tail = scopes.tail
  | .expression _, _ => rfl
  | .print _, _ => rfl
  | .var decl, scopes => tail_declareAndDefine scopes decl.name
  | .block _, _ => rfl
  | .ifThen _ thenBranch, scopes => tail_statement routine enclosing thenBranch scopes
  | .ifElse _ thenBranch elseBranch, scopes =>
    (tail_statement routine enclosing elseBranch _).trans
      (tail_statement routine enclosing thenBranch scopes)
  | .whileLoop _ body, scopes => tail_statement routine enclosing body scopes
  | .function decl, scopes => tail_declareAndDefine scopes decl.name
  | .returnWith _ _, _ => rfl
  | .classDecl ⟨name, _, _, _⟩, scopes => tail_declareAndDefine scopes name
termination_by structural s => s

/-! ## Scopes around statements -/

/-- The innermost scope binds names that have values, and `super` is not among them. A block starts so, and
its statements keep it so. -/
structure Scopes.Settled (scopes : Scopes) : Prop where
  initialized : scopes.Initialized
  clear : scopes.Clear (.behind 0)

namespace Scopes.Settled

theorem nil : Scopes.Settled [] :=
  ⟨fun _ => rfl, fun _ _ hk hget => by cases hk; cases hget⟩

theorem block (scopes : Scopes) : Scopes.Settled (.empty :: scopes) :=
  ⟨fun _ => rfl, fun _ _ hk hget => by cases hk; cases hget; rfl⟩

theorem declareAndDefine (h : scopes.Settled) {name : Name} (hn : name.Free) :
    Scopes.Settled (declareAndDefine scopes name).1 := by
  cases scopes with
  | nil => exact h
  | cons scope outer =>
    -- The name is announced first unless it is bound, and then it gets its value.
    obtain ⟨between, hbetween, hdefine⟩ : ∃ between : Bindings Bool,
        (between = scope ∨ between = scope.insert name.text false) ∧
          (Resolution.declareAndDefine (scope :: outer) name).1 =
            between.insert name.text true :: outer := by
      unfold Resolution.declareAndDefine declare
      dsimp only
      split
      · exact ⟨scope, .inl rfl, rfl⟩
      · exact ⟨_, .inr rfl, rfl⟩
    rw [hdefine]
    refine ⟨fun x => ?_, fun k names hk hget => ?_⟩
    · have hx : (scope.get? x.text == some false) = false := h.initialized x
      show ((between.insert name.text true).get? x.text == some false) = false
      rw [Bindings.get?_insert]
      split
      · rfl
      next hne =>
        rcases hbetween with rfl | rfl
        · exact hx
        · rw [Bindings.get?_insert, if_neg hne]
          exact hx
    · cases hk
      cases hget
      have hsuper : (name.text == "super") = false := beq_eq_false_iff_ne.2 hn.ne_super
      have hscope : scope.contains "super" = false := h.clear 0 scope rfl rfl
      rcases hbetween with rfl | rfl
      · rw [Bindings.contains_insert, hsuper, hscope]
        rfl
      · rw [Bindings.contains_insert, Bindings.contains_insert, hsuper, hscope]
        rfl

/-- The walk goes on with such scopes after a statement. -/
theorem statement (routine : Routine) (enclosing : Enclosing) (h : scopes.Settled) :
    ∀ s : Stmt NodeId, s.Shaped → Scopes.Settled (statement routine enclosing scopes s).1
  | .var _, hs => h.declareAndDefine hs.1
  | .function ⟨_, _, _, _⟩, hs => h.declareAndDefine hs.1
  | .classDecl ⟨_, _, _, _⟩, hs => h.declareAndDefine hs.1
  | .ifThen condition thenBranch, hs => by
    rw [scopes_of_isBranch routine enclosing scopes (.ifThen condition thenBranch) hs rfl]
    exact h
  | .ifElse condition thenBranch elseBranch, hs => by
    rw [scopes_of_isBranch routine enclosing scopes (.ifElse condition thenBranch elseBranch) hs rfl]
    exact h
  | .whileLoop condition body, hs => by
    rw [scopes_of_isBranch routine enclosing scopes (.whileLoop condition body) hs rfl]
    exact h
  | .expression _, _ => h
  | .print _, _ => h
  | .block _, _ => h
  | .returnWith _ _, _ => h

/-- The parameters of a function keep it so, in front of its body. -/
theorem declareAll (h : scopes.Settled) {params : List Param} (hp : ∀ p ∈ params, p.name.Free) :
    Scopes.Settled (Resolution.declareAll scopes params).1 := by
  induction params generalizing scopes with
  | nil => exact h
  | cons p rest ih =>
    obtain ⟨hname, hrest⟩ := List.forall_mem_cons.1 hp
    exact ih (h.declareAndDefine hname) hrest

end Scopes.Settled

/-- Where the walk stands: in which routine, in which class and in which scopes. -/
structure Standpoint where
  routine : Routine
  enclosing : Enclosing
  scopes : Scopes

/-- Where the walk stands at the start of the body of a function. -/
def Standpoint.routineBody (routine : Routine) (enclosing : Enclosing) (scopes : Scopes)
    (decl : FunctionDecl (Stmt NodeId)) : Standpoint :=
  ⟨routine, enclosing, (Resolution.declareAll (.empty :: scopes) decl.params).1⟩

/-- The walk over statements from a standpoint on meets a statement, among them or inside one of them, and
stands at `p` there. -/
inductive Meets (p : Standpoint) (s : Stmt NodeId) : Standpoint → List (Stmt NodeId) → Prop where
  | here {rest : List (Stmt NodeId)} : Meets p s p (s :: rest)
  | after {routine : Routine} {enclosing : Enclosing} {scopes : Scopes} {first : Stmt NodeId}
      {rest : List (Stmt NodeId)} :
      Meets p s ⟨routine, enclosing, (statement routine enclosing scopes first).1⟩ rest →
      Meets p s ⟨routine, enclosing, scopes⟩ (first :: rest)
  | block {routine : Routine} {enclosing : Enclosing} {scopes : Scopes}
      {body rest : List (Stmt NodeId)} :
      Meets p s ⟨routine, enclosing, .empty :: scopes⟩ body →
      Meets p s ⟨routine, enclosing, scopes⟩ (.block body :: rest)
  | onlyBranch {q : Standpoint} {condition : Expr NodeId} {branch : Stmt NodeId}
      {rest : List (Stmt NodeId)} :
      Meets p s q [branch] → Meets p s q (.ifThen condition branch :: rest)
  | thenBranch {q : Standpoint} {condition : Expr NodeId} {branch other : Stmt NodeId}
      {rest : List (Stmt NodeId)} :
      Meets p s q [branch] → Meets p s q (.ifElse condition branch other :: rest)
  | elseBranch {routine : Routine} {enclosing : Enclosing} {scopes : Scopes}
      {condition : Expr NodeId} {other branch : Stmt NodeId} {rest : List (Stmt NodeId)} :
      Meets p s ⟨routine, enclosing, (statement routine enclosing scopes other).1⟩ [branch] →
      Meets p s ⟨routine, enclosing, scopes⟩ (.ifElse condition other branch :: rest)
  | loopBody {q : Standpoint} {condition : Expr NodeId} {body : Stmt NodeId}
      {rest : List (Stmt NodeId)} :
      Meets p s q [body] → Meets p s q (.whileLoop condition body :: rest)
  | functionBody {routine : Routine} {enclosing : Enclosing} {scopes : Scopes}
      {decl : FunctionDecl (Stmt NodeId)} {rest : List (Stmt NodeId)} :
      Meets p s (.routineBody .function enclosing (declareAndDefine scopes decl.name).1 decl)
        decl.body →
      Meets p s ⟨routine, enclosing, scopes⟩ (.function decl :: rest)
  | methodBody {routine : Routine} {enclosing : Enclosing} {scopes : Scopes}
      {decl : ClassDecl NodeId (Stmt NodeId)} {method : FunctionDecl (Stmt NodeId)}
      {rest : List (Stmt NodeId)} : method ∈ decl.methods →
      Meets p s
        (.routineBody (if method.name.text = decl.name.text then .initializer else .method)
          (enclosingOf decl.superclass)
          (classScopes (declareAndDefine scopes decl.name).1 decl.superclass) method)
        method.body →
      Meets p s ⟨routine, enclosing, scopes⟩ (.classDecl decl :: rest)

namespace Meets

variable {p q : Standpoint} {s : Stmt NodeId} {ss : List (Stmt NodeId)}

/-- The parameters and the body of a function have the shape of those that are read. -/
theorem shapedRoutine {decl : FunctionDecl (Stmt NodeId)} (h : Stmt.ShapedRoutine decl) :
    (∀ p ∈ decl.params, p.name.Free) ∧ Stmt.ShapedAll decl.body := by
  obtain ⟨name, params, result, body⟩ := decl
  exact h.2

/-- From settled scopes on the walk meets all statements in settled scopes. -/
theorem settled (h : Meets p s q ss) (hq : q.scopes.Settled) (hs : Stmt.ShapedAll ss) :
    p.scopes.Settled ∧ s.Shaped := by
  induction h with
  | here => exact ⟨hq, hs.1⟩
  | @after routine enclosing _ first _ _ ih => exact ih (hq.statement routine enclosing first hs.1) hs.2
  | block _ ih => exact ih (.block _) hs.1
  | onlyBranch _ ih => exact ih hq ⟨hs.1.2.1, trivial⟩
  | thenBranch _ ih => exact ih hq ⟨hs.1.2.1.1, trivial⟩
  | @elseBranch routine enclosing _ _ other _ _ _ ih =>
    exact ih (hq.statement routine enclosing other hs.1.2.1.1) ⟨hs.1.2.2.1, trivial⟩
  | loopBody _ ih => exact ih hq ⟨hs.1.2.1, trivial⟩
  | functionBody _ ih =>
    obtain ⟨hparams, hbody⟩ := shapedRoutine hs.1
    exact ih (Scopes.Settled.declareAll (.block _) hparams) hbody
  | @methodBody _ _ _ decl _ _ hmethod _ ih =>
    obtain ⟨name, superclass, fields, methods⟩ := decl
    obtain ⟨hparams, hbody⟩ := shapedRoutine (Stmt.shapedRoutines_iff.1 hs.1.2.2.2 _ hmethod)
    exact ih (Scopes.Settled.declareAll (.block _) hparams) hbody

end Meets

end Resolution

/-! ## Code that fits -/

open Resolution

/-- The distances are those that the walks with and without the extra scope find. -/
structure Distances.Finds (D : Distances) (ps ps' : List Place) : Prop where
  plain : ∀ q ∈ ps, D.plain q.use.id = q.depth?
  padded : ∀ q ∈ ps', D.padded q.use.id = q.depth?

/-- The scopes around the second place are those around the first one with the extra scope. -/
structure Lexical.WithExtra (p : Pad) (l l' : Lexical) : Prop where
  scopes : l'.scopes = l.scopes.pad p
  clear : l.scopes.Clear p

namespace Lexical.WithExtra

variable {p : Pad} {l l' : Lexical}

theorem of_scopes (h : l'.scopes = l.scopes) : l.WithExtra .nowhere l' :=
  ⟨h, fun _ _ hk => nomatch hk⟩

/-- A block is an extra scope for what stands in the scopes around it. -/
theorem ofBlock (h : l'.scopes = l.scopes) (hs : l.scopes.Settled) (body : List (Stmt NodeId)) :
    l.WithExtra (.behind 0) (l'.inBlock body) :=
  ⟨congrArg (Bindings.empty :: ·) h, hs.clear⟩

theorem inBlock (h : l.WithExtra p l') (body : List (Stmt NodeId)) :
    (l.inBlock body).WithExtra p.inner (l'.inBlock body) := by
  refine ⟨?_, h.clear.inner _⟩
  show .empty :: l'.scopes = Scopes.pad p.inner (.empty :: l.scopes)
  rw [pad_inner_cons, h.scopes]

theorem declare (h : l.WithExtra p l') (hp : p ≠ .behind 0) (name : Name) :
    (l.declare name).WithExtra p (l'.declare name) := by
  constructor
  · rw [scopes_declare, scopes_declare, h.scopes, declare_pad hp]
  · refine h.clear.of_tail hp ?_
    rw [scopes_declare]
    exact tail_declare l.scopes name

theorem bind (h : l.WithExtra p l') (hp : p ≠ .behind 0) (name : Name) :
    (l.bind name).WithExtra p (l'.bind name) := by
  constructor
  · rw [scopes_bind, scopes_bind, h.scopes, declareAndDefine_pad hp]
  · refine h.clear.of_tail hp ?_
    rw [scopes_bind]
    exact tail_declareAndDefine l.scopes name

theorem inRoutine (h : l.WithExtra p l') (decl : FunctionDecl (Stmt NodeId)) :
    (l.inRoutine decl).WithExtra p.inner (l'.inRoutine decl) := by
  have hinner : l'.inRoutine decl = bindAll (⟨.routine decl, .empty⟩ :: l') decl.params := rfl
  constructor
  · rw [hinner, Lexical.inRoutine, scopes_bindAll, scopes_bindAll]
    show (declareAll (.empty :: l'.scopes) decl.params).1 =
      Scopes.pad p.inner (declareAll (.empty :: l.scopes) decl.params).1
    rw [h.scopes, ← pad_inner_cons, declareAll_pad p.inner_ne_here]
  · refine (h.clear.inner .empty).of_tail p.inner_ne_here ?_
    rw [Lexical.inRoutine, scopes_bindAll]
    exact tail_declareAll (.empty :: l.scopes) decl.params

theorem inClass (h : l.WithExtra p l') (decl : ClassDecl NodeId (Stmt NodeId)) :
    (l.inClass decl).WithExtra (p.around decl.superclass).inner (l'.inClass decl) := by
  constructor
  · rw [scopes_inClass, scopes_inClass, h.scopes, classScopes_pad]
  · rw [scopes_inClass]
    exact h.clear.around decl.superclass

theorem scopesAfter (h : l.WithExtra p l') (hp : p ≠ .behind 0) (s : Stmt NodeId) :
    (s.scopesAfter l).WithExtra p (s.scopesAfter l') := by
  constructor
  · rw [s.scopes_scopesAfter .none .none, s.scopes_scopesAfter .none .none, h.scopes]
    exact (walk_pad s .none .none l.scopes hp).scopes
  · refine h.clear.of_tail hp ?_
    rw [s.scopes_scopesAfter .none .none]
    exact tail_statement .none .none s l.scopes

end Lexical.WithExtra

section

variable {D : Distances} {p : Pad} {l l' : Lexical} {ps ps' qs qs' : List Place}

theorem Distances.Finds.of_mem (h : D.Finds ps ps') (hs : ∀ q ∈ qs, q ∈ ps)
    (hs' : ∀ q ∈ qs', q ∈ ps') : D.Finds qs qs' :=
  ⟨fun q hq => h.plain q (hs q hq), fun q hq => h.padded q (hs' q hq)⟩

theorem Distances.Finds.left (h : D.Finds (ps ++ qs) (ps' ++ qs')) : D.Finds ps ps' :=
  h.of_mem (fun _ => List.mem_append_left _) fun _ => List.mem_append_left _

theorem Distances.Finds.right (h : D.Finds (ps ++ qs) (ps' ++ qs')) : D.Finds qs qs' :=
  h.of_mem (fun _ => List.mem_append_right _) fun _ => List.mem_append_right _

/-- What the walks find within the same scopes leads as far. -/
theorem Distances.Finds.moves {os : List (Occurrence NodeId)} (hl : l.WithExtra p l')
    (hs : ∀ o ∈ os, o.Spelled) (h : D.Finds (placesAt l os) (placesAt l' os)) : D.MovesAll p os := by
  intro o ho
  have hplain : D.plain o.id = depth? o.name.text l.scopes :=
    h.plain ⟨o, l⟩ (List.mem_map_of_mem ho)
  have hpadded : D.padded o.id = depth? o.name.text l'.scopes :=
    h.padded ⟨o, l'⟩ (List.mem_map_of_mem ho)
  refine ⟨?_, fun hk d hd => ?_⟩
  · rw [hpadded, hplain, hl.scopes, depth?_pad]
  · have hname : o.name.text = "super" := by
      have hspelled := hs o ho
      rw [Occurrence.Spelled, hk] at hspelled
      exact hspelled
    rw [hplain, hname] at hd
    exact hl.clear.depth?_ne hd

theorem Expr.spelledOption {e : Option (Expr NodeId)} (hs : Expr.ShapedOption e) :
    ∀ o ∈ Expr.occurrencesOption e, o.Spelled := by
  cases e with
  | none => exact fun _ h => nomatch h
  | some e => exact Expr.Shaped.spelled e hs

theorem VarDecl.spelledAll {ds : List (VarDecl NodeId)} (hs : ∀ d ∈ ds, d.Shaped) :
    ∀ o ∈ VarDecl.occurrencesAll ds, o.Spelled := by
  intro o ho
  obtain ⟨d, hd, ho⟩ := List.mem_flatMap.1 ho
  exact Expr.spelledOption (hs d hd).2 o ho

theorem SuperclassRef.spelled {s : Option (SuperclassRef NodeId)}
    (hs : SuperclassRef.ShapedOption s) : ∀ o ∈ SuperclassRef.occurrences s, o.Spelled := by
  cases s with
  | none => exact fun _ h => nomatch h
  | some s => exact List.forall_mem_singleton.2 hs

mutual

/-- Statements fit whose uses of names are found as far out. -/
theorem Stmt.fits_of_places : ∀ (s : Stmt NodeId) {p : Pad} {l l' : Lexical}, p ≠ .behind 0 →
    l.WithExtra p l' → s.Shaped → D.Finds (s.places l) (s.places l') → s.Fits D p
  | .expression value, _, _, _, _, hl, hs, h => h.moves hl (Expr.Shaped.spelled value hs)
  | .print value, _, _, _, _, hl, hs, h => h.moves hl (Expr.Shaped.spelled value hs)
  | .var decl, _, _, _, hp, hl, hs, h =>
    ⟨hp, h.moves (hl.declare hp decl.name) (Expr.spelledOption hs.2)⟩
  | .block body, p, _, _, _, hl, hs, h =>
    Stmt.fitsAll_of_places body p.inner_ne_here (hl.inBlock body) hs h
  | .ifThen condition thenBranch, _, _, _, hp, hl, hs, h =>
    ⟨h.left.moves hl (Expr.Shaped.spelled condition hs.1),
      Stmt.fits_of_places thenBranch hp hl hs.2.1 h.right⟩
  | .ifElse condition thenBranch elseBranch, _, _, _, hp, hl, hs, h =>
    ⟨h.left.left.moves hl (Expr.Shaped.spelled condition hs.1),
      Stmt.fits_of_places thenBranch hp hl hs.2.1.1 h.left.right,
      Stmt.fits_of_places elseBranch hp (hl.scopesAfter hp thenBranch) hs.2.2.1 h.right⟩
  | .whileLoop condition body, _, _, _, hp, hl, hs, h =>
    ⟨h.left.moves hl (Expr.Shaped.spelled condition hs.1),
      Stmt.fits_of_places body hp hl hs.2.1 h.right⟩
  | .function decl, _, _, _, hp, hl, hs, h =>
    ⟨hp, Stmt.fitsRoutine_of_places decl (hl.bind hp decl.name) hs h⟩
  | .returnWith _ _, _, _, _, _, hl, hs, h => h.moves hl (Expr.spelledOption hs)
  | .classDecl ⟨name, superclass, fields, methods⟩, _, _, _, hp, hl, hs, h => by
    have hafter := hl.bind hp name
    have hinside := hafter.inClass ⟨name, superclass, fields, methods⟩
    exact ⟨hp, h.left.left.moves hafter (SuperclassRef.spelled hs.2.1),
      h.left.right.moves hinside (VarDecl.spelledAll hs.2.2.1),
      Stmt.fitsRoutines_of_places methods hinside hs.2.2.2 h.right⟩
termination_by structural s => s

theorem Stmt.fitsAll_of_places : ∀ (ss : List (Stmt NodeId)) {p : Pad} {l l' : Lexical},
    p ≠ .behind 0 → l.WithExtra p l' → Stmt.ShapedAll ss →
      D.Finds (Stmt.placesAll l ss) (Stmt.placesAll l' ss) → Stmt.FitsAll D p ss
  | [], _, _, _, _, _, _, _ => trivial
  | s :: rest, _, _, _, hp, hl, hs, h =>
    ⟨Stmt.fits_of_places s hp hl hs.1 h.left,
      Stmt.fitsAll_of_places rest hp (hl.scopesAfter hp s) hs.2 h.right⟩
termination_by structural ss => ss

theorem Stmt.fitsRoutine_of_places : ∀ (d : FunctionDecl (Stmt NodeId)) {p : Pad} {l l' : Lexical},
    l.WithExtra p l' → Stmt.ShapedRoutine d →
      D.Finds (Stmt.placesRoutine l d) (Stmt.placesRoutine l' d) → Stmt.FitsRoutine D p d
  | ⟨name, params, result, body⟩, p, _, _, hl, hs, h =>
    Stmt.fitsAll_of_places body p.inner_ne_here (hl.inRoutine ⟨name, params, result, body⟩) hs.2.2 h
termination_by structural d => d

theorem Stmt.fitsRoutines_of_places : ∀ (ds : List (FunctionDecl (Stmt NodeId))) {p : Pad}
    {l l' : Lexical}, l.WithExtra p l' → Stmt.ShapedRoutines ds →
      D.Finds (Stmt.placesRoutines l ds) (Stmt.placesRoutines l' ds) → Stmt.FitsRoutines D p ds
  | [], _, _, _, _, _, _ => trivial
  | d :: rest, _, _, _, hl, hs, h =>
    ⟨Stmt.fitsRoutine_of_places d hl hs.1 h.left,
      Stmt.fitsRoutines_of_places rest hl hs.2 h.right⟩
termination_by structural ds => ds

end

/-- Statements that bind no name may also stand right inside the extra scope. -/
theorem Stmt.branch_fits (hl : l.WithExtra p l') : ∀ s : Stmt NodeId, s.Shaped → s.isBranch = true →
    D.Finds (s.places l) (s.places l') → s.Fits D p
  | .expression value, hs, _, h => h.moves hl (Expr.Shaped.spelled value hs)
  | .print value, hs, _, h => h.moves hl (Expr.Shaped.spelled value hs)
  | .block body, hs, _, h => Stmt.fitsAll_of_places body p.inner_ne_here (hl.inBlock body) hs h
  | .ifThen condition thenBranch, hs, _, h =>
    ⟨h.left.moves hl (Expr.Shaped.spelled condition hs.1),
      Stmt.branch_fits hl thenBranch hs.2.1 hs.2.2 h.right⟩
  | .ifElse condition thenBranch elseBranch, ⟨hc, ⟨hst, hbt⟩, hse, hbe⟩, _, h => by
    refine ⟨h.left.left.moves hl (Expr.Shaped.spelled condition hc),
      Stmt.branch_fits hl thenBranch hst hbt h.left.right,
      Stmt.branch_fits hl elseBranch hse hbe ?_⟩
    have he := h.right
    rw [Stmt.scopesAfter_of_isBranch l thenBranch hst hbt,
      Stmt.scopesAfter_of_isBranch l' thenBranch hst hbt] at he
    exact he
  | .whileLoop condition body, hs, _, h =>
    ⟨h.left.moves hl (Expr.Shaped.spelled condition hs.1),
      Stmt.branch_fits hl body hs.2.1 hs.2.2 h.right⟩
  | .returnWith _ _, hs, _, h => h.moves hl (Expr.spelledOption hs)
termination_by structural s => s

end

end ClassScript
