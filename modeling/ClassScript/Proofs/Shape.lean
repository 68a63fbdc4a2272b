import ClassScript.Syntax.ExprParser
import ClassScript.Syntax.Numbering

/-!
# The shape of programs

`Expr.Shaped` and `Stmt.Shaped` say what every program that was read has in common beyond its
constructors: declared and used names are no reserved words, the words `this` and `super` are
spelled so, operators in front of an expression are those of the grammar, and no declaration is a
branch of an `if` or the body of a loop. Numbering keeps the shape (`Stmt.numberAll_shaped`) and
gives the uses of names consecutive numbers (`Stmt.numberAll_numbers`).
-/

set_option autoImplicit false

namespace ClassScript

variable {ι : Type}

/-! ## The shape -/

/-- The name is no reserved word. -/
def Name.Free (n : Name) : Prop :=
  Symbol.ofWord? n.text = none

/-- The statement binds no name in the scope around it. -/
def Stmt.isBranch : Stmt ι → Bool
  | .var _ => false
  | .function _ => false
  | .classDecl _ => false
  | _ => true

mutual

/-- The expression has the shape of those that are read. -/
def Expr.Shaped : Expr ι → Prop
  | .literal _ => True
  | .unary operator operand =>
    Grammar.prefixSymbols.any operator.isSymbol = true ∧ operand.Shaped
  | .suffixed operand _ => operand.Shaped
  | .binary left _ right => left.Shaped ∧ right.Shaped
  | .logical left _ right => left.Shaped ∧ right.Shaped
  | .grouping inner => inner.Shaped
  | .variable _ name => name.Free
  | .assign _ name value => name.Free ∧ value.Shaped
  | .call callee _ arguments => callee.Shaped ∧ Expr.ShapedAll arguments
  | .get object _ => object.Shaped
  | .set object _ value => object.Shaped ∧ value.Shaped
  | .this _ keyword => keyword.text = "this"
  | .super _ keyword _ => keyword.text = "super"
termination_by structural e => e

/-- The arguments of a call have the shape of those that are read. -/
def Expr.ShapedAll : List (Expr ι) → Prop
  | [] => True
  | e :: rest => e.Shaped ∧ Expr.ShapedAll rest
termination_by structural es => es

end

/-- An expression that may be missing has the shape of those that are read. -/
def Expr.ShapedOption : Option (Expr ι) → Prop
  | none => True
  | some e => e.Shaped

/-- The declaration of a variable or a field has the shape of those that are read. -/
def VarDecl.Shaped (d : VarDecl ι) : Prop :=
  d.name.Free ∧ Expr.ShapedOption d.initializer

/-- The use of a superclass has the shape of those that are read. -/
def SuperclassRef.ShapedOption : Option (SuperclassRef ι) → Prop
  | none => True
  | some s => s.name.Free

mutual

/-- The statement has the shape of those that are read. -/
def Stmt.Shaped : Stmt ι → Prop
  | .expression value => value.Shaped
  | .print value => value.Shaped
  | .var decl => decl.Shaped
  | .block body => Stmt.ShapedAll body
  | .ifThen condition thenBranch =>
    condition.Shaped ∧ thenBranch.Shaped ∧ thenBranch.isBranch = true
  | .ifElse condition thenBranch elseBranch =>
    condition.Shaped ∧ (thenBranch.Shaped ∧ thenBranch.isBranch = true) ∧
      elseBranch.Shaped ∧ elseBranch.isBranch = true
  | .whileLoop condition body => condition.Shaped ∧ body.Shaped ∧ body.isBranch = true
  | .function decl => Stmt.ShapedRoutine decl
  | .returnWith _ value => Expr.ShapedOption value
  | .classDecl ⟨name, superclass, fields, methods⟩ =>
    name.Free ∧ SuperclassRef.ShapedOption superclass ∧ (∀ d ∈ fields, d.Shaped) ∧
      Stmt.ShapedRoutines methods
termination_by structural s => s

/-- The statements have the shape of those that are read. -/
def Stmt.ShapedAll : List (Stmt ι) → Prop
  | [] => True
  | s :: rest => s.Shaped ∧ Stmt.ShapedAll rest
termination_by structural ss => ss

/-- The function or method has the shape of those that are read. -/
def Stmt.ShapedRoutine : FunctionDecl (Stmt ι) → Prop
  | ⟨name, params, _, body⟩ =>
    name.Free ∧ (∀ p ∈ params, p.name.Free) ∧ Stmt.ShapedAll body
termination_by structural d => d

/-- The methods have the shape of those that are read. -/
def Stmt.ShapedRoutines : List (FunctionDecl (Stmt ι)) → Prop
  | [] => True
  | d :: rest => Stmt.ShapedRoutine d ∧ Stmt.ShapedRoutines rest
termination_by structural ds => ds

end

theorem Stmt.shapedRoutines_iff {ds : List (FunctionDecl (Stmt ι))} :
    Stmt.ShapedRoutines ds ↔ ∀ d ∈ ds, Stmt.ShapedRoutine d := by
  induction ds with
  | nil => simp [Stmt.ShapedRoutines]
  | cons d rest ih => simp [Stmt.ShapedRoutines, ih]

/-- A free name is neither `this` nor `super`. -/
theorem Name.Free.ne_this {n : Name} (h : n.Free) : n.text ≠ "this" := by
  intro he
  rw [Name.Free, he] at h
  exact absurd h (by decide)

theorem Name.Free.ne_super {n : Name} (h : n.Free) : n.text ≠ "super" := by
  intro he
  rw [Name.Free, he] at h
  exact absurd h (by decide)

/-! ## Uses of names -/

theorem Expr.mem_occurrencesAll {es : List (Expr ι)} {o : Occurrence ι} :
    o ∈ Expr.occurrencesAll es ↔ ∃ e ∈ es, o ∈ e.occurrences := by
  induction es with
  | nil => simp [Expr.occurrencesAll]
  | cons e rest ih => simp [Expr.occurrencesAll, ih]

/-- The name of a use is free, except for `this` and `super`. -/
def Occurrence.Spelled (o : Occurrence ι) : Prop :=
  match o.kind with
  | .variable => o.name.Free
  | .assign => o.name.Free
  | .this => o.name.text = "this"
  | .super => o.name.text = "super"

mutual

theorem Expr.Shaped.spelled : ∀ (e : Expr ι), e.Shaped → ∀ o ∈ e.occurrences, o.Spelled
  | .literal _, _ => fun _ h => nomatch h
  | .unary _ operand, hs => Expr.Shaped.spelled operand hs.2
  | .suffixed operand _, hs => Expr.Shaped.spelled operand hs
  | .binary left _ right, hs =>
    List.forall_mem_append.2 ⟨Expr.Shaped.spelled left hs.1, Expr.Shaped.spelled right hs.2⟩
  | .logical left _ right, hs =>
    List.forall_mem_append.2 ⟨Expr.Shaped.spelled left hs.1, Expr.Shaped.spelled right hs.2⟩
  | .grouping inner, hs => Expr.Shaped.spelled inner hs
  | .variable _ _, hs => List.forall_mem_singleton.2 hs
  | .assign _ _ value, hs => List.forall_mem_cons.2 ⟨hs.1, Expr.Shaped.spelled value hs.2⟩
  | .call callee _ arguments, hs =>
    List.forall_mem_append.2 ⟨Expr.Shaped.spelled callee hs.1, Expr.ShapedAll.spelled arguments hs.2⟩
  | .get object _, hs => Expr.Shaped.spelled object hs
  | .set object _ value, hs =>
    List.forall_mem_append.2 ⟨Expr.Shaped.spelled object hs.1, Expr.Shaped.spelled value hs.2⟩
  | .this _ _, hs => List.forall_mem_singleton.2 hs
  | .super _ _ _, hs => List.forall_mem_singleton.2 hs
termination_by structural e => e

theorem Expr.ShapedAll.spelled : ∀ (es : List (Expr ι)), Expr.ShapedAll es →
    ∀ o ∈ Expr.occurrencesAll es, o.Spelled
  | [], _ => fun _ h => nomatch h
  | e :: rest, hs =>
    List.forall_mem_append.2 ⟨Expr.Shaped.spelled e hs.1, Expr.ShapedAll.spelled rest hs.2⟩
termination_by structural es => es

end

/-! ## Numbering keeps the shape -/

mutual

theorem Expr.number_shaped : ∀ (e : Expr ι) (n : NodeId), e.Shaped → (e.number.run n).1.Shaped
  | .literal _, _, _ => trivial
  | .unary _ operand, n, h => ⟨h.1, operand.number_shaped n h.2⟩
  | .suffixed operand _, n, h => operand.number_shaped n h
  | .binary left _ right, n, h => ⟨left.number_shaped n h.1, right.number_shaped _ h.2⟩
  | .logical left _ right, n, h => ⟨left.number_shaped n h.1, right.number_shaped _ h.2⟩
  | .grouping inner, n, h => inner.number_shaped n h
  | .variable _ _, _, h => h
  | .assign _ _ value, _, h => ⟨h.1, value.number_shaped _ h.2⟩
  | .call callee _ arguments, n, h =>
    ⟨callee.number_shaped n h.1, Expr.numberAll_shaped arguments _ h.2⟩
  | .get object _, n, h => object.number_shaped n h
  | .set object _ value, n, h => ⟨object.number_shaped n h.1, value.number_shaped _ h.2⟩
  | .this _ _, _, h => h
  | .super _ _ _, _, h => h
termination_by structural e => e

theorem Expr.numberAll_shaped : ∀ (es : List (Expr ι)) (n : NodeId),
    Expr.ShapedAll es → Expr.ShapedAll ((Expr.numberAll es).run n).1
  | [], _, _ => trivial
  | e :: rest, n, h => ⟨e.number_shaped n h.1, Expr.numberAll_shaped rest _ h.2⟩
termination_by structural es => es

end

theorem Expr.numberOption_shaped (e : Option (Expr ι)) (n : NodeId) (h : Expr.ShapedOption e) :
    Expr.ShapedOption ((Expr.numberOption e).run n).1 := by
  cases e with
  | none => trivial
  | some e => exact e.number_shaped n h

theorem VarDecl.number_shaped (d : VarDecl ι) (n : NodeId) (h : d.Shaped) :
    (d.number.run n).1.Shaped :=
  ⟨h.1, Expr.numberOption_shaped d.initializer n h.2⟩

theorem VarDecl.numberAll_shaped (ds : List (VarDecl ι)) (n : NodeId) (h : ∀ d ∈ ds, d.Shaped) :
    ∀ d ∈ ((VarDecl.numberAll ds).run n).1, d.Shaped := by
  induction ds generalizing n with
  | nil => exact fun d hd => nomatch hd
  | cons d rest ih =>
    intro d' hd'
    rcases List.mem_cons.1 hd' with rfl | hr
    · exact d.number_shaped n (h d (List.mem_cons_self ..))
    · exact ih _ (fun x hx => h x (List.mem_cons_of_mem _ hx)) d' hr

theorem SuperclassRef.numberOption_shaped (s : Option (SuperclassRef ι)) (n : NodeId)
    (h : SuperclassRef.ShapedOption s) :
    SuperclassRef.ShapedOption ((SuperclassRef.numberOption s).run n).1 := by
  cases s with
  | none => trivial
  | some s => exact h

theorem Stmt.number_isBranch (s : Stmt ι) (n : NodeId) :
    (s.number.run n).1.isBranch = s.isBranch := by
  cases s <;> rfl

mutual

theorem Stmt.number_shaped : ∀ (s : Stmt ι) (n : NodeId), s.Shaped → (s.number.run n).1.Shaped
  | .expression value, n, h => value.number_shaped n h
  | .print value, n, h => value.number_shaped n h
  | .var decl, n, h => decl.number_shaped n h
  | .block body, n, h => Stmt.numberAll_shaped body n h
  | .ifThen condition thenBranch, n, h =>
    ⟨condition.number_shaped n h.1, thenBranch.number_shaped _ h.2.1,
      (thenBranch.number_isBranch _).trans h.2.2⟩
  | .ifElse condition thenBranch elseBranch, n, h =>
    ⟨condition.number_shaped n h.1,
      ⟨thenBranch.number_shaped _ h.2.1.1, (thenBranch.number_isBranch _).trans h.2.1.2⟩,
      elseBranch.number_shaped _ h.2.2.1, (elseBranch.number_isBranch _).trans h.2.2.2⟩
  | .whileLoop condition body, n, h =>
    ⟨condition.number_shaped n h.1, body.number_shaped _ h.2.1,
      (body.number_isBranch _).trans h.2.2⟩
  | .function decl, n, h => Stmt.numberRoutine_shaped decl n h
  | .returnWith _ value, n, h => Expr.numberOption_shaped value n h
  | .classDecl ⟨_, superclass, fields, methods⟩, n, h =>
    ⟨h.1, SuperclassRef.numberOption_shaped superclass n h.2.1,
      VarDecl.numberAll_shaped fields _ h.2.2.1, Stmt.numberRoutines_shaped methods _ h.2.2.2⟩
termination_by structural s => s

theorem Stmt.numberAll_shaped : ∀ (ss : List (Stmt ι)) (n : NodeId),
    Stmt.ShapedAll ss → Stmt.ShapedAll ((Stmt.numberAll ss).run n).1
  | [], _, _ => trivial
  | s :: rest, n, h => ⟨s.number_shaped n h.1, Stmt.numberAll_shaped rest _ h.2⟩
termination_by structural ss => ss

theorem Stmt.numberRoutine_shaped : ∀ (d : FunctionDecl (Stmt ι)) (n : NodeId),
    Stmt.ShapedRoutine d → Stmt.ShapedRoutine ((Stmt.numberRoutine d).run n).1
  | ⟨_, _, _, body⟩, n, h => ⟨h.1, h.2.1, Stmt.numberAll_shaped body n h.2.2⟩
termination_by structural d => d

theorem Stmt.numberRoutines_shaped : ∀ (ds : List (FunctionDecl (Stmt ι))) (n : NodeId),
    Stmt.ShapedRoutines ds → Stmt.ShapedRoutines ((Stmt.numberRoutines ds).run n).1
  | [], _, _ => trivial
  | d :: rest, n, h => ⟨Stmt.numberRoutine_shaped d n h.1, Stmt.numberRoutines_shaped rest _ h.2⟩
termination_by structural ds => ds

end

/-! ## Numbering counts up -/

/-- The uses are numbered from `first` up to the number before `next`. -/
structure Numbers (first next : Nat) (uses : List (Occurrence NodeId)) : Prop where
  le : first ≤ next
  ids : uses.map (·.id) = List.range' first (next - first)

namespace Numbers

variable {a b c : Nat} {os ps : List (Occurrence NodeId)}

theorem nil : Numbers a a [] :=
  ⟨Nat.le_refl a, by simp⟩

theorem one (kind : UseKind) (name : Name) : Numbers a (a + 1) [⟨kind, a, name⟩] :=
  ⟨Nat.le_succ a, by simp⟩

theorem append (h : Numbers a b os) (k : Numbers b c ps) : Numbers a c (os ++ ps) := by
  refine ⟨Nat.le_trans h.le k.le, ?_⟩
  have hab := h.le
  have hbc := k.le
  rw [List.map_append, h.ids, k.ids, show c - a = (b - a) + (c - b) by omega,
    ← List.range'_append, show a + 1 * (b - a) = b by omega]

theorem cons (kind : UseKind) (name : Name) (k : Numbers (a + 1) c ps) :
    Numbers a c (⟨kind, a, name⟩ :: ps) :=
  (one kind name).append k

/-- Uses with consecutive numbers have different numbers. -/
theorem nodup (h : Numbers a b os) : (os.map (·.id)).Nodup := by
  rw [h.ids]
  exact List.nodup_range'

theorem bounds (h : Numbers a b os) {o : Occurrence NodeId} (ho : o ∈ os) : a ≤ o.id ∧ o.id < b := by
  have hm : o.id ∈ os.map (·.id) := List.mem_map_of_mem ho
  rw [h.ids, List.mem_range'_1, Nat.add_sub_of_le h.le] at hm
  exact hm

end Numbers

mutual

theorem Expr.number_numbers : ∀ (e : Expr ι) (n : NodeId),
    Numbers n (e.number.run n).2 (e.number.run n).1.occurrences
  | .literal _, _ => .nil
  | .unary _ operand, n => operand.number_numbers n
  | .suffixed operand _, n => operand.number_numbers n
  | .binary left _ right, n => (left.number_numbers n).append (right.number_numbers _)
  | .logical left _ right, n => (left.number_numbers n).append (right.number_numbers _)
  | .grouping inner, n => inner.number_numbers n
  | .variable _ name, _ => .one .variable name
  | .assign _ name value, n => .cons .assign name (value.number_numbers (n + 1))
  | .call callee _ arguments, n =>
    (callee.number_numbers n).append (Expr.numberAll_numbers arguments _)
  | .get object _, n => object.number_numbers n
  | .set object _ value, n => (object.number_numbers n).append (value.number_numbers _)
  | .this _ keyword, _ => .one .this keyword
  | .super _ keyword _, _ => .one .super keyword
termination_by structural e => e

theorem Expr.numberAll_numbers : ∀ (es : List (Expr ι)) (n : NodeId),
    Numbers n ((Expr.numberAll es).run n).2 (Expr.occurrencesAll ((Expr.numberAll es).run n).1)
  | [], _ => .nil
  | e :: rest, n => (e.number_numbers n).append (Expr.numberAll_numbers rest _)
termination_by structural es => es

end

theorem Expr.numberOption_numbers (e : Option (Expr ι)) (n : NodeId) :
    Numbers n ((Expr.numberOption e).run n).2
      (Expr.occurrencesOption ((Expr.numberOption e).run n).1) := by
  cases e with
  | none => exact .nil
  | some e => exact e.number_numbers n

theorem VarDecl.numberAll_numbers (ds : List (VarDecl ι)) (n : NodeId) :
    Numbers n ((VarDecl.numberAll ds).run n).2
      (VarDecl.occurrencesAll ((VarDecl.numberAll ds).run n).1) := by
  induction ds generalizing n with
  | nil => exact .nil
  | cons d rest ih => exact (Expr.numberOption_numbers d.initializer n).append (ih _)

theorem SuperclassRef.numberOption_numbers (s : Option (SuperclassRef ι)) (n : NodeId) :
    Numbers n ((SuperclassRef.numberOption s).run n).2
      (SuperclassRef.occurrences ((SuperclassRef.numberOption s).run n).1) := by
  cases s with
  | none => exact .nil
  | some s => exact .one .variable s.name

mutual

theorem Stmt.number_numbers : ∀ (s : Stmt ι) (n : NodeId),
    Numbers n (s.number.run n).2 (s.number.run n).1.occurrences
  | .expression value, n => value.number_numbers n
  | .print value, n => value.number_numbers n
  | .var decl, n => Expr.numberOption_numbers decl.initializer n
  | .block body, n => Stmt.numberAll_numbers body n
  | .ifThen condition thenBranch, n =>
    (condition.number_numbers n).append (thenBranch.number_numbers _)
  | .ifElse condition thenBranch elseBranch, n =>
    ((condition.number_numbers n).append (thenBranch.number_numbers _)).append
      (elseBranch.number_numbers _)
  | .whileLoop condition body, n => (condition.number_numbers n).append (body.number_numbers _)
  | .function decl, n => Stmt.numberRoutine_numbers decl n
  | .returnWith _ value, n => Expr.numberOption_numbers value n
  | .classDecl ⟨_, superclass, fields, methods⟩, n =>
    ((SuperclassRef.numberOption_numbers superclass n).append
      (VarDecl.numberAll_numbers fields _)).append (Stmt.numberRoutines_numbers methods _)
termination_by structural s => s

/-- The uses of names in a program that was numbered from `n` on have consecutive numbers. -/
theorem Stmt.numberAll_numbers : ∀ (ss : List (Stmt ι)) (n : NodeId),
    Numbers n ((Stmt.numberAll ss).run n).2 (Stmt.occurrencesAll ((Stmt.numberAll ss).run n).1)
  | [], _ => .nil
  | s :: rest, n => (s.number_numbers n).append (Stmt.numberAll_numbers rest _)
termination_by structural ss => ss

theorem Stmt.numberRoutine_numbers : ∀ (d : FunctionDecl (Stmt ι)) (n : NodeId),
    Numbers n ((Stmt.numberRoutine d).run n).2
      (Stmt.occurrencesRoutine ((Stmt.numberRoutine d).run n).1)
  | ⟨_, _, _, body⟩, n => Stmt.numberAll_numbers body n
termination_by structural d => d

theorem Stmt.numberRoutines_numbers : ∀ (ds : List (FunctionDecl (Stmt ι))) (n : NodeId),
    Numbers n ((Stmt.numberRoutines ds).run n).2
      (Stmt.occurrencesRoutines ((Stmt.numberRoutines ds).run n).1)
  | [], _ => .nil
  | d :: rest, n => (Stmt.numberRoutine_numbers d n).append (Stmt.numberRoutines_numbers rest _)
termination_by structural ds => ds

end

end ClassScript
