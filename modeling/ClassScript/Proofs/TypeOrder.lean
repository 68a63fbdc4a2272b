import ClassScript.Typing.Type

/-!
# The order of types

Two types say the same if they are equal without the names of functions (`Ty.same_iff`), so equality
of types is an equivalence. `accepts` is an order up to this equality: `accepts_cases` lists what a
type accepts, and what a table of classes accepts is accepted by every table with the same ancestors
(`accepts_mono`).
-/

set_option autoImplicit false

namespace ClassScript

namespace Ty

/-! ## Types without names of functions -/

mutual

/-- The type without names of functions. -/
def erase : Ty → Ty
  | .function _ params result => .function "" (eraseAll params) result.erase
  | ty => ty
termination_by structural ty => ty

/-- The types without names of functions. -/
def eraseAll : List Ty → List Ty
  | [] => []
  | ty :: rest => ty.erase :: eraseAll rest
termination_by structural tys => tys

end

theorem eraseAll_eq (tys : List Ty) : eraseAll tys = tys.map erase := by
  induction tys with
  | nil => rfl
  | cons ty rest ih => simp only [eraseAll, ih, List.map_cons]

mutual

/-- Types say the same if they are equal without the names of functions. -/
theorem same_iff : ∀ a b : Ty, a.same b = true ↔ a.erase = b.erase
  | .function _ ps r, .function _ qs s => by
    simp only [same, erase, Bool.and_eq_true, sameAll_iff ps qs, same_iff r s, function.injEq,
      true_and]
  | .nil, b | .number, b | .string, b | .boolean, b | .void, b | .classObject _, b
  | .object _, b => by
    cases b <;> simp [same, erase]
  | .function _ _ _, .nil | .function _ _ _, .number | .function _ _ _, .string
  | .function _ _ _, .boolean | .function _ _ _, .void | .function _ _ _, .classObject _
  | .function _ _ _, .object _ => by simp [same, erase]
termination_by structural a => a

theorem sameAll_iff : ∀ ps qs : List Ty, sameAll ps qs = true ↔ eraseAll ps = eraseAll qs
  | [], [] => by simp [sameAll, eraseAll]
  | [], _ :: _ => by simp [sameAll, eraseAll]
  | _ :: _, [] => by simp [sameAll, eraseAll]
  | p :: ps, q :: qs => by
    simp only [sameAll, eraseAll, Bool.and_eq_true, same_iff p q, sameAll_iff ps qs,
      List.cons.injEq]
termination_by structural ps => ps

end

mutual

theorem erase_erase : ∀ ty : Ty, ty.erase.erase = ty.erase
  | .function _ ps r => by simp only [erase, eraseAll_eraseAll ps, erase_erase r]
  | .nil | .number | .string | .boolean | .void | .classObject _ | .object _ => rfl
termination_by structural ty => ty

theorem eraseAll_eraseAll : ∀ tys : List Ty, eraseAll (eraseAll tys) = eraseAll tys
  | [] => rfl
  | ty :: rest => by simp only [eraseAll, erase_erase ty, eraseAll_eraseAll rest]
termination_by structural tys => tys

end

attribute [simp] erase_erase eraseAll_eraseAll

section

variable {a : Ty}

/-- Only types of functions lose their names. -/
@[simp] theorem erase_eq_iff {b : Ty} (hb : ∀ name params result, b ≠ .function name params result) :
    a.erase = b ↔ a = b := by
  cases a <;> cases b <;> simp_all [erase]

/-- Only functions have types that differ in names. -/
theorem eq_of_erase {b : Ty} (h : a.erase = b.erase)
    (ha : ∀ name params result, a ≠ .function name params result) : a = b := by
  cases a <;> cases b <;> simp_all [erase]

end

end Ty

/-! ## Assignability -/

namespace ClassTable

variable {t u : ClassTable} {a b c : Ty}

theorem self_mem_lineage (t : ClassTable) (id : ClassId) : id ∈ t.lineage id := by
  unfold lineage
  split <;> simp

theorem isSubclass_iff {id ancestor : ClassId} :
    t.isSubclass id ancestor = true ↔ ancestor ∈ t.lineage id := by
  simp [isSubclass]

/-- A type accepts what says the same, the type of a class its descendants, and `nil` stands for
objects and for nothing at all. -/
theorem accepts_iff :
    t.accepts a b = true ↔
      a.erase = b.erase ∨ (∃ i j, a = .object i ∧ b = .object j ∧ t.isSubclass j i = true) ∨
        ((∃ i, a = .object i) ∨ a = .void) ∧ b = .nil := by
  have hself (id : ClassId) : t.isSubclass id id = true := isSubclass_iff.2 (t.self_mem_lineage id)
  unfold accepts
  split
  next i j =>
    simp only [Ty.erase, Ty.object.injEq, reduceCtorEq, and_false, or_false]
    constructor
    · intro h
      exact .inr ⟨i, j, rfl, rfl, h⟩
    · rintro (rfl | ⟨_, _, rfl, rfl, h⟩)
      · exact hself i
      · exact h
  next => simp
  next => simp
  next hobject hnil hvoid =>
    rw [Ty.same_iff]
    constructor
    · exact .inl
    · rintro (h | ⟨i, j, rfl, rfl, -⟩ | ⟨⟨i, rfl⟩ | rfl, rfl⟩)
      · exact h
      · exact absurd rfl (hobject i j rfl)
      · exact absurd rfl (hnil i rfl)
      · exact absurd rfl (hvoid rfl)

theorem accepts_of_erase (h : a.erase = b.erase) : t.accepts a b = true :=
  accepts_iff.2 (.inl h)

theorem accepts_erase : t.accepts a.erase b.erase = t.accepts a b := by
  rw [Bool.eq_iff_iff, accepts_iff, accepts_iff]
  simp

/-- What a table accepts, a table with more ancestors accepts. -/
theorem accepts_mono (h : ∀ i j, t.isSubclass i j = true → u.isSubclass i j = true)
    (ha : t.accepts a b = true) : u.accepts a b = true := by
  rw [accepts_iff] at ha ⊢
  rcases ha with he | ⟨i, j, ha, hb, hs⟩ | hn
  · exact .inl he
  · exact .inr (.inl ⟨i, j, ha, hb, h j i hs⟩)
  · exact .inr (.inr hn)

theorem accepts_trans
    (h : ∀ i j k, t.isSubclass i j = true → t.isSubclass j k = true → t.isSubclass i k = true)
    (hab : t.accepts a b = true) (hbc : t.accepts b c = true) : t.accepts a c = true := by
  rw [accepts_iff] at hab hbc ⊢
  rcases hab with he | ⟨i, j, rfl, rfl, hs⟩ | ⟨ha, rfl⟩
  · rcases hbc with hf | ⟨j, k, rfl, rfl, hs⟩ | ⟨⟨j, rfl⟩ | rfl, rfl⟩
    · exact .inl (he.trans hf)
    · exact .inr (.inl ⟨j, k, (Ty.eq_of_erase he.symm (by simp)).symm, rfl, hs⟩)
    · exact .inr (.inr ⟨.inl ⟨j, (Ty.eq_of_erase he.symm (by simp)).symm⟩, rfl⟩)
    · exact .inr (.inr ⟨.inr (Ty.eq_of_erase he.symm (by simp)).symm, rfl⟩)
  · rcases hbc with hf | ⟨j', k, hj, rfl, hs'⟩ | ⟨-, rfl⟩
    · obtain rfl := Ty.eq_of_erase hf (by simp)
      exact .inr (.inl ⟨i, j, rfl, rfl, hs⟩)
    · cases hj
      exact .inr (.inl ⟨i, k, rfl, rfl, h k j i hs' hs⟩)
    · exact .inr (.inr ⟨.inl ⟨i, rfl⟩, rfl⟩)
  · rcases hbc with hf | ⟨_, _, hj, -⟩ | ⟨⟨_, hj⟩ | hj, -⟩
    · exact .inr (.inr ⟨ha, (Ty.eq_of_erase hf (by simp)).symm⟩)
    · cases hj
    · cases hj
    · cases hj

end ClassTable

end ClassScript
