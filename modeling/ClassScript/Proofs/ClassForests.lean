import Mathlib.Logic.Relation
import ClassScript.Proofs.TypeOrder

/-!
# Forests of classes

In a table that is a `Forest` a class is followed by the lineage of its superclass, which is an
older class. Tables that are built class by class and member by member are forests
(`Forest.newest`, `Forest.addMethod`, `Forest.addField`). Descent in a forest is the reflexive and
transitive closure of the direct superclass (`Forest.isSubclass_iff_chain`), so no two classes
descend from each other and assignability is an order of types up to their equality
(`accepts_partialOrder`).
-/

set_option autoImplicit false

namespace ClassScript
namespace ClassTable

variable {t u : ClassTable} {b c d id : ClassId} {x : String}

theorem superclass?_eq_none (h : ¬ id < t.nextId) : t.superclass? id = none := by
  have hnone : t.classes[id]? = none := Array.getElem?_eq_none (Nat.le_of_not_lt h)
  simp [superclass?, hnone]

theorem lineage_eq_self (h : ¬ id < t.nextId) : t.lineage id = [id] := by
  have hnone : t.classes[id]? = none := Array.getElem?_eq_none (Nat.le_of_not_lt h)
  simp [lineage, hnone]

theorem head?_lineageOption (t : ClassTable) (parent : Option ClassId) :
    (t.lineageOption parent).head? = parent := by
  cases parent with
  | none => rfl
  | some p =>
    show (t.lineage p).head? = some p
    unfold ClassTable.lineage
    split <;> rfl

/-- The direct superclass of a class whose ancestors are the lineage of another one. -/
theorem superclass?_of_ancestors {parent : Option ClassId}
    (h : u.classes[id]?.map (·.ancestors) = some (t.lineageOption parent)) :
    u.superclass? id = parent := by
  obtain ⟨info, hc, ha⟩ := Option.map_eq_some_iff.mp h
  rw [superclass?, hc, Option.bind_some, ha, head?_lineageOption]

/-! ## Growth -/

/-- The table has grown by whole classes. -/
structure Grows (t u : ClassTable) : Prop where
  size : t.nextId ≤ u.nextId
  same : ∀ id < t.nextId, u.classes[id]? = t.classes[id]?

namespace Grows

theorem refl (t : ClassTable) : Grows t t :=
  ⟨Nat.le_refl _, fun _ _ => rfl⟩

theorem trans {v : ClassTable} (h : Grows t u) (k : Grows u v) : Grows t v :=
  ⟨Nat.le_trans h.size k.size,
    fun id hid => (k.same id (Nat.lt_of_lt_of_le hid h.size)).trans (h.same id hid)⟩

theorem lineage (h : Grows t u) (hid : id < t.nextId) : u.lineage id = t.lineage id := by
  simp only [ClassTable.lineage, h.same id hid]

theorem ownField? (h : Grows t u) (hid : id < t.nextId) : u.ownField? id x = t.ownField? id x := by
  simp only [ClassTable.ownField?, h.same id hid]

theorem ownMethod? (h : Grows t u) (hid : id < t.nextId) :
    u.ownMethod? id x = t.ownMethod? id x := by
  simp only [ClassTable.ownMethod?, h.same id hid]

theorem superclass? (h : Grows t u) (hid : id < t.nextId) :
    u.superclass? id = t.superclass? id := by
  simp only [ClassTable.superclass?, h.same id hid]

theorem name (h : Grows t u) (hid : id < t.nextId) : u.name id = t.name id := by
  simp only [ClassTable.name, h.same id hid]

end Grows

/-- A class of known ids is a subclass of its ancestors in every table that has grown. -/
theorem Grows.isSubclass (hg : Grows t u) {i j : ClassId} (h : t.isSubclass i j = true) :
    u.isSubclass i j = true := by
  rw [isSubclass_iff] at h ⊢
  by_cases hi : i < t.nextId
  · rw [hg.lineage hi]
    exact h
  · rw [lineage_eq_self hi, List.mem_singleton] at h
    exact h ▸ u.self_mem_lineage i

theorem grows_add (t : ClassTable) (x : String) (parent : Option ClassId) :
    Grows t (t.add x parent) := by
  refine ⟨by simp, fun i hi => ?_⟩
  rw [classes_add, if_neg (Nat.ne_of_lt hi)]

/-! ## Forests -/

/-- Every class is followed by the lineage of its superclass, an older class. -/
structure Forest (t : ClassTable) : Prop where
  lineage : ∀ id < t.nextId, t.lineage id = id :: t.lineageOption (t.superclass? id)
  older : ∀ id p, t.superclass? id = some p → p < id

theorem forest_empty : empty.Forest := by
  refine ⟨fun id hid => absurd hid (Nat.not_lt_zero id), fun id p hp => ?_⟩
  rw [superclass?_eq_none (Nat.not_lt_zero id)] at hp
  cases hp

namespace Forest

/-- The lineage of an older class is the same in a table that has grown. -/
theorem lineageOption_grows (hg : Grows t u) {parent : Option ClassId}
    (holder : ∀ p, parent = some p → p < t.nextId) :
    u.lineageOption parent = t.lineageOption parent := by
  cases parent with
  | none => rfl
  | some p => exact hg.lineage (holder p rfl)

/-- A forest stays one with a new class under an older one, or under none. -/
theorem newest (h : t.Forest) (hg : Grows t u) {parent : Option ClassId}
    (hsize : u.nextId = t.nextId + 1)
    (hnew : u.classes[t.nextId]?.map (·.ancestors) = some (t.lineageOption parent))
    (holder : ∀ p, parent = some p → p < t.nextId) : u.Forest := by
  have hsuper := superclass?_of_ancestors hnew
  have hcases {i : ClassId} (hi : i < u.nextId) : i < t.nextId ∨ i = t.nextId := by
    rw [hsize] at hi
    exact Nat.lt_or_eq_of_le (Nat.le_of_lt_succ hi)
  refine ⟨fun i hi => ?_, fun i p hp => ?_⟩
  · rcases hcases hi with hold | rfl
    · rw [hg.lineage hold, h.lineage i hold, hg.superclass? hold, lineageOption_grows hg]
      exact fun p hp => Nat.lt_trans (h.older i p hp) hold
    · obtain ⟨info, hc, ha⟩ := Option.map_eq_some_iff.mp hnew
      rw [hsuper, lineageOption_grows hg holder, ← ha]
      simp only [ClassTable.lineage, hc]
  · have hi : i < u.nextId := Decidable.byContradiction fun hlt => by
      rw [superclass?_eq_none hlt] at hp
      cases hp
    rcases hcases hi with hold | rfl
    · rw [hg.superclass? hold] at hp
      exact h.older i p hp
    · rw [hsuper] at hp
      exact holder p hp

theorem add (h : t.Forest) (x : String) {parent : Option ClassId}
    (holder : ∀ p, parent = some p → p < t.nextId) : (t.add x parent).Forest := by
  refine h.newest (grows_add t x parent) (nextId_add t x parent) ?_ holder
  rw [classes_add, if_pos rfl]
  rfl

theorem congr (h : t.Forest) (hn : u.nextId = t.nextId) (hl : ∀ i, u.lineage i = t.lineage i)
    (hs : ∀ i, u.superclass? i = t.superclass? i) : u.Forest := by
  have hoption : u.lineageOption = t.lineageOption := by
    funext parent
    cases parent with
    | none => rfl
    | some p => exact hl p
  refine ⟨fun i hi => ?_, fun i p hp => h.older i p (hs i ▸ hp)⟩
  rw [hl, hs, hoption]
  exact h.lineage i (hn ▸ hi)

theorem addMethod (h : t.Forest) (id : ClassId) (x : String) (s : Signature) :
    (t.addMethod id x s).Forest :=
  h.congr (nextId_addMethod t id x s) (fun i => lineage_addMethod t id i x s)
    fun i => superclass?_addMethod t id i x s

theorem addField (h : t.Forest) (id : ClassId) (x : String) (ty : Ty) :
    (t.addField id x ty).Forest :=
  h.congr (nextId_addField t id x ty) (fun i => lineage_addField t id i x ty)
    fun i => superclass?_addField t id i x ty

theorem mem_lineage (h : t.Forest) :
    c ∈ t.lineage d ↔ c = d ∨ ∃ p, t.superclass? d = some p ∧ c ∈ t.lineage p := by
  by_cases hd : d < t.nextId
  · rw [h.lineage d hd, List.mem_cons]
    cases t.superclass? d <;> simp [lineageOption]
  · rw [lineage_eq_self hd, superclass?_eq_none hd]
    simp

theorem le_of_mem (h : t.Forest) (hc : c ∈ t.lineage d) : c ≤ d := by
  induction d using Nat.strongRecOn with
  | ind d ih =>
    rcases h.mem_lineage.1 hc with rfl | ⟨p, hp, hcp⟩
    · exact Nat.le_refl c
    · have hlt := h.older d p hp
      exact Nat.le_trans (ih p hlt hcp) (Nat.le_of_lt hlt)

theorem lineage_trans (h : t.Forest) (hc : c ∈ t.lineage d) (hb : b ∈ t.lineage c) :
    b ∈ t.lineage d := by
  induction d using Nat.strongRecOn with
  | ind d ih =>
    rcases h.mem_lineage.1 hc with rfl | ⟨p, hp, hcp⟩
    · exact hb
    · exact h.mem_lineage.2 (.inr ⟨p, hp, ih p (h.older d p hp) hcp⟩)

theorem accepts_trans (h : t.Forest) {a e f : Ty} (hae : t.accepts a e = true)
    (hef : t.accepts e f = true) : t.accepts a f = true :=
  ClassTable.accepts_trans
    (fun _ _ _ hi hj => isSubclass_iff.2 (h.lineage_trans (isSubclass_iff.1 hi) (isSubclass_iff.1 hj)))
    hae hef

/-- No two classes descend from each other. -/
theorem isSubclass_antisymm (h : t.Forest) (hcd : t.isSubclass c d = true)
    (hdc : t.isSubclass d c = true) : c = d :=
  Nat.le_antisymm (h.le_of_mem (isSubclass_iff.1 hdc)) (h.le_of_mem (isSubclass_iff.1 hcd))

/-- A class descends from itself and from what its superclass descends from. -/
theorem isSubclass_step (h : t.Forest) :
    t.isSubclass d c = true ↔ c = d ∨ ∃ p, t.superclass? d = some p ∧ t.isSubclass p c = true := by
  simp only [isSubclass_iff]
  exact h.mem_lineage

/-- Descent is a chain of direct superclasses. -/
theorem isSubclass_iff_chain (h : t.Forest) :
    t.isSubclass d c = true ↔ Relation.ReflTransGen (fun k p => t.superclass? k = some p) d c := by
  constructor
  · intro hs
    induction d using Nat.strongRecOn with
    | ind d ih =>
      rcases h.isSubclass_step.1 hs with rfl | ⟨p, hp, hpc⟩
      · exact .refl
      · exact .head hp (ih p (h.older d p hp) hpc)
  · intro hchain
    induction hchain using Relation.ReflTransGen.head_induction_on with
    | refl => exact h.isSubclass_step.2 (.inl rfl)
    | head hp _ ih => exact h.isSubclass_step.2 (.inr ⟨_, hp, ih⟩)

/-- Types that accept each other say the same. -/
theorem same_of_accepts (h : t.Forest) {a b : Ty} (hab : t.accepts a b = true)
    (hba : t.accepts b a = true) : a.same b = true := by
  rw [Ty.same_iff]
  rcases accepts_iff.1 hab with he | ⟨i, j, rfl, rfl, hs⟩ | ⟨ha, rfl⟩
  · exact he
  · rw [h.isSubclass_antisymm hs hba]
  · rcases accepts_iff.1 hba with he | ⟨_, _, hb, -⟩ | ⟨⟨_, hb⟩ | hb, -⟩
    · exact he.symm
    · cases hb
    · cases hb
    · cases hb

end Forest

/-- Whether types say the same is an equivalence. -/
theorem same_equivalence : Equivalence fun a b : Ty => a.same b = true where
  refl a := (Ty.same_iff a a).2 rfl
  symm {a b} h := (Ty.same_iff b a).2 ((Ty.same_iff a b).1 h).symm
  trans {a b c} h k := (Ty.same_iff a c).2 (((Ty.same_iff a b).1 h).trans ((Ty.same_iff b c).1 k))

/-- Assignability does not tell apart types that say the same. -/
theorem accepts_same {a a' b b' : Ty} (ha : a.same a' = true) (hb : b.same b' = true) :
    t.accepts a b = t.accepts a' b' := by
  rw [← accepts_erase, (Ty.same_iff a a').1 ha, (Ty.same_iff b b').1 hb, accepts_erase]

/-- Assignability over a forest of classes is a partial order of types up to their equality, which
is an equivalence that assignability respects. On the types of objects it is the reflexive and
transitive closure of the direct superclass, whatever the classes are called. -/
theorem accepts_partialOrder (h : t.Forest) :
    (∀ a, t.accepts a a = true) ∧
    (∀ a b c, t.accepts a b = true → t.accepts b c = true → t.accepts a c = true) ∧
    (∀ a b, t.accepts a b = true → t.accepts b a = true → a.same b = true) ∧
    (Equivalence fun a b : Ty => a.same b = true) ∧
    (∀ a a' b b' : Ty, a.same a' = true → b.same b' = true → t.accepts a b = t.accepts a' b') ∧
    ∀ i j, t.accepts (.object i) (.object j) = true ↔
      Relation.ReflTransGen (fun k p => t.superclass? k = some p) j i :=
  ⟨fun _ => accepts_of_erase rfl, fun _ _ _ => h.accepts_trans, fun _ _ => h.same_of_accepts,
    same_equivalence, fun _ _ _ _ => accepts_same, fun _ _ => h.isSubclass_iff_chain⟩

/-- Two classes of one name, and a descendant of the first. -/
def namesakes : ClassTable :=
  ((empty.add "A" none).add "A" none).add "B" (some 0)

theorem namesakes_accepts :
    namesakes.accepts (.object 0) (.object 2) = true ∧
    namesakes.accepts (.object 1) (.object 2) = false ∧
    namesakes.accepts (.object 0) .nil = true ∧
    ∀ f g, namesakes.accepts (.function f [.function f [.object 0] .void] .nil)
      (.function g [.function g [.object 0] .void] .nil) = true := by
  have hf : namesakes.Forest :=
    ((forest_empty.add "A" (by simp)).add "A" (by simp)).add "B" fun p hp => by
      cases hp
      exact Nat.succ_pos 1
  obtain ⟨hrefl, htrans, -, -, hsame, hchain⟩ := accepts_partialOrder hf
  refine ⟨(hchain 0 2).2 (.single rfl), rfl, htrans _ (.object 2) _ rfl rfl, fun f g => ?_⟩
  have hfg : (Ty.function f [.function f [.object 0] .void] .nil).same
      (.function g [.function g [.object 0] .void] .nil) = true := rfl
  rw [← hsame _ _ _ _ (same_equivalence.refl _) hfg]
  exact hrefl _

end ClassTable

end ClassScript
