import ClassScript.Proofs.ClassForests
import ClassScript.Typing.Checker

/-!
# Coherent tables of classes

In a `Coherent` table an ancestor is older than its descendants, a class keeps the types of the
fields that it inherits, its methods may stand for those that it inherits, and no name is that of a
field and of a method. So whatever is found in an ancestor is found in a class, with a type that fits
(`findField?_sub`, `findMethod?_sub`). A table `Grows` by whole classes and is `Refined` by fields of
its last one.
-/

set_option autoImplicit false

namespace ClassScript

/-- A declaration can name the type. -/
def Ty.isNamed : Ty → Bool
  | .number => true
  | .string => true
  | .boolean => true
  | .void => true
  | .object _ => true
  | _ => false

/-- A class is one of the table, and what a function gives has a type that can be named. -/
def Ty.Known (n : ClassId) : Ty → Prop
  | .classObject id => id < n
  | .function _ _ result => result.isNamed = true
  | _ => True

theorem Ty.known_of_isNamed {ty : Ty} (h : ty.isNamed = true) (n : ClassId) : ty.Known n := by
  cases ty with
  | classObject id => cases h
  | function name ps r => cases h
  | _ => trivial

theorem Ty.Known.mono {ty : Ty} {n k : ClassId} (h : ty.Known n) (hle : n ≤ k) : ty.Known k := by
  cases ty with
  | classObject id => exact Nat.lt_of_lt_of_le h hle
  | function name ps r => exact h
  | _ => trivial

namespace ClassTable

variable {t u : ClassTable} {b c d id : ClassId} {x : String}

theorem ownField?_lt {ty : Ty} (h : t.ownField? id x = some ty) : id < t.nextId := by
  refine Nat.lt_of_not_le fun hle => ?_
  have hnone : t.classes[id]? = none := Array.getElem?_eq_none hle
  simp [ownField?, hnone] at h

theorem ownMethod?_lt {s : Signature} (h : t.ownMethod? id x = some s) : id < t.nextId := by
  refine Nat.lt_of_not_le fun hle => ?_
  have hnone : t.classes[id]? = none := Array.getElem?_eq_none hle
  simp [ownMethod?, hnone] at h

/-! ## Coherence -/

/-- The members of every class fit those of its ancestors. -/
structure Coherent (t : ClassTable) : Prop where
  lineage : ∀ id < t.nextId, t.lineage id = id :: t.lineageOption (t.superclass? id)
  older : ∀ id p, t.superclass? id = some p → p < id
  methods : ∀ id x s, t.ownMethod? id x = some s → ∀ p, t.superclass? id = some p →
    t.findField? p x = none ∧
      ∀ inherited, t.findMethod? p x = some inherited → Typing.overrides t inherited s = true
  fields : ∀ id x ty, t.ownField? id x = some ty → t.findMethod? id x = none ∧
    ∀ p inherited, t.superclass? id = some p → t.findField? p x = some inherited →
      inherited.erase = ty.erase
  initializer : ∀ id s, t.initializer? id = some s → s.result = .void
  known : ∀ id x ty, t.ownField? id x = some ty → ty.Known t.nextId
  named : ∀ id x s, t.ownMethod? id x = some s → s.result.isNamed = true

namespace Coherent

theorem forest (h : Coherent t) : t.Forest :=
  ⟨h.lineage, h.older⟩

/-- What a class has from its lineage is its own or found in its superclass. -/
theorem findSome?_lineage {α : Type} (h : Coherent t) (f : ClassId → Option α)
    (hf : ∀ id a, f id = some a → id < t.nextId) :
    (t.lineage d).findSome? f =
      (f d).or ((t.superclass? d).bind fun p => (t.lineage p).findSome? f) := by
  by_cases hd : d < t.nextId
  · rw [h.lineage d hd, List.findSome?_cons]
    cases f d with
    | some a => rfl
    | none => cases t.superclass? d <;> simp [lineageOption]
  · have hnone : f d = none := by
      cases hv : f d with
      | none => rfl
      | some a => exact absurd (hf d a hv) hd
    rw [lineage_eq_self hd, superclass?_eq_none hd]
    simp [hnone]

theorem findField?_eq (h : Coherent t) :
    t.findField? d x = (t.ownField? d x).or ((t.superclass? d).bind fun p => t.findField? p x) :=
  h.findSome?_lineage (fun c => t.ownField? c x) fun _ _ => ownField?_lt

theorem findMethod?_eq (h : Coherent t) :
    t.findMethod? d x =
      (t.ownMethod? d x).or ((t.superclass? d).bind fun p => t.findMethod? p x) :=
  h.findSome?_lineage (fun c => t.ownMethod? c x) fun _ _ => ownMethod?_lt

theorem overrides_trans (h : Coherent t) {r s w : Signature}
    (hrs : Typing.overrides t r s = true) (hsw : Typing.overrides t s w = true) :
    Typing.overrides t r w = true := by
  simp only [Typing.overrides, Bool.and_eq_true, Ty.sameAll_iff] at hrs hsw ⊢
  exact ⟨hrs.1.trans hsw.1, h.forest.accepts_trans hrs.2 hsw.2⟩

/-- A class has the fields of its ancestors, with the same types. -/
theorem findField?_sub (h : Coherent t) (hc : c ∈ t.lineage d) {ty : Ty}
    (hf : t.findField? c x = some ty) :
    ∃ ty', t.findField? d x = some ty' ∧ ty'.erase = ty.erase := by
  induction d using Nat.strongRecOn with
  | ind d ih =>
    rcases h.forest.mem_lineage.1 hc with rfl | ⟨p, hp, hcp⟩
    · exact ⟨ty, hf, rfl⟩
    · obtain ⟨ty', hp', he⟩ := ih p (h.older d p hp) hcp
      rw [h.findField?_eq, hp, Option.bind_some, hp']
      cases ho : t.ownField? d x with
      | none => exact ⟨ty', rfl, he⟩
      | some own => exact ⟨own, rfl, ((h.fields d x own ho).2 p ty' hp hp').symm.trans he⟩

/-- A class has the methods of its ancestors, or others that may stand for them. -/
theorem findMethod?_sub (h : Coherent t) (hc : c ∈ t.lineage d) {s : Signature}
    (hm : t.findMethod? c x = some s) :
    ∃ s', t.findMethod? d x = some s' ∧ Typing.overrides t s s' = true := by
  induction d using Nat.strongRecOn with
  | ind d ih =>
    rcases h.forest.mem_lineage.1 hc with rfl | ⟨p, hp, hcp⟩
    · refine ⟨s, hm, ?_⟩
      simp [Typing.overrides, Ty.sameAll_iff, accepts_of_erase]
    · obtain ⟨s', hp', ho⟩ := ih p (h.older d p hp) hcp
      rw [h.findMethod?_eq, hp, Option.bind_some, hp']
      cases hd : t.ownMethod? d x with
      | none => exact ⟨s', rfl, ho⟩
      | some own => exact ⟨own, rfl, h.overrides_trans ho ((h.methods d x own hd p hp).2 s' hp')⟩

/-- No name is that of a field and of a method. -/
theorem findMethod?_of_field (h : Coherent t) {ty : Ty} (hf : t.findField? d x = some ty) :
    t.findMethod? d x = none := by
  induction d using Nat.strongRecOn generalizing ty with
  | ind d ih =>
    cases ho : t.ownField? d x with
    | some own => exact (h.fields d x own ho).1
    | none =>
      rw [h.findField?_eq, ho, Option.none_or] at hf
      obtain ⟨p, hp, hpf⟩ := Option.bind_eq_some_iff.1 hf
      have hpm := ih p (h.older d p hp) hpf
      rw [h.findMethod?_eq, hp, Option.bind_some, hpm, Option.or_none]
      cases hm : t.ownMethod? d x with
      | none => rfl
      | some s =>
        have hnone := (h.methods d x s hm p hp).1
        rw [hpf] at hnone
        cases hnone

/-- What is a field of a descendant has the type of the property. -/
theorem property?_field (h : Coherent t) (hc : c ∈ t.lineage d) {ty ty' : Ty}
    (hp : Typing.property? t c x = some ty) (hf : t.findField? d x = some ty') :
    ty'.erase = ty.erase := by
  unfold Typing.property? at hp
  split at hp
  next declared hdeclared =>
    obtain ⟨inherited, hinherited, he⟩ := h.findField?_sub hc hdeclared
    rw [hf] at hinherited
    cases hinherited
    cases hp
    exact he
  next =>
    obtain ⟨s, hs, -⟩ := Option.map_eq_some_iff.1 hp
    obtain ⟨s', hs', -⟩ := h.findMethod?_sub hc hs
    rw [h.findMethod?_of_field hf] at hs'
    cases hs'

/-- What is a method of a descendant may stand for the property. -/
theorem property?_method (h : Coherent t) (hc : c ∈ t.lineage d) {ty : Ty} {s' : Signature}
    (hp : Typing.property? t c x = some ty) (hm : t.findMethod? d x = some s') :
    ∃ s : Signature, ty = s.ty ∧ Typing.overrides t s s' = true := by
  unfold Typing.property? at hp
  split at hp
  next declared hdeclared =>
    obtain ⟨inherited, hinherited, -⟩ := h.findField?_sub hc hdeclared
    rw [h.findMethod?_of_field hinherited] at hm
    cases hm
  next =>
    obtain ⟨s, hs, rfl⟩ := Option.map_eq_some_iff.1 hp
    obtain ⟨s'', hs'', ho⟩ := h.findMethod?_sub hc hs
    rw [hm] at hs''
    cases hs''
    exact ⟨s, rfl, ho⟩

end Coherent

/-! ## Growth -/

theorem findSome?_eq_of_mem {α β : Type} {f g : α → Option β} {l : List α}
    (h : ∀ a ∈ l, f a = g a) : l.findSome? f = l.findSome? g := by
  induction l with
  | nil => rfl
  | cons a rest ih =>
    rw [List.findSome?_cons, List.findSome?_cons, h a (List.mem_cons_self ..),
      ih fun b hb => h b (List.mem_cons_of_mem a hb)]

theorem Grows.findField? (hg : Grows t u) (h : Coherent t) (hid : id < t.nextId) :
    u.findField? id x = t.findField? id x := by
  rw [ClassTable.findField?, hg.lineage hid]
  exact findSome?_eq_of_mem fun c hc =>
    hg.ownField? (Nat.lt_of_le_of_lt (h.forest.le_of_mem hc) hid)

theorem Grows.findMethod? (hg : Grows t u) (h : Coherent t) (hid : id < t.nextId) :
    u.findMethod? id x = t.findMethod? id x := by
  rw [ClassTable.findMethod?, hg.lineage hid]
  exact findSome?_eq_of_mem fun c hc =>
    hg.ownMethod? (Nat.lt_of_le_of_lt (h.forest.le_of_mem hc) hid)

/-- The newest class of a table, whose members fit its superclass. -/
structure Newest (t u : ClassTable) (parent : Option ClassId) : Prop where
  size : u.nextId = t.nextId + 1
  ancestors : u.classes[t.nextId]?.map (·.ancestors) = some (t.lineageOption parent)
  older : ∀ p, parent = some p → p < t.nextId
  methods : ∀ x s, u.ownMethod? t.nextId x = some s → s.result.isNamed = true ∧
    ∀ p, parent = some p → t.findField? p x = none ∧
      ∀ inherited, t.findMethod? p x = some inherited → Typing.overrides u inherited s = true
  fields : ∀ x ty, u.ownField? t.nextId x = some ty → ty.Known u.nextId ∧
    u.findMethod? t.nextId x = none ∧
      ∀ p inherited, parent = some p → t.findField? p x = some inherited →
        inherited.erase = ty.erase
  initializer : ∀ s, u.initializer? t.nextId = some s → s.result = .void

/-- A method overrides another one also where more classes are known. -/
theorem overrides_mono (h : ∀ i j, t.isSubclass i j = true → u.isSubclass i j = true)
    {r s : Signature} (ho : Typing.overrides t r s = true) : Typing.overrides u r s = true := by
  simp only [Typing.overrides, Bool.and_eq_true] at ho ⊢
  exact ⟨ho.1, accepts_mono h ho.2⟩

theorem Newest.superclass? {parent : Option ClassId} (hn : Newest t u parent) :
    u.superclass? t.nextId = parent :=
  superclass?_of_ancestors hn.ancestors

/-- A coherent table stays so with a new class that fits. -/
theorem Coherent.newest (h : Coherent t) (hg : Grows t u) {parent : Option ClassId}
    (hn : Newest t u parent) : Coherent u := by
  have hcases {i : ClassId} (hi : i < u.nextId) : i < t.nextId ∨ i = t.nextId := by
    rw [hn.size] at hi
    exact Nat.lt_or_eq_of_le (Nat.le_of_lt_succ hi)
  have hsuper {i p : ClassId} (hp : u.superclass? i = some p) :
      (i < t.nextId ∧ t.superclass? i = some p) ∨ (i = t.nextId ∧ parent = some p) := by
    have hi : i < u.nextId := by
      refine Decidable.byContradiction fun hlt => ?_
      rw [superclass?_eq_none hlt] at hp
      cases hp
    rcases hcases hi with hold | rfl
    · exact .inl ⟨hold, by rw [← hg.superclass? hold]; exact hp⟩
    · exact .inr ⟨rfl, by rw [← hn.superclass?]; exact hp⟩
  have holder {p : ClassId} (hp : parent = some p) : p < t.nextId := hn.older p hp
  have hforest : u.Forest := h.forest.newest hg hn.size hn.ancestors hn.older
  constructor
  case lineage => exact hforest.lineage
  case older => exact hforest.older
  case methods =>
    intro i x s hs p hp
    rcases hsuper hp with ⟨hi, ht⟩ | ⟨rfl, hparent⟩
    · have hlt := Nat.lt_trans (h.older i p ht) hi
      rw [hg.ownMethod? hi] at hs
      obtain ⟨hnone, hover⟩ := h.methods i x s hs p ht
      rw [hg.findField? h hlt, hg.findMethod? h hlt]
      refine ⟨hnone, fun inherited hinh => ?_⟩
      exact overrides_mono (fun _ _ => hg.isSubclass) (hover inherited hinh)
    · rw [hg.findField? h (holder hparent), hg.findMethod? h (holder hparent)]
      exact (hn.methods x s hs).2 p hparent
  case fields =>
    intro i x ty hty
    rcases hcases (ownField?_lt hty) with hi | rfl
    · rw [hg.ownField? hi] at hty
      obtain ⟨hnone, hinh⟩ := h.fields i x ty hty
      rw [hg.findMethod? h hi]
      refine ⟨hnone, fun p inherited hp hf => ?_⟩
      rw [hg.superclass? hi] at hp
      rw [hg.findField? h (Nat.lt_trans (h.older i p hp) hi)] at hf
      exact hinh p inherited hp hf
    · obtain ⟨-, hnone, hinh⟩ := hn.fields x ty hty
      refine ⟨hnone, fun p inherited hp hf => ?_⟩
      rw [hn.superclass?] at hp
      rw [hg.findField? h (holder hp)] at hf
      exact hinh p inherited hp hf
  case initializer =>
    intro i s hs
    rcases hcases (ownMethod?_lt hs) with hi | rfl
    · refine h.initializer i s ?_
      rw [ClassTable.initializer?, hg.name hi, hg.ownMethod? hi] at hs
      exact hs
    · exact hn.initializer s hs
  case known =>
    intro i x ty hty
    rcases hcases (ownField?_lt hty) with hi | rfl
    · rw [hg.ownField? hi] at hty
      exact (h.known i x ty hty).mono hg.size
    · exact (hn.fields x ty hty).1
  case named =>
    intro i x s hs
    rcases hcases (ownMethod?_lt hs) with hi | rfl
    · rw [hg.ownMethod? hi] at hs
      exact h.named i x s hs
    · exact (hn.methods x s hs).1

/-! ## More fields -/

/-- The table knows the same classes, with the same ancestors and methods, and at least the same
fields. -/
structure Extends (t u : ClassTable) : Prop where
  size : t.nextId ≤ u.nextId
  name : ∀ id < t.nextId, u.name id = t.name id
  lineage : ∀ id < t.nextId, u.lineage id = t.lineage id
  methods : ∀ id < t.nextId, ∀ x, u.ownMethod? id x = t.ownMethod? id x
  fields : ∀ id x ty, t.ownField? id x = some ty →
    ∃ ty', u.ownField? id x = some ty' ∧ ty'.erase = ty.erase

theorem Grows.extends (hg : Grows t u) : Extends t u where
  size := hg.size
  name _ hid := hg.name hid
  lineage _ hid := hg.lineage hid
  methods _ hid _ := hg.ownMethod? hid
  fields id x ty hty := ⟨ty, by rw [hg.ownField? (ownField?_lt hty)]; exact hty, rfl⟩

namespace Extends

theorem refl (t : ClassTable) : Extends t t :=
  (Grows.refl t).extends

theorem trans {v : ClassTable} (h : Extends t u) (k : Extends u v) : Extends t v where
  size := Nat.le_trans h.size k.size
  name id hid := (k.name id (Nat.lt_of_lt_of_le hid h.size)).trans (h.name id hid)
  lineage id hid := (k.lineage id (Nat.lt_of_lt_of_le hid h.size)).trans (h.lineage id hid)
  methods id hid x := (k.methods id (Nat.lt_of_lt_of_le hid h.size) x).trans (h.methods id hid x)
  fields id x ty hty := by
    obtain ⟨ty', hty', he⟩ := h.fields id x ty hty
    obtain ⟨ty'', hty'', he'⟩ := k.fields id x ty' hty'
    exact ⟨ty'', hty'', he'.trans he⟩

theorem isSubclass (h : Extends t u) {i j : ClassId} (hs : t.isSubclass i j = true) :
    u.isSubclass i j = true := by
  rw [isSubclass_iff] at hs ⊢
  by_cases hi : i < t.nextId
  · rw [h.lineage i hi]
    exact hs
  · rw [lineage_eq_self hi, List.mem_singleton] at hs
    exact hs ▸ u.self_mem_lineage i

theorem accepts (h : Extends t u) {a e : Ty} (ha : t.accepts a e = true) :
    u.accepts a e = true :=
  accepts_mono (fun _ _ => h.isSubclass) ha

theorem findField? (h : Extends t u) (hu : Coherent u) {ty : Ty}
    (hf : t.findField? id x = some ty) :
    ∃ ty', u.findField? id x = some ty' ∧ ty'.erase = ty.erase := by
  obtain ⟨c, hc, hown⟩ := List.exists_of_findSome?_eq_some hf
  obtain ⟨ty', hown', he⟩ := h.fields c x ty hown
  have hmem : c ∈ u.lineage id := by
    by_cases hid : id < t.nextId
    · rw [h.lineage id hid]
      exact hc
    · rw [lineage_eq_self hid, List.mem_singleton] at hc
      exact hc ▸ u.self_mem_lineage id
  have hfound : u.findField? c x = some ty' := by
    rw [hu.findField?_eq, hown', Option.some_or]
  obtain ⟨ty'', hf'', he'⟩ := hu.findField?_sub hmem hfound
  exact ⟨ty'', hf'', he'.trans he⟩

theorem findMethod? (h : Extends t u) (hu : Coherent u) {s : Signature}
    (hm : t.findMethod? id x = some s) : u.findMethod? id x = some s := by
  have hid : id < t.nextId := by
    refine Decidable.byContradiction fun hid => ?_
    rw [ClassTable.findMethod?, lineage_eq_self hid] at hm
    obtain ⟨c, hc, hown⟩ := List.exists_of_findSome?_eq_some hm
    rw [List.mem_singleton] at hc
    exact hid (hc ▸ ownMethod?_lt hown)
  rw [← hm, ClassTable.findMethod?, h.lineage id hid]
  refine findSome?_eq_of_mem fun c hc => h.methods c ?_ x
  rw [← h.lineage id hid] at hc
  exact Nat.lt_of_le_of_lt (hu.forest.le_of_mem hc) hid

/-- A property keeps its type: what was a method is no field later. -/
theorem property? (h : Extends t u) (hu : Coherent u) {ty : Ty}
    (hp : Typing.property? t id x = some ty) :
    ∃ ty', Typing.property? u id x = some ty' ∧ ty'.erase = ty.erase := by
  unfold Typing.property? at hp ⊢
  split at hp
  next declared hf =>
    obtain ⟨ty', hf', he⟩ := h.findField? hu hf
    rw [hf']
    exact ⟨ty', rfl, Option.some.inj hp ▸ he⟩
  next =>
    obtain ⟨s, hs, rfl⟩ := Option.map_eq_some_iff.1 hp
    have hs' := h.findMethod? hu hs
    rw [hs']
    cases hf : u.findField? id x with
    | none => exact ⟨s.ty, rfl, rfl⟩
    | some declared =>
      rw [hu.findMethod?_of_field hf] at hs'
      cases hs'

theorem constructorParams (h : Extends t u) (hid : id < t.nextId) :
    Typing.constructorParams u id = Typing.constructorParams t id := by
  simp only [Typing.constructorParams, initializer?, h.name id hid, h.methods id hid]

end Extends

/-- A table knows more with one more field, if the field had no other type before. -/
theorem extends_addField (t : ClassTable) (id : ClassId) (x : String) {ty : Ty}
    (h : ∀ old, t.ownField? id x = some old → old.erase = ty.erase) :
    Extends t (t.addField id x ty) := by
  constructor
  case size => simp
  case name => simp
  case lineage => simp
  case methods => simp
  case fields =>
    intro i y old hold
    rw [ownField?_addField]
    split
    next hsame =>
      obtain ⟨rfl, -, rfl⟩ := hsame
      exact ⟨ty, rfl, (h old hold).symm⟩
    next => exact ⟨old, hold, rfl⟩

end ClassTable

end ClassScript
