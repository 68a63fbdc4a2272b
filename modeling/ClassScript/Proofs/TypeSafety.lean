import ClassScript.Proofs.TypeWorld

/-!
# Typed machines

`Holds P W m` says that the world describes the machine under a plan: names and fields have values
of their types, and uses of names are noted at the distances of the plan. New frames, bindings,
assignments and fields keep it so. The logic `typing` claims of a run that it keeps the machine so,
looks for properties of `nil` and of objects only, which are there or are fields that the object
lacks still (`Served`), and stops for few reasons (`Plan.Stops`): under a strict plan neither an
operand nor a call nor a name is at fault, and a property is not defined only where an object lacks
a field (`Lacks`). Under a sealed plan an object lacks no field that is asked for.
-/

set_option autoImplicit false

namespace ClassScript

/-- A typed run may stop for this reason. -/
def Plan.Admits (P : Plan) : RuntimeCause → Prop
  | .undefinedVariable _ => P.strict = false
  | .repetitionTooLarge => True
  | .notObject => True
  | .fieldOfNoObject => True
  | .undefinedProperty _ => True
  | .native _ => True
  | _ => False

/-- A typed run may stop so. -/
def Plan.Stops (P : Plan) : Stop → Prop
  | .fault e => P.Admits e.cause
  | _ => True

/-- The stop says that the property is not defined. -/
def Stop.IsUndefined (x : String) : Stop → Prop
  | .fault e => e.cause = .undefinedProperty x
  | _ => False

/-- Properties are those of `nil` or of an object. -/
def Event.Typed : Event → Prop
  | .access v _ => v = .nil ∨ ∃ i c, v = .object i c
  | _ => True

namespace TypeWorld

/-- The world describes the machine. -/
structure Holds (P : Plan) (W : TypeWorld) (m : Machine) : Prop where
  nextId : m.frames.nextId = W.frames.nextId
  chain : ∀ f, m.frames.chain f = W.frames.chain f
  root : W.frames.chain Machine.globalFrame = [Machine.globalFrame]
  rootLt : Machine.globalFrame < W.frames.nextId
  values : ∀ f x v, (m.frames.vars f).get? x = some v →
    ∃ τ, (W.frames.vars f).get? x = some τ ∧ SlotHas P W x τ v
  bound : ∀ f x, P.strict = true ∨ f ≠ Machine.globalFrame → W.frames.binds f x = true →
    m.frames.binds f x = true
  globals : ∀ x τ, (W.frames.vars Machine.globalFrame).get? x = some τ → P.globals x = some τ
  size : m.objects.size = W.objects.size
  fields : ∀ (i : ObjectId) (d : ClassId) fields x v, W.objects[i]? = some d →
    m.objects[i]? = some fields → fields.get? x = some v →
      ∃ ty, P.classes.findField? d x = some ty ∧ Has P W v ty.erase
  present : ∀ i x, (i, x) ∈ W.fields → (m.field? i x).isSome = true
  natives : ∃ c, m.natives = #[.clock c]
  distances : ∀ id < P.uses, m.distance? id = P.distance id
  uses : P.uses ≤ m.nextUse

/-- The class of the object declares the field, but the object has not got it yet. -/
def Lacks (P : Plan) (W : TypeWorld) (m : Machine) (i : ObjectId) (x : String) : Prop :=
  P.sealed = false ∧ m.field? i x = none ∧
    ∃ d ty, W.objects[i]? = some d ∧ P.classes.findField? d x = some ty

/-- What is asked for is there: a property of an object is a field that it has, a method of its
class, or a field that it lacks still, and a method of a superclass is found. -/
def Served (P : Plan) (W : TypeWorld) (m : Machine) : Event → Prop
  | .access (.object i c) name => (∃ d, W.objects[i]? = some d ∧ P.classes.Describes d c) ∧
      ((m.field? i name.text).isSome = true ∨ (c.findMethod? name.text).isSome = true ∨
        Lacks P W m i name.text)
  | .super id keyword method => ∃ v m', Run.superMethod .none id keyword method m = .ok v m'
  | _ => True

section

variable {P : Plan} {A B : TypeWorld} {m : Machine} {free : Option FrameId}

theorem Lacks.mono {i : ObjectId} {x : String} (h : Lacks P A m i x) (hle : Le free A B) :
    Lacks P B m i x := by
  obtain ⟨hsealed, hnone, d, ty, hd, hf⟩ := h
  exact ⟨hsealed, hnone, d, ty, hle.objects i d hd, hf⟩

theorem Served.mono {e : Event} (h : Served P A m e) (hle : Le free A B) : Served P B m e := by
  cases e with
  | access v name =>
    cases v with
    | object i c =>
      obtain ⟨⟨d, hd, hc⟩, hserved⟩ := h
      exact ⟨⟨d, hle.objects i d hd, hc⟩, hserved.imp_right fun h => h.imp_right (·.mono hle)⟩
    | _ => trivial
  | super id keyword method => exact h
  | _ => trivial

end

/-- What a typed run does; it binds names in the frame `free` and in new frames only. -/
def typing (P : Plan) (free : Option FrameId) : Logic TypeWorld where
  le := Le free
  refl := Le.refl free
  trans h k := h.trans k
  holds := Holds P
  holds_current _ h := ⟨h.nextId, h.chain, h.root, h.rootLt, h.values, h.bound, h.globals, h.size,
    h.fields, h.present, h.natives, h.distances, h.uses⟩
  event W m e := e.Typed ∧ Served P W m e
  event_mono hle h := ⟨h.1, h.2.mono hle⟩
  stop W m e := P.Stops e ∧ ∀ x, e.IsUndefined x → ∃ i, Lacks P W m i x
  stop_current _ h := h

/-- The world with a new frame. -/
def addFrame (W : TypeWorld) (outer : FrameId) (types : Bindings Ty) : TypeWorld :=
  ⟨W.frames.addChild outer types, W.objects, W.fields⟩

/-- The world with a name bound in a frame. -/
def bindName (W : TypeWorld) (f : FrameId) (x : String) (τ : Ty) : TypeWorld :=
  ⟨W.frames.define f x τ, W.objects, W.fields⟩

/-- The world with a new object. -/
def addObject (W : TypeWorld) (d : ClassId) : TypeWorld :=
  ⟨W.frames, W.objects.push d, W.fields⟩

/-- The world in which an object has got a field. -/
def addField (W : TypeWorld) (i : ObjectId) (x : String) : TypeWorld :=
  ⟨W.frames, W.objects, (i, x) :: W.fields⟩

theorem le_addFrame (W : TypeWorld) (outer : FrameId) (types : Bindings Ty) :
    Le none W (W.addFrame outer types) := by
  have hvars (f : FrameId) (hf : f < W.frames.nextId) :
      (W.addFrame outer types).frames.vars f = W.frames.vars f :=
    W.frames.vars_addChild_of_lt outer types hf
  refine ⟨by simp [addFrame], fun f hf => W.frames.chain_addChild_of_lt outer types hf,
    fun f x τ hx => ?_, fun f hf _ x => by rw [hvars f hf], fun _ _ h => h, fun _ h => h⟩
  rw [hvars f (Frames.lt_of_binds ((W.frames.binds_iff f).2 ⟨τ, hx⟩))]
  exact hx

/-- A name may be bound if it is not bound to another type. -/
theorem le_bindName (W : TypeWorld) (f : FrameId) (x : String) (τ : Ty)
    (h : ∀ old, (W.frames.vars f).get? x = some old → old = τ) :
    Le (some f) W (W.bindName f x τ) := by
  refine ⟨by simp [bindName], fun g _ => by simp [bindName], fun g y υ hy => ?_,
    fun g _ hne y => ?_, fun _ _ hi => hi, fun _ h => h⟩
  · simp only [bindName, Frames.get?_define]
    split
    next he =>
      obtain ⟨rfl, -, rfl⟩ := he
      rw [h υ hy]
    next => exact hy
  · simp only [bindName, Frames.get?_define]
    split
    next he => exact absurd (congrArg some he.1) hne
    next => rfl

theorem le_addObject (W : TypeWorld) (d : ClassId) : Le none W (W.addObject d) := by
  refine ⟨Nat.le_refl _, fun _ _ => rfl, fun _ _ _ h => h, fun _ _ _ _ => rfl, fun i c hc => ?_,
    fun _ h => h⟩
  have hlt : i < W.objects.size := (Array.getElem?_eq_some_iff.1 hc).1
  simp only [addObject, Array.getElem?_push, Nat.ne_of_lt hlt, if_false]
  exact hc

theorem le_addField (W : TypeWorld) (i : ObjectId) (x : String) : Le none W (W.addField i x) :=
  ⟨Nat.le_refl _, fun _ _ => rfl, fun _ _ _ h => h, fun _ _ _ _ => rfl, fun _ _ h => h,
    fun _ h => List.mem_cons_of_mem _ h⟩

variable {P : Plan} {W : TypeWorld} {m : Machine}

namespace Holds

theorem identity (h : Holds P W m) (n : Nat) : Holds P W { m with nextIdentity := n } :=
  ⟨h.nextId, h.chain, h.root, h.rootLt, h.values, h.bound, h.globals, h.size, h.fields,
    h.present, h.natives, h.distances, h.uses⟩

theorem output (h : Holds P W m) (sink : Sink) : Holds P W { m with sink } :=
  ⟨h.nextId, h.chain, h.root, h.rootLt, h.values, h.bound, h.globals, h.size, h.fields,
    h.present, h.natives, h.distances, h.uses⟩

/-- The value of a name that a frame binds. -/
theorem value (h : Holds P W m) {f : FrameId} {x : String} {τ : Ty} {v : Value}
    (hx : (W.frames.vars f).get? x = some τ) (hv : (m.frames.vars f).get? x = some v) :
    SlotHas P W x τ v := by
  obtain ⟨τ', hτ, hs⟩ := h.values f x v hv
  rw [hx] at hτ
  cases hτ
  exact hs

/-- A new frame whose names have values of their types. -/
theorem addFrame (h : Holds P W m) (outer : FrameId) {types : Bindings Ty} {vars : Bindings Value}
    (hv : ∀ x v, vars.get? x = some v → ∃ τ, types.get? x = some τ ∧ SlotHas P W x τ v)
    (hb : ∀ x, types.contains x = true → vars.contains x = true) :
    Holds P (W.addFrame outer types) { m with frames := m.frames.addChild outer vars } := by
  have hle := W.le_addFrame outer types
  have hnew : Machine.globalFrame ≠ W.frames.nextId := Nat.ne_of_lt h.rootLt
  refine ⟨?_, fun f => ?_, ?_, Nat.lt_of_lt_of_le h.rootLt hle.nextId, fun f x v hg => ?_,
    fun f x hf hg => ?_, fun x τ hx => ?_, h.size, fun i d fields x v hd hi hx => ?_, h.present,
    h.natives, h.distances, h.uses⟩
  · simp [TypeWorld.addFrame, h.nextId]
  · show (m.frames.addChild outer vars).chain f = (W.frames.addChild outer types).chain f
    rw [Frames.chain_addChild, Frames.chain_addChild, h.nextId, h.chain, h.chain]
  · exact (hle.chain _ h.rootLt).trans h.root
  · have hg : ((m.frames.addChild outer vars).vars f).get? x = some v := hg
    show ∃ τ, ((W.frames.addChild outer types).vars f).get? x = some τ ∧ _
    rw [Frames.vars_addChild] at hg ⊢
    rw [← h.nextId]
    split at hg
    next he =>
      rw [if_pos he]
      obtain ⟨τ, hτ, hs⟩ := hv x v hg
      exact ⟨τ, hτ, hs.mono hle⟩
    next he =>
      rw [if_neg he]
      obtain ⟨τ, hτ, hs⟩ := h.values f x v hg
      exact ⟨τ, hτ, hs.mono hle⟩
  · show Bindings.contains ((m.frames.addChild outer vars).vars f) x = true
    have hg : Bindings.contains ((W.frames.addChild outer types).vars f) x = true := hg
    rw [Frames.vars_addChild] at hg ⊢
    rw [h.nextId]
    split at hg
    next he => rw [if_pos he]; exact hb x hg
    next he => rw [if_neg he]; exact h.bound f x hf hg
  · have hx : ((W.frames.addChild outer types).vars Machine.globalFrame).get? x = some τ := hx
    rw [Frames.vars_addChild, if_neg hnew] at hx
    exact h.globals x τ hx
  · obtain ⟨ty, hf, ht⟩ := h.fields i d fields x v hd hi hx
    exact ⟨ty, hf, ht.mono hle⟩

/-- A name bound to a value of its type. -/
theorem define (h : Holds P W m) {f : FrameId} {x : String} {τ : Ty} {v : Value}
    (hold : ∀ old, (W.frames.vars f).get? x = some old → old = τ)
    (hglobal : f = Machine.globalFrame → P.globals x = some τ)
    (hv : SlotHas P (W.bindName f x τ) x τ v) :
    Holds P (W.bindName f x τ) { m with frames := m.frames.define f x v } := by
  have hle := W.le_bindName f x τ hold
  refine ⟨?_, fun g => ?_, ?_, Nat.lt_of_lt_of_le h.rootLt hle.nextId, fun g y w hg => ?_,
    fun g y hg hb => ?_, fun y υ hy => ?_, h.size, fun i d fields y w hd hi hy => ?_, h.present,
    h.natives, h.distances, h.uses⟩
  · simp [bindName, h.nextId]
  · simp [bindName, h.chain]
  · simp [bindName, h.root]
  · have hg : ((m.frames.define f x v).vars g).get? y = some w := hg
    simp only [bindName, Frames.get?_define] at hg ⊢
    rw [h.nextId] at hg
    split at hg
    next he =>
      rw [if_pos he]
      cases hg
      obtain ⟨-, -, rfl⟩ := he
      exact ⟨τ, rfl, hv⟩
    next he =>
      rw [if_neg he]
      obtain ⟨υ, hυ, hs⟩ := h.values g y w hg
      exact ⟨υ, hυ, hs.mono hle⟩
  · refine (m.frames.binds_define f g).2 ?_
    rcases (W.frames.binds_define f g).1 hb with ⟨he, hlt, hx⟩ | hb
    · exact .inl ⟨he, by rw [h.nextId]; exact hlt, hx⟩
    · exact .inr (h.bound g y hg hb)
  · simp only [bindName, Frames.get?_define] at hy
    split at hy
    next he =>
      obtain ⟨hg, -, rfl⟩ := he
      cases hy
      exact hglobal hg
    next => exact h.globals y υ hy
  · obtain ⟨ty, hfield, ht⟩ := h.fields i d fields y w hd hi hy
    exact ⟨ty, hfield, ht.mono hle⟩

/-- A name that is bound gets another value of its type. -/
theorem assign (h : Holds P W m) {f : FrameId} {x : String} {τ : Ty} {v : Value}
    (hx : (W.frames.vars f).get? x = some τ) (hv : SlotHas P W x τ v) :
    Holds P W { m with frames := m.frames.define f x v } := by
  refine ⟨?_, fun g => ?_, h.root, h.rootLt, fun g y w hg => ?_, fun g y hg hb => ?_, h.globals,
    h.size, h.fields, h.present, h.natives, h.distances, h.uses⟩
  · simp [h.nextId]
  · simp [h.chain]
  · have hg : ((m.frames.define f x v).vars g).get? y = some w := hg
    rw [Frames.get?_define] at hg
    split at hg
    next he =>
      cases hg
      obtain ⟨rfl, -, rfl⟩ := he
      exact ⟨τ, hx, hv⟩
    next => exact h.values g y w hg
  · exact (m.frames.binds_define f g).2 (.inr (h.bound g y hg hb))

/-- A field of an object gets a value of its type. -/
theorem setField (h : Holds P W m) {i : ObjectId} {d : ClassId} {x : String} {ty : Ty} {v : Value}
    (hi : W.objects[i]? = some d) (hf : P.classes.findField? d x = some ty)
    (hv : Has P W v ty.erase) :
    Holds P (W.addField i x)
      { m with objects := m.objects.modify i fun fields => fields.insert x v } := by
  have hle := W.le_addField i x
  refine ⟨h.nextId, h.chain, h.root, h.rootLt, fun f y w hw => ?_, h.bound, h.globals, ?_,
    fun j e fields y w he hj hy => ?_, fun j y hmem => ?_, h.natives, h.distances, h.uses⟩
  · obtain ⟨τ, hτ, hs⟩ := h.values f y w hw
    exact ⟨τ, hτ, hs.mono hle⟩
  · simp [addField, h.size]
  · have hj : (m.objects.modify i fun fields => fields.insert x v)[j]? = some fields := hj
    rw [Array.getElem?_modify] at hj
    split at hj
    next hij =>
      subst hij
      obtain ⟨old, hold, rfl⟩ := Option.map_eq_some_iff.1 hj
      rw [Bindings.get?_insert] at hy
      split at hy
      next hxy =>
        subst hxy
        cases hy
        replace he : W.objects[i]? = some e := he
        rw [hi] at he
        cases he
        exact ⟨ty, hf, hv.mono hle⟩
      next =>
        obtain ⟨ty', hf', ht⟩ := h.fields i e old y w he hold hy
        exact ⟨ty', hf', ht.mono hle⟩
    next =>
      obtain ⟨ty', hf', ht⟩ := h.fields j e fields y w he hj hy
      exact ⟨ty', hf', ht.mono hle⟩
  · rcases List.mem_cons.1 hmem with heq | hmem
    · cases heq
      have hlt : i < m.objects.size := by
        rw [h.size]
        exact (Array.getElem?_eq_some_iff.1 hi).1
      rw [Machine.field?_modify, if_pos ⟨rfl, rfl, hlt⟩]
      rfl
    · exact Machine.isSome_field?_modify v (h.present j y hmem)

/-- A new object has no fields yet. -/
theorem newObject (h : Holds P W m) (d : ClassId) :
    Holds P (W.addObject d) { m with objects := m.objects.push .empty } := by
  have hle := W.le_addObject d
  refine ⟨h.nextId, h.chain, h.root, h.rootLt, fun f x v hv => ?_, h.bound, h.globals, ?_,
    fun i e fields x v he hi hx => ?_, fun i x hmem => ?_, h.natives, h.distances, h.uses⟩
  · obtain ⟨τ, hτ, hs⟩ := h.values f x v hv
    exact ⟨τ, hτ, hs.mono hle⟩
  · simp [addObject, h.size]
  · have hi : (m.objects.push .empty)[i]? = some fields := hi
    have he : (W.objects.push d)[i]? = some e := he
    rw [Array.getElem?_push] at hi he
    split at hi
    · cases hi
      cases hx
    next hne =>
      rw [← h.size, if_neg hne] at he
      obtain ⟨ty, hf, ht⟩ := h.fields i e fields x v he hi hx
      exact ⟨ty, hf, ht.mono hle⟩
  · rw [Machine.field?_push]
    exact h.present i x hmem

/-! ## Names in force -/

/-- A local name is bound where it is looked for. -/
theorem localName (h : Holds P W m) {f : FrameId} {Γ : TypeScope} (ha : Around P W f Γ) {d : Nat}
    {b : Bindings Ty} {x : String} {ty : Ty} (hb : Γ.locals[d]? = some b)
    (hx : b.get? x = some ty) :
    ∃ g v, (m.frames.chain f)[d]? = some g ∧ (W.frames.vars g).get? x = some ty.erase ∧
      (m.frames.vars g).get? x = some v ∧ SlotHas P W x ty.erase v := by
  obtain ⟨g, hg, hs⟩ := ha.scope hb
  have ht := hs.types x ty hx
  have hbound := h.bound g x (.inr hs.inner) ((W.frames.binds_iff g).2 ⟨_, ht⟩)
  obtain ⟨v, hv⟩ := (m.frames.binds_iff g).1 hbound
  exact ⟨g, v, by rw [h.chain]; exact hg, ht, hv, h.value ht hv⟩

/-- A global name has its type if it is bound, and it is bound under a strict plan. -/
theorem globalName (h : Holds P W m) {f : FrameId} {Γ : TypeScope} (ha : Around P W f Γ) {x : String}
    {ty : Ty} (hx : Γ.globals.get? x = some ty) :
    (∃ v, (W.frames.vars Machine.globalFrame).get? x = some ty.erase ∧
      (m.frames.vars Machine.globalFrame).get? x = some v ∧ SlotHas P W x ty.erase v) ∨
    P.strict = false ∧ (m.frames.vars Machine.globalFrame).get? x = none := by
  obtain ⟨hp, hb⟩ := ha.globals x ty hx
  cases hv : (m.frames.vars Machine.globalFrame).get? x with
  | some v =>
    obtain ⟨τ, hτ, hs⟩ := h.values _ x v hv
    have heq := h.globals x τ hτ
    rw [hp] at heq
    cases heq
    exact .inl ⟨v, hτ, rfl, hs⟩
  | none =>
    cases hstrict : P.strict with
    | false => exact .inr ⟨rfl, rfl⟩
    | true =>
      have hbound := h.bound _ x (.inl hstrict) (hb hstrict)
      obtain ⟨v, hv'⟩ := (m.frames.binds_iff _).1 hbound
      rw [hv] at hv'
      cases hv'

variable {Γ : TypeScope} {id : NodeId} {name : Name} {ty : Ty}

/-- A use of a name has a value of its type; without a strict plan it may find none. -/
theorem valueOf (h : Holds P W m) (ha : Around P W m.current Γ) (hu : P.Use Γ id name.text ty) :
    (∃ v, m.valueOf id name = .ok v ∧ SlotHas P W name.text ty.erase v) ∨
      P.strict = false ∧ ∃ e, m.valueOf id name = .error e := by
  have htype := Γ.typeIn?_depth? hu.type
  have hd : m.distance? id = Γ.depth? name.text := (h.distances id hu.lt).trans hu.distance
  unfold Machine.valueOf
  rw [hd]
  cases hdepth : Γ.depth? name.text with
  | some d =>
    rw [hdepth] at htype
    obtain ⟨b, hb, hx⟩ := Option.bind_eq_some_iff.1 htype
    obtain ⟨g, v, hg, -, hv, hs⟩ := h.localName ha hb hx
    exact .inl ⟨v, (m.frames.getAt_ok _).2 ⟨g, hg, hv⟩, hs⟩
  | none =>
    rw [hdepth] at htype
    rcases h.globalName ha htype with ⟨v, -, hv, hs⟩ | ⟨hstrict, hnone⟩
    · exact .inl ⟨v, (m.frames.getOwn_ok _).2 hv, hs⟩
    · refine .inr ⟨hstrict, .unbound name.text, ?_⟩
      dsimp only
      unfold Frames.getOwn
      rw [hnone]

/-- A use of a name assigns to a frame that binds it to its type; without a strict plan it may find
none. -/
theorem slot (h : Holds P W m) (ha : Around P W m.current Γ) (hu : P.Use Γ id name.text ty) :
    (∃ f, m.slot id name = .ok f ∧ (W.frames.vars f).get? name.text = some ty.erase) ∨
      P.strict = false ∧ ∃ e, m.slot id name = .error e := by
  have htype := Γ.typeIn?_depth? hu.type
  have hd : m.distance? id = Γ.depth? name.text := (h.distances id hu.lt).trans hu.distance
  unfold Machine.slot
  rw [hd]
  cases hdepth : Γ.depth? name.text with
  | some d =>
    rw [hdepth] at htype
    obtain ⟨b, hb, hx⟩ := Option.bind_eq_some_iff.1 htype
    obtain ⟨g, v, hg, ht, hv, -⟩ := h.localName ha hb hx
    exact .inl ⟨g, (m.frames.slotAt_ok _).2 ⟨hg, (m.frames.binds_iff g).2 ⟨v, hv⟩⟩, ht⟩
  | none =>
    rw [hdepth] at htype
    rcases h.globalName ha htype with ⟨v, ht, hv, -⟩ | ⟨hstrict, hnone⟩
    · exact .inl ⟨_, (m.frames.slotOwn_ok _).2 ⟨rfl, (m.frames.binds_iff _).2 ⟨v, hv⟩⟩, ht⟩
    · refine .inr ⟨hstrict, .unbound name.text, ?_⟩
      dsimp only
      unfold Frames.slotOwn Frames.binds Bindings.contains
      rw [hnone]
      rfl

/-- An assignment to the local variable whose initial value it stands in finds no frame. -/
theorem slot_own (h : Holds P W m) {init : Option Name} (ho : P.Own init id name.text)
    (hinit : ∀ x, init = some x → W.frames.binds m.current x.text = false) :
    ∃ e, m.slot id name = .error e := by
  obtain ⟨x, hx, hname⟩ := ho.name
  have hd : m.distance? id = some 0 := (h.distances id ho.lt).trans ho.distance
  have hnot : m.frames.binds m.current name.text ≠ true := by
    intro hb
    obtain ⟨v, hv⟩ := (m.frames.binds_iff _).1 hb
    obtain ⟨τ, hτ, -⟩ := h.values _ _ v hv
    have hfree := hinit x hx
    rw [hname, (W.frames.binds_iff _).2 ⟨τ, hτ⟩] at hfree
    cases hfree
  have hchain : (m.frames.chain m.current)[0]? = some m.current := by
    rw [← List.head?_eq_getElem?]
    exact m.frames.head?_chain m.current
  unfold Machine.slot
  rw [hd]
  dsimp only
  cases hs : m.frames.slotAt m.current 0 name.text with
  | error e => exact ⟨e, rfl⟩
  | ok f =>
    obtain ⟨hf, hb⟩ := (m.frames.slotAt_ok _).1 hs
    rw [hchain] at hf
    cases hf
    exact absurd hb hnot

/-! ## Frames for scopes -/

/-- A new frame for a local scope, whose names have values of their types. -/
theorem enter (h : Holds P W m) {outer : FrameId} (ha : Around P W outer Γ) {b : Bindings Ty}
    {vars : Bindings Value}
    (hv : ∀ x, Option.Rel (fun v ty => SlotHas P W x ty.erase v) (vars.get? x) (b.get? x)) :
    Holds P (W.addFrame outer (eraseTypes b))
        { m with frames := m.frames.addChild outer vars } ∧
      Here P (W.addFrame outer (eraseTypes b)) W.frames.nextId (Γ.enter b) ∧
      (W.addFrame outer (eraseTypes b)).frames.chain W.frames.nextId =
        W.frames.nextId :: (W.addFrame outer (eraseTypes b)).frames.chain outer := by
  have hle := W.le_addFrame outer (eraseTypes b)
  have hnew : (W.addFrame outer (eraseTypes b)).frames.vars W.frames.nextId = eraseTypes b :=
    W.frames.vars_addChild_nextId outer (eraseTypes b)
  have hne : outer ≠ W.frames.nextId := Nat.ne_of_lt ha.lt
  have hchain : (W.addFrame outer (eraseTypes b)).frames.chain W.frames.nextId =
      W.frames.nextId :: (W.addFrame outer (eraseTypes b)).frames.chain outer := by
    simp [TypeWorld.addFrame, Frames.chain_addChild, hne]
  have hscope : ScopeAt (W.addFrame outer (eraseTypes b)) b W.frames.nextId := by
    refine ⟨Nat.ne_of_gt h.rootLt, by simp [TypeWorld.addFrame], fun x ty hx => ?_⟩
    rw [hnew, get?_eraseTypes, hx, Option.map_some]
  refine ⟨h.addFrame outer (fun x v hx => ?_) fun x hx => ?_,
    ⟨(ha.mono hle).enter hscope hchain, fun b' rest hl x => ?_⟩, hchain⟩
  · have hrel := hv x
    rw [hx] at hrel
    rw [get?_eraseTypes]
    generalize b.get? x = t at hrel
    cases hrel with
    | some hs => exact ⟨_, rfl, hs⟩
  · have hrel := hv x
    unfold Bindings.contains at hx ⊢
    rw [get?_eraseTypes] at hx
    generalize b.get? x = t, vars.get? x = u at hrel hx
    cases hrel with
    | none => exact hx
    | some _ => rfl
  · cases hl
    rw [Frames.binds, hnew]
    simp [Bindings.contains, get?_eraseTypes]

/-- A name that may be bound in a scope has its type if the frame of the scope binds it already. -/
theorem boundBefore (h : Holds P W m) {f : FrameId} (hh : Here P W f Γ) (hb : P.Binds Γ name ty)
    {old : Ty} (ho : (W.frames.vars f).get? name.text = some old) : old = ty.erase := by
  cases hl : Γ.locals with
  | nil =>
    rw [hh.around.global hl] at ho
    have heq := h.globals _ _ ho
    rw [hb.global hl] at heq
    exact (Option.some.inj heq).symm
  | cons b outer =>
    have hbound := (W.frames.binds_iff f).2 ⟨old, ho⟩
    rw [hh.exact b outer hl, hb.fresh.2 b outer hl] at hbound
    cases hbound

/-- A fresh name may be bound in the frame of the innermost scope. -/
theorem bind (h : Holds P W m) {f : FrameId} (hh : Here P W f Γ) (hb : P.Binds Γ name ty) :
    Le (some f) W (W.bindName f name.text ty.erase) ∧
      Here P (W.bindName f name.text ty.erase) f (Γ.define name.text ty) ∧
      ∀ v, Has P (W.bindName f name.text ty.erase) v ty →
        Holds P (W.bindName f name.text ty.erase)
          { m with frames := m.frames.define f name.text v } := by
  have hold : ∀ old, (W.frames.vars f).get? name.text = some old → old = ty.erase :=
    fun _ => h.boundBefore hh hb
  have hle := W.le_bindName f name.text ty.erase hold
  have hget (x : String) : ((W.bindName f name.text ty.erase).frames.vars f).get? x =
      if name.text = x then some ty.erase else (W.frames.vars f).get? x := by
    simp [bindName, Frames.get?_define, hh.around.lt]
  have haround : Around P (W.bindName f name.text ty.erase) f (Γ.define name.text ty) :=
    (hh.around.mono hle).define ((hget name.text).trans (if_pos rfl)) hb.global
  refine ⟨hle, ⟨haround, fun b outer hl x => ?_⟩, fun v hv => h.define hold (fun hf => ?_) ?_⟩
  · obtain ⟨globals, locals⟩ := Γ
    cases locals with
    | nil => cases hl
    | cons b' outer' =>
      cases hl
      rw [Frames.binds, Bindings.contains, hget, Bindings.contains_insert,
        ← hh.exact b' _ rfl x]
      by_cases he : name.text = x <;> simp [he, Frames.binds, Bindings.contains]
  · cases hl : Γ.locals with
    | nil => exact hb.global hl
    | cons b outer => exact absurd hf (hh.around.head hl).inner
  · exact ⟨fun _ => hv.erase, fun he => absurd he hb.fresh.1.ne_super,
      fun he => absurd he hb.fresh.1.ne_this⟩

end Holds

end TypeWorld

end ClassScript
