import ClassScript.Proofs.Objects
import ClassScript.Proofs.PairedBindings
import ClassScript.Proofs.Safety
import ClassScript.Proofs.Typed

/-!
# Types of values

A `TypeWorld` remembers the types of the names in every frame and the class of every object. `Has`
says which values have a type: a closure has the type of a function if its frame binds the names
among which its code is typed (`Around`), an object that of a class if its layers are those of a
descendant. Frames only gain names, and only the frame that a statement runs in does so
(`TypeWorld.Le`); types of values stay. `Holds` says that a world describes a machine.
-/

set_option autoImplicit false

namespace ClassScript

open Typing

/-- The types of the names in the frames, the classes of the objects, and the fields that objects have
got. -/
structure TypeWorld where
  frames : Frames Ty
  objects : Array ClassId
  fields : List (ObjectId × String)

namespace TypeWorld

/-- Frames and objects were added, and names were bound in the frame `free` only. -/
structure Le (free : Option FrameId) (A B : TypeWorld) : Prop where
  nextId : A.frames.nextId ≤ B.frames.nextId
  chain : ∀ f < A.frames.nextId, B.frames.chain f = A.frames.chain f
  types : ∀ f x τ, (A.frames.vars f).get? x = some τ → (B.frames.vars f).get? x = some τ
  others : ∀ f < A.frames.nextId, free ≠ some f →
    ∀ x, (B.frames.vars f).get? x = (A.frames.vars f).get? x
  objects : ∀ (i : ObjectId) (c : ClassId), A.objects[i]? = some c → B.objects[i]? = some c
  fields : ∀ p ∈ A.fields, p ∈ B.fields

namespace Le

variable {A B C : TypeWorld} {free : Option FrameId}

theorem refl (free : Option FrameId) (W : TypeWorld) : Le free W W :=
  ⟨Nat.le_refl _, fun _ _ => rfl, fun _ _ _ h => h, fun _ _ _ _ => rfl, fun _ _ h => h,
    fun _ h => h⟩

theorem trans (h : Le free A B) (k : Le free B C) : Le free A C where
  nextId := Nat.le_trans h.nextId k.nextId
  chain f hf := (k.chain f (Nat.lt_of_lt_of_le hf h.nextId)).trans (h.chain f hf)
  types f x τ hx := k.types f x τ (h.types f x τ hx)
  others f hf hne x :=
    (k.others f (Nat.lt_of_lt_of_le hf h.nextId) hne x).trans (h.others f hf hne x)
  objects i c hc := k.objects i c (h.objects i c hc)
  fields p hp := k.fields p (h.fields p hp)

/-- No frame is freer than one. -/
theorem weaken (h : Le none A B) : Le free A B :=
  ⟨h.nextId, h.chain, h.types, fun f hf _ => h.others f hf (by simp), h.objects, h.fields⟩

/-- A new frame is none of the old ones. -/
theorem fresh {f : FrameId} (h : Le (some f) A B) (hf : A.frames.nextId ≤ f) : Le none A B := by
  refine ⟨h.nextId, h.chain, h.types, fun g hg _ => h.others g hg fun he => ?_, h.objects, h.fields⟩
  cases he
  exact absurd hg (Nat.not_lt_of_le hf)

theorem binds (h : Le free A B) {f : FrameId} {x : String} (hb : A.frames.binds f x = true) :
    B.frames.binds f x = true := by
  obtain ⟨τ, hτ⟩ := (A.frames.binds_iff f).1 hb
  exact (B.frames.binds_iff f).2 ⟨τ, h.types f x τ hτ⟩

end Le

/-! ## Frames and scopes -/

/-- The frame binds the names of a local scope, with their types. -/
structure ScopeAt (W : TypeWorld) (b : Bindings Ty) (f : FrameId) : Prop where
  inner : f ≠ Machine.globalFrame
  lt : f < W.frames.nextId
  types : ∀ x ty, b.get? x = some ty → (W.frames.vars f).get? x = some ty.erase

/-- The chain of the frame binds the names in force, scope by scope, and the global frame the global
ones. -/
structure Around (P : Plan) (W : TypeWorld) (f : FrameId) (Γ : TypeScope) : Prop where
  lt : f < W.frames.nextId
  chain : ∃ fs, W.frames.chain f = fs ++ [Machine.globalFrame] ∧
    List.Forall₂ (ScopeAt W) Γ.locals fs
  globals : ∀ x ty, Γ.globals.get? x = some ty → P.globals x = some ty.erase ∧
    (P.strict = true → W.frames.binds Machine.globalFrame x = true)

/-- The frame itself binds the names of the innermost local scope and no others. -/
structure Here (P : Plan) (W : TypeWorld) (f : FrameId) (Γ : TypeScope) : Prop where
  around : Around P W f Γ
  exact : ∀ b outer, Γ.locals = b :: outer → ∀ x, W.frames.binds f x = b.contains x

section

variable {P Q : Plan} {A B W : TypeWorld} {free : Option FrameId} {f : FrameId} {Γ : TypeScope}

theorem ScopeAt.mono {b : Bindings Ty} (h : ScopeAt A b f) (hle : Le free A B) : ScopeAt B b f :=
  ⟨h.inner, Nat.lt_of_lt_of_le h.lt hle.nextId, fun x ty hx => hle.types f x _ (h.types x ty hx)⟩

theorem Around.mono (h : Around P A f Γ) (hle : Le free A B) : Around P B f Γ where
  lt := Nat.lt_of_lt_of_le h.lt hle.nextId
  chain := by
    obtain ⟨fs, hc, hf⟩ := h.chain
    exact ⟨fs, (hle.chain f h.lt).trans hc, hf.imp fun _ _ hs => hs.mono hle⟩
  globals x ty hx := by
    obtain ⟨hg, hb⟩ := h.globals x ty hx
    exact ⟨hg, fun hs => hle.binds (hb hs)⟩

theorem Here.mono (h : Here P A f Γ) (hle : Le none A B) : Here P B f Γ := by
  refine ⟨h.around.mono hle, fun b outer hl x => ?_⟩
  rw [← h.exact b outer hl x]
  simp only [Frames.binds, Bindings.contains, hle.others f h.around.lt (by simp) x]

/-- Where no local names are in force, the frame is the global one. -/
theorem Around.global (h : Around P W f Γ) (hl : Γ.locals = []) : f = Machine.globalFrame := by
  obtain ⟨fs, hc, hf⟩ := h.chain
  rw [hl] at hf
  cases hf
  have hhead := W.frames.head?_chain f
  rw [hc] at hhead
  exact (Option.some.inj hhead).symm

/-- The frame itself binds the names of the innermost local scope. -/
theorem Around.head {b : Bindings Ty} {outer : List (Bindings Ty)} (h : Around P W f Γ)
    (hl : Γ.locals = b :: outer) : ScopeAt W b f := by
  obtain ⟨fs, hc, hf⟩ := h.chain
  rw [hl] at hf
  cases hf with
  | cons hs _ =>
    have hhead := W.frames.head?_chain f
    rw [hc] at hhead
    exact Option.some.inj hhead ▸ hs

/-- Fewer names of the innermost scope are in force. -/
theorem Around.hide {b : Bindings Ty} (h : Around P W f (Γ.enter b)) :
    Around P W f (Γ.enter .empty) := by
  obtain ⟨fs, hc, hf⟩ := h.chain
  obtain _ | ⟨hs, hrest⟩ := hf
  exact ⟨h.lt, ⟨_, hc, .cons ⟨hs.inner, hs.lt, fun _ _ hx => nomatch hx⟩ hrest⟩, h.globals⟩

/-- A frame inside another one binds one more scope. -/
theorem Around.enter {b : Bindings Ty} {g : FrameId} (h : Around P W f Γ) (hs : ScopeAt W b g)
    (hc : W.frames.chain g = g :: W.frames.chain f) : Around P W g (Γ.enter b) := by
  obtain ⟨fs, hfs, hf⟩ := h.chain
  exact ⟨hs.lt, ⟨g :: fs, by rw [hc, hfs]; rfl, .cons hs hf⟩, h.globals⟩

theorem ScopeAt.insert {b : Bindings Ty} {x : String} {ty : Ty} (h : ScopeAt W b f)
    (hx : (W.frames.vars f).get? x = some ty.erase) : ScopeAt W (b.insert x ty) f := by
  refine ⟨h.inner, h.lt, fun y ty' hy => ?_⟩
  rw [Bindings.get?_insert] at hy
  split at hy
  next he =>
    cases hy
    exact he ▸ hx
  next => exact h.types y ty' hy

/-- A name that the frame binds to its type is in force there. -/
theorem Around.define {x : String} {ty : Ty} (h : Around P W f Γ)
    (hx : (W.frames.vars f).get? x = some ty.erase)
    (hglobal : Γ.locals = [] → P.globals x = some ty.erase) : Around P W f (Γ.define x ty) := by
  obtain ⟨fs, hc, hf⟩ := h.chain
  obtain ⟨globals, locals⟩ := Γ
  cases locals with
  | nil =>
    refine ⟨h.lt, ⟨fs, hc, hf⟩, fun y ty' hy => ?_⟩
    have hy : (globals.insert x ty).get? y = some ty' := hy
    rw [Bindings.get?_insert] at hy
    split at hy
    next he =>
      cases hy
      subst he
      refine ⟨hglobal rfl, fun _ => ?_⟩
      rw [← h.global rfl]
      exact (W.frames.binds_iff f).2 ⟨_, hx⟩
    next => exact h.globals y ty' hy
  | cons b outer =>
    have hs := (h.head rfl).insert hx
    cases hf with
    | @cons _ g _ rest _ hrest =>
      have hhead := W.frames.head?_chain f
      rw [hc] at hhead
      cases hhead
      exact ⟨h.lt, ⟨f :: rest, hc, .cons hs hrest⟩, h.globals⟩

/-- Each local scope belongs to the frame at the same distance. -/
theorem Around.scope {b : Bindings Ty} {d : Nat} (h : Around P W f Γ)
    (hb : Γ.locals[d]? = some b) : ∃ g, (W.frames.chain f)[d]? = some g ∧ ScopeAt W b g := by
  obtain ⟨fs, hc, hf⟩ := h.chain
  obtain ⟨hlt, hget⟩ := List.getElem?_eq_some_iff.1 hb
  have hlt' : d < fs.length := hf.length_eq ▸ hlt
  refine ⟨fs[d], ?_, ?_⟩
  · rw [hc, List.getElem?_append_left hlt', List.getElem?_eq_getElem hlt']
  · exact hget ▸ hf.get hlt hlt'

theorem Around.plan (h : Around P W f Γ) (hle : P.Le Q) : Around Q W f Γ :=
  ⟨h.lt, h.chain, by rw [hle.globals, hle.strict]; exact h.globals⟩

end

/-- The types of the names of a scope without names of functions. -/
def eraseTypes (b : Bindings Ty) : Bindings Ty :=
  ⟨b.entries.map fun p => (p.1, p.2.erase)⟩

theorem get?_eraseTypes (b : Bindings Ty) (x : String) :
    (eraseTypes b).get? x = (b.get? x).map Ty.erase := by
  obtain ⟨entries⟩ := b
  show lookupName x (entries.map _) = (lookupName x entries).map _
  induction entries with
  | nil => rfl
  | cons p rest ih =>
    obtain ⟨y, ty⟩ := p
    simp only [List.map_cons, lookupName, ih]
    split <;> rfl

/-! ## Values -/

/-- The closure is a function with these parameters, and its result may stand for this one. -/
def ClosureHas (P : Plan) (W : TypeWorld) (c : Closure) (params : List Ty) (result : Ty) : Prop :=
  ∃ Γ s, Around P W c.frame Γ ∧ Stmt.TypedRoutine P Γ s c.decl ∧
    Ty.eraseAll s.params = Ty.eraseAll params ∧ P.classes.accepts result s.result = true ∧
    (c.isInitializer = true → s.result = .void ∧ c.frame ≠ Machine.globalFrame ∧
      W.frames.binds c.frame "this" = true)

/-- The closure is a method with this signature of objects of the class `id`. -/
def MethodHas (P : Plan) (W : TypeWorld) (id : ClassId) (c : Closure) (s : Signature) : Prop :=
  ∃ Γ, Around P W c.frame Γ ∧ Stmt.TypedRoutine P (Γ.enter (.single "this" (.object id))) s c.decl ∧
    (c.isInitializer = true → s.result = .void)

/-- The layer has the members of the class `id`. -/
structure LayerHas (P : Plan) (W : TypeWorld) (id : ClassId) (layer : Layer) : Prop where
  name : layer.name = P.classes.name id
  methods : ∀ x, Option.Rel (MethodHas P W id) (layer.methods.get? x) (P.classes.ownMethod? id x)
  fields : ∃ Γ, Around P W layer.frame Γ ∧
    ∀ d ∈ layer.fields, d.FieldTyped P (Γ.enter (P.fieldScope id)) id
  declared : ∀ x ty, P.classes.ownField? id x = some ty → ∃ d ∈ layer.fields, d.name.text = x

/-- The layers are those of the class `id` and its ancestors. -/
def ClassHas (P : Plan) (W : TypeWorld) (id : ClassId) (c : ClassValue) : Prop :=
  List.Forall₂ (LayerHas P W) (P.classes.lineage id) c.layers

/-- The object of the class `d` has got all its fields. -/
def Full (P : Plan) (W : TypeWorld) (i : ObjectId) (d : ClassId) : Prop :=
  ∀ x ty, P.classes.findField? d x = some ty → (i, x) ∈ W.fields

/-- The value has the type. Any value has the type `void`, since a bound initializer, which gives
nothing, returns its object. Under a sealed plan objects have all their fields. -/
def Has (P : Plan) (W : TypeWorld) (v : Value) : Ty → Prop
  | .nil => v = .nil
  | .number => ∃ x, v = .number x
  | .string => ∃ s, v = .string s
  | .boolean => ∃ b, v = .boolean b
  | .void => True
  | .function _ params result =>
    (v = .native 0 0 ∧ params = [] ∧ result = .number) ∨
      ∃ n c, v = .function n c ∧ ClosureHas P W c params result
  | .classObject id => ∃ c, v = .classObject c ∧ ClassHas P W id c
  | .object id =>
    v = .nil ∨ ∃ i c d, v = .object i c ∧ W.objects[i]? = some d ∧ ClassHas P W d c ∧
      P.classes.isSubclass d id = true ∧ (P.sealed = true → Full P W i d)

/-- The value may stand for a name of this type: `this` is an object, and `super`, which stands for
objects of a class, is bound to the class itself. -/
structure SlotHas (P : Plan) (W : TypeWorld) (x : String) (τ : Ty) (v : Value) : Prop where
  typed : x ≠ "super" → Has P W v τ
  super : x = "super" → ∃ p, τ = .object p ∧ Has P W v (.classObject p)
  this : x = "this" → v ≠ .nil

section

variable {P Q : Plan} {A B W : TypeWorld} {free : Option FrameId}

theorem ClosureHas.mono {c : Closure} {params : List Ty} {result : Ty}
    (h : ClosureHas P A c params result) (hle : Le free A B) : ClosureHas P B c params result := by
  obtain ⟨Γ, s, ha, hr, hp, hs, hi⟩ := h
  refine ⟨Γ, s, ha.mono hle, hr, hp, hs, fun h => ?_⟩
  obtain ⟨hv, hne, hb⟩ := hi h
  exact ⟨hv, hne, hle.binds hb⟩

theorem MethodHas.mono {id : ClassId} {c : Closure} {s : Signature} (h : MethodHas P A id c s)
    (hle : Le free A B) : MethodHas P B id c s := by
  obtain ⟨Γ, ha, hr⟩ := h
  exact ⟨Γ, ha.mono hle, hr⟩

theorem LayerHas.mono {id : ClassId} {layer : Layer} (h : LayerHas P A id layer)
    (hle : Le free A B) : LayerHas P B id layer := by
  obtain ⟨Γ, ha, hf⟩ := h.fields
  exact ⟨h.name, fun x => rel_mono (fun _ _ hm => hm.mono hle) (h.methods x), ⟨Γ, ha.mono hle, hf⟩,
    h.declared⟩

theorem ClassHas.mono {id : ClassId} {c : ClassValue} (h : ClassHas P A id c) (hle : Le free A B) :
    ClassHas P B id c :=
  h.imp fun _ _ hl => hl.mono hle

theorem Full.mono {i : ObjectId} {d : ClassId} (h : Full P A i d) (hle : Le free A B) :
    Full P B i d :=
  fun x ty hx => hle.fields _ (h x ty hx)

/-- A value keeps its types. -/
theorem Has.mono {v : Value} {τ : Ty} (h : Has P A v τ) (hle : Le free A B) : Has P B v τ := by
  cases τ with
  | function name params result =>
    rcases h with hn | ⟨n, c, hv, hc⟩
    · exact .inl hn
    · exact .inr ⟨n, c, hv, hc.mono hle⟩
  | classObject id =>
    obtain ⟨c, hv, hc⟩ := h
    exact ⟨c, hv, hc.mono hle⟩
  | object id =>
    rcases h with hn | ⟨i, c, d, hv, hi, hc, hd, hfull⟩
    · exact .inl hn
    · exact .inr ⟨i, c, d, hv, hle.objects i d hi, hc.mono hle, hd, fun hs => (hfull hs).mono hle⟩
  | _ => exact h

theorem SlotHas.mono {x : String} {τ : Ty} {v : Value} (h : SlotHas P A x τ v)
    (hle : Le free A B) : SlotHas P B x τ v := by
  refine ⟨fun hx => (h.typed hx).mono hle, fun hx => ?_, h.this⟩
  obtain ⟨p, hp, hv⟩ := h.super hx
  exact ⟨p, hp, hv.mono hle⟩

theorem ClosureHas.plan {c : Closure} {params : List Ty} {result : Ty}
    (h : ClosureHas P W c params result) (hle : P.Le Q) : ClosureHas Q W c params result := by
  obtain ⟨Γ, s, ha, hr, hp, hs⟩ := h
  refine ⟨Γ, s, ha.plan hle, Stmt.TypedRoutine.mono hle c.decl hr, hp, ?_⟩
  rw [hle.classes]
  exact hs

theorem MethodHas.plan {id : ClassId} {c : Closure} {s : Signature} (h : MethodHas P W id c s)
    (hle : P.Le Q) : MethodHas Q W id c s := by
  obtain ⟨Γ, ha, hr, hi⟩ := h
  exact ⟨Γ, ha.plan hle, Stmt.TypedRoutine.mono hle c.decl hr, hi⟩

theorem LayerHas.plan {id : ClassId} {layer : Layer} (h : LayerHas P W id layer)
    (hle : P.Le Q) : LayerHas Q W id layer := by
  obtain ⟨Γ, ha, hf⟩ := h.fields
  refine ⟨by rw [hle.classes]; exact h.name, fun x => ?_, ⟨Γ, ha.plan hle, fun d hd => ?_⟩,
    by rw [hle.classes]; exact h.declared⟩
  rotate_left
  · rw [Plan.fieldScope_mono hle]
    exact (hf d hd).mono hle
  rw [hle.classes]
  exact rel_mono (fun _ _ hm => hm.plan hle) (h.methods x)

theorem ClassHas.plan {id : ClassId} {c : ClassValue} (h : ClassHas P W id c) (hle : P.Le Q) :
    ClassHas Q W id c := by
  unfold ClassHas
  rw [hle.classes]
  exact h.imp fun _ _ hl => hl.plan hle

/-- A value keeps its types when more uses of names are known. -/
theorem Has.plan {v : Value} {τ : Ty} (h : Has P W v τ) (hle : P.Le Q) : Has Q W v τ := by
  cases τ with
  | function name params result =>
    rcases h with hn | ⟨n, c, hv, hc⟩
    · exact .inl hn
    · exact .inr ⟨n, c, hv, hc.plan hle⟩
  | classObject id =>
    obtain ⟨c, hv, hc⟩ := h
    exact ⟨c, hv, hc.plan hle⟩
  | object id =>
    rcases h with hn | ⟨i, c, d, hv, hi, hc, hd, hfull⟩
    · exact .inl hn
    · refine .inr ⟨i, c, d, hv, hi, hc.plan hle, by rw [hle.classes]; exact hd, ?_⟩
      unfold Full
      rw [hle.sealed, hle.classes]
      exact hfull
  | _ => exact h

theorem SlotHas.plan {x : String} {τ : Ty} {v : Value} (h : SlotHas P W x τ v)
    (hle : P.Le Q) : SlotHas Q W x τ v := by
  refine ⟨fun hx => (h.typed hx).plan hle, fun hx => ?_, h.this⟩
  obtain ⟨p, hp, hv⟩ := h.super hx
  exact ⟨p, hp, hv.plan hle⟩

end

/-! ## Types of a value -/

section

variable {P : Plan} {W : TypeWorld} {v : Value} {σ τ : Ty}

/-- The names of functions are no part of what a type says. -/
theorem Has.congr (h : Has P W v σ) (he : σ.erase = τ.erase) : Has P W v τ := by
  cases σ with
  | function name params result =>
    cases τ with
    | function name' params' result' =>
      simp only [Ty.erase, Ty.function.injEq, true_and] at he
      obtain ⟨hparams, hresult⟩ := he
      rcases h with ⟨hv, rfl, rfl⟩ | ⟨n, c, hv, Γ, s, ha, hr, hp, hs, hi⟩
      · refine .inl ⟨hv, ?_, ?_⟩
        · simpa [Ty.eraseAll_eq, eq_comm] using hparams
        · exact (Ty.erase_eq_iff (by simp)).1 hresult.symm
      · refine .inr ⟨n, c, hv, Γ, s, ha, hr, hp.trans hparams, ?_, hi⟩
        rw [← ClassTable.accepts_erase, ← hresult, ClassTable.accepts_erase]
        exact hs
    | _ => simp [Ty.erase] at he
  | _ =>
    have heq := Ty.eq_of_erase he (by simp)
    exact heq ▸ h

theorem Has.erase (h : Has P W v τ) : Has P W v τ.erase :=
  h.congr (by simp)

theorem Has.of_erase (h : Has P W v τ.erase) : Has P W v τ :=
  h.congr (by simp)

/-- A value of a class is one of its ancestors. -/
theorem Has.upcast {c d : ClassId} (h : Has P W v (.object c))
    (hs : P.classes.isSubclass c d = true) : Has P W v (.object d) := by
  rcases h with hn | ⟨i, cv, e, hv, hi, hc, he, hfull⟩
  · exact .inl hn
  · refine .inr ⟨i, cv, e, hv, hi, hc, ?_, hfull⟩
    rw [ClassTable.isSubclass_iff] at hs he ⊢
    exact P.coherent.forest.lineage_trans he hs

/-- A value may stand where its type is accepted. -/
theorem Has.accepts (h : Has P W v σ) (ha : P.classes.accepts τ σ = true) : Has P W v τ := by
  rcases ClassTable.accepts_iff.1 ha with he | ⟨i, j, rfl, rfl, hs⟩ | ⟨⟨i, rfl⟩ | rfl, rfl⟩
  · exact h.congr he.symm
  · exact h.upcast hs
  · exact .inl h
  · trivial

end

/-! ## Members of a class -/

end TypeWorld

/-- The class of the table has the name of the class, methods of the same names, and fields of the
names that the class declares. -/
structure ClassTable.Describes (t : ClassTable) (d : ClassId) (c : ClassValue) : Prop where
  name : c.own.name = t.name d
  methods : ∀ x, (c.findMethod? x).isSome = (t.findMethod? d x).isSome
  fields : ∀ x, c.declares x = (t.findField? d x).isSome

namespace TypeWorld

section

variable {P : Plan} {W : TypeWorld} {d : ClassId} {c : ClassValue}

/-- The layers of a class belong to its ancestors. -/
theorem ClassHas.layer (h : ClassHas P W d c) {layer : Layer} (hl : layer ∈ c.layers) :
    ∃ q, P.classes.isSubclass d q = true ∧ LayerHas P W q layer := by
  simp only [ClassTable.isSubclass_iff]
  unfold ClassHas at h
  generalize P.classes.lineage d = ids, c.layers = layers at h hl
  induction h with
  | nil => cases hl
  | cons hr _ ih =>
    rcases List.mem_cons.1 hl with rfl | hm
    · exact ⟨_, List.mem_cons_self .., hr⟩
    · obtain ⟨q, hq, hlayer⟩ := ih hm
      exact ⟨q, List.mem_cons_of_mem _ hq, hlayer⟩

/-- What is a field of the class in the table is declared in one of its layers. -/
theorem ClassHas.declared (h : ClassHas P W d c) {x : String} {ty : Ty}
    (hf : P.classes.findField? d x = some ty) :
    ∃ layer ∈ c.layers, ∃ decl ∈ layer.fields, decl.name.text = x := by
  obtain ⟨q, hq, hown⟩ := List.exists_of_findSome?_eq_some hf
  unfold ClassHas at h
  generalize P.classes.lineage d = ids, c.layers = layers at h hq
  induction h with
  | nil => cases hq
  | @cons q' layer _ _ hl _ ih =>
    rcases List.mem_cons.1 hq with rfl | hmem
    · exact ⟨layer, List.mem_cons_self .., hl.declared x ty hown⟩
    · obtain ⟨layer', hl', hd⟩ := ih hmem
      exact ⟨layer', List.mem_cons_of_mem _ hl', hd⟩

/-- The own layer of a class belongs to the class itself. -/
theorem ClassHas.own (h : ClassHas P W d c) : LayerHas P W d c.own := by
  have hhead : ∃ rest, P.classes.lineage d = d :: rest := by
    unfold ClassTable.lineage
    split
    · exact ⟨_, rfl⟩
    · exact ⟨_, rfl⟩
  obtain ⟨rest, hr⟩ := hhead
  unfold ClassHas at h
  rw [hr] at h
  cases h with
  | cons hown _ => exact hown

/-- A class finds a method where the table of classes does. -/
theorem ClassHas.findMethod? (h : ClassHas P W d c) (x : String) :
    Option.Rel (fun method s => ∃ q, P.classes.isSubclass d q = true ∧ MethodHas P W q method s)
      (c.findMethod? x) (P.classes.findMethod? d x) := by
  simp only [ClassTable.isSubclass_iff]
  unfold ClassHas at h
  unfold ClassValue.findMethod? ClassTable.findMethod?
  generalize P.classes.lineage d = ids, c.layers = layers at h
  induction h with
  | nil => exact .none
  | @cons q layer ids layers hr _ ih =>
    rw [List.findSome?_cons, List.findSome?_cons]
    have hx := hr.methods x
    generalize layer.methods.get? x = m, P.classes.ownMethod? q x = s at hx
    cases hx with
    | none =>
      refine rel_mono (fun method s hm => ?_) ih
      obtain ⟨q', hq, hm⟩ := hm
      exact ⟨q', List.mem_cons_of_mem q hq, hm⟩
    | some hm => exact .some ⟨q, List.mem_cons_self .., hm⟩

/-- The class of the table has the name and the members of the class. -/
theorem ClassHas.describes (h : ClassHas P W d c) : P.classes.Describes d c := by
  refine ⟨h.own.name, fun x => ?_, fun x => ?_⟩
  · have hfind := h.findMethod? x
    generalize c.findMethod? x = method, P.classes.findMethod? d x = s at hfind
    cases hfind <;> rfl
  · rw [Bool.eq_iff_iff, ClassValue.declares_iff, Option.isSome_iff_exists]
    constructor
    · rintro ⟨layer, hl, decl, hd, rfl⟩
      obtain ⟨q, hq, hlayer⟩ := h.layer hl
      obtain ⟨Γ, -, hfields⟩ := hlayer.fields
      obtain ⟨ty, -, hf, -⟩ := hfields decl hd
      obtain ⟨ty', hf', -⟩ := P.coherent.findField?_sub (ClassTable.isSubclass_iff.1 hq) hf
      exact ⟨ty', hf'⟩
    · rintro ⟨ty, hty⟩
      exact h.declared hty

/-- A class has the initializer that the table of classes knows. -/
theorem ClassHas.initializer? (h : ClassHas P W d c) :
    Option.Rel (MethodHas P W d) c.initializer? (P.classes.initializer? d) := by
  unfold ClassValue.initializer? ClassTable.initializer?
  rw [h.own.name]
  exact h.own.methods _

end

end TypeWorld

end ClassScript
