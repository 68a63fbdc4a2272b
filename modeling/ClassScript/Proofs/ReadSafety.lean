import ClassScript.Proofs.FrameWorld
import ClassScript.Proofs.Objects

/-!
# Reads find what was resolved

Every run of a loaded program keeps the machine in step with a world (`FrameWorld.Describes`): the
frames that the evaluator makes for blocks, calls, bound methods, superclasses and initial values of
fields are those of the scopes that the walk over the program has seen. So a read of a variable or
of `this` that was noted with a distance finds the name in the frame at this distance, which was
made for the scope in which the walk found it and is never the global one (`FoundAt`). A use of
`super` finds the frame that was made for the superclass of the class declaration around it just
outside of the one that knows `this` (`SuperAt`), since no name in a program is one of these words.
One step of the evaluator keeps this in `evalWith_step` and `execWith_step`, a whole session in
`Session.replay_known`.
-/

set_option autoImplicit false

namespace ClassScript

open Resolution FrameWorld

/-- A read that was noted with the distance `d` finds its name: `frame` is the frame at this
distance, it was made for the scope in which the walk over the program found the name, and it binds
the name. -/
structure FoundAt (opening : FrameId → Option Opening) (m : Machine) (p : Place) (name : Name)
    (d : Nat) (scope : LexicalScope) (frame : FrameId) : Prop where
  depth : p.depth? = some d
  around : p.around[d]? = some scope
  chain : (m.frames.chain m.current)[d]? = some frame
  inner : frame ≠ Machine.globalFrame
  opened : ∃ o, opening frame = some o ∧ o.Opens scope.site
  binds : m.frames.binds frame name.text = true

/-- What an event says fits what the frames were made for: a frame that was made is remembered for
what it was made, and a read of a use with a distance finds its name there, and so a value. -/
def Fits (opening : FrameId → Option Opening) (known : List Place) (m : Machine) : Event → Prop
  | .statement _ => True
  | .opened frame o => opening frame = some o
  | .read id name =>
    ∀ d, m.distance? id = some d →
      (∃ v, m.valueOf id name = .ok v) ∧
        ∃ p ∈ known, p.use.id = id ∧ p.use.name = name ∧
          ∃ scope frame, FoundAt opening m p name d scope frame
  | .access _ _ => True
  | .super _ _ _ => True

/-- What a use of `super` stands for. It stands inside of the class declaration `decl`, where `this`
is bound `d` scopes out. The frame as far out was made for a member of this declaration and binds
`this` to an object; the next one was made for the superclass of this declaration and binds `super`
to the class that is remembered for it. -/
structure SuperAt (opening : FrameId → Option Opening) (declared : FrameId → Option ClassValue)
    (m : Machine) (p : Place) (decl : ClassDecl NodeId (Stmt NodeId)) (d : Nat) (c : ClassValue)
    (i : ObjectId) (own : ClassValue) : Prop where
  inside : p.around.InSubclass decl d
  depth : Resolution.depth? "this" p.around.scopes = some d
  members : ∃ frame o, (m.frames.chain m.current)[d]? = some frame ∧ opening frame = some o ∧
    o.Opens (.members decl)
  superclass : ∃ frame, (m.frames.chain m.current)[d + 1]? = some frame ∧
    opening frame = some (.superclass decl) ∧ declared frame = some c
  super : m.frames.getAt m.current (d + 1) "super" = .ok (.classObject c)
  this : m.frames.getAt m.current d "this" = .ok (.object i own)

/-- What an event says of superclasses fits what the frames were made for: a frame that was made is
remembered for what it was made, and one for a superclass with the class that the name of the
superclass stands for at this moment. A use of `super` leads to a method of the class that is
remembered for the class declaration around it, for the object that is `this`. -/
def SuperFits (opening : FrameId → Option Opening) (declared : FrameId → Option ClassValue)
    (known : List Place) (m : Machine) : Event → Prop
  | .opened frame o =>
    opening frame = some o ∧ ∀ decl, o = .superclass decl → ∃ s c, decl.superclass = some s ∧
      m.valueOf s.id s.name = .ok (.classObject c) ∧ declared frame = some c
  | .super id keyword method =>
    ∃ p ∈ known, p.use = ⟨.super, id, keyword⟩ ∧
      ∃ decl d c i own, SuperAt opening declared m p decl d c i own ∧
        Run.MethodOutcome c (.object i own) method m (Run.superMethod .none id keyword method m)
  | _ => True

/-- A resolved read that finds its name has a value. -/
theorem FoundAt.value {opening : FrameId → Option Opening} {m : Machine} {p : Place} {id : NodeId}
    {name : Name} {d : Nat} {scope : LexicalScope} {frame : FrameId}
    (h : FoundAt opening m p name d scope frame) (hd : m.distance? id = some d) :
    ∃ v, m.valueOf id name = .ok v := by
  obtain ⟨v, hv⟩ := (m.frames.binds_iff frame).1 h.binds
  refine ⟨v, ?_⟩
  unfold Machine.valueOf
  rw [hd]
  exact (m.frames.getAt_ok m.current).2 ⟨frame, h.chain, hv⟩

/-! ## Words -/

/-- The class that is bound to `super`. -/
def Bindings.superclass? (vars : Bindings Value) : Option ClassValue :=
  match vars.get? "super" with
  | some (.classObject c) => some c
  | _ => none

/-- A frame for a superclass binds `super` to the class, and a frame for members `this` to an
object. -/
def Opening.Words (declared : Option ClassValue) (vars : Bindings Value) : Opening → Prop
  | .superclass _ => ∃ c, declared = some c ∧ vars.get? "super" = some (.classObject c)
  | .method _ => ∃ i c, vars.get? "this" = some (.object i c)
  | .fields _ => ∃ i c, vars.get? "this" = some (.object i c)
  | _ => True

/-- The names in a program are neither `this` nor `super`. -/
theorem Opening.Words.insert {declared : Option ClassValue} {vars : Bindings Value} {o : Opening}
    (h : o.Words declared vars) {x : Name} (hx : x.Free) (v : Value) :
    o.Words declared (vars.insert x.text v) := by
  cases o with
  | superclass decl =>
    obtain ⟨c, hc, hget⟩ := h
    exact ⟨c, hc, (Bindings.get?_insert_of_ne vars v hx.ne_super).trans hget⟩
  | method decl =>
    obtain ⟨i, c, hget⟩ := h
    exact ⟨i, c, (Bindings.get?_insert_of_ne vars v hx.ne_this).trans hget⟩
  | fields decls =>
    obtain ⟨i, c, hget⟩ := h
    exact ⟨i, c, (Bindings.get?_insert_of_ne vars v hx.ne_this).trans hget⟩
  | _ => trivial

/-- A new frame binds the words that it is made for. One for a superclass is made where the name of
the superclass stands for the class. -/
structure Opening.Made (m : Machine) (vars : Bindings Value) (o : Opening) : Prop where
  words : o.Words vars.superclass? vars
  superclass : ∀ decl, o = .superclass decl → m.current < m.frames.nextId ∧
    ∃ s c, decl.superclass = some s ∧ m.valueOf s.id s.name = .ok (.classObject c) ∧
      vars.superclass? = some c

theorem Opening.Made.block (m : Machine) (vars : Bindings Value) (body : List (Stmt NodeId)) :
    (Opening.block body).Made m vars :=
  ⟨trivial, fun _ h => nomatch h⟩

theorem Opening.Made.call (m : Machine) (vars : Bindings Value)
    (decl : FunctionDecl (Stmt NodeId)) : (Opening.call decl).Made m vars :=
  ⟨trivial, fun _ h => nomatch h⟩

/-- A frame for members is made with an object. -/
theorem Opening.Made.members (m : Machine) {o : Opening} {decl : ClassDecl NodeId (Stmt NodeId)}
    (ho : o.Opens (.members decl)) (i : ObjectId) (c : ClassValue) :
    o.Made m (.single "this" (.object i c)) := by
  have hthis : ∃ i' c', (Bindings.single "this" (Value.object i c)).get? "this" =
      some (.object i' c') := ⟨i, c, rfl⟩
  cases o with
  | method d => exact ⟨hthis, fun _ h => nomatch h⟩
  | fields ds => exact ⟨hthis, fun _ h => nomatch h⟩
  | _ => cases ho

theorem Opening.Made.super {m : Machine} {decl : ClassDecl NodeId (Stmt NodeId)}
    {s : SuperclassRef NodeId} {c : ClassValue} (hs : decl.superclass = some s)
    (hv : m.valueOf s.id s.name = .ok (.classObject c)) (hlt : m.current < m.frames.nextId) :
    (Opening.superclass decl).Made m (.single "super" (.classObject c)) := by
  refine ⟨⟨c, rfl, rfl⟩, fun decl' hdecl => ?_⟩
  cases hdecl
  exact ⟨hlt, s, c, hs, hv, rfl⟩

namespace FrameWorld

/-! ## Machines -/

/-- The world describes the machine. -/
structure Describes (W : FrameWorld) (m : Machine) : Prop where
  nextId : m.frames.nextId = W.frames.nextId
  chain : ∀ f, m.frames.chain f = W.frames.chain f
  root : W.frames.chain Machine.globalFrame = [Machine.globalFrame]
  rootLt : Machine.globalFrame < W.frames.nextId
  inside : ∀ f < W.frames.nextId, ∀ g ∈ W.frames.chain f, g < W.frames.nextId
  binds : ∀ f x, f ≠ Machine.globalFrame → W.frames.binds f x = true → m.frames.binds f x = true
  values : ∀ f x v, (m.frames.vars f).get? x = some v → W.Knows v
  fields : ∀ (i : Nat) fields x v, m.objects[i]? = some fields → fields.get? x = some v → W.Knows v
  natives : ∃ c, m.natives = #[.clock c]
  places : ∀ p ∈ W.known, m.distance? p.use.id = p.depth?
  numbered : ∀ p ∈ W.known, p.use.id < m.nextUse
  proper : ∀ p ∈ W.known, p.Proper
  opening : ∀ f o, W.opening f = some o → Machine.globalFrame < f ∧ f < W.frames.nextId
  declared : ∀ f c, W.declared f = some c → f < W.frames.nextId
  words : ∀ f o, W.opening f = some o → o.Words (W.declared f) (m.frames.vars f)

/-- The world with a new frame. -/
def addFrame (W : FrameWorld) (outer : FrameId) (vars : Bindings Value) (o : Opening) :
    FrameWorld :=
  ⟨W.frames.addChild outer vars, fun f => if f = W.frames.nextId then some o else W.opening f,
    fun f => if f = W.frames.nextId then vars.superclass? else W.declared f, W.known⟩

/-- The world with a name bound in a frame. -/
def bindName (W : FrameWorld) (f : FrameId) (x : String) (v : Value) : FrameWorld :=
  ⟨W.frames.define f x v, W.opening, W.declared, W.known⟩

end FrameWorld

namespace FrameWorld

variable {W : FrameWorld} {m : Machine}

theorem Describes.current (h : Describes W m) (f : FrameId) :
    Describes W { m with current := f } :=
  { h with }

theorem Describes.identity (h : Describes W m) (n : Nat) :
    Describes W { m with nextIdentity := n } :=
  { h with }

theorem Describes.output (h : Describes W m) (sink : Sink) : Describes W { m with sink } :=
  { h with }

theorem Describes.le_addFrame (h : Describes W m) (outer : FrameId) (vars : Bindings Value)
    (o : Opening) : Le W (W.addFrame outer vars o) where
  nextId := by simp [addFrame]
  chain f hf := W.frames.chain_addChild_of_lt outer vars hf
  binds f x hb := by
    have hlt := Frames.lt_of_binds hb
    simp only [addFrame, Frames.binds, W.frames.vars_addChild_of_lt outer vars hlt]
    exact hb
  opening f op ho := by
    have hne : f ≠ W.frames.nextId := Nat.ne_of_lt (h.opening f op ho).2
    simp [addFrame, hne, ho]
  declared f c hc := by
    have hne : f ≠ W.frames.nextId := Nat.ne_of_lt (h.declared f c hc)
    simp [addFrame, hne, hc]
  known _ hp := hp

theorem le_bindName (W : FrameWorld) (f : FrameId) (x : String) (v : Value) :
    Le W (W.bindName f x v) where
  nextId := by simp [bindName]
  chain g _ := by simp [bindName]
  binds g y hb := (W.frames.binds_define f g).2 (.inr hb)
  opening _ _ ho := ho
  declared _ _ hc := hc
  known _ hp := hp

/-- A new frame with known values keeps the machine in step. -/
theorem Describes.addFrame (h : Describes W m) {outer : FrameId} (houter : outer < W.frames.nextId)
    {vars : Bindings Value} (hv : ∀ x v, vars.get? x = some v → W.Knows v) {o : Opening}
    (ho : o.Words vars.superclass? vars) :
    Describes (W.addFrame outer vars o) { m with frames := m.frames.addChild outer vars } := by
  have hle := h.le_addFrame outer vars o
  exact { h with
    nextId := by simp [FrameWorld.addFrame, h.nextId]
    chain := fun f => by
      show (m.frames.addChild outer vars).chain f = (W.frames.addChild outer vars).chain f
      rw [Frames.chain_addChild, Frames.chain_addChild, h.nextId, h.chain, h.chain]
    root := (hle.chain _ h.rootLt).trans h.root
    rootLt := Nat.lt_of_lt_of_le h.rootLt hle.nextId
    inside := fun f hf g hg => by
      simp only [FrameWorld.addFrame, Frames.nextId_addChild, Frames.chain_addChild] at hf hg ⊢
      split at hg
      next he =>
        rcases List.mem_cons.1 hg with rfl | hg
        · exact hf
        · exact Nat.lt_succ_of_lt (h.inside outer houter g hg)
      next he =>
        have hold : f < W.frames.nextId := Nat.lt_of_le_of_ne (Nat.le_of_lt_succ hf) he
        exact Nat.lt_succ_of_lt (h.inside f hold g hg)
    binds := fun f x hf hb => by
      show Bindings.contains ((m.frames.addChild outer vars).vars f) x = true
      have hb : Bindings.contains ((W.frames.addChild outer vars).vars f) x = true := hb
      rw [Frames.vars_addChild] at hb ⊢
      rw [h.nextId]
      split at hb
      next he => rw [if_pos he]; exact hb
      next he => rw [if_neg he]; exact h.binds f x hf hb
    values := fun f x v hg => by
      have hg : ((m.frames.addChild outer vars).vars f).get? x = some v := hg
      rw [Frames.vars_addChild] at hg
      split at hg
      · exact (hv x v hg).mono hle
      · exact (h.values f x v hg).mono hle
    fields := fun i fields x v hi hg => (h.fields i fields x v hi hg).mono hle
    opening := fun f op hop => by
      simp only [FrameWorld.addFrame] at hop ⊢
      rw [Frames.nextId_addChild]
      split at hop
      next he => exact ⟨he ▸ h.rootLt, he ▸ Nat.lt_succ_self _⟩
      next he => exact ⟨(h.opening f op hop).1, Nat.lt_succ_of_lt (h.opening f op hop).2⟩
    declared := fun f c hc => by
      simp only [FrameWorld.addFrame] at hc ⊢
      rw [Frames.nextId_addChild]
      split at hc
      next he => exact he ▸ Nat.lt_succ_self _
      next he => exact Nat.lt_succ_of_lt (h.declared f c hc)
    words := fun f op hop => by
      show op.Words _ ((m.frames.addChild outer vars).vars f)
      simp only [FrameWorld.addFrame] at hop ⊢
      rw [Frames.vars_addChild, h.nextId]
      by_cases he : f = W.frames.nextId
      · rw [if_pos he] at hop ⊢
        rw [if_pos he]
        cases hop
        exact ho
      · rw [if_neg he] at hop ⊢
        rw [if_neg he]
        exact h.words f op hop }

/-- A name bound to a known value keeps the machine in step. -/
theorem Describes.define (h : Describes W m) {f : FrameId} {x : Name} (hx : x.Free) {v : Value}
    (hv : (W.bindName f x.text v).Knows v) :
    Describes (W.bindName f x.text v) { m with frames := m.frames.define f x.text v } := by
  have hle := W.le_bindName f x.text v
  exact { h with
    nextId := by simp [bindName, h.nextId]
    chain := fun g => by simp [bindName, h.chain]
    root := by simp [bindName, h.root]
    rootLt := Nat.lt_of_lt_of_le h.rootLt hle.nextId
    inside := fun g hg k hk => by
      simp only [bindName, Frames.nextId_define, Frames.chain_define] at hg hk ⊢
      exact h.inside g hg k hk
    binds := fun g y hg hb => by
      refine (m.frames.binds_define f g).2 ?_
      rcases (W.frames.binds_define f g).1 hb with ⟨he, hlt, hx⟩ | hold
      · exact .inl ⟨he, by rw [h.nextId]; exact hlt, hx⟩
      · exact .inr (h.binds g y hg hold)
    values := fun g y w hg => by
      have hg : ((m.frames.define f x.text v).vars g).get? y = some w := hg
      rw [Frames.get?_define] at hg
      split at hg
      · cases hg
        exact hv
      · exact (h.values g y w hg).mono hle
    fields := fun i fields y w hi hg => (h.fields i fields y w hi hg).mono hle
    opening := fun g op ho => by
      simp only [bindName, Frames.nextId_define]
      exact h.opening g op ho
    declared := fun g c hc => by
      simp only [bindName, Frames.nextId_define]
      exact h.declared g c hc
    words := fun g op ho => by
      have hold : op.Words (W.declared g) (m.frames.vars g) := h.words g op ho
      show op.Words (W.declared g) ((m.frames.define f x.text v).vars g)
      by_cases he : f = g
      · subst he
        have hlt : f < m.frames.nextId := by
          rw [h.nextId]
          exact (h.opening f op ho).2
        rw [Frames.define, Frames.vars_update_self _ _ hlt]
        exact hold.insert hx v
      · rw [Frames.define, Frames.vars_update_of_ne _ _ he]
        exact hold }

theorem Describes.setField (h : Describes W m) {id : ObjectId} {x : String} {v : Value}
    (hv : W.Knows v) :
    Describes W { m with objects := m.objects.modify id fun fields => fields.insert x v } := by
  refine { h with fields := fun i fields y w hi hg => ?_ }
  have hi : (m.objects.modify id fun fields => fields.insert x v)[i]? = some fields := hi
  rw [Array.getElem?_modify] at hi
  split at hi
  next =>
    obtain ⟨old, hold, rfl⟩ := Option.map_eq_some_iff.1 hi
    rw [Bindings.get?_insert] at hg
    split at hg
    · cases hg
      exact hv
    · exact h.fields i old y w hold hg
  next => exact h.fields i fields y w hi hg

theorem Describes.newObject (h : Describes W m) :
    Describes W { m with objects := m.objects.push .empty } := by
  refine { h with fields := fun i fields y w hi hg => ?_ }
  have hi : (m.objects.push .empty)[i]? = some fields := hi
  rw [Array.getElem?_push] at hi
  split at hi
  · cases hi
    cases hg
  · exact h.fields i fields y w hi hg

/-- What fits what an earlier world knows fits what a later one knows. -/
theorem Le.fits {A B : FrameWorld} (hle : Le A B) {m : Machine} {e : Event}
    (h : Fits A.opening A.known m e) : Fits B.opening B.known m e := by
  cases e with
  | statement s => trivial
  | opened frame o => exact hle.opening frame o h
  | access v name => trivial
  | super id keyword method => trivial
  | read id name =>
    intro d hd
    obtain ⟨hv, p, hp, hi, hn, scope, frame, hf⟩ := h d hd
    obtain ⟨o, ho, hs⟩ := hf.opened
    exact ⟨hv, p, hle.known p hp, hi, hn, scope, frame,
      ⟨hf.depth, hf.around, hf.chain, hf.inner, ⟨o, hle.opening frame o ho, hs⟩, hf.binds⟩⟩

theorem Le.superFits {A B : FrameWorld} (hle : Le A B) {m : Machine} {e : Event}
    (h : SuperFits A.opening A.declared A.known m e) :
    SuperFits B.opening B.declared B.known m e := by
  cases e with
  | opened frame o =>
    refine ⟨hle.opening frame o h.1, fun decl ho => ?_⟩
    obtain ⟨s, c, hs, hv, hc⟩ := h.2 decl ho
    exact ⟨s, c, hs, hv, hle.declared frame c hc⟩
  | super id keyword method =>
    obtain ⟨p, hp, hu, decl, d, c, i, own, hat, hout⟩ := h
    obtain ⟨f, o, hf, ho, hopens⟩ := hat.members
    obtain ⟨g, hg, hop, hc⟩ := hat.superclass
    exact ⟨p, hle.known p hp, hu, decl, d, c, i, own,
      ⟨hat.inside, hat.depth, ⟨f, o, hf, hle.opening f o ho, hopens⟩,
        ⟨g, hg, hle.opening g _ hop, hle.declared g c hc⟩, hat.super, hat.this⟩, hout⟩
  | _ => trivial

/-- A world that a run leads to: it knows what was known before, and the same programs. -/
structure Later (A B : FrameWorld) : Prop where
  le : Le A B
  same : B.known = A.known

/-- What a run does fits what the frames were made for. -/
def reading : Logic FrameWorld where
  le := Later
  refl W := ⟨Le.refl W, rfl⟩
  trans h k := ⟨h.le.trans k.le, k.same.trans h.same⟩
  holds := Describes
  holds_current f h := h.current f
  event W m e := Fits W.opening W.known m e ∧ SuperFits W.opening W.declared W.known m e
  event_mono hle h := ⟨hle.le.fits h.1, hle.le.superFits h.2⟩
  stop _ _ _ := True
  stop_current _ _ := trivial

end FrameWorld

end ClassScript
