import ClassScript.Scope.Frames

/-!
# Walking outward and counting links

A frame is linked to the frame around it, and a name is looked for one link at a time. In a store
that was built from nothing by the operations of this library, the list of frames around a frame is
what those links lead to (`Reachable.linked`): a new frame takes the chain of the frame around it,
and no later change of bindings touches a link. So the frame at a distance is the one that many
links out (`Linked.chain_getElem?`), and the least distance at which a name is bound is where the
walk for the name ends (`slot_of_least`).
-/

set_option autoImplicit false

namespace ClassScript
namespace Frames

variable {V : Type}

/-- Stores that are built by the operations on frames, in any order and on any frames. -/
inductive Reachable : Frames V → Prop
  | none : Reachable ⟨#[]⟩
  | new {s : Frames V} : Reachable s → Reachable s.addRoot
  | child {s : Frames V} {e : FrameId} :
      Reachable s → e < s.nextId → Reachable (s.addChild e .empty)
  | define {s : Frames V} {e : FrameId} {x : String} {v : V} :
      Reachable s → Reachable (s.define e x v)
  | assign {s : Frames V} {e : FrameId} {x : String} {v : V} :
      Reachable s → Reachable (s.assign e x v).2
  | assignAt {s : Frames V} {e : FrameId} {d : Nat} {x : String} {v : V} :
      Reachable s → Reachable (s.assignAt e d x v).2
  | restore {s : Frames V} {e : FrameId} {vars : Bindings V} :
      Reachable s → Reachable (s.restore e vars)

/-- The frame around a frame. -/
def enclosing? (s : Frames V) (e : FrameId) : Option FrameId :=
  s.frames[e]?.bind fun f => f.outer.head?

/-- The frame so many links out. -/
def outward? (s : Frames V) (e : FrameId) : Nat → Option FrameId
  | 0 => some e
  | d + 1 => (s.enclosing? e).bind fun p => s.outward? p d

/-- The links of a store: a chain goes on with the chain of the frame around, which is an older
frame of the store. -/
structure Linked (s : Frames V) : Prop where
  chain : ∀ e < s.nextId, s.chain e = e :: ((s.enclosing? e).map s.chain).getD []
  older : ∀ e p, s.enclosing? e = some p → p < e ∧ e < s.nextId

/-- The store `s'` is the store `s` but for the slot `x` of the frame `f`, which holds `v`. -/
structure SlotSet (s s' : Frames V) (f : FrameId) (x : String) (v : V) : Prop where
  nextId : s'.nextId = s.nextId
  chain : ∀ e, s'.chain e = s.chain e
  vars : ∀ g y, (s'.vars g).get? y = if g = f ∧ y = x then some v else (s.vars g).get? y

/-! ## Links after a change -/

theorem enclosing?_eq_chain (s : Frames V) (e : FrameId) :
    s.enclosing? e = (s.chain e).tail.head? := by
  unfold enclosing? Frames.chain
  cases s.frames[e]? <;> rfl

/-- Stores with the same chains have the same links. -/
theorem enclosing?_congr {s s' : Frames V} {e : FrameId} (h : s'.chain e = s.chain e) :
    s'.enclosing? e = s.enclosing? e := by
  rw [enclosing?_eq_chain, enclosing?_eq_chain, h]

theorem lt_of_enclosing? {s : Frames V} {e p : FrameId} (h : s.enclosing? e = some p) :
    e < s.nextId := by
  refine Nat.lt_of_not_le fun hle => ?_
  have hnone : s.frames[e]? = none := Array.getElem?_eq_none hle
  simp [enclosing?, hnone] at h

theorem Linked.congr {s s' : Frames V} (h : s.Linked) (hn : s'.nextId = s.nextId)
    (hc : ∀ e, s'.chain e = s.chain e) : s'.Linked where
  chain e he := by
    rw [hc, enclosing?_congr (hc e), funext hc]
    exact h.chain e (hn ▸ he)
  older e p hp := by
    rw [enclosing?_congr (hc e)] at hp
    exact hn ▸ h.older e p hp

/-- A store with one more frame is linked when the new frame is, and the chains of the others are
as they were. -/
theorem Linked.extend {s s' : Frames V} (h : s.Linked) (hn : s'.nextId = s.nextId + 1)
    (hold : ∀ e < s.nextId, s'.chain e = s.chain e)
    (hchain : s'.chain s.nextId = s.nextId :: ((s'.enclosing? s.nextId).map s.chain).getD [])
    (holder : ∀ p, s'.enclosing? s.nextId = some p → p < s.nextId) : s'.Linked := by
  have hlast : ∀ e < s'.nextId, e < s.nextId ∨ e = s.nextId := by
    intro e he
    rw [hn] at he
    exact Nat.lt_or_eq_of_le (Nat.le_of_lt_succ he)
  have hmap : ∀ o : Option FrameId, (∀ p, o = some p → p < s.nextId) →
      o.map s'.chain = o.map s.chain := by
    rintro (_ | p) hp
    · rfl
    · rw [Option.map_some, Option.map_some, hold p (hp p rfl)]
  refine ⟨fun e he => ?_, fun e p hp => ?_⟩
  · rcases hlast e he with hlt | rfl
    · rw [enclosing?_congr (hold e hlt), hold e hlt, hmap _ fun p hp => ?_]
      · exact h.chain e hlt
      · exact Nat.lt_trans (h.older e p hp).1 hlt
    · rw [hmap _ holder]
      exact hchain
  · have he := lt_of_enclosing? hp
    rcases hlast e he with hlt | rfl
    · rw [enclosing?_congr (hold e hlt)] at hp
      exact ⟨(h.older e p hp).1, he⟩
    · exact ⟨holder p hp, he⟩

theorem Linked.addRoot {s : Frames V} (h : s.Linked) : s.addRoot.Linked := by
  have hnew : s.addRoot.chain s.nextId = [s.nextId] := by
    rw [chain_addRoot, if_pos rfl]
  have hnone : s.addRoot.enclosing? s.nextId = none := by
    rw [enclosing?_eq_chain, hnew]
    rfl
  refine h.extend (nextId_addRoot s) (fun e he => ?_) ?_ fun p hp => ?_
  · rw [chain_addRoot, if_neg (Nat.ne_of_lt he)]
  · rw [hnone, hnew]
    rfl
  · rw [hnone] at hp
    cases hp

theorem Linked.addChild {s : Frames V} (h : s.Linked) {e : FrameId} (he : e < s.nextId)
    (vars : Bindings V) : (s.addChild e vars).Linked := by
  have hlink : (s.addChild e vars).enclosing? s.nextId = some e := by
    rw [enclosing?_eq_chain, chain_addChild_nextId, List.tail_cons, head?_chain]
  refine h.extend (nextId_addChild s e vars) (fun g hg => chain_addChild_of_lt s e vars hg) ?_
    fun p hp => ?_
  · rw [hlink, chain_addChild_nextId]
    rfl
  · rw [hlink] at hp
    cases hp
    exact he

theorem Linked.update {s : Frames V} (h : s.Linked) (e : FrameId)
    (f : Bindings V → Bindings V) : (s.update e f).Linked :=
  h.congr (nextId_update s e f) fun g => chain_update s e g f

theorem Linked.assignTo {s : Frames V} (h : s.Linked) (x : String) (v : V)
    (found : Except LookupError FrameId) : (s.assignTo x v found).2.Linked := by
  cases found with
  | ok f => exact h.update f (·.insert x v)
  | error e => exact h

/-- Every store that the operations build is linked. -/
theorem Reachable.linked {s : Frames V} (h : s.Reachable) : s.Linked := by
  induction h with
  | none =>
    refine ⟨fun e he => absurd he (Nat.not_lt_zero e), fun e p hp => ?_⟩
    cases hp
  | new _ ih => exact ih.addRoot
  | child _ he ih => exact ih.addChild he .empty
  | define _ ih => exact ih.update _ _
  | assign _ ih => exact ih.assignTo _ _ _
  | assignAt _ ih => exact ih.assignTo _ _ _
  | restore _ ih => exact ih.update _ _

/-! ## The frame at a distance -/

theorem Linked.chain_getElem? {s : Frames V} (h : s.Linked) (d : Nat) {e : FrameId}
    (he : e < s.nextId) : (s.chain e)[d]? = s.outward? e d := by
  induction d generalizing e with
  | zero =>
    rw [h.chain e he]
    rfl
  | succ d ih =>
    rw [h.chain e he, List.getElem?_cons_succ]
    unfold outward?
    cases hp : s.enclosing? e with
    | none => rfl
    | some p => exact ih (Nat.lt_trans (h.older e p hp).1 he)

/-- A name is looked for in the frame itself, and then from the frame around it. -/
theorem Linked.slot_step {s : Frames V} (h : s.Linked) {e : FrameId} (he : e < s.nextId)
    (x : String) :
    s.slot e x =
      if s.binds e x then .ok e
      else ((s.enclosing? e).map fun p => s.slot p x).getD (.error (.unbound x)) := by
  unfold slot
  rw [h.chain e he, List.find?_cons]
  cases s.binds e x with
  | true => rfl
  | false => cases s.enclosing? e <;> rfl

/-- The walk for a name ends at the least distance at which the name is bound. -/
theorem slot_of_least {s : Frames V} (h : s.Linked) {x : String} {f : FrameId}
    (hb : s.binds f x = true) (d : Nat) {e : FrameId} (he : e < s.nextId)
    (hf : s.outward? e d = some f)
    (hleast : ∀ i < d, ∀ g, s.outward? e i = some g → s.binds g x = false) :
    s.slot e x = .ok f := by
  induction d generalizing e with
  | zero =>
    cases hf
    rw [h.slot_step he, if_pos hb]
  | succ d ih =>
    obtain ⟨p, hp, hpf⟩ := Option.bind_eq_some_iff.mp hf
    have hnot : ¬ s.binds e x = true := by
      rw [hleast 0 (Nat.succ_pos d) e rfl]
      exact Bool.false_ne_true
    rw [h.slot_step he, if_neg hnot, hp]
    refine ih (Nat.lt_trans (h.older e p hp).1 he) hpf fun i hi g hg => ?_
    refine hleast (i + 1) (Nat.succ_lt_succ hi) g ?_
    unfold outward?
    rw [hp]
    exact hg

/-- The walk for a name that no frame on the chain binds ends without a frame. -/
theorem slot_of_unbound {s : Frames V} (h : s.Linked) {x : String} (e : FrameId)
    (he : e < s.nextId) (hx : ∀ d f, s.outward? e d = some f → s.binds f x = false) :
    s.slot e x = .error (.unbound x) := by
  -- The frame around is an older one, so the induction is on the number of the frame.
  induction e using Nat.strongRecOn with
  | ind e ih =>
    have hnot : ¬ s.binds e x = true := by
      rw [hx 0 e rfl]
      exact Bool.false_ne_true
    rw [h.slot_step he, if_neg hnot]
    cases hp : s.enclosing? e with
    | none => rfl
    | some p =>
      have hlt := (h.older e p hp).1
      refine ih p hlt (Nat.lt_trans hlt he) fun d f hf => hx (d + 1) f ?_
      unfold outward?
      rw [hp]
      exact hf

/-- Binding a name that a frame binds already changes that slot only. -/
theorem slotSet_define {s : Frames V} {f : FrameId} {x : String} (hb : s.binds f x = true) (v : V) :
    SlotSet s (s.define f x v) f x v where
  nextId := nextId_define s f x v
  chain e := chain_define s f e x v
  vars g y := by
    have hf := lt_of_binds hb
    rw [get?_define]
    congr 1
    simp only [hf, true_and, eq_comm]

/-- What a walk of a known number of links changes. -/
theorem assignAt_ok {s s' : Frames V} {e : FrameId} {d : Nat} {x : String} {v : V}
    (h : s.assignAt e d x v = (.ok (), s')) :
    ∃ f, (s.chain e)[d]? = some f ∧ s.binds f x = true ∧ s' = s.define f x v := by
  unfold assignAt at h
  cases hs : s.slotAt e d x with
  | error err =>
    rw [hs] at h
    cases h
  | ok f =>
    rw [hs] at h
    cases h
    obtain ⟨hf, hb⟩ := (slotAt_ok s e).mp hs
    exact ⟨f, hf, hb, rfl⟩

theorem assignAt_error {s s' : Frames V} {e : FrameId} {d : Nat} {x : String} {v : V}
    {err : LookupError} (h : s.assignAt e d x v = (.error err, s')) : s' = s := by
  unfold assignAt at h
  cases hs : s.slotAt e d x with
  | error err =>
    rw [hs] at h
    cases h
    rfl
  | ok f =>
    rw [hs] at h
    cases h

/-- Going out by the least number of links at which a name is bound and walking outward for the
name read the same value and set the same slot, and only that one. Where no frame on the chain binds
the name, both ends of the walk fail and the store stays as it is. And at any distance, setting a
name fails without a change or changes the one slot of the frame that many links out. -/
theorem getAt_assignAt_least {s : Frames V} (h : s.Reachable) {e : FrameId} (he : e < s.nextId)
    (x : String) :
    (∀ d f, s.outward? e d = some f → s.binds f x = true →
      (∀ i < d, ∀ g, s.outward? e i = some g → s.binds g x = false) →
      (∃ v, (s.vars f).get? x = some v ∧ s.getAt e d x = .ok v ∧ s.get e x = .ok v) ∧
      ∀ v, ∃ s', s.assignAt e d x v = (.ok (), s') ∧ s.assign e x v = (.ok (), s') ∧
        SlotSet s s' f x v) ∧
    ((∀ d f, s.outward? e d = some f → s.binds f x = false) →
      s.get e x = .error (.unbound x) ∧ ∀ v, s.assign e x v = (.error (.unbound x), s)) ∧
    ∀ d v,
      (∀ err s', s.assignAt e d x v = (.error err, s') → s' = s) ∧
      ∀ s', s.assignAt e d x v = (.ok (), s') →
        ∃ f, s.outward? e d = some f ∧ s.binds f x = true ∧ SlotSet s s' f x v := by
  have hl := h.linked
  refine ⟨fun d f hf hb hleast => ?_, fun hx => ?_, fun d v => ⟨fun err s' => assignAt_error, ?_⟩⟩
  · have hslot := slot_of_least hl hb d he hf hleast
    have hat : (s.chain e)[d]? = some f := (hl.chain_getElem? d he).trans hf
    constructor
    · obtain ⟨v, hv⟩ := (binds_iff s f).mp hb
      refine ⟨v, hv, (getAt_ok s e).mpr ⟨f, hat, hv⟩, ?_⟩
      unfold get
      rw [hslot]
      exact (getOwn_ok s f).mpr hv
    · intro v
      refine ⟨s.define f x v, ?_, ?_, slotSet_define hb v⟩
      · unfold assignAt
        rw [(slotAt_ok s e).mpr ⟨hat, hb⟩]
        rfl
      · unfold assign
        rw [hslot]
        rfl
  · have hslot := slot_of_unbound hl e he hx
    constructor
    · unfold get
      rw [hslot]
      rfl
    · intro v
      unfold assign
      rw [hslot]
      rfl
  · intro s' hs'
    obtain ⟨f, hf, hb, rfl⟩ := assignAt_ok hs'
    exact ⟨f, (hl.chain_getElem? d he).symm.trans hf, hb, slotSet_define hb v⟩

/-- Three frames, each inside the one before. The middle one shadowed `x` for a while and was put
back to what it held before. -/
def restoredMiddle : Frames Nat :=
  let outer := (addRoot ⟨#[]⟩).define 0 "x" 1
  let shadowing := (outer.addChild 0 .empty).define 1 "x" 2
  (shadowing.addChild 1 .empty).restore 1 .empty

theorem restoredMiddle_least :
    restoredMiddle.getAt 2 2 "x" = .ok 1 ∧ restoredMiddle.get 2 "x" = .ok 1 ∧
      (∃ s', restoredMiddle.assignAt 2 2 "x" 7 = (.ok (), s') ∧
        restoredMiddle.assign 2 "x" 7 = (.ok (), s') ∧ SlotSet restoredMiddle s' 0 "x" 7) ∧
      restoredMiddle.get 2 "y" = .error (.unbound "y") := by
  have hr : restoredMiddle.Reachable :=
    (((Reachable.none.new.define).child (by decide)).define.child (by decide)).restore
  have hx := (getAt_assignAt_least hr (e := 2) (by decide) "x").1 2 0 rfl (by decide) ?_
  · obtain ⟨⟨v, hv, hat, hget⟩, hset⟩ := hx
    cases hv
    refine ⟨hat, hget, hset 7, ?_⟩
    refine ((getAt_assignAt_least hr (e := 2) (by decide) "y").2.1 fun d f hf => ?_).1
    match d, hf with
    | 0, hf | 1, hf | 2, hf =>
      cases hf
      decide
    | d + 3, hf => cases hf
  · intro i hi g hg
    match i, hg with
    | 0, hg | 1, hg =>
      cases hg
      decide
    | i + 2, _ => omega

end Frames

end ClassScript
