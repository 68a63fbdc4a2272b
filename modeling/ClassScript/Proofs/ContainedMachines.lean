import ClassScript.Proofs.PaddedMachines
import ClassScript.Proofs.ReadsFound

/-!
# Machines that hold what they know

A machine is contained if its frames lie in frames that it has, and the functions that it holds have
frames and uses of names that it has (`Machine.Contained`). Such a machine corresponds to itself, also
after it has learned distances for more uses of names (`Machine.Contained.moved`). All machines of
sessions are contained: the ones that programs start with (`Session.contained`), and those after each
statement in them (`FrameWorld.execution_contained`).
-/

set_option autoImplicit false

namespace ClassScript

/-! ## Values -/

/-- The function has a frame and uses of names below these numbers. -/
def Closure.Within (frames : FrameId) (uses : NodeId) (c : Closure) : Prop :=
  c.frame < frames ∧ ∀ o ∈ Stmt.occurrencesRoutine c.decl, o.id < uses

/-- The members of the layer have frames and uses of names below these numbers. -/
structure Layer.Within (frames : FrameId) (uses : NodeId) (l : Layer) : Prop where
  frame : l.frame < frames
  fields : ∀ o ∈ VarDecl.occurrencesAll l.fields, o.id < uses
  methods : ∀ x c, l.methods.get? x = some c → c.Within frames uses

/-- The functions and methods in a value have frames and uses of names below these numbers. -/
def Value.Within (frames : FrameId) (uses : NodeId) : Value → Prop
  | .function _ c => c.Within frames uses
  | .classObject c => ∀ layer ∈ c.layers, layer.Within frames uses
  | .object _ c => ∀ layer ∈ c.layers, layer.Within frames uses
  | _ => True

/-- The first frames, each of which corresponds to itself. -/
def Homes.self (frames : FrameId) : Homes :=
  (List.range frames).map fun f => (f, .nowhere)

theorem Homes.home_self {n : FrameId} {f f' : FrameId} {p : Pad} :
    (Homes.self n).Home f f' p ↔ f < n ∧ f' = f ∧ p = .nowhere := by
  unfold Homes.Home Homes.self
  rw [List.getElem?_map]
  by_cases h : f < n
  · rw [List.getElem?_range h]
    simp [h, eq_comm]
  · rw [List.getElem?_eq_none (by rw [List.length_range]; exact Nat.le_of_not_lt h)]
    simp [h]

theorem Bindings.both_self {V : Type} {R : V → V → Prop} {b : Bindings V}
    (h : ∀ x v, b.get? x = some v → R v v) : b.Both R b :=
  fun x => rel_self (h x)

section

variable {D : Distances} {frames : FrameId} {uses : NodeId}

/-- Uses of names that both machines know alike. -/
abbrev Distances.Fixes (D : Distances) (uses : NodeId) : Prop :=
  ∀ id < uses, D.use id = id ∧ D.padded id = D.plain id

variable (hD : D.Fixes uses)
include hD

theorem Distances.Fixes.agreeOn {os : List (Occurrence NodeId)} (h : ∀ o ∈ os, o.id < uses) :
    D.code.AgreeOn .same os :=
  ⟨rfl, fun o ho => (hD o.id (h o ho)).1⟩

theorem Distances.Fixes.same {os : List (Occurrence NodeId)} (h : ∀ o ∈ os, o.id < uses) :
    D.Same os :=
  fun o ho => (hD o.id (h o ho)).2

theorem Closure.Within.moved {inside : Pad → Pad} (hinside : inside .nowhere = .nowhere) {c : Closure}
    (h : c.Within frames uses) : c.Moved D (Homes.self frames) inside c := by
  obtain ⟨hframe, huses⟩ := h
  refine ⟨?_, rfl, .nowhere, Homes.home_self.2 ⟨hframe, rfl, rfl⟩, ?_⟩
  · exact ((Stmt.relabelRoutine_congr c.decl (hD.agreeOn huses)).trans
      (Stmt.relabelRoutine_same c.decl)).symm
  · rw [hinside]
    exact Stmt.fitsRoutine_of_same c.decl (hD.same huses)

theorem Layer.Within.moved {l : Layer} (h : l.Within frames uses) :
    l.Moved D (Homes.self frames) l where
  id := rfl
  name := rfl
  fields := by
    rw [VarDecl.relabelAll_congr (hD.agreeOn h.fields)]
    exact ((List.map_congr_left fun d _ => d.relabel_same).trans (List.map_id' l.fields)).symm
  home := ⟨.nowhere, Homes.home_self.2 ⟨h.frame, rfl, rfl⟩, (hD.same h.fields).moves⟩
  methods := Bindings.both_self fun x c hc => (h.methods x c hc).moved hD rfl

theorem ClassValue.moved_self {c : ClassValue} (h : ∀ layer ∈ c.layers, layer.Within frames uses) :
    c.Moved D (Homes.self frames) c := by
  obtain ⟨hown, hinherited⟩ := List.forall_mem_cons.1 h
  exact ⟨hown.moved hD, List.forall₂_same.2 fun l hl => (hinherited l hl).moved hD⟩

theorem Value.Within.moved {v : Value} (h : v.Within frames uses) :
    v.Moved D (Homes.self frames) v := by
  cases v with
  | nil => exact .nil
  | boolean b => exact .boolean b
  | number x => exact .number x
  | string s => exact .string s
  | native id arity => exact .native id arity
  | function id c => exact .function (Closure.Within.moved hD rfl h)
  | classObject c => exact .classObject (ClassValue.moved_self hD h)
  | object id c => exact .object (ClassValue.moved_self hD h)

end

section

variable {frames frames' : FrameId} {uses uses' : NodeId}

theorem Value.Within.mono {v : Value} (h : v.Within frames uses) (hf : frames ≤ frames')
    (hu : uses ≤ uses') : v.Within frames' uses' := by
  have hclosure {c : Closure} (hc : c.Within frames uses) : c.Within frames' uses' :=
    ⟨Nat.lt_of_lt_of_le hc.1 hf, fun o ho => Nat.lt_of_lt_of_le (hc.2 o ho) hu⟩
  have hlayer {l : Layer} (hl : l.Within frames uses) : l.Within frames' uses' :=
    ⟨Nat.lt_of_lt_of_le hl.frame hf, fun o ho => Nat.lt_of_lt_of_le (hl.fields o ho) hu,
      fun x c hc => hclosure (hl.methods x c hc)⟩
  cases v with
  | function id c => exact hclosure h
  | classObject c => exact fun l hl => hlayer (h l hl)
  | object id c => exact fun l hl => hlayer (h l hl)
  | _ => trivial

end

/-! ## Machines -/

namespace Machine

/-- Frames lie in frames that there are, the functions that the machine holds have frames and uses of names
that it has, and the functions of the host do not look into them. -/
structure Contained (m : Machine) : Prop where
  chain : ∀ f < m.frames.nextId, ∀ g ∈ m.frames.chain f, g < m.frames.nextId
  current : m.current < m.frames.nextId
  globals : globalFrame < m.frames.nextId
  values : ∀ f x v, (m.frames.vars f).get? x = some v → v.Within m.frames.nextId m.nextUse
  fields : ∀ i x v, m.field? i x = some v → v.Within m.frames.nextId m.nextUse
  natives : ∀ f ∈ m.natives, f.Uniform

/-- The frames of a machine, each of which corresponds to itself. -/
def selfWorld (m : Machine) : PadWorld :=
  ⟨Homes.self m.frames.nextId, m.current, m.current, .nowhere, none⟩

/-- A contained machine corresponds to itself, whatever it knows of uses of names that it does not have. -/
theorem Contained.moved {m : Machine} (h : m.Contained) {D : Distances} (hD : D.Fixes m.nextUse)
    (distances : Array (Option Nat))
    (hplain : ∀ id, ({ m with distances } : Machine).distance? id = D.plain id)
    (hpadded : ∀ id, m.distance? (D.use id) = D.padded id) :
    Moved D m.selfWorld { m with distances } m where
  count := by simp [selfWorld, Homes.self]
  lt f f' p hf := by
    obtain ⟨hlt, rfl, -⟩ := Homes.home_self.1 hf
    exact hlt
  injective f g f' p q hf hg := by
    obtain ⟨-, rfl, -⟩ := Homes.home_self.1 hf
    exact (Homes.home_self.1 hg).2.1
  vars f f' p hf := by
    obtain ⟨-, rfl, -⟩ := Homes.home_self.1 hf
    exact Bindings.both_self fun x v hv => (h.values _ x v hv).moved hD
  chain f f' p hf := by
    obtain ⟨hlt, rfl, rfl⟩ := Homes.home_self.1 hf
    exact .nowhere (List.forall₂_same.2 fun g hg =>
      ⟨.nowhere, Homes.home_self.2 ⟨h.chain _ hlt g hg, rfl, rfl⟩⟩)
  extra _ _ he := nomatch he
  globals := Homes.home_self.2 ⟨h.globals, rfl, rfl⟩
  objectCount := rfl
  fields i x := rel_self fun v hv => (h.fields i x v hv).moved hD
  natives := rfl
  uniform := h.natives
  nextIdentity := rfl
  sink := rfl
  plain := hplain
  padded := hpadded
  current := rfl
  current' := rfl
  stands := .inl (Homes.home_self.2 ⟨h.current, rfl, rfl⟩)

/-- A machine that has only read sources is contained. -/
theorem new_contained (clock : Clock) (sink : Sink) : (Machine.new clock sink).Contained := by
  have hvars (f : FrameId) : (Frames.new : Frames Value).vars f = .empty := by
    cases f <;> rfl
  refine ⟨fun f hf g hg => ?_, Nat.zero_lt_one, Nat.zero_lt_one, fun f x v hv => ?_, fun i x v hv => ?_,
    fun f hf => ?_⟩
  · obtain rfl : f = 0 := Nat.lt_one_iff.1 hf
    obtain rfl : g = 0 := List.mem_singleton.1 hg
    exact Nat.zero_lt_one
  · simp only [Machine.new, Frames.get?_define, hvars] at hv
    split at hv
    · cases hv
      trivial
    · cases hv
  · simp [Machine.field?, Machine.new] at hv
  · obtain rfl : f = .clock clock := by simpa [Machine.new] using hf
    exact Native.clock_uniform clock

theorem Contained.load {m : Machine} (h : m.Contained) {l : Loaded} (hl : l.Numbered m.nextUse) :
    (m.load l).Contained := by
  have hle : m.nextUse ≤ (m.load l).nextUse := by
    rw [nextUse_load hl]
    exact hl.le
  exact
    { chain := h.chain
      current := h.current
      globals := h.globals
      values := fun f x v hv => (h.values f x v hv).mono (Nat.le_refl _) hle
      fields := fun i x v hv => (h.fields i x v hv).mono (Nat.le_refl _) hle
      natives := h.natives }

end Machine

/-! ## Machines of sessions -/

namespace FrameWorld

variable {W : FrameWorld} {m : Machine} {uses : NodeId}

section

variable (hn : ∀ p ∈ W.known, p.use.id < uses)
include hn

theorem RoutineKnown.lt_uses {l : Lexical} {decl : FunctionDecl (Stmt NodeId)}
    (h : W.RoutineKnown l decl) : ∀ o ∈ Stmt.occurrencesRoutine decl, o.id < uses := by
  intro o ho
  rw [← Stmt.uses_placesRoutine decl l] at ho
  obtain ⟨p, hp, rfl⟩ := List.mem_map.1 ho
  exact hn p (h.covers p hp)

theorem KnowsLayer.within {layer : Layer} (h : W.KnowsLayer layer) :
    layer.Within W.frames.nextId uses := by
  obtain ⟨hmethods, l, decl, hl, -, hfields⟩ := h
  refine ⟨hl.lt, fun o ho => hn _ (hfields o ho), fun x c hc => ?_⟩
  obtain ⟨l', decl', hl', -, hknown⟩ := hmethods x c hc
  exact ⟨hl'.lt, hknown.lt_uses hn⟩

/-- The code in a known value has frames that there are and known uses of names. -/
theorem Knows.within {v : Value} (h : W.Knows v) : v.Within W.frames.nextId uses := by
  cases v with
  | function id c =>
    obtain ⟨l, hl, hknown⟩ := h
    exact ⟨hl.lt, hknown.lt_uses hn⟩
  | classObject c => exact fun layer hlayer => (h layer hlayer).within hn
  | object id c => exact fun layer hlayer => (h layer hlayer).within hn
  | _ => trivial

end

/-- A machine in step with a world is contained. -/
theorem Describes.contained (h : Describes W m) (hcurrent : m.current < W.frames.nextId) :
    m.Contained where
  chain f hf g hg := by
    rw [h.nextId] at hf ⊢
    exact h.inside f hf g (h.chain f ▸ hg)
  current := h.nextId ▸ hcurrent
  globals := h.nextId ▸ h.rootLt
  values f x v hv := h.nextId ▸ (h.values f x v hv).within h.numbered
  fields i x v hv := by
    obtain ⟨fields, hi, hx⟩ := Option.bind_eq_some_iff.1 hv
    exact h.nextId ▸ (h.fields i fields x v hi hx).within h.numbered
  natives f hf := by
    obtain ⟨c, hc⟩ := h.natives
    obtain rfl : f = .clock c := by simpa [hc] using hf
    exact Native.clock_uniform c

/-- A statement of a loaded program leads from a machine of a session to contained machines. -/
theorem execution_contained (hm : Describes W m) {l : Lexical} (hl : W.Synced m.current l)
    {s : Stmt NodeId} (hs : W.StmtKnown l s) (fuel : Nat) {flow : Flow} {m' : Machine}
    (h : Run.execWith .none fuel s m = .ok flow m') : m'.Contained := by
  have hsafe := (run_known fuel).2 W m l s hm hl hs
  unfold Safe at hsafe
  dsimp only at hsafe
  rw [h] at hsafe
  obtain ⟨W', hle, hm', hcurrent, -, -⟩ := hsafe
  exact hm'.contained (hcurrent ▸ Nat.lt_of_lt_of_le hl.lt hle.le.nextId)

end FrameWorld

namespace Session

open FrameWorld

/-- Requests keep the machine of a session in step with a world. -/
theorem replay_described {requests : List Request} {W : FrameWorld} {s : Session}
    (h : Describes W s.machine) :
    ∃ W', Describes W' (s.replay .none requests).2.machine := by
  induction requests generalizing W s with
  | nil => exact ⟨W, h⟩
  | cons r rest ih =>
    obtain ⟨W', -, -, hnext, -⟩ := serve_known h r
    exact ih hnext

/-- Whatever was asked of a session, the machine that the next program starts with is contained. -/
theorem contained (typeCheck : Bool) (clock : Clock) (sink : Sink) (requests : List Request) :
    ({ ((Session.new typeCheck clock sink).replay .none requests).2.machine with
        current := Machine.globalFrame } : Machine).Contained := by
  obtain ⟨W, hW⟩ := replay_described (s := Session.new typeCheck clock sink)
    (describes_initial clock sink)
  exact (hW.current Machine.globalFrame).contained hW.rootLt

end Session

end ClassScript
