import ClassScript.Proofs.Requests
import ClassScript.Proofs.TypedPrograms
import ClassScript.Proofs.TypedRuns

/-!
# Runs of checked programs

A program that passes the check is typed under the plan of the machine that has loaded it
(`Checker.program_typed`), if global names keep their types and so do fields that are entered again
(`Plan.Fits`). So a machine that a world describes is described by a later one after the run
(`TypeWorld.interpret_typed`), and after its global names have been brought back. The run asks for
what is there or is a field that an object lacks still, and stops because a property is not defined
only for such a field.
-/

set_option autoImplicit false

namespace ClassScript

open Typing TypeWorld

/-! ## Plans of machines -/

/-- The plan for the uses of names that a machine knows. -/
def Plan.knowing (P : Plan) (m : Machine) : Plan :=
  { P with distance := m.distance?, uses := m.nextUse }

namespace TypeWorld

variable {P Q : Plan} {W W' : TypeWorld} {m m' n : Machine}

namespace Holds

/-- A machine is described under every plan for uses that it knows. -/
theorem plan (h : Holds P W m) (hle : P.Le Q) (hd : ∀ id < Q.uses, m.distance? id = Q.distance id)
    (hu : Q.uses ≤ m.nextUse) : Holds Q W m where
  nextId := h.nextId
  chain := h.chain
  root := h.root
  rootLt := h.rootLt
  values f x v hv := by
    obtain ⟨τ, hτ, hs⟩ := h.values f x v hv
    exact ⟨τ, hτ, hs.plan hle⟩
  bound f x hf hb := h.bound f x (by rw [← hle.strict]; exact hf) hb
  globals x τ hx := by
    rw [hle.globals]
    exact h.globals x τ hx
  size := h.size
  fields i d fields x v hd hi hx := by
    obtain ⟨ty, hf, ht⟩ := h.fields i d fields x v hd hi hx
    refine ⟨ty, ?_, ht.plan hle⟩
    rw [hle.classes]
    exact hf
  present := h.present
  natives := h.natives
  distances := hd
  uses := hu

/-- The plan for what a machine knows later. -/
theorem le_knowing (h : Holds (P.knowing n) W m) : (P.knowing n).Le (P.knowing m) :=
  ⟨rfl, rfl, rfl, rfl, h.uses, h.distances⟩

theorem knowing (h : Holds (P.knowing n) W m) : Holds (P.knowing m) W m :=
  h.plan h.le_knowing (fun _ _ => rfl) (Nat.le_refl _)

/-- A machine stays described when it learns the distances of a program, accepted or not. -/
theorem load (h : Holds (P.knowing m) W m) {l : Loaded} (hl : l.Numbered m.nextUse) :
    Holds (P.knowing (m.load l)) W (m.load l) := by
  have hload : Holds (P.knowing m) W (m.load l) :=
    ⟨h.nextId, h.chain, h.root, h.rootLt, h.values, h.bound, h.globals, h.size, h.fields, h.present,
      h.natives, fun _ hid => Machine.distance?_load_of_lt hl hid,
      by rw [Machine.nextUse_load hl]; exact hl.le⟩
  exact hload.knowing

theorem setClock (h : Holds P W m) (clock : Clock) : Holds P W (m.setClock clock) := by
  obtain ⟨c, hc⟩ := h.natives
  exact ⟨h.nextId, h.chain, h.root, h.rootLt, h.values, h.bound, h.globals, h.size, h.fields,
    h.present, ⟨clock, by simp [Machine.setClock, hc]⟩, h.distances, h.uses⟩

/-- Earlier global names may be brought back, unless the plan is strict. -/
theorem restore (h : Holds P W' m') (hstrict : P.strict = false) (hm : Holds P W m)
    (hle : Le (some Machine.globalFrame) W W') : Holds P W' (m'.restoreGlobals m.globals) := by
  refine ⟨?_, fun f => ?_, h.root, h.rootLt, fun f x v hv => ?_, fun f x hf hb => ?_, h.globals,
    h.size, h.fields, h.present, h.natives, h.distances, h.uses⟩
  · simp [Machine.restoreGlobals, Frames.restore, h.nextId]
  · simp [Machine.restoreGlobals, Frames.restore, h.chain]
  · simp only [Machine.restoreGlobals, Frames.restore] at hv
    by_cases hf : Machine.globalFrame = f
    · subst hf
      rw [Frames.vars_update_self _ _ (by rw [h.nextId]; exact h.rootLt)] at hv
      obtain ⟨τ, hτ, hs⟩ := hm.values _ x v hv
      exact ⟨τ, hle.types _ x τ hτ, hs.mono hle⟩
    · rw [Frames.vars_update_of_ne _ _ hf] at hv
      exact h.values f x v hv
  · have hne : Machine.globalFrame ≠ f := by
      rintro rfl
      rcases hf with hs | hne
      · rw [hstrict] at hs
        cases hs
      · exact hne rfl
    have hbound := h.bound f x hf hb
    simp only [Machine.restoreGlobals, Frames.restore, Frames.binds]
    rw [Frames.vars_update_of_ne _ _ hne]
    exact hbound

end Holds

/-! ## The machine before the first program -/

/-- The type of the built-in function. -/
def clockType : Ty :=
  .function "" [] .number

/-- What is known before the first program. -/
def initial : TypeWorld :=
  ⟨Frames.new.define Machine.globalFrame "clock" clockType, #[], []⟩

/-- At first the global frame binds one name and is the only frame. -/
theorem get?_initial {V : Type} (v : V) (f : FrameId) (x : String) :
    ((Frames.new.define Machine.globalFrame "clock" v).vars f).get? x =
      if f = Machine.globalFrame ∧ x = "clock" then some v else none := by
  have hempty : ((Frames.new : Frames V).vars f).get? x = none := by cases f <;> rfl
  rw [Frames.get?_define, hempty]
  refine if_congr ⟨fun ⟨hf, _, hx⟩ => ⟨hf.symm, hx.symm⟩, fun ⟨hf, hx⟩ => ?_⟩ rfl rfl
  exact ⟨hf.symm, Nat.zero_lt_one, hx.symm⟩

theorem holds_initial (hclock : P.globals "clock" = some clockType) (clock : Clock) (sink : Sink) :
    Holds (P.knowing (.new clock sink)) initial (.new clock sink) where
  nextId := rfl
  chain f := by simp only [Machine.new, initial, Frames.chain_define]; cases f <;> rfl
  root := rfl
  rootLt := Nat.zero_lt_one
  values f x v hv := by
    replace hv : ((Frames.new.define Machine.globalFrame "clock" (.native 0 0)).vars f).get? x =
      some v := hv
    rw [get?_initial] at hv
    split at hv
    next hx =>
      cases hv
      refine ⟨clockType, by rw [initial, get?_initial, if_pos hx], fun _ => .inl ⟨rfl, rfl, rfl⟩,
        fun he => ?_, fun _ h => by cases h⟩
      exact absurd (hx.2.symm.trans he) (by decide)
    · cases hv
  bound f x _ hb := by
    obtain ⟨τ, hτ⟩ := (Frames.binds_iff _ f).1 hb
    rw [initial, get?_initial] at hτ
    split at hτ
    next hx =>
      exact (Frames.binds_iff _ f).2
        ⟨Value.native 0 0, (get?_initial _ f x).trans (if_pos hx)⟩
    · cases hτ
  globals x τ hx := by
    rw [initial, get?_initial] at hx
    split at hx
    next h =>
      cases hx
      rw [h.2]
      exact hclock
    · cases hx
  size := rfl
  fields i d fields x v hd := by simp [initial] at hd
  present i x hx := nomatch hx
  natives := ⟨clock, rfl⟩
  distances _ _ := rfl
  uses := Nat.le_refl _

theorem around_initial (hclock : P.globals "clock" = some clockType) :
    Around P initial Machine.globalFrame Checker.new.start.scope where
  lt := Nat.zero_lt_one
  chain := ⟨[], rfl, .nil⟩
  globals x ty hx := by
    replace hx : (Bindings.single "clock" (Ty.function "clock" [] .number)).get? x = some ty := hx
    rw [Bindings.get?_single] at hx
    split at hx
    next h =>
      cases hx
      subst h
      refine ⟨hclock, fun _ => (Frames.binds_iff _ _).2 ⟨clockType, ?_⟩⟩
      rw [initial, get?_initial, if_pos ⟨rfl, rfl⟩]
    · cases hx

end TypeWorld

/-! ## Accepted programs -/

/-- What a check meets fits the plan: a global name is bound to its type, and a field that is entered
again keeps its type. Under a strict plan no local variable is assigned to in its own initial value,
and under a sealed one the initial values of fields do not use the object. -/
def Plan.Fits (P : Plan) : Moment → Prop
  | .used u => P.strict = true → ¬ u.InOwnInitializer
  | .bound name ty scope => scope.locals = [] → P.globals name.text = some ty.erase
  | .entered id d ty t => (∀ old, t.ownField? id d.name.text = some old → old.erase = ty.erase) ∧
      (P.sealed = true → d.plain = true)

/-- Each use of a name that the check meets stands at a place of the program. -/
theorem Agreed.place {ps : List Place} {ms : List Moment} (h : Agreed ps ms) {u : CheckedUse}
    (hu : .used u ∈ ms) : ∃ p ∈ ps, Agree p u := by
  have hmem : u ∈ checkedUses ms := List.mem_filterMap.2 ⟨_, hu, rfl⟩
  obtain ⟨i, hi, rfl⟩ := List.mem_iff_getElem.1 hmem
  have hlt : i < ps.length := h.uses.length_eq ▸ hi
  exact ⟨ps[i], List.getElem_mem hlt, h.uses.get hlt hi⟩

section

variable {P : Plan} {m : Machine} {l : Loaded} {c c' : Checker}

/-- The plan of a machine that has loaded a program covers what the check of the program meets. -/
theorem Plan.Fits.covers (hl : l.Accepted m.nextUse) (hc : c.check l.program = (.ok (), c'))
    {x : Moment} (hx : x ∈ c.moments l.program) (hf : P.Fits x) :
    (P.knowing (m.load l)).Covers x := by
  have hagree := hl.uses_agree hc
  cases x with
  | used u =>
    obtain ⟨p, hp, hpu⟩ := hagree.place hx
    have hdistance : (m.load l).distance? u.use.id = p.depth? :=
      hpu.use ▸ Machine.distance?_load hl hp
    refine ⟨?_, fun hown => hdistance.trans (hpu.depth hown), fun hown => ⟨?_, ?_⟩⟩
    · show u.use.id < (m.load l).nextUse
      rw [Machine.nextUse_load hl.numbered, ← hpu.use]
      exact (hl.place_bounds hp).2
    · cases hs : P.strict with
      | false => exact hs
      | true => exact absurd hown (hf hs)
    · exact hdistance.trans (hpu.own hown).1
  | bound name ty scope => exact ⟨hagree.fresh name ty scope hx, hf⟩
  | entered id d ty t => exact hf

/-- An accepted program is typed from the global names known before to those known after it. -/
theorem Checker.program_typed (hl : l.Accepted m.nextUse) (hc : c.check l.program = (.ok (), c'))
    (hg : c.start.Good) (hsuper : c.globals.get? "super" = none)
    (hgrow : c'.classes.Grows P.classes) (hf : ∀ x ∈ c.moments l.program, P.Fits x) :
    ∃ Γ : TypeScope, Stmt.TypedAll (P.knowing (m.load l)) .void c.start.scope l.program Γ ∧
      Γ.globals = c'.globals ∧ c'.globals.get? "super" = none := by
  have hcovers (x : Moment) (hx : x ∈ c.moments l.program) := (hf x hx).covers hl hc hx
  rw [check_eq] at hc
  split at hc
  next st hst =>
    cases hc
    have hsupers : c.start.scope.Supers (P.knowing (m.load l)).classes :=
      ⟨hsuper, fun k b ty hk => nomatch hk⟩
    obtain ⟨htyped, hsupers'⟩ := stmts_typed l.program hl.shaped hg hsupers hcovers hst hgrow
    exact ⟨st.scope, htyped, rfl, hsupers'.globals⟩
  · cases hc

end

/-! ## Runs -/

namespace TypeWorld

variable {P : Plan} {W : TypeWorld} {m : Machine} {Γ Γ' : TypeScope}

/-- Statements at the top level are run as their types say. -/
theorem runAll_typed {exec : Watch → Run.ExecFn} (hexec : ExecTyped P exec) {returns : Ty}
    {program : List (Stmt NodeId)} (hm : Holds P W m) (hh : Here P W m.current Γ)
    (ht : Stmt.TypedAll P returns Γ program Γ') :
    Safe (typing P (some m.current)) W (fun w => Machine.runAll (exec w) program) m
      fun W' _ _ => Here P W' m.current Γ' := by
  induction program generalizing W m Γ with
  | nil =>
    cases ht
    exact Safe.pure hm hh
  | cons s rest ih =>
    cases ht with
    | cons hs hr =>
      refine (hexec W m returns Γ _ s hm hh hs).bind ?_
      rintro W' flow m' - hm' hc ⟨-, hh', -⟩
      have hc : m'.current = m.current := hc
      rw [← hc] at hh' ⊢
      exact ih hm' hh' hr

/-- The global frame binds the global names and no others. -/
theorem Around.atGlobal (h : Around P W Machine.globalFrame Γ) (hl : Γ.locals = []) :
    Here P W Machine.globalFrame Γ :=
  ⟨h, fun b outer hb => by rw [hl] at hb; cases hb⟩

/-- Around the global frame no local names are in force. -/
theorem Around.ofGlobals (h : Around P W Machine.globalFrame Γ)
    (hroot : W.frames.chain Machine.globalFrame = [Machine.globalFrame]) :
    Γ = ⟨Γ.globals, []⟩ := by
  obtain ⟨fs, hc, hf⟩ := h.chain
  rw [hroot] at hc
  obtain ⟨globals, locals⟩ := Γ
  cases fs with
  | nil =>
    cases hf
    rfl
  | cons f rest => simp at hc

/-- A machine that runs a typed program among the global names is described by a later world, stops
only as the plan admits, and is asked only for what is there or is still to be set. -/
theorem interpret_typed {returns : Ty} {program : List (Stmt NodeId)} {globals : Bindings Ty}
    (hm : Holds P W m) (ha : Around P W Machine.globalFrame ⟨globals, []⟩)
    (ht : Stmt.TypedAll P returns ⟨globals, []⟩ program Γ') (fuel : Nat) :
    ∃ W', Le (some Machine.globalFrame) W W' ∧ Holds P W' (m.interpret fuel program).2 ∧
      ((m.interpret fuel program).1 = .ok () →
        Around P W' Machine.globalFrame ⟨Γ'.globals, []⟩) ∧
      (∀ e, (m.interpret fuel program).1 = .error e → P.Stops e ∧
        ∀ x, e.IsUndefined x → ∃ i, Lacks P W' (m.interpret fuel program).2 i x) ∧
      ∀ watch : Watch, (∀ n (e : Event), e.Typed ∧ Served P W' n e → watch e n = .ok () n) →
        m.interpretWith watch fuel program = m.interpret fuel program := by
  have hmain : Holds P W { m with current := Machine.globalFrame } :=
    (typing P none).holds_current Machine.globalFrame hm
  obtain ⟨W', hle, hm', hend, hstops, hwatch⟩ :=
    (runAll_typed (run_typed P fuel).2 hmain (ha.atGlobal rfl) ht).interpret
  refine ⟨W', hle, hm', fun hok => ?_, fun e he => ?_, fun watch hq => hwatch watch hq⟩
  · have hglobal := (hend hok).around
    rwa [hglobal.ofGlobals hm'.root] at hglobal
  · rcases hstops e he with h | ⟨o, rfl⟩
    · exact h
    · exact ⟨trivial, fun _ h => h.elim⟩

end TypeWorld

end ClassScript
