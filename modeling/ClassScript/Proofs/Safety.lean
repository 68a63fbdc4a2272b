import ClassScript.Machine.Eval
import Mathlib.Data.List.Forall2

/-!
# Safe runs

A run changes a machine, and what is known of the machine grows with it: a `Logic` says what a world
knows, which machines it describes, which events it admits and with what a run may stop. `Safe` says
that a part of a run leads to a machine that a later world describes, stops in no other way than
it may, and goes the same under every watch that lets the admitted events pass. It is proved along
the program: `Safe.bind` for its steps, `Safe.told` for what a watch is told, `Safe.inFrame` for a
change of the frame, and `Safe.evalAll` for the arguments of a call.
-/

set_option autoImplicit false

namespace ClassScript

/-- One part of a run after another. -/
theorem Run.bind_apply {α β : Type} (x : Run α) (f : α → Run β) (m : Machine) :
    (x >>= f) m =
      match x m with
      | .ok a n => f a n
      | .error e n => .error e n := by
  show EStateM.bind x f m = _
  unfold EStateM.bind
  cases x m <;> rfl

/-- A part of a run in another frame. -/
theorem Run.inFrame_apply {α : Type} (frame : FrameId) (x : Run α) (m : Machine) :
    Run.inFrame frame x m =
      match x { m with current := frame } with
      | .ok a n => .ok a { n with current := m.current }
      | .error e n => .error e { n with current := m.current } := rfl

/-- The state in which a part of a run ends. -/
def Run.last {α : Type} : EStateM.Result Stop Machine α → Machine
  | .ok _ m => m
  | .error _ m => m

/-- The frame of before is current again, also after a failure. -/
theorem Run.last_inFrame {α : Type} (frame : FrameId) (x : Run α) (m : Machine) :
    Run.last (Run.inFrame frame x m) =
      { Run.last (x { m with current := frame }) with current := m.current } := by
  rw [Run.inFrame_apply]
  cases x { m with current := frame } <;> rfl

/-- The outcome of a run is that of its statements, unless the flush at its end fails. -/
theorem Machine.finish_outcome (outcome : Except Stop Unit) (m : Machine) :
    (finish outcome m).1 = outcome ∨ ∃ e, (finish outcome m).1 = .error (.output e) := by
  unfold finish
  split
  · exact .inl rfl
  · exact .inr ⟨_, rfl⟩

/-- What is claimed of runs. -/
structure Logic (World : Type) where
  /-- A world knows what an earlier one does. -/
  le : World → World → Prop
  refl : ∀ W, le W W
  trans : ∀ {A B C}, le A B → le B C → le A C
  /-- The world describes the machine, whatever its current frame. -/
  holds : World → Machine → Prop
  holds_current : ∀ {W m} (f : FrameId), holds W m → holds W { m with current := f }
  /-- The event may happen at the machine. -/
  event : World → Machine → Event → Prop
  event_mono : ∀ {W W' m e}, le W W' → event W m e → event W' m e
  /-- The run may stop so at the machine. -/
  stop : World → Machine → Stop → Prop
  stop_current : ∀ {W m e} (f : FrameId), stop W m e → stop W { m with current := f } e

variable {World α β : Type}

/-- The watch lets all admitted events pass. -/
def Quiet (L : Logic World) (W : World) (w : Watch) : Prop :=
  ∀ m e, L.event W m e → w e m = .ok () m

theorem Quiet.earlier {L : Logic World} {W W' : World} {w : Watch} (h : Quiet L W' w)
    (hle : L.le W W') : Quiet L W w :=
  fun m e he => h m e (L.event_mono hle he)

/-- A part of a run is safe from a machine on, with `R` of what it leads to. -/
def Safe (L : Logic World) (W : World) (x : Watch → Run α) (m : Machine)
    (R : World → α → Machine → Prop) : Prop :=
  match x .none m with
  | .ok a m' =>
    ∃ W', L.le W W' ∧ L.holds W' m' ∧ m'.current = m.current ∧ R W' a m' ∧
      ∀ w, Quiet L W' w → x w m = .ok a m'
  | .error e m' =>
    ∃ W', L.le W W' ∧ L.holds W' m' ∧ L.stop W' m' e ∧ ∀ w, Quiet L W' w → x w m = .error e m'

namespace Safe

variable {L : Logic World} {W W' : World} {m m' : Machine} {x : Watch → Run α}
  {R : World → α → Machine → Prop}

/-- A part of a run that no watch is told of. -/
theorem of_ok {a : α} (hx : ∀ w, x w m = .ok a m') (hle : L.le W W') (hm : L.holds W' m')
    (hc : m'.current = m.current) (hR : R W' a m') : Safe L W x m R := by
  unfold Safe
  rw [hx]
  exact ⟨W', hle, hm, hc, hR, fun w _ => hx w⟩

theorem of_error {e : Stop} (hx : ∀ w, x w m = .error e m') (hs : L.stop W' m' e)
    (hle : L.le W W') (hm : L.holds W' m') : Safe L W x m R := by
  unfold Safe
  rw [hx]
  exact ⟨W', hle, hm, hs, fun w _ => hx w⟩

theorem pure {a : α} (hm : L.holds W m) (hR : R W a m) :
    Safe L W (fun _ => (Pure.pure a : Run α)) m R :=
  of_ok (fun _ => rfl) (L.refl W) hm rfl hR

theorem throw {e : Stop} (hm : L.holds W m) (hs : L.stop W m e) :
    Safe L W (fun _ => (throwThe Stop e : Run α)) m R :=
  of_error (fun _ => rfl) hs (L.refl W) hm

theorem fail {cause : RuntimeCause} {line : Nat} (hm : L.holds W m)
    (hs : L.stop W m (.fault ⟨cause, line⟩)) : Safe L W (fun _ => (Run.fail cause line : Run α)) m R :=
  throw hm hs

/-- What is computed without the machine. -/
theorem ofExcept {r : Except RuntimeError α} (hm : L.holds W m) (hok : ∀ a, r = .ok a → R W a m)
    (herr : ∀ e, r = .error e → L.stop W m (.fault e)) : Safe L W (fun _ => Run.ofExcept r) m R := by
  cases r with
  | ok a => exact pure hm (hok a rfl)
  | error e => exact throw hm (herr e rfl)

/-- What is looked up in the machine. -/
theorem ofLookup {line : Nat} {r : Except LookupError α} (hm : L.holds W m)
    (hok : ∀ a, r = .ok a → R W a m)
    (herr : ∀ e, r = .error e → L.stop W m (.fault ⟨.undefinedVariable e.name, line⟩)) :
    Safe L W (fun _ => Run.ofLookup line r) m R := by
  cases r with
  | ok a => exact pure hm (hok a rfl)
  | error e => exact fail hm (herr e rfl)

theorem mono {R' : World → α → Machine → Prop} (h : Safe L W x m R)
    (hR : ∀ W' a m', L.le W W' → L.holds W' m' → m'.current = m.current → R W' a m' → R' W' a m') :
    Safe L W x m R' := by
  unfold Safe at h ⊢
  split at h
  · obtain ⟨W', hle, hm, hc, hr, hw⟩ := h
    exact ⟨W', hle, hm, hc, hR _ _ _ hle hm hc hr, hw⟩
  · exact h

theorem bind {f : Watch → α → Run β} {S : World → β → Machine → Prop} (hx : Safe L W x m R)
    (hf : ∀ W' a m', L.le W W' → L.holds W' m' → m'.current = m.current → R W' a m' →
      Safe L W' (fun w => f w a) m' S) :
    Safe L W (fun w => x w >>= f w) m S := by
  unfold Safe at hx
  cases hr : x .none m with
  | error e m' =>
    rw [hr] at hx
    obtain ⟨W', hle, hm, hs, hw⟩ := hx
    unfold Safe
    dsimp only
    rw [Run.bind_apply, hr]
    exact ⟨W', hle, hm, hs, fun w hq => by rw [Run.bind_apply, hw w hq]⟩
  | ok a m' =>
    rw [hr] at hx
    obtain ⟨W', hle, hm, hc, hR, hw⟩ := hx
    have hnext := hf W' a m' hle hm hc hR
    unfold Safe at hnext ⊢
    dsimp only at hnext ⊢
    rw [Run.bind_apply, hr]
    dsimp only
    split at hnext
    next b m'' hb =>
      obtain ⟨W'', hle', hm', hc', hS, hw'⟩ := hnext
      rw [hb]
      refine ⟨W'', L.trans hle hle', hm', hc'.trans hc, hS, fun w hq => ?_⟩
      rw [Run.bind_apply, hw w (hq.earlier hle')]
      exact hw' w hq
    next e m'' he =>
      obtain ⟨W'', hle', hm', hs, hw'⟩ := hnext
      rw [he]
      refine ⟨W'', L.trans hle hle', hm', hs, fun w hq => ?_⟩
      rw [Run.bind_apply, hw w (hq.earlier hle')]
      exact hw' w hq

/-- What a watch is told changes nothing. -/
theorem tell {e : Event} {R : World → Unit → Machine → Prop} (hm : L.holds W m)
    (he : L.event W m e) (hR : R W () m) : Safe L W (fun w => w e) m R := by
  refine ⟨W, L.refl W, hm, rfl, hR, fun w hq => hq m e he⟩

/-- After a watch has been told of an event, the run goes on from the same machine. -/
theorem told {e : Event} (hm : L.holds W m) (he : L.event W m e) (h : Safe L W x m R) :
    Safe L W (fun w => w e >>= fun _ => x w) m R := by
  refine (tell (R := fun V _ n => V = W ∧ n = m) hm he ⟨rfl, rfl⟩).bind ?_
  rintro _ _ _ - - - ⟨rfl, rfl⟩
  exact h

theorem get {f : Watch → Machine → Run α} (h : Safe L W (fun w => f w m) m R) :
    Safe L W (fun w => MonadState.get >>= f w) m R :=
  h

/-- A lookup that finds a value goes on with it. -/
theorem found {line : Nat} {r : Except LookupError α} {a : α} (hr : r = .ok a)
    {f : Watch → α → Run β} {S : World → β → Machine → Prop}
    (h : Safe L W (fun w => f w a) m S) : Safe L W (fun w => Run.ofLookup line r >>= f w) m S := by
  subst hr
  exact h

/-- The same run in a logic with another order of the worlds. -/
theorem reorder {L' : Logic World} {V : World} (h : Safe L W x m R)
    (hle : ∀ W', L.le W W' → L'.le V W') (hholds : L'.holds = L.holds) (hevent : L'.event = L.event)
    (hstop : L'.stop = L.stop) : Safe L' V x m R := by
  have quiet (W' : World) (w : Watch) (hq : Quiet L' W' w) : Quiet L W' w := by
    intro m e he
    refine hq m e ?_
    rw [hevent]
    exact he
  unfold Safe at h ⊢
  rw [hholds, hstop]
  split at h
  · obtain ⟨W', hl, hm, hc, hR, hw⟩ := h
    exact ⟨W', hle W' hl, hm, hc, hR, fun w hq => hw w (quiet W' w hq)⟩
  · obtain ⟨W', hl, hm, hs, hw⟩ := h
    exact ⟨W', hle W' hl, hm, hs, fun w hq => hw w (quiet W' w hq)⟩

/-- A run in another frame, after which the frame of before is current again. -/
theorem inFrame {f : FrameId} (h : Safe L W x { m with current := f } R) :
    Safe L W (fun w => Run.inFrame f (x w)) m fun W' a m' => R W' a { m' with current := f } := by
  unfold Safe at h ⊢
  dsimp only
  rw [Run.inFrame_apply]
  split at h
  next a m' hr =>
    obtain ⟨W', hle, hm, hc, hR, hw⟩ := h
    refine ⟨W', hle, L.holds_current _ hm, rfl, ?_, fun w hq => by rw [Run.inFrame_apply, hw w hq]⟩
    have hself : { m' with current := f } = m' := by
      obtain ⟨frames, objects, natives, identity, distances, current, sink⟩ := m'
      cases hc
      rfl
    show R W' a { m' with current := f }
    rw [hself]
    exact hR
  next e m' hr =>
    obtain ⟨W', hle, hm, hs, hw⟩ := h
    exact ⟨W', hle, L.holds_current _ hm, L.stop_current _ hs, fun w hq => by rw [Run.inFrame_apply, hw w hq]⟩

/-- The arguments of a call, one after the other: `I` is kept, and each value has the property. -/
theorem evalAll {eval : Watch → Run.EvalFn} {I : World → Machine → Prop}
    {P : World → Expr NodeId → Value → Prop}
    (hP : ∀ {W W' e v}, L.le W W' → P W e v → P W' e v) {es : List (Expr NodeId)}
    (h : ∀ e ∈ es, ∀ W m, L.holds W m → I W m →
      Safe L W (fun w => eval w e) m fun W' v m' => I W' m' ∧ P W' e v)
    (hm : L.holds W m) (hI : I W m) :
    Safe L W (fun w => Run.evalAll (eval w) es) m fun W' vs m' =>
      I W' m' ∧ List.Forall₂ (P W') es vs := by
  induction es generalizing W m with
  | nil => exact pure hm ⟨hI, .nil⟩
  | cons e rest ih =>
    refine (h e (List.mem_cons_self ..) W m hm hI).bind ?_
    rintro W' v m' - hm' - ⟨hI', hv⟩
    refine (ih (fun x hx => h x (List.mem_cons_of_mem e hx)) hm' hI').bind ?_
    rintro W'' vs m'' hle hm'' - ⟨hI'', hvs⟩
    exact pure hm'' ⟨hI'', .cons (hP hle hv) hvs⟩

/-- A property of an object is a field, or else a method. -/
theorem property {object : Value} {name : Name} {R : World → Value → Machine → Prop}
    (hm : L.holds W m) (he : L.event W m (.access object name))
    (hother : L.stop W m (.fault ⟨.notObject, name.line⟩))
    (hfield : ∀ i c v, object = .object i c → m.field? i name.text = some v → R W v m)
    (hmethod : ∀ i c f, object = .object i c → m.field? i name.text = none →
      c.findMethod? name.text = some f → Safe L W (fun w => Run.methodValue w f object) m R)
    (hmissing : ∀ i c, object = .object i c → m.field? i name.text = none →
      c.findMethod? name.text = none →
      L.stop W m (.fault ⟨.undefinedProperty name.text, name.line⟩)) :
    Safe L W (fun w => Run.property w object name) m R := by
  unfold Run.property
  refine told hm he ?_
  cases object with
  | object i c =>
    have hget : Safe L W (fun _ => Run.getField? i name.text) m fun V r n =>
        V = W ∧ n = m ∧ r = m.field? i name.text := get (pure hm ⟨rfl, rfl, rfl⟩)
    refine hget.bind ?_
    rintro _ _ _ - - - ⟨rfl, rfl, rfl⟩
    split
    next v hv => exact pure hm (hfield i c v rfl hv)
    next hv =>
      split
      next f hf => exact hmethod i c f rfl hv hf
      next hf => exact fail hm (hmissing i c rfl hv hf)
  | _ => exact fail hm hother

/-- Where `super` and `this` are found, a method is looked for in the class that is `super`. -/
theorem superMethod {id : NodeId} {keyword method : Name} {d : Nat} {c own : ClassValue}
    {i : ObjectId} {R : World → Value → Machine → Prop} (hd : m.distance? id = some (d + 1))
    (hsuper : m.frames.getAt m.current (d + 1) "super" = .ok (.classObject c))
    (hthis : m.frames.getAt m.current d "this" = .ok (.object i own)) (hm : L.holds W m)
    (he : L.event W m (.super id keyword method))
    (hfound : ∀ f, c.findMethod? method.text = some f →
      Safe L W (fun w => Run.methodValue w f (.object i own)) m R)
    (hnone : c.findMethod? method.text = none →
      L.stop W m (.fault ⟨.undefinedProperty method.text, method.line⟩)) :
    Safe L W (fun w => Run.superMethod w id keyword method) m R := by
  unfold Run.superMethod
  refine told hm he (get ?_)
  rw [hd]
  dsimp only
  refine found hsuper ?_
  dsimp only
  rw [Nat.add_sub_cancel]
  refine found hthis ?_
  dsimp only
  split
  next f hf => exact hfound f hf
  next hf => exact fail hm (hnone hf)

/-- What a safe run leads to, when no watch looks at it. -/
theorem run_none {x : Watch → Run α} (h : Safe L W x m R) :
    (∃ a m' W', x .none m = .ok a m' ∧ L.le W W' ∧ L.holds W' m' ∧ R W' a m' ∧
      ∀ w, Quiet L W' w → x w m = x .none m) ∨
    (∃ e m' W', x .none m = .error e m' ∧ L.stop W' m' e ∧ L.le W W' ∧ L.holds W' m' ∧
      ∀ w, Quiet L W' w → x w m = x .none m) := by
  unfold Safe at h
  split at h
  next a m' hr =>
    obtain ⟨W', hle, hm, -, hR, hw⟩ := h
    exact .inl ⟨a, m', W', hr, hle, hm, hR, fun w hq => by rw [hw w hq, hr]⟩
  next e m' hr =>
    obtain ⟨W', hle, hm, hs, hw⟩ := h
    exact .inr ⟨e, m', W', hr, hs, hle, hm, fun w hq => by rw [hw w hq, hr]⟩

/-- What a safe run of a program leads to. A run that is safe may still fail to flush the output. -/
theorem interpret {fuel : Nat} {program : List (Stmt NodeId)} {R : World → Unit → Machine → Prop}
    (h : Safe L W (fun w => Machine.runAll (Run.execWith w fuel) program)
      { m with current := Machine.globalFrame } R) :
    ∃ W', L.le W W' ∧ L.holds W' (m.interpret fuel program).2 ∧
      ((m.interpret fuel program).1 = .ok () → R W' () (m.interpret fuel program).2) ∧
      (∀ e, (m.interpret fuel program).1 = .error e →
        L.stop W' (m.interpret fuel program).2 e ∨ ∃ o, e = .output o) ∧
      ∀ w, Quiet L W' w → m.interpretWith w fuel program = m.interpret fuel program := by
  unfold Machine.interpret Machine.interpretWith
  rcases h.run_none with ⟨a, m', W', hr, hle, hm, hR, hw⟩ | ⟨e, m', W', hr, hs, hle, hm, hw⟩
  · refine ⟨W', hle, ?_, fun _ => ?_, fun e he => ?_, fun w hq => by rw [hw w hq]⟩
    · rw [hr]
      exact (Machine.finish_machine _ m').symm ▸ hm
    · rw [hr]
      exact (Machine.finish_machine _ m').symm ▸ hR
    · rw [hr] at he
      rcases Machine.finish_outcome (.ok ()) m' with h | ⟨o, h⟩
      · cases he.symm.trans h
      · exact .inr ⟨o, Except.error.inj (he.symm.trans h)⟩
  · refine ⟨W', hle, ?_, fun hok => ?_, fun e' he => ?_, fun w hq => by rw [hw w hq]⟩
    · rw [hr]
      exact (Machine.finish_machine _ m').symm ▸ hm
    · rw [hr] at hok
      rcases Machine.finish_outcome (.error e) m' with h | ⟨o, h⟩ <;> cases hok.symm.trans h
    · rw [hr] at he ⊢
      rcases Machine.finish_outcome (.error e) m' with h | ⟨o, h⟩
      · cases he.symm.trans h
        exact .inl ((Machine.finish_machine _ m').symm ▸ hs)
      · exact .inr ⟨o, Except.error.inj (he.symm.trans h)⟩

end Safe

end ClassScript
