import ClassScript.Proofs.LaterMachines

/-!
# Output that is cut off

A run reads nothing from where its output goes, so a sink that refuses bytes cannot change what is
written before. Two runs are compared, one with a sink that takes everything and one with the sink
`cut` at `n` bytes: they do the same until a print goes past `n` bytes, where the second one stops
(`Run.CutShort`). The first one may go on, but it only adds to its output (`Sink.Prolongs`), so the
bytes of the second one stay its first `n`.
-/

set_option autoImplicit false

namespace ClassScript

/-! ## Sinks -/

namespace Sink

/-- The sink refuses all bytes after the first `n` of its output. -/
def cut (s : Sink) (n : Nat) : Sink :=
  { s with room := some (n + 1 - s.written.size) }

/-- A sink that takes everything and has taken at most `n` bytes. -/
structure Within (n : Nat) (s : Sink) : Prop where
  room : s.room = none
  size : s.written.size ≤ n

/-- The second sink takes everything, and has taken what the first one has, and more. -/
structure Prolongs (s s' : Sink) : Prop where
  room : s'.room = none
  flushFails : s'.flushFails = s.flushFails
  written : ∃ rest, s'.written = s.written ++ rest

/-- The first sink has taken more than `n` bytes, the second one the first `n` of them and has
refused the next one. -/
structure Refused (n : Nat) (s s' : Sink) : Prop where
  size : n < s.written.size
  written : s'.written = s.written.extract 0 n
  room : s'.room = some 0
  flushFails : s'.flushFails = s.flushFails

variable {s s' k : Sink} {n : Nat}

theorem Prolongs.refl (h : s.room = none) : s.Prolongs s :=
  ⟨h, rfl, .empty, ByteArray.append_empty.symm⟩

theorem Prolongs.trans (h : s.Prolongs s') (h' : s'.Prolongs k) : s.Prolongs k := by
  obtain ⟨rest, hrest⟩ := h.written
  obtain ⟨rest', hrest'⟩ := h'.written
  refine ⟨h'.room, h'.flushFails.trans h.flushFails, rest ++ rest', ?_⟩
  rw [hrest', hrest, ByteArray.append_assoc]

/-- What has been taken before stays when a byte has been refused. -/
theorem Refused.prolongs (h : Refused n s k) (h' : s.Prolongs s') : Refused n s' k := by
  obtain ⟨rest, hrest⟩ := h'.written
  have hsize := h.size
  refine ⟨?_, ?_, h.room, h.flushFails.trans h'.flushFails.symm⟩
  · rw [hrest, ByteArray.size_append]
    exact Nat.lt_add_right _ hsize
  · rw [h.written, hrest, ByteArray.extract_append, Nat.sub_eq_zero_of_le (Nat.le_of_lt hsize)]
    simp

theorem write_unlimited (h : s.room = none) (text : String) :
    s.write text = (.ok (), ⟨s.written ++ text.toUTF8, none, s.flushFails⟩) := by
  unfold write
  rw [h]

theorem prolongs_write (h : s.room = none) (text : String) : s.Prolongs (s.write text).2 := by
  rw [write_unlimited h]
  exact ⟨rfl, rfl, _, rfl⟩

/-- A text that does not go past the first `n` bytes is written as to a sink that takes everything. -/
theorem write_cut_within (h : s.Within n) {text : String}
    (hfits : s.written.size + text.toUTF8.size ≤ n) :
    (s.write text).2.Within n ∧ (s.cut n).write text = (.ok (), (s.write text).2.cut n) := by
  have hsize : (s.written ++ text.toUTF8).size = s.written.size + text.toUTF8.size :=
    ByteArray.size_append
  rw [write_unlimited h.room]
  refine ⟨⟨rfl, hsize ▸ hfits⟩, ?_⟩
  have hroom : text.toUTF8.size < n + 1 - s.written.size := by omega
  unfold write cut
  dsimp only
  rw [if_pos hroom, hsize, Nat.sub_sub]

/-- A text that goes past the first `n` bytes is written up to them. -/
theorem write_cut_past (h : s.Within n) {text : String}
    (hpast : n < s.written.size + text.toUTF8.size) :
    ((s.cut n).write text).1 = .error .full ∧
      Refused n (s.write text).2 ((s.cut n).write text).2 := by
  have hle := h.size
  have hroom : ¬ text.toUTF8.size < n + 1 - s.written.size := by omega
  have hrest : n + 1 - s.written.size - 1 = n - s.written.size := by omega
  have hkept : s.written.extract 0 n = s.written := by
    rw [← Nat.max_eq_left hle]
    exact ByteArray.extract_zero_max_size
  rw [write_unlimited h.room]
  unfold write cut
  dsimp only
  rw [if_neg hroom, hrest]
  refine ⟨rfl, ?_, ?_, rfl, rfl⟩
  · rw [ByteArray.size_append]
    exact hpast
  · rw [ByteArray.extract_append, hkept, Nat.zero_sub]

end Sink

/-! ## Parts of runs -/

/-- The machine whose sink refuses all bytes after the first `n` of its output. -/
def Machine.cut (m : Machine) (n : Nat) : Machine :=
  { m with sink := m.sink.cut n }

theorem Machine.cut_enter (m : Machine) (n : Nat) (frame : FrameId) :
    ({ m.cut n with current := frame } : Machine) = Machine.cut { m with current := frame } n := rfl

namespace Run

variable {α β : Type} {n : Nat}

/-- How a part of a run ends with a sink that takes everything, and with the sink cut at `n` bytes:
in the same way, or at a byte that is refused. -/
inductive CutShort (n : Nat) :
    EStateM.Result Stop Machine α → EStateM.Result Stop Machine α → Prop
  | ok {a : α} {m : Machine} : m.sink.Within n → CutShort n (.ok a m) (.ok a (m.cut n))
  | error {e : Stop} {m : Machine} : m.sink.Within n → CutShort n (.error e m) (.error e (m.cut n))
  | full {r : EStateM.Result Stop Machine α} {k : Machine} :
      Sink.Refused n (last r).sink k.sink → CutShort n r (.error (.output .full) k)

/-- With a sink that takes everything a part of a run adds to the output; with the sink cut at `n`
bytes it does the same up to the first byte that is refused, and nothing after that. -/
structure Cuts (n : Nat) (x : Watch → Run α) : Prop where
  prolongs : ∀ m : Machine, m.sink.room = none → m.sink.Prolongs (last (x .none m)).sink
  short : ∀ m : Machine, m.sink.Within n → CutShort n (x .none m) (x .none (m.cut n))
  seen : ∀ m : Machine, m.sink.Within n → ∀ watch : Watch,
    (∀ k e, k.sink.room ≠ some 0 → watch e k = .ok () k) → x watch (m.cut n) = x .none (m.cut n)

namespace Cuts

variable {x : Watch → Run α} {f : Watch → α → Run β}

theorem bind (hx : Cuts n x) (hf : ∀ a, Cuts n fun w => f w a) :
    Cuts n fun w => x w >>= f w where
  prolongs m hm := by
    have hfirst := hx.prolongs m hm
    rw [bind_apply]
    cases hr : x .none m with
    | ok a k =>
      rw [hr] at hfirst
      exact hfirst.trans ((hf a).prolongs k hfirst.room)
    | error e k =>
      rw [hr] at hfirst
      exact hfirst
  short m hm := by
    have hfirst := hx.prolongs m hm.room
    have hshort := hx.short m hm
    rw [bind_apply, bind_apply]
    generalize x .none m = r at hfirst hshort
    generalize x .none (m.cut n) = r' at hshort
    cases hshort with
    | ok hk => exact (hf _).short _ hk
    | error hk => exact .error hk
    | full href =>
      -- The run with the other sink may go on, and what it writes comes after the first `n` bytes.
      cases r with
      | ok a k => exact .full (href.prolongs ((hf a).prolongs k hfirst.room))
      | error e k => exact .full href
  seen m hm watch hw := by
    have hshort := hx.short m hm
    rw [bind_apply, bind_apply, hx.seen m hm watch hw]
    generalize x .none m = r at hshort
    generalize x .none (m.cut n) = r' at hshort
    cases hshort with
    | ok hk => exact (hf _).seen _ hk watch hw
    | error _ => rfl
    | full _ => rfl

theorem pure (a : α) : Cuts n fun _ => (Pure.pure a : Run α) where
  prolongs _ hm := .refl hm
  short _ hm := .ok hm
  seen _ _ _ _ := rfl

theorem throw (e : Stop) : Cuts n fun _ => (throwThe Stop e : Run α) where
  prolongs _ hm := .refl hm
  short _ hm := .error hm
  seen _ _ _ _ := rfl

/-- What does not depend on the sink may depend on the rest of the machine. -/
theorem get {f : Watch → Machine → Run α} (hf : ∀ w m sink, f w { m with sink } = f w m)
    (h : ∀ m, Cuts n fun w => f w m) : Cuts n fun w => MonadState.get >>= f w where
  prolongs m hm := (h m).prolongs m hm
  short m hm := by
    have hcut : f .none (m.cut n) = f .none m := hf .none m _
    show CutShort n (f .none m m) (f .none (m.cut n) (m.cut n))
    rw [hcut]
    exact (h m).short m hm
  seen m hm watch hw := by
    have hcut (w : Watch) : f w (m.cut n) = f w m := hf w m _
    show f watch (m.cut n) (m.cut n) = f .none (m.cut n) (m.cut n)
    rw [hcut, hcut]
    exact (h m).seen m hm watch hw

theorem tell (e : Event) : Cuts n fun w => w e where
  prolongs _ hm := .refl hm
  short _ hm := .ok hm
  seen m hm watch hw := hw (m.cut n) e fun hroom => by
    have hsize := hm.size
    have hzero : n + 1 - m.sink.written.size = 0 := Option.some.inj hroom
    omega

/-- An operation that has nothing to do with the sink. -/
theorem change {f : Machine → Machine} {g : Machine → α}
    (hf : ∀ m sink, f { m with sink } = { f m with sink }) (hg : ∀ m sink, g { m with sink } = g m) :
    Cuts n fun _ => (modifyGet fun m => (g m, f m) : Run α) := by
  have hsink (m : Machine) : (f m).sink = m.sink := by
    have hsame : f m = { f m with sink := m.sink } := hf m m.sink
    rw [hsame]
  refine ⟨fun m hm => ?_, fun m hm => ?_, fun _ _ _ _ => rfl⟩
  · show m.sink.Prolongs (f m).sink
    rw [hsink]
    exact .refl hm
  · have hcut : f (m.cut n) = (f m).cut n := by
      unfold Machine.cut
      rw [hf, hsink]
    show CutShort n (.ok (g m) (f m)) (.ok (g (m.cut n)) (f (m.cut n)))
    rw [hcut, show g (m.cut n) = g m from hg m _]
    refine .ok ?_
    rw [hsink]
    exact hm

/-- The frame is left also when a byte has been refused. -/
theorem inFrame {x : Watch → Run α} (frame : FrameId) (hx : Cuts n x) :
    Cuts n fun w => Run.inFrame frame (x w) where
  prolongs m hm := by
    rw [last_inFrame]
    exact hx.prolongs { m with current := frame } hm
  short m hm := by
    have h := hx.short { m with current := frame } hm
    rw [inFrame_apply, inFrame_apply, Machine.cut_enter]
    generalize x .none { m with current := frame } = r at h
    generalize x .none (Machine.cut { m with current := frame } n) = r' at h
    cases h with
    | ok hk => exact .ok hk
    | error hk => exact .error hk
    | full href =>
      cases r with
      | ok a k => exact .full href
      | error e k => exact .full href
  seen m hm watch hw := by
    have h := hx.seen { m with current := frame } hm watch hw
    rw [inFrame_apply, inFrame_apply, Machine.cut_enter, h]

theorem print (text : String) : Cuts n fun _ => Run.print text where
  prolongs m hm := by
    have h := Sink.prolongs_write hm (text ++ "\n")
    unfold Run.print
    rw [Sink.write_unlimited hm] at h ⊢
    exact h
  short m hm := by
    have hwrite := Sink.write_unlimited hm.room (text ++ "\n")
    have hsink : (m.cut n).sink = m.sink.cut n := rfl
    unfold Run.print
    rw [hsink]
    by_cases hfits : m.sink.written.size + (text ++ "\n").toUTF8.size ≤ n
    · obtain ⟨hwithin, hcut⟩ := Sink.write_cut_within hm hfits
      rw [hcut]
      rw [hwrite] at hwithin ⊢
      exact .ok hwithin
    · obtain ⟨hfull, href⟩ := Sink.write_cut_past hm (Nat.lt_of_not_le hfits)
      rw [hwrite] at href ⊢
      generalize (m.sink.cut n).write (text ++ "\n") = w at hfull href
      obtain ⟨result, sink⟩ := w
      cases hfull
      exact .full href
  seen _ _ _ _ := rfl

end Cuts

/-- A sink that is cut has nothing to do with what a run does before. -/
theorem cuts_rules (n : Nat) : Rules fun _ x => Cuts n x where
  pure := .pure
  throw := .throw
  bind := .bind
  get := .get
  tell := .tell
  inFrame := .inFrame
  freshIdentity := .change (fun _ _ => rfl) fun _ _ => rfl
  newFrame _ _ := .change (fun _ _ => rfl) fun _ _ => rfl
  newObject := .change (fun _ _ => rfl) fun _ _ => rfl
  setField _ _ _ := .change (fun _ _ => rfl) fun _ _ => rfl
  define _ _ := .change (fun _ _ => rfl) fun _ _ => rfl
  defineIn _ _ _ := .change (fun _ _ => rfl) fun _ _ => rfl
  print := .print

end Run

/-! ## Programs -/

namespace Machine

/-- All events of the run of a program have the property: no watch that lets such events pass changes
the run. -/
def EveryEvent (m : Machine) (fuel : Nat) (program : List (Stmt NodeId))
    (P : Machine → Event → Prop) : Prop :=
  ∀ watch : Watch, (∀ k e, P k e → watch e k = .ok () k) →
    m.interpretWith watch fuel program = m.interpret fuel program

variable {m : Machine} {n : Nat}

/-- The outcome of the statements of a program. -/
def outcome : EStateM.Result Stop Machine Unit → Except Stop Unit
  | .ok _ _ => .ok ()
  | .error e _ => .error e

/-- Without a failure to flush, a program ends as its statements do. -/
theorem interpret_of_flushes {fuel : Nat} {program : List (Stmt NodeId)}
    {r : EStateM.Result Stop Machine Unit}
    (hr : runAll (Run.execWith .none fuel) program { m with current := globalFrame } = r)
    (hf : (Run.last r).sink.flushFails = false) :
    m.interpret fuel program = (outcome r, Run.last r) := by
  have hfinish (o : Except Stop Unit) : finish o (Run.last r) = (o, Run.last r) := by
    unfold finish Sink.flush
    rw [hf]
    rfl
  unfold interpret interpretWith
  rw [hr]
  cases r with
  | ok a k => exact hfinish (.ok ())
  | error e k => exact hfinish (.error e)

/-- How a program ends with a sink that takes everything, and with the sink cut at `n` bytes. -/
theorem interpret_cut (hm : m.sink.Within n) (hf : m.sink.flushFails = false) (fuel : Nat)
    (program : List (Stmt NodeId)) :
    ((m.interpret fuel program).2.sink.Within n ∧
      (m.cut n).interpret fuel program =
        ((m.interpret fuel program).1, (m.interpret fuel program).2.cut n)) ∨
    (((m.cut n).interpret fuel program).1 = .error (.output .full) ∧
      Sink.Refused n (m.interpret fuel program).2.sink
        ((m.cut n).interpret fuel program).2.sink) := by
  have hcuts := (Run.cuts_rules n).program fuel program
  have hlonger := hcuts.prolongs { m with current := globalFrame } hm.room
  have hshort := hcuts.short { m with current := globalFrame } hm
  have hflush := hlonger.flushFails.trans hf
  generalize hr : runAll (Run.execWith .none fuel) program { m with current := globalFrame } = r
    at hshort hflush
  generalize hr' : runAll (Run.execWith .none fuel) program
    (Machine.cut { m with current := globalFrame } n) = r' at hshort
  rw [interpret_of_flushes hr hflush]
  cases hshort with
  | ok hk =>
    rw [interpret_of_flushes (m := m.cut n) hr' hflush]
    exact .inl ⟨hk, rfl⟩
  | error hk =>
    rw [interpret_of_flushes (m := m.cut n) hr' hflush]
    exact .inl ⟨hk, rfl⟩
  | full href =>
    rw [interpret_of_flushes (m := m.cut n) hr' (href.flushFails.trans hflush)]
    exact .inr ⟨rfl, href⟩

/-- A program ends among the global names, also if it fails. -/
theorem interpret_unwinds (m : Machine) (fuel : Nat) (program : List (Stmt NodeId)) :
    (m.interpret fuel program).2.current = globalFrame := by
  unfold interpret
  rw [interpretWith_machine]
  exact Run.unwinds_rules.program fuel program { m with current := globalFrame }

/-- Nothing happens after the first byte that is refused. -/
theorem everyEvent_cut (hm : m.sink.Within n) (fuel : Nat) (program : List (Stmt NodeId)) :
    (m.cut n).EveryEvent fuel program fun k _ => k.sink.room ≠ some 0 := by
  intro watch hw
  have hseen := ((Run.cuts_rules n).program fuel program).seen { m with current := globalFrame } hm
    watch hw
  unfold interpret interpretWith
  rw [cut_enter, hseen]

/-- A sink that takes only the first `n` bytes does no more than cut off the output. A program that
writes at most `n` bytes ends with the same result, the same output and the same global names, and in
the same state. One that writes more, whatever its result is, ends with the failure of the sink and
with the first `n` bytes of its output. And no statement begins, nor does any other event happen, after
the print of which a byte has been refused; all frames that were entered are left. -/
theorem interpret_limited (m : Machine) (fuel : Nat) (program : List (Stmt NodeId)) (n : Nat) :
    let full := { m with sink := .unlimited }.interpret fuel program
    let short := { m with sink := .limited n }.interpret fuel program
    let out := full.2.sink.written
    (if out.size ≤ n then
      short.1 = full.1 ∧ short.2.sink.written = out ∧ short.2.globals = full.2.globals ∧
        { short.2 with sink := full.2.sink } = full.2
    else short.1 = .error (.output .full) ∧ short.2.sink.written = out.extract 0 n) ∧
    { m with sink := .limited n }.EveryEvent fuel program (fun k _ => k.sink.room ≠ some 0) ∧
    short.2.current = globalFrame := by
  intro full short out
  have hm : ({ m with sink := .unlimited } : Machine).sink.Within n := ⟨rfl, Nat.zero_le n⟩
  refine ⟨?_, everyEvent_cut hm fuel program, interpret_unwinds _ fuel program⟩
  rcases interpret_cut hm rfl fuel program with ⟨hwithin, hshort⟩ | ⟨hresult, href⟩
  · have hs : short = (full.1, full.2.cut n) := hshort
    rw [if_pos hwithin.size, hs]
    exact ⟨rfl, rfl, rfl, rfl⟩
  · rw [if_neg (Nat.not_le_of_lt href.size)]
    exact ⟨hresult, href.written⟩

end Machine

end ClassScript
