import ClassScript.Proofs.Objects
import ClassScript.Proofs.Requests
import ClassScript.Proofs.RunRules
import Mathlib.Logic.Relation

/-!
# Later machines

All that happens to a machine is a sequence of a few operations (`Machine.Step`). A property that
these operations keep is kept by every run: it holds of all states that a watch sees, and of the
last one (`Run.Keeps`, `Run.keeps_rules`, `Session.replay_keeps`). In particular all these states are
later ones of the state in which the run begins (`Machine.Later.runsIn`), and no operation takes a
field away from an object (`Machine.Later.isSome_field?`).
-/

set_option autoImplicit false

namespace ClassScript

namespace Machine

/-- One operation on a machine. -/
inductive Step : Machine → Machine → Prop
  | enter {m : Machine} (f : FrameId) : Step m { m with current := f }
  | frame {m : Machine} (outer : FrameId) (vars : Bindings Value) :
      Step m { m with frames := m.frames.addChild outer vars }
  | bind {m : Machine} (f : FrameId) (x : String) (v : Value) :
      Step m { m with frames := m.frames.define f x v }
  | object {m : Machine} : Step m { m with objects := m.objects.push .empty }
  | field {m : Machine} (i : ObjectId) (x : String) (v : Value) :
      Step m { m with objects := m.objects.modify i fun fields => fields.insert x v }
  | identity {m : Machine} : Step m { m with nextIdentity := m.nextIdentity + 1 }
  | output {m : Machine} (sink : Sink) : Step m { m with sink }
  | load {m : Machine} (l : Loaded) : Step m (m.load l)
  | restore {m : Machine} (vars : Bindings Value) : Step m (m.restoreGlobals vars)
  | clock {m : Machine} (c : Clock) : Step m (m.setClock c)

/-- Operations lead from one machine to the other. -/
def Later : Machine → Machine → Prop :=
  Relation.ReflTransGen Step

namespace Later

variable {m n k : Machine}

theorem refl (m : Machine) : m.Later m :=
  Relation.ReflTransGen.refl

theorem trans (h : m.Later n) (h' : n.Later k) : m.Later k :=
  Relation.ReflTransGen.trans h h'

theorem step (h : m.Later n) (h' : Step n k) : m.Later k :=
  Relation.ReflTransGen.tail h h'

end Later

/-- An operation leaves every field where it is. -/
theorem Step.isSome_field? {m n : Machine} (h : Step m n) {i : ObjectId} {x : String}
    (hf : (m.field? i x).isSome = true) : (n.field? i x).isSome = true := by
  cases h with
  | object =>
    rw [field?_push]
    exact hf
  | field j y v => exact isSome_field?_modify v hf
  | _ => exact hf

theorem Later.isSome_field? {m n : Machine} (h : m.Later n) {i : ObjectId} {x : String}
    (hf : (m.field? i x).isSome = true) : (n.field? i x).isSome = true := by
  induction h with
  | refl => exact hf
  | tail _ hs ih => exact hs.isSome_field? ih

/-- An operation leaves every object where it is. -/
theorem Step.objects_size {m n : Machine} (h : Step m n) : m.objects.size ≤ n.objects.size := by
  cases h with
  | object => simp
  | field i x v => simp
  | _ => exact Nat.le_refl _

theorem Later.objects_size {m n : Machine} (h : m.Later n) : m.objects.size ≤ n.objects.size := by
  induction h with
  | refl => exact Nat.le_refl _
  | tail _ hs ih => exact Nat.le_trans ih hs.objects_size

/-- All operations keep the property. -/
def Stable (P : Machine → Prop) : Prop :=
  ∀ m n, Step m n → P m → P n

theorem stable_later (m : Machine) : Stable m.Later :=
  fun _ _ hs h => h.step hs

end Machine

namespace Run

variable {α β : Type}

/-- From the machine on, a part of a run is only in states with the property: the states that a watch
sees, and the last one. -/
structure Stays (P : Machine → Prop) (x : Watch → Run α) (m : Machine) : Prop where
  last : P (last (x .none m))
  seen : ∀ watch : Watch, (∀ k e, P k → watch e k = .ok () k) → x watch m = x .none m

/-- From a state with the property on, a part of a run is only in such states. -/
def Keeps (P : Machine → Prop) (x : Watch → Run α) : Prop :=
  ∀ m, P m → Stays P x m

namespace Keeps

variable {P : Machine → Prop} {x : Watch → Run α}

theorem pure (a : α) : Keeps P fun _ => (Pure.pure a : Run α) :=
  fun _ hm => ⟨hm, fun _ _ => rfl⟩

theorem throw (e : Stop) : Keeps P fun _ => (throwThe Stop e : Run α) :=
  fun _ hm => ⟨hm, fun _ _ => rfl⟩

theorem bind {f : Watch → α → Run β} (hx : Keeps P x) (hf : ∀ a, Keeps P fun w => f w a) :
    Keeps P fun w => x w >>= f w := by
  intro m hm
  obtain ⟨hlast, hseen⟩ := hx m hm
  cases hr : x .none m with
  | ok a n =>
    rw [hr] at hlast
    obtain ⟨hlast', hseen'⟩ := hf a n hlast
    refine ⟨?_, fun watch hq => ?_⟩
    · rw [bind_apply, hr]
      exact hlast'
    · rw [bind_apply, bind_apply, hseen watch hq, hr]
      exact hseen' watch hq
  | error e n =>
    rw [hr] at hlast
    refine ⟨?_, fun watch hq => ?_⟩
    · rw [bind_apply, hr]
      exact hlast
    · rw [bind_apply, bind_apply, hseen watch hq, hr]

theorem get {f : Watch → Machine → Run α} (h : ∀ n, Keeps P fun w => f w n) :
    Keeps P fun w => MonadState.get >>= f w :=
  fun m hm => ⟨(h m m hm).last, (h m m hm).seen⟩

/-- What a watch is told changes nothing. -/
theorem tell (e : Event) : Keeps P fun w => w e :=
  fun m hm => ⟨hm, fun _ hq => hq m e hm⟩

end Keeps

section

variable {P : Machine → Prop} (hP : Machine.Stable P)

include hP

/-! ## Operations -/

theorem step_keeps {f : Machine → Machine} (h : ∀ m, Machine.Step m (f m)) (g : Machine → α) :
    Keeps P fun _ => (modifyGet fun m => (g m, f m) : Run α) :=
  fun m hm => ⟨hP m (f m) (h m) hm, fun _ _ => rfl⟩

theorem inFrame_keeps {x : Watch → Run α} (h : Keeps P x) (frame : FrameId) :
    Keeps P fun w => inFrame frame (x w) := by
  intro m hm
  obtain ⟨hlast, hseen⟩ := h _ (hP _ _ (.enter frame) hm)
  refine ⟨?_, fun watch hq => ?_⟩
  · rw [last_inFrame]
    exact hP _ _ (.enter m.current) hlast
  · rw [inFrame_apply, inFrame_apply, hseen watch hq]

theorem print_keeps (text : String) : Keeps P fun _ => print text := by
  intro m hm
  refine ⟨?_, fun _ _ => rfl⟩
  unfold print
  cases m.sink.write (text ++ "\n") with
  | mk r sink => cases r <;> exact hP _ _ (.output sink) hm

/-- What all operations keep is kept by all that is built from them. -/
theorem keeps_rules : Rules fun _ x => Keeps P x where
  pure := .pure
  throw := .throw
  bind := .bind
  get _ := .get
  tell := .tell
  inFrame frame h := inFrame_keeps hP h frame
  freshIdentity := step_keeps hP (fun _ => .identity) _
  newFrame outer vars := step_keeps hP (fun _ => .frame outer vars) _
  newObject := step_keeps hP (fun _ => .object) _
  setField i x v := step_keeps hP (fun _ => .field i x v) _
  define x v := step_keeps hP (fun m => .bind m.current x v) _
  defineIn frame x v := step_keeps hP (fun _ => .bind frame x v) _
  print := print_keeps hP

end

/-! ## What a part preserves -/

/-- What is said of the machine holds after a part of a run as before, also if the part fails. -/
def Preserves {γ : Type} (f : Machine → γ) (x : Watch → Run α) : Prop :=
  ∀ m : Machine, f (last (x .none m)) = f m

theorem Preserves.bind {γ : Type} {f : Machine → γ} {x : Watch → Run α} {y : Watch → α → Run β}
    (hx : Preserves f x) (hy : ∀ a, Preserves f fun w => y w a) : Preserves f fun w => x w >>= y w := by
  intro m
  have hfirst := hx m
  show f (last ((x .none >>= y .none) m)) = f m
  rw [bind_apply]
  cases hr : x .none m with
  | ok a k =>
    rw [hr] at hfirst
    exact (hy a k).trans hfirst
  | error e k =>
    rw [hr] at hfirst
    exact hfirst

theorem Preserves.print {γ : Type} {f : Machine → γ} (hf : ∀ m sink, f { m with sink } = f m)
    (text : String) : Preserves f fun _ => Run.print text := by
  intro m
  show f (last (Run.print text m)) = f m
  unfold Run.print
  rcases m.sink.write (text ++ "\n") with ⟨_ | _, sink⟩ <;> exact hf m sink

/-- A part of a run ends in the frame in which it began. -/
abbrev Unwinds (x : Watch → Run α) : Prop :=
  Preserves Machine.current x

theorem Unwinds.inFrame {x : Watch → Run α} (frame : FrameId) :
    Unwinds fun w => Run.inFrame frame (x w) := by
  intro m
  show (last (Run.inFrame frame (x .none) m)).current = m.current
  rw [last_inFrame]

theorem unwinds_rules : Rules fun _ x => Unwinds x where
  pure _ _ := rfl
  throw _ _ := rfl
  bind := .bind
  get _ h m := h m m
  tell _ _ := rfl
  inFrame frame _ := .inFrame frame
  freshIdentity _ := rfl
  newFrame _ _ _ := rfl
  newObject _ := rfl
  setField _ _ _ _ := rfl
  define _ _ _ := rfl
  defineIn _ _ _ _ := rfl
  print := .print fun _ _ => rfl

/-- A run learns no distances. -/
theorem distances_rules : Rules fun _ x => Preserves Machine.distances x where
  pure _ _ := rfl
  throw _ _ := rfl
  bind := .bind
  get _ h m := h m m
  tell _ _ := rfl
  inFrame {_ x} frame h m := by
    show (last (Run.inFrame frame (x .none) m)).distances = m.distances
    rw [last_inFrame]
    exact h { m with current := frame }
  freshIdentity _ := rfl
  newFrame _ _ _ := rfl
  newObject _ := rfl
  setField _ _ _ _ := rfl
  define _ _ _ := rfl
  defineIn _ _ _ _ := rfl
  print := .print fun _ _ => rfl

end Run

/-! ## Programs and sessions -/

/-- A program leaves the machine in which its statements end. -/
theorem Machine.interpretWith_machine (watch : Watch) (fuel : Nat) (program : List (Stmt NodeId))
    (m : Machine) :
    (m.interpretWith watch fuel program).2 =
      Run.last (runAll (Run.execWith watch fuel) program { m with current := globalFrame }) := by
  unfold interpretWith
  cases runAll (Run.execWith watch fuel) program { m with current := globalFrame } <;>
    exact finish_machine _ _

/-- A program leaves behind what was known of uses of names when it began. -/
theorem Machine.interpretWith_distances (m : Machine) (fuel : Nat) (program : List (Stmt NodeId)) :
    (m.interpretWith .none fuel program).2.distances = m.distances := by
  rw [interpretWith_machine]
  exact Run.distances_rules.program fuel program { m with current := globalFrame }

section

variable {P : Machine → Prop} (hP : Machine.Stable P)

include hP

theorem Machine.interpret_keeps {m : Machine} (hm : P m) (fuel : Nat)
    (program : List (Stmt NodeId)) :
    P (m.interpretWith .none fuel program).2 ∧
      ∀ watch : Watch, (∀ k e, P k → watch e k = .ok () k) →
        m.interpretWith watch fuel program = m.interpretWith .none fuel program := by
  obtain ⟨hlast, hseen⟩ := (Run.keeps_rules hP).program fuel program _ (hP _ _ (.enter globalFrame) hm)
  rw [interpretWith_machine]
  refine ⟨hlast, fun watch hq => ?_⟩
  unfold interpretWith
  rw [hseen watch hq]

namespace Session

theorem inspect_keeps {s : Session} (hs : P s.machine) (typeCheck : Bool) (source : String) :
    P (s.inspect typeCheck source).machine := by
  unfold inspect
  split
  · exact hs
  · dsimp only
    split <;> exact hP _ _ (.load _) hs

theorem serve_keeps {s : Session} (hs : P s.machine) (r : Request) :
    P (s.serve .none r).2.machine ∧
      ∀ watch : Watch, (∀ k e, P k → watch e k = .ok () k) → s.serve watch r = s.serve .none r := by
  cases r with
  | check source => exact ⟨inspect_keeps hP hs true source, fun _ _ => rfl⟩
  | run clock fuel source =>
    have hclock : P (s.setClock clock).machine := hP _ _ (.clock clock) hs
    unfold serve runWith
    dsimp only
    cases hp : (s.setClock clock).prepare (s.setClock clock).typeCheck source with
    | error failures => exact ⟨inspect_keeps hP hclock _ source, fun _ _ => rfl⟩
    | ok lc =>
      obtain ⟨l, c⟩ := lc
      obtain ⟨hlast, hseen⟩ := Machine.interpret_keeps hP (hP _ _ (.load l) hclock) fuel l.program
      dsimp only
      refine ⟨?_, fun watch hq => by rw [hseen watch hq]⟩
      split
      next machine hr =>
        rw [hr] at hlast
        exact hlast
      next e machine hr =>
        rw [hr] at hlast
        exact hP _ _ (.restore _) hlast

theorem replay_keeps {s : Session} (hs : P s.machine) (requests : List Request) :
    P (s.replay .none requests).2.machine ∧ s.EveryEvent requests fun k _ => P k := by
  induction requests generalizing s with
  | nil => exact ⟨hs, fun _ _ => rfl⟩
  | cons r rest ih =>
    obtain ⟨hfirst, hseen⟩ := serve_keeps hP hs r
    obtain ⟨hlast, hrest⟩ := ih hfirst
    refine ⟨hlast, fun watch hq => ?_⟩
    simp only [replay, hseen watch hq, hrest watch hq]

end Session

end

/-- Whatever runs from the machine on is only in states with the property. -/
structure Machine.RunsIn (P : Machine → Prop) (m : Machine) : Prop where
  expressions : ∀ fuel e, Run.Stays P (fun w => Run.evalWith w fuel e) m
  statements : ∀ fuel s, Run.Stays P (fun w => Run.execWith w fuel s) m
  requests : ∀ s : Session, s.machine = m → ∀ requests,
    P (s.replay .none requests).2.machine ∧ s.EveryEvent requests fun k _ => P k

/-- Whatever runs from a later machine on is only in later states. -/
theorem Machine.Later.runsIn {m n : Machine} (h : m.Later n) : n.RunsIn m.Later where
  expressions fuel e := ((Run.keeps_rules (stable_later m)).run fuel).1 e n h
  statements fuel s := ((Run.keeps_rules (stable_later m)).run fuel).2 s n h
  requests _ hs requests := Session.replay_keeps (stable_later m) (hs ▸ h) requests

end ClassScript
