import ClassScript.Proofs.PairedBindings
import ClassScript.Proofs.TypeSafety

/-!
# Runs of typed code

One lemma for each part of the evaluator: from a machine that a world describes, where the names in
force are those among which the code is typed (`Ready`), typed code gives values of its types and
stops only for reasons that the plan admits. Calls, constructions and blocks are proved over any way
to run expressions and statements that does so (`EvalTyped`, `ExecTyped`); `run_typed` ties the knot
by induction on the fuel.
-/

set_option autoImplicit false

namespace ClassScript

open Typing

namespace TypeWorld

variable {P : Plan} {W W' : TypeWorld} {m m' : Machine} {Γ Γ' : TypeScope} {init : Option Name}

/-! ## Code that is about to run -/

/-- The world describes the machine, the names of the scope are in force, and a local variable whose
initial value is computed is not bound yet. -/
structure Ready (P : Plan) (W : TypeWorld) (m : Machine) (Γ : TypeScope) (init : Option Name) :
    Prop where
  holds : Holds P W m
  around : Around P W m.current Γ
  free : ∀ x, init = some x → W.frames.binds m.current x.text = false

theorem Ready.later (h : Ready P W m Γ init) (hle : Le none W W') (hm : Holds P W' m')
    (hc : m'.current = m.current) : Ready P W' m' Γ init := by
  refine ⟨hm, hc ▸ h.around.mono hle, fun x hx => ?_⟩
  rw [← h.free x hx, hc]
  simp only [Frames.binds, Bindings.contains, hle.others _ h.around.lt (by simp)]

/-- How a statement ends fits the result of the function around it. -/
def FlowHas (P : Plan) (W : TypeWorld) (returns : Ty) : Flow → Prop
  | .normal => True
  | .returned v => Has P W v returns

/-- Typed expressions give values of their types. -/
def EvalTyped (P : Plan) (eval : Watch → Run.EvalFn) : Prop :=
  ∀ (W : TypeWorld) (m : Machine) (Γ : TypeScope) (init : Option Name) (e : Expr NodeId) (τ : Ty),
    Ready P W m Γ init → e.Typed P Γ init τ →
    Safe (typing P none) W (fun w => eval w e) m fun W' v _ => Has P W' v τ

/-- Typed statements bind the names that they should, and return if they do so on every path. -/
def ExecTyped (P : Plan) (exec : Watch → Run.ExecFn) : Prop :=
  ∀ (W : TypeWorld) (m : Machine) (returns : Ty) (Γ Γ' : TypeScope) (s : Stmt NodeId),
    Holds P W m → Here P W m.current Γ → s.Typed P returns Γ Γ' →
    Safe (typing P (some m.current)) W (fun w => exec w s) m fun W' flow _ =>
      FlowHas P W' returns flow ∧ Here P W' m.current Γ' ∧ (alwaysReturns s = true → flow ≠ .normal)

/-- A typed statement runs in a frame that is still the current one. -/
theorem ExecTyped.inCurrent {exec : Watch → Run.ExecFn} (hexec : ExecTyped P exec)
    (hm : Holds P W m) {f : FrameId} (hc : m.current = f) (hh : Here P W f Γ) {returns : Ty}
    {s : Stmt NodeId} (hs : s.Typed P returns Γ Γ') :
    Safe (typing P (some f)) W (fun w => exec w s) m fun W' flow _ =>
      FlowHas P W' returns flow ∧ Here P W' f Γ' ∧ (alwaysReturns s = true → flow ≠ .normal) := by
  subst hc
  exact hexec W m returns Γ Γ' s hm hh hs

/-- The name of a declaration is not bound yet when its initial value is computed. -/
theorem Here.readyToBind (hm : Holds P W m) (hh : Here P W m.current Γ) {name : Name} {ty : Ty}
    (hb : P.Binds Γ name ty) : Ready P W m Γ (initializing Γ name) := by
  refine ⟨hm, hh.around, fun x hx => ?_⟩
  unfold initializing at hx
  split at hx
  · cases hx
  next b outer hl =>
    cases hx
    rw [hh.exact b outer hl]
    exact hb.fresh.2 b outer hl

section

variable {α : Type} {x : Watch → Run α} {R : TypeWorld → α → Machine → Prop}

/-- What binds names in new frames only. -/
theorem weaken {free : Option FrameId} (h : Safe (typing P none) W x m R) :
    Safe (typing P free) W x m R :=
  h.reorder (fun _ hle => hle.weaken) rfl rfl rfl

/-- What binds names in new frames only leaves the frame of a statement as it is. -/
theorem around {f : FrameId} (hh : Here P W f Γ) (h : Safe (typing P none) W x m R) :
    Safe (typing P (some f)) W x m fun W' a m' => R W' a m' ∧ Here P W' f Γ :=
  weaken (h.mono fun _ _ _ hle _ _ hR => ⟨hR, hh.mono hle⟩)

/-- The next frame is a new one. -/
theorem inNew (h : Safe (typing P (some W.frames.nextId)) W x m R) :
    Safe (typing P none) W x m R :=
  h.reorder (fun _ hle => hle.fresh (Nat.le_refl _)) rfl rfl rfl

end

/-! ## Names -/

section

variable {id : NodeId} {name : Name} {ty : Ty}

theorem lookUp_typed (h : Ready P W m Γ init) (hu : P.Use Γ id name.text ty) :
    Safe (typing P none) W (fun w => Run.lookUp w id name) m fun W' v _ => Has P W' v ty.erase := by
  have hevent : (typing P none).event W m (.read id name) := ⟨trivial, trivial⟩
  unfold Run.lookUp
  refine Safe.told h.holds hevent
    (Safe.get (Safe.ofLookup h.holds (fun v hv => ?_) fun e he => ?_))
  · rcases h.holds.valueOf h.around hu with ⟨u, hu', hs⟩ | ⟨-, e, he⟩
    · rw [hv] at hu'
      cases hu'
      exact hs.typed hu.word
    · rw [hv] at he
      cases he
  · rcases h.holds.valueOf h.around hu with ⟨u, hu', -⟩ | ⟨hstrict, -⟩
    · rw [he] at hu'
      cases hu'
    · exact ⟨hstrict, fun _ h => nomatch h⟩

theorem assign_typed (h : Ready P W m Γ init) (hn : name.Free) (hu : P.Use Γ id name.text ty)
    {v : Value} (hv : Has P W v ty) :
    Safe (typing P none) W (fun _ => Run.assign id name v) m fun W' _ _ => W' = W := by
  unfold Run.assign
  refine Safe.get ((Safe.ofLookup (R := fun V f _ => V = W ∧
    (W.frames.vars f).get? name.text = some ty.erase) h.holds (fun f hf => ?_) fun e he => ?_).bind ?_)
  · rcases h.holds.slot h.around hu with ⟨g, hg, ht⟩ | ⟨-, e, he⟩
    · rw [hf] at hg
      cases hg
      exact ⟨rfl, ht⟩
    · rw [hf] at he
      cases he
  · rcases h.holds.slot h.around hu with ⟨g, hg, -⟩ | ⟨hstrict, -⟩
    · rw [he] at hg
      cases hg
    · exact ⟨hstrict, fun _ h => nomatch h⟩
  · intro W' f m' _ hm' _ hf
    obtain ⟨rfl, ht⟩ := hf
    have hs : SlotHas P W' name.text ty.erase v :=
      ⟨fun _ => hv.erase, fun he => absurd he hn.ne_super, fun he => absurd he hn.ne_this⟩
    exact Safe.of_ok (fun _ => rfl) (Le.refl none W') (hm'.assign ht hs) rfl rfl

/-- An assignment to the local variable whose initial value it stands in stops the run. -/
theorem assignOwn_typed (h : Ready P W m Γ init) (ho : P.Own init id name.text) (v : Value)
    {R : TypeWorld → Unit → Machine → Prop} :
    Safe (typing P none) W (fun _ => Run.assign id name v) m R := by
  obtain ⟨e, he⟩ := h.holds.slot_own ho h.free
  unfold Run.assign
  refine Safe.get ((Safe.ofLookup (R := fun _ _ _ => False) h.holds (fun f hf => ?_)
    fun e he => ?_).bind fun _ _ _ _ _ _ hf => hf.elim)
  · rw [he] at hf
    cases hf
  · exact ⟨ho.loose, fun _ h => nomatch h⟩

theorem print_typed (hm : Holds P W m) (text : String) :
    Safe (typing P none) W (fun _ => Run.print text) m fun W' _ _ => W' = W := by
  cases hw : m.sink.write (text ++ "\n") with
  | mk r sink =>
    have hm' : Holds P W { m with sink } := hm.output sink
    cases r with
    | ok _ =>
      have hrun : Run.print text m = .ok () { m with sink } := by simp only [Run.print, hw]
      exact Safe.of_ok (fun _ => hrun) (Le.refl none W) hm' rfl rfl
    | error e =>
      have hrun : Run.print text m = .error (.output e) { m with sink } := by
        simp only [Run.print, hw]
      exact Safe.of_error (fun _ => hrun) ⟨trivial, fun _ h => h.elim⟩ (Le.refl none W) hm'

theorem increment_typed (h : Ready P W m Γ init) (hn : name.Free)
    (hu : P.Use Γ id name.text .number) (operator : Token) :
    Safe (typing P none) W (fun w => Run.increment w (.variable id name) operator) m fun W' r _ =>
      Has P W' r.1 .number ∧ Has P W' r.2 .number := by
  refine (lookUp_typed h hu).bind ?_
  intro W' v m' hle hm hc hv
  obtain ⟨old, rfl⟩ := hv
  refine (assign_typed (h.later hle hm hc) hn hu ⟨_, rfl⟩).bind ?_
  intro W'' _ m'' _ hm' _ _
  exact Safe.pure hm' ⟨⟨_, rfl⟩, ⟨_, rfl⟩⟩

end

/-! ## Operators -/

/-- What is computed has the type, or it is too long a repetition. -/
structure Computes (P : Plan) (W : TypeWorld) (r : Except RuntimeError Value) (τ : Ty) : Prop where
  ok : ∀ v, r = .ok v → Has P W v τ
  error : ∀ e, r = .error e → e.cause = .repetitionTooLarge

theorem Computes.pure {v : Value} {τ : Ty} (h : Has P W v τ) : Computes P W (.ok v) τ :=
  ⟨fun _ he => Except.ok.inj he ▸ h, fun _ he => nomatch he⟩

theorem Computes.safe {r : Except RuntimeError Value} {τ : Ty} (h : Computes P W r τ)
    (hm : Holds P W m) :
    Safe (typing P none) W (fun _ => Run.ofExcept r) m fun W' v _ => Has P W' v τ := by
  refine Safe.ofExcept hm h.ok fun e he => ?_
  have hcause := h.error e he
  refine ⟨?_, fun x hx => ?_⟩
  · show P.Admits e.cause
    rw [hcause]
    trivial
  · cases hcause.symm.trans hx

theorem repetition_computes (line : Nat) (s : String) (x : Float) :
    Computes P W (Operators.repetition line s x) .string := by
  unfold Operators.repetition
  split
  · exact .pure ⟨_, rfl⟩
  · refine ⟨fun v he => ?_, fun e he => ?_⟩
    · cases he
    · cases he
      rfl

section

variable {operator : Token} {left right : Value} {σ τ υ : Ty} (hl : Has P W left σ)
  (hr : Has P W right τ) (h : Typing.binary P.classes operator σ τ = .ok υ)

include hl hr h

theorem add_computes (hk : operation? operator = some .add) (line : Nat) :
    Computes P W (Operators.add line left right) υ := by
  unfold Typing.binary at h
  rw [hk] at h
  dsimp only at h
  split at h
  · cases h
    obtain ⟨x, rfl⟩ := hl
    obtain ⟨y, rfl⟩ := hr
    exact .pure ⟨_, rfl⟩
  · cases h
    obtain ⟨s, rfl⟩ := hl
    obtain ⟨t, rfl⟩ := hr
    exact .pure ⟨_, rfl⟩
  · cases h

theorem numeric_computes (hk : operation? operator = some .arithmetic) (line : Nat)
    (op : Float → Float → Float) : Computes P W (Operators.numeric line op left right) υ := by
  unfold Typing.binary at h
  rw [hk] at h
  dsimp only at h
  split at h
  · cases h
    obtain ⟨x, rfl⟩ := hl
    obtain ⟨y, rfl⟩ := hr
    exact .pure ⟨_, rfl⟩
  · cases h

theorem multiply_computes (hk : operation? operator = some .multiply) (line : Nat) :
    Computes P W (Operators.multiply line left right) υ := by
  unfold Typing.binary at h
  rw [hk] at h
  dsimp only at h
  split at h
  · cases h
    obtain ⟨x, rfl⟩ := hl
    obtain ⟨y, rfl⟩ := hr
    exact .pure ⟨_, rfl⟩
  · cases h
    obtain ⟨x, rfl⟩ := hl
    obtain ⟨s, rfl⟩ := hr
    exact repetition_computes line s x
  · cases h
    obtain ⟨s, rfl⟩ := hl
    obtain ⟨x, rfl⟩ := hr
    exact repetition_computes line s x
  · cases h

theorem compare_computes (hk : operation? operator = some .compare) (line : Nat)
    (o : Operators.Order) : Computes P W (Operators.compare line o left right) υ := by
  unfold Typing.binary at h
  rw [hk] at h
  dsimp only at h
  split at h
  · cases h
    obtain ⟨x, rfl⟩ := hl
    obtain ⟨y, rfl⟩ := hr
    exact .pure ⟨_, rfl⟩
  · cases h
    obtain ⟨s, rfl⟩ := hl
    obtain ⟨t, rfl⟩ := hr
    exact .pure ⟨_, rfl⟩
  · cases h
    obtain ⟨a, rfl⟩ := hl
    obtain ⟨b, rfl⟩ := hr
    exact .pure ⟨_, rfl⟩
  · cases h

/-- An operator computes what the check says it does. -/
theorem binary_computes : Computes P W (Operators.binary operator left right) υ := by
  have hequate (hk : operation? operator = some .equate) (b : Bool) :
      Computes P W (.ok (.boolean b)) υ := by
    unfold Typing.binary at h
    rw [hk] at h
    dsimp only at h
    split at h
    · cases h
      exact .pure ⟨b, rfl⟩
    · cases h
  unfold Operators.binary
  dsimp only
  split
  next hk => exact add_computes hl hr h (by rw [operation?, hk]) _
  next hk => exact numeric_computes hl hr h (by rw [operation?, hk]) _ _
  next hk => exact numeric_computes hl hr h (by rw [operation?, hk]) _ _
  next hk => exact multiply_computes hl hr h (by rw [operation?, hk]) _
  next hk => exact compare_computes hl hr h (by rw [operation?, hk]) _ _
  next hk => exact compare_computes hl hr h (by rw [operation?, hk]) _ _
  next hk => exact compare_computes hl hr h (by rw [operation?, hk]) _ _
  next hk => exact compare_computes hl hr h (by rw [operation?, hk]) _ _
  next hk => exact hequate (by rw [operation?, hk]) _
  next hk => exact hequate (by rw [operation?, hk]) _
  next =>
    have hnone : operation? operator = none := by
      unfold operation?
      split <;> first | contradiction | rfl
    unfold Typing.binary at h
    rw [hnone] at h
    cases h

end

/-! ## Sequences -/

section

variable {eval : Watch → Run.EvalFn} {exec : Watch → Run.ExecFn}

theorem evalOption_typed (heval : EvalTyped P eval) {e : Option (Expr NodeId)} {τ : Ty}
    (h : Ready P W m Γ init) (he : Expr.TypedOption P Γ init e τ) :
    Safe (typing P none) W (fun w => Run.evalOption (eval w) e) m fun W' v _ => Has P W' v τ := by
  cases e with
  | none =>
    obtain rfl : τ = .nil := he
    exact Safe.pure h.holds rfl
  | some e => exact heval W m Γ init e τ h he

theorem evalAll_typed (heval : EvalTyped P eval) {es : List (Expr NodeId)} {τs : List Ty}
    (h : Ready P W m Γ init) (hes : Expr.TypedAll P Γ init es τs) :
    Safe (typing P none) W (fun w => Run.evalAll (eval w) es) m fun W' vs _ =>
      List.Forall₂ (Has P W') vs τs := by
  induction es generalizing W m τs with
  | nil =>
    cases hes
    exact Safe.pure h.holds .nil
  | cons e rest ih =>
    obtain _ | ⟨he, hrest⟩ := hes
    refine (heval W m Γ init e _ h he).bind ?_
    intro W' v m' hle hm hc hv
    refine (ih (h.later hle hm hc) hrest).bind ?_
    intro W'' vs m'' hle' hm' _ hvs
    exact Safe.pure hm' (.cons (hv.mono hle') hvs)

/-- Statements bind what they should, one after the other, up to the first that returns. -/
theorem execAll_typed (hexec : ExecTyped P exec) {returns : Ty} {ss : List (Stmt NodeId)}
    (hm : Holds P W m) (hh : Here P W m.current Γ) (hs : Stmt.TypedAll P returns Γ ss Γ') :
    Safe (typing P (some m.current)) W (fun w => Run.execAll (exec w) ss) m fun W' flow _ =>
      FlowHas P W' returns flow ∧ (someReturns ss = true → flow ≠ .normal) := by
  induction ss generalizing W m Γ with
  | nil => exact Safe.pure hm ⟨trivial, fun h => by cases h⟩
  | cons s rest ih =>
    obtain _ | ⟨hfirst, hrest⟩ := hs
    refine (hexec W m returns Γ _ s hm hh hfirst).bind ?_
    rintro W' flow m' hle hm' hc ⟨hflow, hh', hreturns⟩
    cases flow with
    | normal =>
      have hnext := ih hm' (hc.symm ▸ hh') hrest
      rw [hc] at hnext
      refine hnext.mono ?_
      rintro W'' flow m'' - - - ⟨hflow', hsome⟩
      refine ⟨hflow', fun h => hsome ?_⟩
      rw [someReturns, Bool.or_eq_true] at h
      exact h.resolve_left fun hs => hreturns hs rfl
    | returned v => exact Safe.pure hm' ⟨hflow, fun _ h => by cases h⟩

/-! ## Frames -/

/-- A new frame for a local scope. -/
theorem openFrame_typed (hm : Holds P W m) {outer : FrameId} (ha : Around P W outer Γ)
    {b : Bindings Ty} {vars : Bindings Value}
    (hv : ∀ x, Option.Rel (fun v ty => SlotHas P W x ty.erase v) (vars.get? x) (b.get? x))
    (o : Opening) :
    Safe (typing P none) W (fun w => Run.openFrame w outer vars o) m fun W' f _ =>
      f = W.frames.nextId ∧ Here P W' f (Γ.enter b) ∧
        W'.frames.chain f = f :: W'.frames.chain outer := by
  obtain ⟨hm', hh, hc⟩ := hm.enter ha hv
  have hnew : Safe (typing P none) W (fun _ => Run.newFrame outer vars) m fun W' f _ =>
      W' = W.addFrame outer (eraseTypes b) ∧ f = W.frames.nextId :=
    Safe.of_ok (fun _ => rfl) (W.le_addFrame outer (eraseTypes b)) hm' rfl ⟨rfl, hm.nextId⟩
  unfold Run.openFrame
  refine hnew.bind ?_
  intro W' f m' _ hm' _ hf
  obtain ⟨rfl, rfl⟩ := hf
  have hevent : (typing P none).event (W.addFrame outer (eraseTypes b)) m'
      (.opened W.frames.nextId o) := ⟨trivial, trivial⟩
  exact Safe.told hm' hevent (Safe.pure hm' ⟨rfl, hh, hc⟩)

/-- The statements of a block run in a frame of their own. -/
theorem execBlock_typed (hexec : ExecTyped P exec) (hm : Holds P W m) (ha : Around P W m.current Γ)
    {returns : Ty} {body : List (Stmt NodeId)}
    (hb : Stmt.TypedAll P returns (Γ.enter .empty) body Γ') :
    Safe (typing P none) W (fun w => Run.execBlock w (exec w) body) m fun W' flow _ =>
      FlowHas P W' returns flow ∧ (someReturns body = true → flow ≠ .normal) := by
  have hempty (x : String) : Option.Rel (fun v ty => SlotHas P W x (Ty.erase ty) v)
      ((Bindings.empty : Bindings Value).get? x) ((Bindings.empty : Bindings Ty).get? x) := .none
  unfold Run.execBlock
  refine Safe.get (inNew ((weaken (openFrame_typed hm ha hempty (.block body))).bind ?_))
  rintro W' f m' - hm' - ⟨rfl, hh', -⟩
  exact (execAll_typed hexec ((typing P none).holds_current W.frames.nextId hm') hh' hb).inFrame

/-- A frame that knows an object as `this`. -/
theorem openThis_typed (hm : Holds P W m) {outer : FrameId} (ha : Around P W outer Γ)
    {id : ClassId} {this : Value} (ht : Has P W this (.object id)) (hnil : this ≠ .nil)
    (o : Opening) :
    Safe (typing P none) W (fun w => Run.openFrame w outer (.single "this" this) o) m
      fun W' f _ => Here P W' f (Γ.enter (.single "this" (.object id))) := by
  refine (openFrame_typed hm ha (fun x => ?_) o).mono fun W' f m' _ _ _ h => h.2.1
  rw [Bindings.get?_single, Bindings.get?_single]
  split
  next hx =>
    subst hx
    exact .some ⟨fun _ => ht, fun he => absurd he (by decide), fun _ => hnil⟩
  next => exact .none

/-! ## Methods -/

theorem bindMethod_typed (hm : Holds P W m) {id : ClassId} {method : Closure} {s : Signature}
    (hk : MethodHas P W id method s) {this : Value} (ht : Has P W this (.object id))
    (hnil : this ≠ .nil) :
    Safe (typing P none) W (fun w => Run.bindMethod w method this) m fun W' bound _ =>
      ClosureHas P W' bound s.params s.result := by
  obtain ⟨Γ, ha, hr, hi⟩ := hk
  unfold Run.bindMethod
  refine (openThis_typed hm ha ht hnil (.method method.decl)).bind ?_
  intro W' f m' _ hm' _ hh
  have hscope := hh.around.head rfl
  refine Safe.pure hm' ⟨_, s, hh.around, hr, rfl, ClassTable.accepts_of_erase rfl, fun h => ?_⟩
  refine ⟨hi h, hscope.inner, ?_⟩
  exact (W'.frames.binds_iff f).2 ⟨_, hscope.types "this" (.object id) (by rw [Bindings.get?_single, if_pos rfl])⟩

theorem methodValue_typed (hm : Holds P W m) {id : ClassId} {method : Closure} {s : Signature}
    (hk : MethodHas P W id method s) {this : Value} (ht : Has P W this (.object id))
    (hnil : this ≠ .nil) :
    Safe (typing P none) W (fun w => Run.methodValue w method this) m fun W' v _ =>
      Has P W' v s.ty := by
  unfold Run.methodValue
  refine (bindMethod_typed hm hk ht hnil).bind ?_
  intro W' bound m' _ hm' _ hb
  exact Safe.of_ok (fun _ => rfl) (Le.refl none W') (hm'.identity _) rfl (.inr ⟨_, _, rfl, hb⟩)

/-! ## Fields -/

/-- The object has the class `e`, a descendant of the class `q`. -/
def ObjectHas (P : Plan) (W : TypeWorld) (i : ObjectId) (q : ClassId) : Prop :=
  ∃ e, W.objects[i]? = some e ∧ P.classes.isSubclass e q = true

theorem ObjectHas.mono {i : ObjectId} {q : ClassId} (h : ObjectHas P W i q) {free : Option FrameId}
    (hle : Le free W W') : ObjectHas P W' i q := by
  obtain ⟨e, he, hs⟩ := h
  exact ⟨e, hle.objects i e he, hs⟩

/-- A field that a class or an ancestor declares gets a value of its type. -/
theorem setField_typed (hm : Holds P W m) {i : ObjectId} {q : ClassId} (ho : ObjectHas P W i q)
    {x : String} {ty : Ty} (hf : P.classes.findField? q x = some ty) {v : Value}
    (hv : Has P W v ty) :
    Safe (typing P none) W (fun _ => Run.setField i x v) m fun W' _ _ => (i, x) ∈ W'.fields := by
  obtain ⟨e, he, hs⟩ := ho
  obtain ⟨ty', hf', heq⟩ := P.coherent.findField?_sub (ClassTable.isSubclass_iff.1 hs) hf
  exact Safe.of_ok (fun _ => rfl) (W.le_addField i x) (hm.setField he hf' (heq ▸ hv.erase)) rfl
    (List.mem_cons_self ..)

/-- A frame around the initial values of fields. -/
theorem openFields_typed (hm : Holds P W m) {outer : FrameId} (ha : Around P W outer Γ)
    {id : ClassId} {this : Value} (ht : P.sealed = false → Has P W this (.object id))
    (hnil : this ≠ .nil) (o : Opening) :
    Safe (typing P none) W (fun w => Run.openFrame w outer (.single "this" this) o) m
      fun W' f _ => Around P W' f (Γ.enter (P.fieldScope id)) := by
  cases hsealed : P.sealed with
  | false =>
    refine (openThis_typed hm ha (ht hsealed) hnil o).mono fun W' f _ _ _ _ hh => ?_
    rw [Plan.fieldScope, if_neg (by simp [hsealed])]
    exact hh.around
  | true =>
    -- Nothing is known of the object, so its slot has a type that any value has.
    refine (openFrame_typed (b := .single "this" .void) hm ha (fun x => ?_) o).mono
      fun W' f _ _ _ _ h => ?_
    · rw [Bindings.get?_single, Bindings.get?_single]
      split
      next hx =>
        subst hx
        exact .some ⟨fun _ => trivial, fun he => absurd he (by decide), fun _ => hnil⟩
      next => exact .none
    · rw [Plan.fieldScope, if_pos hsealed]
      exact h.2.1.around.hide

theorem setFields_typed (heval : EvalTyped P eval) (hm : Holds P W m) {i : ObjectId} {q : ClassId}
    (ho : ObjectHas P W i q) {frame : FrameId} (ha : Around P W frame Γ)
    {ds : List (VarDecl NodeId)} (hd : ∀ d ∈ ds, d.FieldTyped P Γ q) :
    Safe (typing P none) W (fun w => Run.setFields (eval w) i frame ds) m fun W' _ _ =>
      ∀ d ∈ ds, (i, d.name.text) ∈ W'.fields := by
  induction ds generalizing W m with
  | nil => exact Safe.pure hm fun _ h => nomatch h
  | cons d rest ih =>
    obtain ⟨⟨ty, τ, hf, he, hacc⟩, hrest⟩ := List.forall_mem_cons.1 hd
    have hready : Ready P W { m with current := frame } Γ none :=
      ⟨(typing P none).holds_current frame hm, ha, fun _ h => nomatch h⟩
    refine (evalOption_typed heval hready he).inFrame.bind ?_
    intro W' v m' hle hm' _ hv
    refine (setField_typed hm' (ho.mono hle) hf (hv.accepts hacc)).bind ?_
    intro W'' _ m'' hle' hm'' _ hset
    have hle'' := hle.trans hle'
    refine (ih hm'' (ho.mono hle'') (ha.mono hle'') hrest).mono ?_
    intro V _ _ hlast _ _ hall
    exact List.forall_mem_cons.2 ⟨hlast.fields _ hset, hall⟩

theorem setLayer_typed (heval : EvalTyped P eval) (hm : Holds P W m) {i : ObjectId} {q : ClassId}
    (ho : ObjectHas P W i q) {this : Value} (ht : P.sealed = false → Has P W this (.object q))
    (hnil : this ≠ .nil) {layer : Layer} (hl : LayerHas P W q layer) :
    Safe (typing P none) W (fun w => Run.setLayer w (eval w) i this layer) m fun W' _ _ =>
      ∀ d ∈ layer.fields, (i, d.name.text) ∈ W'.fields := by
  unfold Run.setLayer
  split
  next hempty =>
    rw [List.isEmpty_iff.1 hempty]
    exact Safe.pure hm fun _ h => nomatch h
  next =>
    obtain ⟨Γ, ha, hd⟩ := hl.fields
    refine (openFields_typed hm ha ht hnil (.fields layer.fields)).bind ?_
    intro W' f m' hle hm' _ haround
    exact setFields_typed heval hm' (ho.mono hle) haround hd

/-- After all initial values have been computed, the fields of all layers are there. -/
theorem setLayers_typed (heval : EvalTyped P eval) (hm : Holds P W m) {i : ObjectId} {d : ClassId}
    (ho : ObjectHas P W i d) {this : Value} (ht : P.sealed = false → Has P W this (.object d))
    (hnil : this ≠ .nil) {layers : List Layer}
    (hl : ∀ layer ∈ layers, ∃ q, P.classes.isSubclass d q = true ∧ LayerHas P W q layer) :
    Safe (typing P none) W (fun w => Run.setLayers w (eval w) i this layers) m fun W' _ _ =>
      ∀ layer ∈ layers, ∀ d ∈ layer.fields, (i, d.name.text) ∈ W'.fields := by
  induction layers generalizing W m with
  | nil => exact Safe.pure hm fun _ h => nomatch h
  | cons layer rest ih =>
    obtain ⟨⟨q, hq, hlayer⟩, hrest⟩ := List.forall_mem_cons.1 hl
    obtain ⟨e, he, hs⟩ := ho
    have hup : P.classes.isSubclass e q = true := by
      rw [ClassTable.isSubclass_iff] at hs hq ⊢
      exact P.coherent.forest.lineage_trans hs hq
    refine (setLayer_typed heval hm ⟨e, he, hup⟩ (fun h => (ht h).upcast hq) hnil hlayer).bind ?_
    intro W' _ m' hle hm' _ hfirst
    have hothers : ∀ l ∈ rest, ∃ q', P.classes.isSubclass d q' = true ∧ LayerHas P W' q' l := by
      intro l hmem
      obtain ⟨q', hq', hl'⟩ := hrest l hmem
      exact ⟨q', hq', hl'.mono hle⟩
    refine (ih hm' ⟨e, hle.objects i e he, hs⟩ (fun h => (ht h).mono hle) hothers).mono ?_
    intro V _ _ hlast _ _ hall
    exact List.forall_mem_cons.2 ⟨fun d hd => hlast.fields _ (hfirst d hd), hall⟩

/-! ## Calls -/

/-- A call gives a value of the type of the result. -/
theorem callResult_typed (hm : Holds P W m) (f : Closure) {returns result : Ty} {flow : Flow}
    (hflow : FlowHas P W returns flow) (hpaths : mustReturn returns = true → flow ≠ .normal)
    (hacc : P.classes.accepts result returns = true)
    (hi : f.isInitializer = true → returns = .void ∧ f.frame ≠ Machine.globalFrame ∧
      W.frames.binds f.frame "this" = true) :
    Safe (typing P none) W (fun _ => Run.callResult f flow) m fun W' v _ => Has P W' v result := by
  have hinit (h : f.isInitializer = true) :
      Safe (typing P none) W (fun _ => Run.callResult.initialized f) m fun W' v _ =>
        Has P W' v result := by
    obtain ⟨rfl, hne, hb⟩ := hi h
    obtain ⟨this, hthis⟩ := (m.frames.binds_iff _).1 (hm.bound _ _ (.inr hne) hb)
    have hget : m.frames.getAt f.frame 0 "this" = .ok this :=
      (m.frames.getAt_ok f.frame).2
        ⟨f.frame, by rw [← List.head?_eq_getElem?]; exact m.frames.head?_chain _, hthis⟩
    unfold Run.callResult.initialized
    refine Safe.get (Safe.ofLookup hm (fun v _ => ?_) fun e he => ?_)
    · exact Has.accepts (σ := .void) trivial hacc
    · rw [hget] at he
      cases he
  have hnil (hnormal : mustReturn returns = false) : Has P W .nil returns := by
    cases returns with
    | nil => rfl
    | void => trivial
    | _ => cases hnormal
  unfold Run.callResult
  cases flow <;> dsimp only <;> split
  next h => exact hinit h
  next =>
    refine Safe.pure hm (Has.accepts (hnil ?_) hacc)
    cases hr : mustReturn returns with
    | false => rfl
    | true => exact absurd rfl (hpaths hr)
  next h => exact hinit h
  next => exact Safe.pure hm (Has.accepts hflow hacc)

/-- The parameters of a function have values of their types. -/
theorem paramBindings_typed {params : List Param} (hp : ∀ p ∈ params, p.name.Free)
    {args : List Value} {types : List Ty} (ha : List.Forall₂ (Has P W) args types) (x : String) :
    Option.Rel (fun v ty => SlotHas P W x ty.erase v)
      ((Run.paramBindings params args).get? x) ((paramScope params types).get? x) := by
  have hzip : List.Forall₂ (fun p q => p.1 = q.1 ∧ Has P W p.2 q.2)
      ((params.map fun p => p.name.text).zip args)
      ((params.map fun p => p.name.text).zip types) := by
    clear hp
    induction ha generalizing params with
    | nil => simp
    | cons hv _ ih =>
      cases params with
      | nil => exact .nil
      | cons p rest => exact .cons ⟨rfl, hv⟩ ih
  have hrel := (Bindings.Forall₂.ofList hzip).get? x
  have hmem := @Bindings.get?_ofList _ ((params.map fun p => p.name.text).zip args) x
  unfold Run.paramBindings paramScope
  generalize (Bindings.ofList ((params.map fun p => p.name.text).zip args)).get? x = found,
    (Bindings.ofList ((params.map fun p => p.name.text).zip types)).get? x = ty at hrel hmem ⊢
  cases hrel with
  | none => exact .none
  | some hv =>
    obtain ⟨p, hparam, rfl⟩ := List.mem_map.1 (List.of_mem_zip (hmem rfl)).1
    have hfree := hp p hparam
    exact .some ⟨fun _ => hv.erase, fun he => absurd he hfree.ne_super,
      fun he => absurd he hfree.ne_this⟩

/-- Arguments that the parameters accept have the types of the parameters. -/
theorem accepted_args {args : List Value} {params τs : List Ty}
    (ha : List.Forall₂ (Has P W) args τs)
    (hp : List.Forall₂ (fun p τ => P.classes.accepts p τ = true) params τs) :
    List.Forall₂ (Has P W) args params := by
  induction hp generalizing args with
  | nil =>
    cases ha
    exact .nil
  | cons hacc _ ih =>
    cases ha with
    | cons hv hrest => exact .cons (hv.accepts hacc) (ih hrest)

theorem congr_args {args : List Value} {params types : List Ty}
    (ha : List.Forall₂ (Has P W) args params) (he : Ty.eraseAll types = Ty.eraseAll params) :
    List.Forall₂ (Has P W) args types := by
  induction ha generalizing types with
  | nil =>
    cases types with
    | nil => exact .nil
    | cons ty rest => simp [Ty.eraseAll] at he
  | cons hv _ ih =>
    cases types with
    | nil => simp [Ty.eraseAll] at he
    | cons ty rest =>
      simp only [Ty.eraseAll, List.cons.injEq] at he
      exact .cons (hv.congr he.1.symm) (ih he.2)

theorem ClosureHas.length {c : Closure} {params : List Ty} {result : Ty}
    (h : ClosureHas P W c params result) : c.decl.params.length = params.length := by
  obtain ⟨Γ, s, -, hr, hp, -⟩ := h
  obtain ⟨hlen, -⟩ := hr
  simp only [Ty.eraseAll_eq] at hp
  have hp := congrArg List.length hp
  rw [List.length_map, List.length_map] at hp
  exact hlen.symm.trans hp

theorem invoke_typed (hexec : ExecTyped P exec) (hm : Holds P W m) {f : Closure}
    {params : List Ty} {result : Ty} (hf : ClosureHas P W f params result) {args : List Value}
    (ha : List.Forall₂ (Has P W) args params) :
    Safe (typing P none) W (fun w => Run.invoke w (exec w) f args) m fun W' v _ =>
      Has P W' v result := by
  obtain ⟨Γ, s, haround, hr, hp, hacc, hi⟩ := hf
  obtain ⟨-, hfree, hbody, hpaths⟩ := hr
  unfold Run.invoke
  refine inNew ((weaken (openFrame_typed hm haround
    (paramBindings_typed hfree (congr_args ha hp)) (.call f.decl))).bind ?_)
  rintro W' g m' hle hm' - ⟨rfl, hh, -⟩
  have hrun := execAll_typed hexec ((typing P none).holds_current W.frames.nextId hm') hh hbody
  refine hrun.inFrame.bind ?_
  rintro W'' flow m'' hle' hm'' - ⟨hflow, hreturns⟩
  refine weaken (callResult_typed hm'' f hflow (fun h => hreturns (hpaths h)) hacc fun h => ?_)
  obtain ⟨hv, hne, hb⟩ := hi h
  exact ⟨hv, hne, hle'.binds (hle.binds hb)⟩

theorem construct_typed (heval : EvalTyped P eval) (hexec : ExecTyped P exec) (hm : Holds P W m)
    {id : ClassId} {c : ClassValue} (hc : ClassHas P W id c) {args : List Value}
    (ha : List.Forall₂ (Has P W) args (constructorParams P.classes id)) :
    Safe (typing P none) W (fun w => Run.construct w (eval w) (exec w) c args) m fun W' v _ =>
      Has P W' v (.object id) := by
  have hself : P.classes.isSubclass id id = true :=
    ClassTable.isSubclass_iff.2 (P.classes.self_mem_lineage id)
  have hnew : Safe (typing P none) W (fun _ => Run.newObject) m fun W' i _ =>
      W' = W.addObject id ∧ i = W.objects.size :=
    Safe.of_ok (fun _ => rfl) (W.le_addObject id) (hm.newObject id) rfl ⟨rfl, hm.size⟩
  unfold Run.construct
  refine hnew.bind ?_
  rintro _ _ m' hle hm' - ⟨rfl, rfl⟩
  have hc := hc.mono hle
  have hclass : (W.addObject id).objects[W.objects.size]? = some id := by simp [addObject]
  have ho : ObjectHas P (W.addObject id) W.objects.size id := ⟨id, hclass, hself⟩
  have hknown (h : P.sealed = false) :
      Has P (W.addObject id) (.object W.objects.size c) (.object id) :=
    .inr ⟨_, c, id, rfl, hclass, hc, hself, fun hs => by rw [h] at hs; cases hs⟩
  have hlayers : ∀ layer ∈ c.layers.reverse, ∃ q, P.classes.isSubclass id q = true ∧
      LayerHas P (W.addObject id) q layer :=
    fun layer hl => hc.layer (List.mem_reverse.1 hl)
  refine (setLayers_typed heval hm' ho hknown (by simp) hlayers).bind ?_
  intro W' _ n hle' hn _ hset
  have hthis : Has P W' (.object W.objects.size c) (.object id) := by
    refine .inr ⟨_, c, id, rfl, hle'.objects _ id hclass, hc.mono hle', hself, fun _ x ty hx => ?_⟩
    obtain ⟨layer, hl, d, hd, rfl⟩ := hc.declared hx
    exact hset layer (List.mem_reverse.2 hl) d hd
  have hinit := (hc.mono hle').initializer?
  unfold constructorParams at ha
  generalize c.initializer? = initializer, P.classes.initializer? id = s at hinit ha
  cases hinit with
  | none => exact Safe.pure hn hthis
  | some hk =>
    refine (bindMethod_typed hn hk hthis (by simp)).bind ?_
    intro V bound n' hbound hn' _ hb
    have hargs := ha.imp fun _ _ hv => hv.mono ((hle.trans hle').trans hbound)
    refine (invoke_typed hexec hn' hb hargs).bind ?_
    intro V' _ n'' hcalled hn'' _ _
    exact Safe.pure hn'' ((hthis.mono hbound).mono hcalled)

theorem checkArity_typed (hm : Holds P W m) (line : Nat) {expected got : Nat}
    (h : expected = got) :
    Safe (typing P none) W (fun _ => Run.checkArity line expected got) m fun W' _ _ => W' = W := by
  unfold Run.checkArity
  rw [if_pos h]
  exact Safe.pure hm rfl

theorem callClock_typed (hm : Holds P W m) (args : List Value) :
    Safe (typing P none) W (fun _ => Run.callNative 0 args) m fun W' v _ =>
      Has P W' v .number := by
  obtain ⟨c, hc⟩ := hm.natives
  unfold Run.callNative
  refine Safe.get ?_
  rw [hc]
  refine Safe.ofExcept hm (fun v hv => ?_) fun e he => ?_
  · cases c with
    | ok seconds =>
      cases hv
      exact ⟨_, rfl⟩
    | error reason => cases hv
  · cases c with
    | ok seconds => cases he
    | error reason =>
      cases he
      exact ⟨trivial, fun _ h => nomatch h⟩

/-- A function is called with arguments of the types of its parameters. -/
theorem call_typed (hexec : ExecTyped P exec) (hm : Holds P W m) (line : Nat) {f : Value}
    {params : List Ty} {result : Ty}
    (hf : Has P W f (.function "" params result)) {args : List Value}
    (ha : List.Forall₂ (Has P W) args params) :
    Safe (typing P none) W (fun w => Run.call w (eval w) (exec w) line f args) m fun W' v _ =>
      Has P W' v result := by
  unfold Run.call
  rcases hf with ⟨rfl, rfl, rfl⟩ | ⟨n, c, rfl, hc⟩
  · obtain _ | _ := ha
    refine (checkArity_typed hm line rfl).bind ?_
    intro W' _ m' _ hm' _ _
    exact callClock_typed hm' []
  · refine (checkArity_typed hm line (hc.length.trans ha.length_eq.symm)).bind ?_
    intro W' _ m' _ hm' _ h
    subst h
    exact invoke_typed hexec hm' hc ha

theorem ClassHas.arity {id : ClassId} {c : ClassValue} (hc : ClassHas P W id c) :
    c.arity = (constructorParams P.classes id).length := by
  have hinit := hc.initializer?
  unfold ClassValue.arity constructorParams
  generalize c.initializer? = initializer, P.classes.initializer? id = s at hinit
  cases hinit with
  | none => rfl
  | some hk =>
    obtain ⟨Γ, -, ⟨hlen, -⟩, -⟩ := hk
    exact hlen.symm

/-- A class is called with arguments of the types of its initializer's parameters. -/
theorem callClass_typed (heval : EvalTyped P eval) (hexec : ExecTyped P exec) (hm : Holds P W m)
    (line : Nat) {f : Value} {id : ClassId} (hf : Has P W f (.classObject id)) {args : List Value}
    (ha : List.Forall₂ (Has P W) args (constructorParams P.classes id)) :
    Safe (typing P none) W (fun w => Run.call w (eval w) (exec w) line f args) m fun W' v _ =>
      Has P W' v (.object id) := by
  obtain ⟨c, rfl, hc⟩ := hf
  unfold Run.call
  refine (checkArity_typed hm line (hc.arity.trans ha.length_eq.symm)).bind ?_
  intro W' _ m' _ hm' _ h
  subst h
  exact construct_typed heval hexec hm' hc ha

/-! ## Properties -/

theorem Has.override {v : Value} {s s' : Signature} (h : Has P W v s'.ty)
    (ho : overrides P.classes s s' = true) : Has P W v s.ty := by
  simp only [overrides, Bool.and_eq_true, Ty.sameAll_iff] at ho
  obtain ⟨hparams, hresult⟩ := ho
  rcases h with ⟨rfl, hp, hr⟩ | ⟨n, c, rfl, Γ, r, ha, hroutine, hp, hacc, hi⟩
  · rw [hr] at hresult
    refine .inl ⟨rfl, ?_, ?_⟩
    · rw [hp] at hparams
      simpa [Ty.eraseAll_eq] using hparams
    · rcases ClassTable.accepts_iff.1 hresult with he | ⟨_, _, -, hb, -⟩ | ⟨-, hb⟩
      · simpa [Ty.erase] using he
      · cases hb
      · cases hb
  · exact .inr ⟨n, c, rfl, Γ, r, ha, hroutine, hp.trans hparams.symm,
      P.coherent.forest.accepts_trans hresult hacc, hi⟩

/-- A property that the check has found is there, unless it is a field that is still to be set. -/
theorem Holds.served (hm : Holds P W m) {i : ObjectId} {cv : ClassValue} {c d : ClassId}
    (hi : W.objects[i]? = some d) (hcv : ClassHas P W d cv) (hsub : P.classes.isSubclass d c = true)
    (hfull : P.sealed = true → Full P W i d) {x : String} {ty : Ty}
    (hp : property? P.classes c x = some ty) :
    (m.field? i x).isSome = true ∨ (cv.findMethod? x).isSome = true ∨ Lacks P W m i x := by
  have hlineage := ClassTable.isSubclass_iff.1 hsub
  cases hf : m.field? i x with
  | some v => exact .inl rfl
  | none =>
    refine .inr ?_
    have hfind := hcv.findMethod? x
    cases hs : P.classes.findMethod? d x with
    | some s =>
      rw [hs] at hfind
      generalize cv.findMethod? x = found at hfind
      cases hfind with
      | some _ => exact .inl rfl
    | none =>
      have hdeclared : ∃ ty', P.classes.findField? d x = some ty' := by
        unfold Typing.property? at hp
        split at hp
        next hfield =>
          obtain ⟨ty', hty', -⟩ := P.coherent.findField?_sub hlineage hfield
          exact ⟨ty', hty'⟩
        next =>
          obtain ⟨s, hs', -⟩ := Option.map_eq_some_iff.1 hp
          obtain ⟨s', hs'', -⟩ := P.coherent.findMethod?_sub hlineage hs'
          rw [hs] at hs''
          cases hs''
      obtain ⟨ty', hty'⟩ := hdeclared
      refine .inr ⟨?_, hf, d, ty', hi, hty'⟩
      cases hsealed : P.sealed with
      | false => rfl
      | true =>
        have hpresent := hm.present i x (hfull hsealed x ty' hty')
        rw [hf] at hpresent
        cases hpresent

/-- The properties of the value that the check has found may be looked for. -/
theorem Has.access (hm : Holds P W m) {v : Value} {c : ClassId} (h : Has P W v (.object c))
    {name : Name} {ty : Ty} (hp : property? P.classes c name.text = some ty) :
    (typing P none).event W m (.access v name) := by
  rcases h with rfl | ⟨i, cv, d, rfl, hi, hcv, hsub, hfull⟩
  · exact ⟨.inl rfl, trivial⟩
  · exact ⟨.inr ⟨i, cv, rfl⟩, ⟨d, hi, hcv.describes⟩, hm.served hi hcv hsub hfull hp⟩

/-- A method that an object has overrides the one whose type the check has given to the property. -/
theorem ClassHas.method {i : ObjectId} {cv : ClassValue} {c d : ClassId}
    (hi : W.objects[i]? = some d) (hcv : ClassHas P W d cv) (hsub : P.classes.isSubclass d c = true)
    (hfull : P.sealed = true → Full P W i d) {x : String} {ty : Ty}
    (hp : property? P.classes c x = some ty) {f : Closure} (hf : cv.findMethod? x = some f) :
    ∃ q s s', MethodHas P W q f s' ∧ Has P W (.object i cv) (.object q) ∧ s.ty = ty ∧
      overrides P.classes s s' = true := by
  have hfind := hcv.findMethod? x
  rw [hf] at hfind
  cases hs : P.classes.findMethod? d x with
  | none =>
    rw [hs] at hfind
    cases hfind
  | some s' =>
    rw [hs] at hfind
    obtain ⟨q, hq, hk⟩ : ∃ q, P.classes.isSubclass d q = true ∧ MethodHas P W q f s' := by
      cases hfind with
      | some hm => exact hm
    obtain ⟨s, hty, hover⟩ := P.coherent.property?_method (ClassTable.isSubclass_iff.1 hsub) hp hs
    exact ⟨q, s, s', hk, .inr ⟨i, cv, d, rfl, hi, hcv, hq, hfull⟩, hty.symm, hover⟩

/-- A property of an object is a field with a value of its type, or a method. -/
theorem property_typed (hm : Holds P W m) {object : Value} {c : ClassId}
    (ho : Has P W object (.object c)) {name : Name} {ty : Ty}
    (hp : property? P.classes c name.text = some ty) :
    Safe (typing P none) W (fun w => Run.property w object name) m fun W' v _ =>
      Has P W' v ty := by
  refine Safe.property hm (ho.access hm hp) ⟨trivial, fun _ h => nomatch h⟩ ?_ ?_ ?_ <;>
    rcases ho with rfl | ⟨i, cv, d, rfl, hi, hcv, hsub, hfull⟩
  · rintro _ _ _ ⟨⟩
  · rintro _ _ v ⟨⟩ hfield
    obtain ⟨fields, hf, hx⟩ := Option.bind_eq_some_iff.1 hfield
    obtain ⟨ty', hf', hv⟩ := hm.fields i d fields name.text v hi hf hx
    exact hv.of_erase.congr (P.coherent.property?_field (ClassTable.isSubclass_iff.1 hsub) hp hf')
  · rintro _ _ _ ⟨⟩
  · rintro _ _ f ⟨⟩ - hf
    obtain ⟨q, s, s', hk, hthis, rfl, hover⟩ := hcv.method hi hsub hfull hp hf
    refine (methodValue_typed hm hk hthis (by simp)).mono ?_
    intro W' v _ _ _ _ hv
    exact hv.override hover
  · rintro _ _ ⟨⟩
  · rintro _ _ ⟨⟩ hfield hnone
    refine ⟨trivial, fun x hx => ⟨i, ?_⟩⟩
    cases hx
    have hserved := hm.served hi hcv hsub hfull hp
    rw [hfield, hnone] at hserved
    simpa using hserved

/-- Where the check has found a method of the superclass, `super` is a class with that method, and `this`
is an object of a subclass. -/
theorem Ready.superFound (h : Ready P W m Γ init) {id : NodeId} {p : ClassId}
    (hs : P.Super Γ id p) {x : String} {s : Signature} (hx : P.classes.findMethod? p x = some s) :
    ∃ d c i own f q, m.distance? id = some (d + 1) ∧
      m.frames.getAt m.current (d + 1) "super" = .ok (.classObject c) ∧
      m.frames.getAt m.current d "this" = .ok (.object i own) ∧
      c.findMethod? x = some f ∧ MethodHas P W q f s ∧ Has P W (.object i own) (.object q) := by
  obtain ⟨d, outer, inner, b, hd, houter, hp, hinner, hthis, hsub⟩ := hs.found
  obtain ⟨f, v, hf, -, hv, hsuper⟩ := h.holds.localName h.around houter hp
  obtain ⟨g, u, hg, -, hu, hobject⟩ := h.holds.localName h.around hinner hthis
  obtain ⟨p', he, c, rfl, hc⟩ := hsuper.super rfl
  obtain rfl : p = p' := by simpa [Ty.erase] using he
  obtain rfl | ⟨i, own, e, rfl, hi, hown, heb, hfull⟩ := hobject.typed (by decide)
  · exact absurd rfl (hobject.this rfl)
  obtain ⟨found, hmethod, q, hq, hk⟩ : ∃ found, c.findMethod? x = some found ∧
      ∃ q, P.classes.isSubclass p q = true ∧ MethodHas P W q found s := by
    have hfind := hc.findMethod? x
    rw [hx] at hfind
    generalize c.findMethod? x = r at hfind
    cases hfind with
    | some hm => exact ⟨_, rfl, hm⟩
  have heq : P.classes.isSubclass e q = true := by
    rw [ClassTable.isSubclass_iff] at heb hsub hq ⊢
    exact P.coherent.forest.lineage_trans (P.coherent.forest.lineage_trans heb hsub) hq
  exact ⟨d, c, i, own, found, q, (h.holds.distances id hs.lt).trans hd,
    (m.frames.getAt_ok _).2 ⟨f, hf, hv⟩, (m.frames.getAt_ok _).2 ⟨g, hg, hu⟩, hmethod, hk,
    .inr ⟨i, own, e, rfl, hi, hown, heq, hfull⟩⟩

/-- A method of the superclass, for the object that is `this`. -/
theorem superMethod_typed (h : Ready P W m Γ init) {id : NodeId} {p : ClassId}
    (hs : P.Super Γ id p) {keyword method : Name} {s : Signature}
    (hfound : P.classes.findMethod? p method.text = some s) :
    Safe (typing P none) W (fun w => Run.superMethod w id keyword method) m fun W' v _ =>
      Has P W' v s.ty := by
  obtain ⟨d, c, i, own, f, q, hd, hsuper, hthis, hf, hk, ho⟩ := h.superFound hs hfound
  have hevent : (typing P none).event W m (.super id keyword method) := by
    have hrun := Run.superMethod_eq hd hsuper hthis keyword method
    rw [hf] at hrun
    exact ⟨trivial, _, _, hrun.trans (Run.methodValue_eq _ _ _)⟩
  refine Safe.superMethod hd hsuper hthis h.holds hevent (fun f' hf' => ?_) fun hnone => ?_
  · cases hf.symm.trans hf'
    exact methodValue_typed h.holds hk ho (by simp)
  · cases hf.symm.trans hnone

/-! ## Operators in front -/

theorem unary_typed (heval : EvalTyped P eval) {operator : Token} {operand : Expr NodeId} {τ : Ty}
    (h : Ready P W m Γ init) (ht : Expr.Typed P Γ init (.unary operator operand) τ) :
    Safe (typing P none) W (fun w => Run.unary w (eval w) operator operand) m fun W' v _ =>
      Has P W' v τ := by
  unfold Run.unary
  cases ht with
  | change ho hn hu =>
    have hincrement := (increment_typed h hn hu operator).bind
      (f := fun _ r => pure r.2) (S := fun W' v _ => Has P W' v .number)
      fun W' r m' _ hm' _ hr => Safe.pure hm' hr.2
    simp only [isIncrement, Bool.or_eq_true, Token.isSymbol, decide_eq_true_eq] at ho
    rcases ho with ho | ho
    · rw [ho]
      exact hincrement
    · rw [ho]
      exact hincrement
  | not ho he =>
    rw [show operator.kind = .symbol .bang by simpa [Token.isSymbol] using ho]
    exact (heval W m Γ init operand _ h he).bind fun W' v m' _ hm' _ _ => Safe.pure hm' ⟨_, rfl⟩
  | negate ho he =>
    rw [show operator.kind = .symbol .minus by simpa [Token.isSymbol] using ho]
    refine (heval W m Γ init operand _ h he).bind ?_
    rintro W' v m' - hm' - ⟨x, rfl⟩
    exact (Computes.pure (v := .number (-x)) (τ := .number) ⟨_, rfl⟩).safe hm'

/-! ## Declarations -/

/-- A fresh name is bound to a value of its type. -/
theorem define_typed (hm : Holds P W m) (hh : Here P W m.current Γ) {name : Name} {ty : Ty}
    (hb : P.Binds Γ name ty) {v : Value}
    (hv : Has P (W.bindName m.current name.text ty.erase) v ty) :
    Safe (typing P (some m.current)) W (fun _ => Run.define name.text v) m fun W' _ _ =>
      Here P W' m.current (Γ.define name.text ty) := by
  obtain ⟨hle, hh', hholds⟩ := hm.bind hh hb
  exact Safe.of_ok (fun _ => rfl) hle (hholds v hv) rfl hh'

theorem freshIdentity_typed (hm : Holds P W m) :
    Safe (typing P none) W (fun _ => Run.freshIdentity) m fun W' _ _ => W' = W :=
  Safe.of_ok (fun _ => rfl) (Le.refl none W) (hm.identity _) rfl rfl

theorem declareFunction_typed (hm : Holds P W m) (hh : Here P W m.current Γ)
    {decl : FunctionDecl (Stmt NodeId)} {s : Signature} (hb : P.Binds Γ decl.name s.ty)
    (hr : Stmt.TypedRoutine P (Γ.define decl.name.text s.ty) s decl) :
    Safe (typing P (some m.current)) W (fun _ => Run.declareFunction decl) m fun W' _ _ =>
      Here P W' m.current (Γ.define decl.name.text s.ty) := by
  unfold Run.declareFunction
  refine Safe.get ((weaken (freshIdentity_typed hm)).bind ?_)
  intro W' id m' _ hm' hc h
  subst h
  have hc : m'.current = m.current := hc
  have hh' : Here P W' m'.current Γ := hc ▸ hh
  obtain ⟨-, hbound, -⟩ := hm'.bind hh' hb
  rw [← hc]
  refine define_typed hm' hh' hb (.inr ⟨id, _, rfl, ?_⟩)
  exact ⟨_, s, hbound.around, hr, rfl, ClassTable.accepts_of_erase rfl, fun h => nomatch h⟩

/-- The frame around the members of a class: with a superclass `parent`, one that binds `super`. -/
def AroundMembers (W : TypeWorld) (parent : Option ClassId) (f g : FrameId) : Prop :=
  match parent with
  | none => g = f
  | some p => ScopeAt W (.single "super" (.object p)) g ∧ W.frames.chain g = g :: W.frames.chain f

theorem AroundMembers.around {parent : Option ClassId} {f g : FrameId}
    (h : AroundMembers W parent f g) (ha : Around P W f Γ) :
    Around P W g (memberScope parent Γ) := by
  cases parent with
  | none =>
    obtain rfl : g = f := h
    exact ha
  | some p => exact ha.enter h.1 h.2

theorem AroundMembers.mono {parent : Option ClassId} {f g : FrameId}
    (h : AroundMembers W parent f g) {free : Option FrameId} (hle : Le free W W')
    (hf : f < W.frames.nextId) : AroundMembers W' parent f g := by
  cases parent with
  | none => exact h
  | some p => exact ⟨h.1.mono hle, by rw [hle.chain g h.1.lt, hle.chain f hf, h.2]⟩

/-- The superclass of a class has the layers that the class inherits. -/
theorem classContext_typed (hm : Holds P W m) (ha : Around P W m.current Γ)
    {decl : ClassDecl NodeId (Stmt NodeId)} {parent : Option ClassId}
    (hs : SuperclassRef.TypedOption P Γ decl.superclass parent) :
    Safe (typing P none) W (fun w => Run.classContext w decl) m fun W' r _ =>
      List.Forall₂ (LayerHas P W') (P.classes.lineageOption parent) r.1 ∧
        AroundMembers W' parent m.current r.2 := by
  unfold Run.classContext
  cases hsuper : decl.superclass with
  | none =>
    rw [hsuper] at hs
    obtain rfl : parent = none := hs
    exact Safe.get (Safe.pure hm ⟨.nil, rfl⟩)
  | some s =>
    rw [hsuper] at hs
    obtain ⟨p, rfl, hu⟩ := hs
    have hclass : Safe (typing P none) W (fun w => Run.superclass w s) m fun W' c _ =>
        ClassHas P W' p c := by
      have hready : Ready P W m Γ none := ⟨hm, ha, fun _ h => nomatch h⟩
      unfold Run.superclass
      refine (lookUp_typed hready hu).bind ?_
      rintro W' _ m' - hm' - ⟨c, rfl, hc⟩
      exact Safe.pure hm' hc
    refine hclass.bind ?_
    intro W' c m' hle hm' hcurrent hc
    have hcurrent : m'.current = m.current := hcurrent
    have ha' : Around P W' m'.current Γ := hcurrent ▸ ha.mono hle
    have hslot (x : String) : Option.Rel (fun v ty => SlotHas P W' x ty.erase v)
        ((Bindings.single "super" (Value.classObject c)).get? x)
        ((Bindings.single "super" (Ty.object p)).get? x) := by
      rw [Bindings.get?_single, Bindings.get?_single]
      split
      next hx =>
        subst hx
        exact .some ⟨fun h => absurd rfl h, fun _ => ⟨p, rfl, c, rfl, hc⟩,
          fun h => absurd h (by decide)⟩
      next => exact .none
    refine Safe.get ((openFrame_typed hm' ha' hslot (.superclass decl)).bind ?_)
    rintro W'' g m'' hle' hm'' - ⟨-, hh, hchain⟩
    exact Safe.pure hm'' ⟨hc.mono hle', hh.around.head rfl, hcurrent ▸ hchain⟩

theorem typedRoutines_iff {signatures : List Signature}
    {decls : List (FunctionDecl (Stmt NodeId))} (h : Stmt.TypedRoutines P Γ signatures decls) :
    List.Forall₂ (Stmt.TypedRoutine P Γ) signatures decls := by
  induction decls generalizing signatures with
  | nil =>
    cases h
    exact .nil
  | cons d rest ih =>
    obtain _ | ⟨hd, hrest⟩ := h
    exact .cons hd (ih hrest)

/-- What a class declaration adds to a class has the members of the class. -/
theorem declaredLayer {decl : ClassDecl NodeId (Stmt NodeId)} {id : ClassId}
    {parent : Option ClassId} {signatures : List Signature} {g : FrameId}
    (hp : decl.Planned P Γ id parent signatures) (ha : Around P W g (memberScope parent Γ))
    (hr : Stmt.TypedRoutines P (enterClass id parent Γ) signatures decl.methods) (n : Nat) :
    LayerHas P W id
      ⟨n, decl.name.text, decl.fields, Run.classMethods decl.name g decl.methods, g⟩ := by
  have hroutines := typedRoutines_iff hr
  rw [enterClass_eq] at hroutines
  let closure (d : FunctionDecl (Stmt NodeId)) : Closure := ⟨d, g, d.name.text == decl.name.text⟩
  let Declared (c : Closure) (s : Signature) : Prop :=
    Stmt.TypedRoutine P ((memberScope parent Γ).enter (.single "this" (.object id))) s c.decl ∧
      c = closure c.decl
  have hzip : List.Forall₂ (fun p q => p.1 = q.1 ∧ Declared p.2 q.2)
      (decl.methods.map fun d => (d.name.text, closure d))
      ((decl.methods.map fun d => d.name.text).zip signatures) := by
    clear hp hr
    generalize decl.methods = methods at hroutines
    induction hroutines with
    | nil => exact .nil
    | cons hd _ ih => exact .cons ⟨rfl, hd, rfl⟩ ih
  refine ⟨hp.name.symm, fun x => ?_, ⟨memberScope parent Γ, ha, hp.fields⟩, hp.declared⟩
  · have hrel := (Bindings.Forall₂.ofList hzip).get? x
    have hkey (c : Closure) (hc : (Run.classMethods decl.name g decl.methods).get? x = some c) :
        c.decl.name.text = x := by
      obtain ⟨d, -, hd⟩ := List.mem_map.1 (Bindings.get?_ofList hc)
      cases hd
      rfl
    have hinit (s : Signature) (hs : P.classes.ownMethod? id x = some s)
        (hx : x = decl.name.text) : s.result = .void :=
      P.coherent.initializer id s (by rw [ClassTable.initializer?, hp.name, ← hx]; exact hs)
    rw [← hp.methods] at hrel
    change Option.Rel Declared ((Run.classMethods decl.name g decl.methods).get? x) _ at hrel
    generalize (Run.classMethods decl.name g decl.methods).get? x = found,
      P.classes.ownMethod? id x = s at hrel hkey hinit ⊢
    cases hrel with
    | none => exact .none
    | some hd =>
      obtain ⟨hroutine, hc⟩ := hd
      refine .some ⟨memberScope parent Γ, by rw [hc]; exact ha, hroutine, fun hi => ?_⟩
      rw [hc] at hi
      exact hinit _ rfl ((hkey _ rfl).symm.trans (eq_of_beq hi))

theorem declareClass_typed (hm : Holds P W m) (hh : Here P W m.current Γ)
    {decl : ClassDecl NodeId (Stmt NodeId)} {id : ClassId} {parent : Option ClassId}
    {signatures : List Signature} (hb : P.Binds Γ decl.name (.classObject id))
    (hs : SuperclassRef.TypedOption P Γ decl.superclass parent)
    (hp : decl.Planned P (Γ.define decl.name.text (.classObject id)) id parent signatures)
    (hr : Stmt.TypedRoutines P (enterClass id parent (Γ.define decl.name.text (.classObject id)))
      signatures decl.methods) :
    Safe (typing P (some m.current)) W (fun w => Run.declareClass w decl) m fun W' _ _ =>
      Here P W' m.current (Γ.define decl.name.text (.classObject id)) := by
  unfold Run.declareClass
  refine (around hh (classContext_typed hm hh.around hs)).bind ?_
  rintro W' ⟨inherited, frame⟩ m' hle hm' hc ⟨⟨hinherited, hmembers⟩, hh'⟩
  have hc : m'.current = m.current := hc
  refine (weaken (freshIdentity_typed hm')).bind ?_
  intro W'' n m'' _ hm'' hc' h
  subst h
  have hcurrent : m''.current = m.current := Eq.trans hc' hc
  have hh'' : Here P W'' m''.current Γ := hcurrent ▸ hh'
  obtain ⟨hbind, hbound, -⟩ := hm''.bind hh'' hb
  rw [← hcurrent] at hmembers ⊢
  have haround := (hmembers.mono hbind hh''.around.lt).around hbound.around
  refine define_typed hm'' hh'' hb ⟨_, rfl, ?_⟩
  unfold ClassHas
  rw [hp.lineage]
  exact .cons (declaredLayer hp haround hr n) (hinherited.imp fun _ _ hl => hl.mono hbind)

/-! ## Expressions and statements -/

/-- One more level of expressions is typed. -/
theorem evalWith_step {fuel : Nat} (heval : EvalTyped P fun w => Run.evalWith w fuel)
    (hexec : ExecTyped P fun w => Run.execWith w fuel) :
    EvalTyped P fun w => Run.evalWith w (fuel + 1) := by
  intro W m Γ init e τ h ht
  cases e with
  | literal value =>
    cases ht
    refine Safe.pure h.holds ?_
    cases value with
    | nil => rfl
    | _ => exact ⟨_, rfl⟩
  | grouping inner =>
    cases ht with
    | grouping hi => exact heval W m Γ init inner τ h hi
  | unary operator operand => exact unary_typed heval h ht
  | suffixed operand operator =>
    cases ht with
    | suffixed hn hu =>
      refine (increment_typed h hn hu operator).bind ?_
      intro W' r m' _ hm' _ hr
      exact Safe.pure hm' hr.1
  | binary left operator right =>
    cases ht with
    | binary hl hr hb =>
      refine (heval W m Γ init left _ h hl).bind ?_
      intro W' l m' hle hm' hc hleft
      refine (heval W' m' Γ init right _ (h.later hle hm' hc) hr).bind ?_
      intro W'' r m'' hle' hm'' _ hright
      exact (binary_computes (hleft.mono hle') hright hb).safe hm''
  | logical left operator right =>
    cases ht with
    | logical hl hr =>
      refine (heval W m Γ init left _ h hl).bind ?_
      intro W' l m' hle hm' hc hleft
      split
      · exact Safe.pure hm' hleft
      · exact heval W' m' Γ init right _ (h.later hle hm' hc) hr
  | «variable» id name =>
    cases ht with
    | «variable» hu => exact lookUp_typed h hu
  | assign id name value =>
    cases ht with
    | assign hn hu hv hacc =>
      refine (heval W m Γ init value _ h hv).bind ?_
      intro W' v m' hle hm' hc hvalue
      have hvalue := hvalue.accepts hacc
      refine (assign_typed (h.later hle hm' hc) hn hu hvalue).bind ?_
      rintro _ _ m'' - hm'' - rfl
      exact Safe.pure hm'' hvalue.erase
    | assignOwn ho hv =>
      refine (heval W m Γ init value _ h hv).bind ?_
      intro W' v m' hle hm' hc _
      refine (assignOwn_typed (R := fun _ _ _ => False) (h.later hle hm' hc) ho v).bind ?_
      intro _ _ _ _ _ _ hf
      exact hf.elim
  | call callee line arguments =>
    cases ht with
    | construct hf hargs hparams =>
      refine (heval W m Γ init callee _ h hf).bind ?_
      intro W' f m' hle hm' hc hcallee
      refine (evalAll_typed heval (h.later hle hm' hc) hargs).bind ?_
      intro W'' args m'' hle' hm'' _ hvalues
      exact callClass_typed heval hexec hm'' line (hcallee.mono hle')
        (accepted_args hvalues hparams)
    | call hf hargs hparams =>
      refine (heval W m Γ init callee _ h hf).bind ?_
      intro W' f m' hle hm' hc hcallee
      refine (evalAll_typed heval (h.later hle hm' hc) hargs).bind ?_
      intro W'' args m'' hle' hm'' _ hvalues
      exact call_typed hexec hm'' line (hcallee.mono hle') (accepted_args hvalues hparams)
  | get object name =>
    cases ht with
    | get ho hp =>
      refine (heval W m Γ init object _ h ho).bind ?_
      intro W' v m' _ hm' _ hobject
      refine (property_typed hm' hobject hp).mono ?_
      intro _ _ _ _ _ _ hv
      exact hv.erase
  | set object name value =>
    cases ht with
    | @set _ _ _ c ty τ ho hf hv hacc =>
      refine (heval W m Γ init object _ h ho).bind ?_
      intro W' target m' hle hm' hc hobject
      have hp : property? P.classes c name.text = some ty := by rw [Typing.property?, hf]
      refine Safe.told hm' (hobject.access hm' hp) ?_
      obtain rfl | ⟨i, cv, d, rfl, hi, -, hsub, -⟩ := hobject
      · exact Safe.fail hm' ⟨trivial, fun _ h => nomatch h⟩
      · refine (heval _ _ Γ init value τ (h.later hle hm' hc) hv).bind ?_
        intro V v n hle' hn _ hvalue
        have hvalue := hvalue.accepts hacc
        refine (setField_typed hn ⟨d, hle'.objects i d hi, hsub⟩ hf hvalue).bind ?_
        intro V' _ n' hle'' hn' _ _
        exact Safe.pure hn' (hvalue.mono hle'').erase
  | this id keyword =>
    cases ht with
    | this hu => exact lookUp_typed h hu
  | super id keyword method =>
    cases ht with
    | super hs hm =>
      refine (superMethod_typed h hs hm).mono ?_
      intro _ _ _ _ _ _ hv
      exact hv.erase

/-- One more level of statements is typed. -/
theorem execWith_step {fuel : Nat} (heval : EvalTyped P fun w => Run.evalWith w fuel)
    (hexec : ExecTyped P fun w => Run.execWith w fuel) :
    ExecTyped P fun w => Run.execWith w (fuel + 1) := by
  intro W m returns Γ Γ' s hm hh ht
  have hready : Ready P W m Γ none := ⟨hm, hh.around, fun _ h => nomatch h⟩
  have hevent : (typing P (some m.current)).event W m (.statement s) := ⟨trivial, trivial⟩
  refine Safe.told hm hevent ?_
  cases s with
  | expression value =>
    cases ht with
    | expression hv =>
      refine (around hh (heval W m Γ none value _ hready hv)).bind ?_
      rintro W' v m' - hm' - ⟨-, hh'⟩
      exact Safe.pure hm' ⟨trivial, hh', fun h => nomatch h⟩
  | print value =>
    cases ht with
    | print hv =>
      refine (around hh (heval W m Γ none value _ hready hv)).bind ?_
      rintro W' v m' - hm' - ⟨-, hh'⟩
      refine (around hh' (print_typed hm' v.text)).bind ?_
      rintro W'' _ m'' - hm'' - ⟨-, hh''⟩
      exact Safe.pure hm'' ⟨trivial, hh'', fun h => nomatch h⟩
  | var decl =>
    cases ht with
    | var hv hacc hb =>
      refine (around hh (evalOption_typed heval (hh.readyToBind hm hb) hv)).bind ?_
      rintro W' v m' - hm' hc ⟨hvalue, hh'⟩
      have hc : m'.current = m.current := hc
      rw [← hc] at hh' ⊢
      obtain ⟨hbind, -, -⟩ := hm'.bind hh' hb
      refine (define_typed hm' hh' hb ((hvalue.accepts hacc).mono hbind)).bind ?_
      intro W'' _ m'' _ hm'' _ hh''
      exact Safe.pure hm'' ⟨trivial, hh'', fun h => nomatch h⟩
  | block body =>
    cases ht with
    | block hb =>
      refine (around hh (execBlock_typed hexec hm hh.around hb)).mono ?_
      rintro W' flow m' - - - ⟨⟨hflow, hreturns⟩, hh'⟩
      exact ⟨hflow, hh', hreturns⟩
  | ifThen condition thenBranch =>
    cases ht with
    | ifThen hcond hthen =>
      refine (around hh (heval W m Γ none condition _ hready hcond)).bind ?_
      rintro W' v m' - hm' hc ⟨-, hh'⟩
      split
      · refine (hexec.inCurrent hm' hc hh' hthen).mono ?_
        rintro _ _ _ - - - ⟨hflow, hh'', -⟩
        exact ⟨hflow, hh'', fun h => nomatch h⟩
      · exact Safe.pure hm' ⟨trivial, hh', fun h => nomatch h⟩
  | ifElse condition thenBranch elseBranch =>
    cases ht with
    | ifElse hcond hthen helse =>
      refine (around hh (heval W m Γ none condition _ hready hcond)).bind ?_
      rintro W' v m' - hm' hc ⟨-, hh'⟩
      have hboth (h : alwaysReturns (.ifElse condition thenBranch elseBranch) = true) :
          alwaysReturns thenBranch = true ∧ alwaysReturns elseBranch = true :=
        Bool.and_eq_true_iff.1 h
      split
      · refine (hexec.inCurrent hm' hc hh' hthen).mono ?_
        rintro _ _ _ - - - ⟨hflow, hh'', hreturns⟩
        exact ⟨hflow, hh'', fun h => hreturns (hboth h).1⟩
      · refine (hexec.inCurrent hm' hc hh' helse).mono ?_
        rintro _ _ _ - - - ⟨hflow, hh'', hreturns⟩
        exact ⟨hflow, hh'', fun h => hreturns (hboth h).2⟩
  | whileLoop condition body =>
    cases ht with
    | whileLoop hcond hbody =>
      refine (around hh (heval W m Γ none condition _ hready hcond)).bind ?_
      rintro W' v m' - hm' hc ⟨-, hh'⟩
      split
      · refine (hexec.inCurrent hm' hc hh' hbody).bind ?_
        rintro W'' flow m'' - hm'' hc' ⟨hflow, hh'', -⟩
        cases flow with
        | normal => exact hexec.inCurrent hm'' (Eq.trans hc' hc) hh'' (.whileLoop hcond hbody)
        | returned v => exact Safe.pure hm'' ⟨hflow, hh'', fun h => nomatch h⟩
      · exact Safe.pure hm' ⟨trivial, hh', fun h => nomatch h⟩
  | function decl =>
    cases ht with
    | function hb hr =>
      refine (declareFunction_typed hm hh hb hr).bind ?_
      intro W' _ m' _ hm' _ hh'
      exact Safe.pure hm' ⟨trivial, hh', fun h => nomatch h⟩
  | returnWith keyword value =>
    cases ht with
    | returnWith hv hacc =>
      refine (around hh (evalOption_typed heval hready hv)).bind ?_
      rintro W' v m' - hm' - ⟨hvalue, hh'⟩
      exact Safe.pure hm' ⟨hvalue.accepts hacc, hh', fun _ h => nomatch h⟩
  | classDecl decl =>
    cases ht with
    | classDecl hb hs hp hr =>
      refine (declareClass_typed hm hh hb hs hp hr).bind ?_
      intro W' _ m' _ hm' _ hh'
      exact Safe.pure hm' ⟨trivial, hh', fun h => nomatch h⟩

/-- Typed code is run as its types say. -/
theorem run_typed (P : Plan) (fuel : Nat) :
    EvalTyped P (fun w => Run.evalWith w fuel) ∧ ExecTyped P (fun w => Run.execWith w fuel) := by
  induction fuel with
  | zero =>
    constructor
    · intro W m Γ init e τ h _
      exact Safe.throw h.holds ⟨trivial, fun _ h => h.elim⟩
    · intro W m returns Γ Γ' s hm _ _
      exact Safe.throw hm ⟨trivial, fun _ h => h.elim⟩
  | succ fuel ih => exact ⟨evalWith_step ih.1 ih.2, execWith_step ih.1 ih.2⟩

end

end TypeWorld

end ClassScript
