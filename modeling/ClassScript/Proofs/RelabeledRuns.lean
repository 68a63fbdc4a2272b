import ClassScript.Machine.Eval
import ClassScript.Proofs.Related
import ClassScript.Proofs.RelabeledValues

/-!
# Runs of relabelled programs

A machine that holds the same code on other lines and with other labels runs alike if it knows the
same distances for the new labels: it ends in the same way, with the same text printed, and holds
relabelled code again (`Machine.interpret_follows`). The second run may have more fuel: then nothing
is said of a first run that has used up its own. There is one lemma for each operation of the
evaluator, and the induction on the fuel ties them together (`evaluation_follows`).
-/

set_option autoImplicit false

namespace ClassScript

/-- The machine `m'` holds the code of `m` with other lines and labels, has printed the same after
`pre`, and knows for the new labels what `m` knows for the old ones. -/
structure Machine.Relabels (ρ : Relabel NodeId NodeId) (pre : ByteArray) (m m' : Machine) : Prop where
  frames : m'.frames = m.frames.map (Value.relabel ρ)
  objects : m'.objects = m.objects.map (Bindings.map (Value.relabel ρ))
  natives : ∃ c, m.natives = #[.clock c] ∧ m'.natives = #[.clock c]
  nextIdentity : m'.nextIdentity = m.nextIdentity
  current : m'.current = m.current
  sink : m'.sink = ⟨pre ++ m.sink.written, m.sink.room, m.sink.flushFails⟩
  distance : ∀ id, m'.distance? (ρ.use id) = m.distance? id

theorem Machine.Relabels.withCurrent {ρ : Relabel NodeId NodeId} {pre : ByteArray} {m m' : Machine}
    (h : Relabels ρ pre m m') (frame : FrameId) :
    Relabels ρ pre { m with current := frame } { m' with current := frame } :=
  ⟨h.frames, h.objects, h.natives, h.nextIdentity, rfl, h.sink, h.distance⟩

/-- The way a statement ends, with other lines and labels in the value that it returns. -/
def Flow.relabel (ρ : Relabel NodeId NodeId) : Flow → Flow
  | .normal => .normal
  | .returned v => .returned (v.relabel ρ)

/-- What is as before after each part of a run: the functions of the host, the distances that are known
and the current frame. -/
structure Machine.Setting where
  natives : Array Native
  distances : Array (Option Nat)
  current : FrameId

/-- The setting of a machine. -/
def Machine.setting (m : Machine) : Setting :=
  ⟨m.natives, m.distances, m.current⟩

theorem Machine.setting_current {m n : Machine} {frame : FrameId}
    (h : n.setting = { m with current := frame }.setting) :
    { n with current := m.current }.setting = m.setting :=
  congrArg₂ (Setting.mk · · m.current) (congrArg Setting.natives h) (congrArg Setting.distances h)

/-- Machines correspond that hold the same code on other lines and with other labels. Their settings are
the world: they stay the same. A run that has used up its fuel is excused if `lax` holds. -/
def Machine.pairing (ρ : Relabel NodeId NodeId) (pre : ByteArray) (lax : Prop) :
    Pairing (Setting × Setting) Stop Stop Machine Machine where
  le := Eq
  refl _ := rfl
  trans h h' := h.trans h'
  state W m m' := Relabels ρ pre m m' ∧ (m.setting, m'.setting) = W
  error e d := d = e.onLine ρ.line
  excused e := lax ∧ e = .outOfFuel

variable {α β γ δ : Type} (ρ : Relabel NodeId NodeId) (pre : ByteArray) (lax : Prop)

/-- The second part of a run does on relabelled code what the first one does, and `f` changes the
value that it ends with. -/
def Run.Follows (f : α → β) (x : Run α) (y : Run β) : Prop :=
  ∀ W, Related (Machine.pairing ρ pre lax) (fun _ a b => b = f a) W x y

namespace Run

variable {ρ pre lax} {f : α → β} {x : Run α} {y : Run β} {m m' : Machine}

namespace Follows

theorem pure (f : α → β) (a : α) :
    Follows ρ pre lax f (Pure.pure a : Run α) (Pure.pure (f a) : Run β) :=
  fun _ => Related.pure rfl

theorem fail (f : α → β) (cause : RuntimeCause) (line : Nat) :
    Follows ρ pre lax f (Run.fail cause line) (Run.fail cause (ρ.line line)) :=
  fun _ => Related.throw rfl

theorem bind {g : γ → δ} {u : α → Run γ} {v : β → Run δ} (hx : Follows ρ pre lax f x y)
    (hf : ∀ a, Follows ρ pre lax g (u a) (v (f a))) : Follows ρ pre lax g (x >>= u) (y >>= v) :=
  fun W => Related.bind (hx W) fun W' a _ _ h => h ▸ hf a W'

/-- Both go on from what they see of their machines. -/
theorem get {u : Machine → Run α} {v : Machine → Run β}
    (h : ∀ m m', Machine.Relabels ρ pre m m' → Follows ρ pre lax f (u m) (v m')) :
    Follows ρ pre lax f (MonadState.get >>= u) (MonadState.get >>= v) :=
  fun W => Related.get fun m m' hm => h m m' hm.1 W m m' hm

/-- Both change their machines. -/
theorem change {u : Machine → α × Machine} {v : Machine → β × Machine}
    (h : ∀ m m', Machine.Relabels ρ pre m m' →
      ((v m').1 = f (u m).1 ∧ Machine.Relabels ρ pre (u m).2 (v m').2) ∧
        ((u m).2.setting, (v m').2.setting) = (m.setting, m'.setting)) :
    Follows ρ pre lax f (modifyGet u) (modifyGet v) :=
  fun _ => Related.change fun m m' hm =>
    ⟨(h m m' hm.1).1.1, (h m m' hm.1).1.2, (h m m' hm.1).2.trans hm.2⟩

theorem ofLookup {r : Except LookupError α} {line : Nat} :
    Follows ρ pre lax f (Run.ofLookup line r) (Run.ofLookup (ρ.line line) (r.map f)) := by
  cases r with
  | ok a => exact pure f a
  | error e => exact fail f _ _

theorem ofExcept (r : Except RuntimeError Value) :
    Follows ρ pre lax (Value.relabel ρ) (Run.ofExcept r)
      (Run.ofExcept (Operators.relabelResult ρ r)) := by
  cases r with
  | ok v => exact pure _ v
  | error e => exact fail _ _ _

end Follows

/-! ## Operations of the machine -/

theorem inFrame_follows (frame : FrameId) (h : Follows ρ pre lax f x y) :
    Follows ρ pre lax f (inFrame frame x) (inFrame frame y) := by
  rintro W m m' ⟨hm, rfl⟩
  have h := h _ { m with current := frame } { m' with current := frame }
    ⟨hm.withCurrent frame, rfl⟩
  have hback {n n' : Machine} (hs : (n.setting, n'.setting) =
      ({ m with current := frame }.setting, { m' with current := frame }.setting)) :
      ({ n with current := m.current }.setting, { n' with current := m'.current }.setting) =
        (m.setting, m'.setting) :=
    congrArg₂ Prod.mk (Machine.setting_current (congrArg Prod.fst hs))
      (Machine.setting_current (congrArg Prod.snd hs))
  unfold inFrame
  dsimp only
  generalize x { m with current := frame } = r at h
  generalize y { m' with current := frame } = u at h
  cases h with
  | ok hle hr hs =>
    cases hle
    obtain ⟨hs, hW⟩ := hs
    exact .ok rfl hr ⟨⟨hs.frames, hs.objects, hs.natives, hs.nextIdentity, hm.current, hs.sink,
      hs.distance⟩, hback hW⟩
  | error hle he hs =>
    cases hle
    obtain ⟨hs, hW⟩ := hs
    exact .error rfl he ⟨⟨hs.frames, hs.objects, hs.natives, hs.nextIdentity, hm.current, hs.sink,
      hs.distance⟩, hback hW⟩
  | excused he => exact .excused he

theorem freshIdentity_follows : Follows ρ pre lax id freshIdentity freshIdentity :=
  Follows.change fun _ _ hm => ⟨⟨hm.nextIdentity,
    { hm with nextIdentity := congrArg (· + 1) hm.nextIdentity }⟩, rfl⟩

theorem openFrame_follows (outer : FrameId) (vars : Bindings Value) (o o' : Opening) :
    Follows ρ pre lax id (openFrame .none outer vars o)
      (openFrame .none outer (vars.map (Value.relabel ρ)) o') := by
  have hnew : Follows ρ pre lax id (newFrame outer vars)
      (newFrame outer (vars.map (Value.relabel ρ))) := by
    refine Follows.change fun m m' hm => ⟨⟨?_, { hm with frames := ?_ }⟩, rfl⟩
    · simp only [hm.frames, Frames.nextId_map, id_eq]
    · simp only [hm.frames, Frames.map_addChild]
  exact hnew.bind fun frame => (Follows.pure id ()).bind fun _ => Follows.pure id frame

theorem newObject_follows : Follows ρ pre lax id newObject newObject := by
  refine Follows.change fun m m' hm => ⟨⟨?_, { hm with objects := ?_ }⟩, rfl⟩
  · simp only [hm.objects, Array.size_map, id_eq]
  · simp only [hm.objects, Array.map_push, Bindings.map_empty]

theorem setField_follows (id : ObjectId) (name : String) (v : Value) :
    Follows ρ pre lax (fun u : Unit => u) (setField id name v) (setField id name (v.relabel ρ)) := by
  refine Follows.change fun m m' hm => ⟨⟨rfl, { hm with objects := ?_ }⟩, rfl⟩
  simp only [hm.objects]
  refine Array.ext_getElem? fun i => ?_
  simp only [Array.getElem?_map, Array.getElem?_modify]
  split
  · cases m.objects[i]? <;> simp [Bindings.map_insert]
  · rfl

theorem getField?_follows (id : ObjectId) (name : String) :
    Follows ρ pre lax (Option.map (Value.relabel ρ)) (getField? id name) (getField? id name) := by
  refine Follows.get fun m m' hm => ?_
  have h : m'.field? id name = (m.field? id name).map (Value.relabel ρ) := by
    unfold Machine.field?
    rw [hm.objects, Array.getElem?_map]
    cases m.objects[id]? <;> simp
  rw [h]
  exact Follows.pure _ _

theorem define_follows (name : String) (v : Value) :
    Follows ρ pre lax (fun u : Unit => u) (define name v) (define name (v.relabel ρ)) := by
  refine Follows.change fun m m' hm => ⟨⟨rfl, { hm with frames := ?_ }⟩, rfl⟩
  simp only [hm.frames, hm.current, Frames.map_define]

/-- A use of a name is bound alike in both machines. -/
theorem valueOf_relabel (hm : Machine.Relabels ρ pre m m') (id : NodeId) (name : Name) :
    m'.valueOf (ρ.use id) (name.onLine ρ.line) = (m.valueOf id name).map (Value.relabel ρ) := by
  unfold Machine.valueOf
  rw [hm.distance, hm.frames, hm.current]
  cases m.distance? id <;> simp

theorem slot_relabel (hm : Machine.Relabels ρ pre m m') (id : NodeId) (name : Name) :
    m'.slot (ρ.use id) (name.onLine ρ.line) = m.slot id name := by
  unfold Machine.slot
  rw [hm.distance, hm.frames, hm.current]
  cases m.distance? id <;> simp

theorem lookUp_follows (id : NodeId) (name : Name) :
    Follows ρ pre lax (Value.relabel ρ) (lookUp .none id name)
      (lookUp .none (ρ.use id) (name.onLine ρ.line)) := by
  refine (Follows.pure (fun u : Unit => u) ()).bind fun _ => Follows.get fun m m' hm => ?_
  rw [valueOf_relabel hm]
  exact Follows.ofLookup

theorem assign_follows (id : NodeId) (name : Name) (v : Value) :
    Follows ρ pre lax (fun u : Unit => u) (assign id name v)
      (assign (ρ.use id) (name.onLine ρ.line) (v.relabel ρ)) := by
  refine Follows.get fun m m' hm => ?_
  rw [slot_relabel hm]
  have hslot : Follows ρ pre lax (fun frame : FrameId => frame)
      (ofLookup name.line (m.slot id name)) (ofLookup (ρ.line name.line) (m.slot id name)) := by
    have h := @Follows.ofLookup _ _ ρ pre lax (fun frame : FrameId => frame) (m.slot id name) name.line
    cases hr : m.slot id name <;> rw [hr] at h <;> exact h
  refine hslot.bind fun frame => Follows.change fun m m' hm => ⟨⟨rfl, { hm with frames := ?_ }⟩, rfl⟩
  simp only [hm.frames, Frames.map_define, Name.text_onLine]

theorem print_follows (text : String) :
    Follows ρ pre lax (fun u : Unit => u) (print text) (print text) := by
  rintro W m m' ⟨hm, hW⟩
  unfold print Sink.write
  rw [hm.sink]
  dsimp only
  cases m.sink.room with
  | none => exact .value rfl ⟨{ hm with sink := by simp only [ByteArray.append_assoc] }, hW⟩
  | some n =>
    dsimp only
    by_cases h : (text ++ "\n").toUTF8.size < n
    · rw [if_pos h, if_pos h]
      exact .value rfl ⟨{ hm with sink := by simp only [ByteArray.append_assoc] }, hW⟩
    · rw [if_neg h, if_neg h]
      exact .failure rfl ⟨{ hm with sink := by simp only [ByteArray.append_assoc] }, hW⟩

/-- The clock does not look at its arguments, and its faults are on line 0. -/
theorem callNative_follows (h0 : ρ.line 0 = 0) (id : Nat) (args args' : List Value) :
    Follows ρ pre lax (Value.relabel ρ) (callNative id args) (callNative id args') := by
  refine Follows.get fun m m' hm => ?_
  obtain ⟨c, hc, hc'⟩ := hm.natives
  rw [hc, hc']
  cases id with
  | zero =>
    cases c with
    | ok seconds => exact Follows.pure _ _
    | error reason =>
      have h := @Follows.fail _ _ ρ pre lax (Value.relabel ρ) (.native ("Clock error: " ++ reason)) 0
      rw [h0] at h
      exact h
  | succ id => exact Follows.pure _ _

/-! ## Sequences -/

section

variable {eval eval' : EvalFn} {exec exec' : ExecFn}

/-- The second way to run expressions does on relabelled expressions what the first one does. -/
abbrev EvalFollows (ρ : Relabel NodeId NodeId) (pre : ByteArray) (lax : Prop)
    (eval eval' : EvalFn) : Prop :=
  ∀ e, Follows ρ pre lax (Value.relabel ρ) (eval e) (eval' (e.relabel ρ))

/-- The second way to run statements does on relabelled statements what the first one does. -/
abbrev ExecFollows (ρ : Relabel NodeId NodeId) (pre : ByteArray) (lax : Prop)
    (exec exec' : ExecFn) : Prop :=
  ∀ s, Follows ρ pre lax (Flow.relabel ρ) (exec s) (exec' (s.relabel ρ))

theorem evalAll_follows (he : EvalFollows ρ pre lax eval eval') (es : List (Expr NodeId)) :
    Follows ρ pre lax (List.map (Value.relabel ρ)) (evalAll eval es)
      (evalAll eval' (Expr.relabelAll ρ es)) := by
  induction es with
  | nil => exact Follows.pure _ []
  | cons e rest ih =>
    exact (he e).bind fun v => ih.bind fun vs => Follows.pure (List.map (Value.relabel ρ)) (v :: vs)

theorem evalOption_follows (he : EvalFollows ρ pre lax eval eval') (e : Option (Expr NodeId)) :
    Follows ρ pre lax (Value.relabel ρ) (evalOption eval e)
      (evalOption eval' (e.map (Expr.relabel ρ))) := by
  cases e with
  | none => exact Follows.pure (Value.relabel ρ) .nil
  | some e => exact he e

theorem execAll_follows (hs : ExecFollows ρ pre lax exec exec') (ss : List (Stmt NodeId)) :
    Follows ρ pre lax (Flow.relabel ρ) (execAll exec ss) (execAll exec' (Stmt.relabelAll ρ ss)) := by
  induction ss with
  | nil => exact Follows.pure (Flow.relabel ρ) .normal
  | cons s rest ih =>
    refine (hs s).bind fun flow => ?_
    cases flow with
    | normal => exact ih
    | returned v => exact Follows.pure (Flow.relabel ρ) (.returned v)

theorem execBlock_follows (hs : ExecFollows ρ pre lax exec exec') (body : List (Stmt NodeId)) :
    Follows ρ pre lax (Flow.relabel ρ) (execBlock .none exec body)
      (execBlock .none exec' (Stmt.relabelAll ρ body)) := by
  refine Follows.get fun m m' hm => ?_
  rw [hm.current]
  exact (openFrame_follows _ .empty _ _).bind fun frame =>
    inFrame_follows frame (execAll_follows hs body)

/-! ## Calls -/

theorem bindMethod_follows (method : Closure) (this : Value) :
    Follows ρ pre lax (Closure.relabel ρ) (bindMethod .none method this)
      (bindMethod .none (method.relabel ρ) (this.relabel ρ)) :=
  (openFrame_follows method.frame (.single "this" this) _ _).bind fun frame =>
    Follows.pure (Closure.relabel ρ) { method with frame }

theorem methodValue_follows (method : Closure) (this : Value) :
    Follows ρ pre lax (Value.relabel ρ) (methodValue .none method this)
      (methodValue .none (method.relabel ρ) (this.relabel ρ)) :=
  (bindMethod_follows method this).bind fun bound =>
    freshIdentity_follows.bind fun id => Follows.pure (Value.relabel ρ) (.function id bound)

theorem paramBindings_relabel (params : List Param) (args : List Value) :
    paramBindings (params.map (Param.onLine ρ.line)) (args.map (Value.relabel ρ)) =
      (paramBindings params args).map (Value.relabel ρ) := by
  unfold paramBindings
  rw [Bindings.map_ofList, List.map_map]
  congr 1
  induction params generalizing args with
  | nil => rfl
  | cons p rest ih =>
    cases args with
    | nil => rfl
    | cons v others =>
      simp only [List.map_cons, List.zip_cons_cons, ih]
      rfl

theorem callResult_follows (f : Closure) (flow : Flow) :
    Follows ρ pre lax (Value.relabel ρ) (callResult f flow)
      (callResult (f.relabel ρ) (flow.relabel ρ)) := by
  have hinit : Follows ρ pre lax (Value.relabel ρ) (callResult.initialized f)
      (callResult.initialized (f.relabel ρ)) := by
    refine Follows.get fun m m' hm => ?_
    rw [hm.frames, Frames.getAt_map, Closure.name_relabel]
    exact Follows.ofLookup
  unfold callResult
  rw [show (f.relabel ρ).isInitializer = f.isInitializer from rfl]
  cases flow with
  | normal =>
    dsimp only [Flow.relabel]
    split
    · exact hinit
    · exact Follows.pure (Value.relabel ρ) .nil
  | returned v =>
    dsimp only [Flow.relabel]
    split
    · exact hinit
    · exact Follows.pure (Value.relabel ρ) v

theorem invoke_follows (hs : ExecFollows ρ pre lax exec exec') (f : Closure) (args : List Value) :
    Follows ρ pre lax (Value.relabel ρ) (invoke .none exec f args)
      (invoke .none exec' (f.relabel ρ) (args.map (Value.relabel ρ))) := by
  unfold invoke
  rw [Closure.params_relabel, paramBindings_relabel, Closure.body_relabel]
  exact (openFrame_follows f.frame _ _ _).bind fun frame =>
    (inFrame_follows frame (execAll_follows hs f.decl.body)).bind fun flow =>
      callResult_follows f flow

theorem setFields_follows (he : EvalFollows ρ pre lax eval eval') (id : ObjectId)
    (frame : FrameId) (ds : List (VarDecl NodeId)) :
    Follows ρ pre lax (fun u : Unit => u) (setFields eval id frame ds)
      (setFields eval' id frame (ds.map (VarDecl.relabel ρ))) := by
  induction ds with
  | nil => exact Follows.pure _ ()
  | cons d rest ih =>
    exact (inFrame_follows frame (evalOption_follows he d.initializer)).bind fun v =>
      (setField_follows id d.name.text v).bind fun _ => ih

theorem setLayer_follows (he : EvalFollows ρ pre lax eval eval') (id : ObjectId) (this : Value)
    (layer : Layer) : Follows ρ pre lax (fun u : Unit => u) (setLayer .none eval id this layer)
      (setLayer .none eval' id (this.relabel ρ) (layer.relabel ρ)) := by
  unfold setLayer
  simp only [Layer.relabel, List.isEmpty_map]
  split
  · exact Follows.pure _ ()
  · exact (openFrame_follows layer.frame (.single "this" this) _ _).bind fun frame =>
      setFields_follows he id frame layer.fields

theorem setLayers_follows (he : EvalFollows ρ pre lax eval eval') (id : ObjectId) (this : Value)
    (layers : List Layer) : Follows ρ pre lax (fun u : Unit => u) (setLayers .none eval id this layers)
      (setLayers .none eval' id (this.relabel ρ) (layers.map (Layer.relabel ρ))) := by
  induction layers with
  | nil => exact Follows.pure _ ()
  | cons layer rest ih => exact (setLayer_follows he id this layer).bind fun _ => ih

theorem construct_follows (he : EvalFollows ρ pre lax eval eval')
    (hs : ExecFollows ρ pre lax exec exec') (c : ClassValue) (args : List Value) :
    Follows ρ pre lax (Value.relabel ρ) (construct .none eval exec c args)
      (construct .none eval' exec' (c.relabel ρ) (args.map (Value.relabel ρ))) := by
  unfold construct
  refine newObject_follows.bind fun id => ?_
  rw [ClassValue.layers_relabel, ← List.map_reverse]
  refine (setLayers_follows he id (.object id c) c.layers.reverse).bind fun _ => ?_
  rw [ClassValue.initializer?_relabel]
  cases c.initializer? with
  | none => exact Follows.pure (Value.relabel ρ) (.object id c)
  | some f =>
    exact (bindMethod_follows f (.object id c)).bind fun bound =>
      (invoke_follows hs bound args).bind fun _ => Follows.pure (Value.relabel ρ) (.object id c)

theorem checkArity_follows (line expected got : Nat) :
    Follows ρ pre lax (fun u : Unit => u) (checkArity line expected got)
      (checkArity (ρ.line line) expected got) := by
  unfold checkArity
  split
  · exact Follows.pure _ ()
  · exact Follows.fail _ _ _

theorem call_follows (h0 : ρ.line 0 = 0) (he : EvalFollows ρ pre lax eval eval')
    (hs : ExecFollows ρ pre lax exec exec') (line : Nat) (v : Value) (args : List Value) :
    Follows ρ pre lax (Value.relabel ρ) (call .none eval exec line v args)
      (call .none eval' exec' (ρ.line line) (v.relabel ρ) (args.map (Value.relabel ρ))) := by
  cases v with
  | native id arity =>
    simp only [Value.relabel, call, List.length_map]
    exact (checkArity_follows line arity args.length).bind fun _ =>
      callNative_follows h0 id args _
  | function id closure =>
    simp only [Value.relabel, call, List.length_map, Closure.params_relabel]
    exact (checkArity_follows line _ args.length).bind fun _ => invoke_follows hs closure args
  | classObject c =>
    simp only [Value.relabel, call, List.length_map, ClassValue.arity_relabel]
    exact (checkArity_follows line _ args.length).bind fun _ => construct_follows he hs c args
  | _ => exact Follows.fail _ _ _

/-! ## Properties -/

theorem property_follows (object : Value) (name : Name) :
    Follows ρ pre lax (Value.relabel ρ) (property .none object name)
      (property .none (object.relabel ρ) (name.onLine ρ.line)) := by
  refine (Follows.pure (fun u : Unit => u) ()).bind fun _ => ?_
  cases object with
  | object id c =>
    refine (getField?_follows id name.text).bind fun field => ?_
    cases field with
    | some v => exact Follows.pure _ v
    | none =>
      simp only [Option.map_none, Name.text_onLine, ClassValue.findMethod?_relabel]
      cases c.findMethod? name.text with
      | some method => exact methodValue_follows method (.object id c)
      | none => exact Follows.fail _ _ _
  | _ => exact Follows.fail _ _ _

theorem superMethod_follows (id : NodeId) (keyword method : Name) :
    Follows ρ pre lax (Value.relabel ρ) (superMethod .none id keyword method)
      (superMethod .none (ρ.use id) (keyword.onLine ρ.line) (method.onLine ρ.line)) := by
  refine (Follows.pure (fun u : Unit => u) ()).bind fun _ => Follows.get fun m m' hm => ?_
  rw [hm.distance, hm.frames, hm.current]
  cases m.distance? id with
  | none => exact Follows.fail _ _ _
  | some d =>
    simp only [Frames.getAt_map]
    refine Follows.ofLookup.bind fun superclass => ?_
    cases superclass with
    | classObject c =>
      refine Follows.ofLookup.bind fun this => ?_
      cases this with
      | object i own =>
        simp only [Value.relabel, Name.text_onLine, ClassValue.findMethod?_relabel]
        cases c.findMethod? method.text with
        | some found => exact methodValue_follows found (.object i own)
        | none => exact Follows.fail _ _ _
      | _ => exact Follows.fail _ _ _
    | _ => exact Follows.fail _ _ _

/-! ## Increments -/

theorem increment_follows (operand : Expr NodeId) (operator : Token) :
    Follows ρ pre lax (Prod.map (Value.relabel ρ) (Value.relabel ρ))
      (increment .none operand operator)
      (increment .none (operand.relabel ρ) (operator.onLine ρ.line)) := by
  match operand with
  | .variable id name =>
    refine (lookUp_follows id name).bind fun v => ?_
    cases v with
    | number old =>
      exact (assign_follows id name (.number _)).bind fun _ =>
        Follows.pure (Prod.map (Value.relabel ρ) (Value.relabel ρ)) (.number old, .number _)
    | _ => exact Follows.fail _ _ _
  | .literal _ => exact Follows.fail _ _ _
  | .unary _ _ => exact Follows.fail _ _ _
  | .suffixed _ _ => exact Follows.fail _ _ _
  | .binary _ _ _ => exact Follows.fail _ _ _
  | .logical _ _ _ => exact Follows.fail _ _ _
  | .grouping _ => exact Follows.fail _ _ _
  | .assign _ _ _ => exact Follows.fail _ _ _
  | .call _ _ _ => exact Follows.fail _ _ _
  | .get _ _ => exact Follows.fail _ _ _
  | .set _ _ _ => exact Follows.fail _ _ _
  | .this _ _ => exact Follows.fail _ _ _
  | .super _ _ _ => exact Follows.fail _ _ _

theorem unary_follows (he : EvalFollows ρ pre lax eval eval') (operator : Token)
    (operand : Expr NodeId) :
    Follows ρ pre lax (Value.relabel ρ) (unary .none eval operator operand)
      (unary .none eval' (operator.onLine ρ.line) (operand.relabel ρ)) := by
  unfold unary
  rw [Token.kind_onLine]
  split
  · exact (increment_follows operand operator).bind fun p => Follows.pure (Value.relabel ρ) p.2
  · exact (increment_follows operand operator).bind fun p => Follows.pure (Value.relabel ρ) p.2
  · refine (he operand).bind fun v => ?_
    rw [Token.line_onLine, Operators.negate_relabel]
    exact Follows.ofExcept _
  · refine (he operand).bind fun v => ?_
    rw [Value.isTruthy_relabel]
    exact Follows.pure (Value.relabel ρ) (.boolean _)
  · exact Follows.fail _ _ _

theorem decides_relabel (operator : Token) (left : Value) :
    decides (operator.onLine ρ.line) (left.relabel ρ) = decides operator left := by
  simp [decides]

/-! ## Classes -/

theorem superclass_follows (s : SuperclassRef NodeId) :
    Follows ρ pre lax (ClassValue.relabel ρ) (superclass .none s)
      (superclass .none (s.relabel ρ)) := by
  refine (lookUp_follows s.id s.name).bind fun v => ?_
  cases v with
  | classObject c => exact Follows.pure (ClassValue.relabel ρ) c
  | _ => exact Follows.fail _ _ _

theorem classContext_follows (decl : ClassDecl NodeId (Stmt NodeId)) :
    Follows ρ pre lax (Prod.map (List.map (Layer.relabel ρ)) id) (classContext .none decl)
      (classContext .none (decl.relabel ρ)) := by
  unfold classContext ClassDecl.relabel
  cases decl.superclass with
  | none =>
    refine Follows.get fun m m' hm => ?_
    rw [hm.current]
    exact Follows.pure (Prod.map (List.map (Layer.relabel ρ)) id) ([], m.current)
  | some s =>
    refine (superclass_follows s).bind fun c => Follows.get fun m m' hm => ?_
    rw [hm.current]
    exact (openFrame_follows m.current (.single "super" (.classObject c)) _ _).bind fun frame =>
      Follows.pure (Prod.map (List.map (Layer.relabel ρ)) id) (c.layers, frame)

theorem classMethods_relabel (className : Name) (frame : FrameId)
    (methods : List (FunctionDecl (Stmt NodeId))) :
    classMethods (className.onLine ρ.line) frame (Stmt.relabelRoutines ρ methods) =
      (classMethods className frame methods).map (Closure.relabel ρ) := by
  unfold classMethods
  rw [Bindings.map_ofList, Stmt.relabelRoutines_eq, List.map_map, List.map_map]
  refine congrArg Bindings.ofList (List.map_congr_left fun d _ => ?_)
  simp only [Function.comp_apply, Stmt.relabelRoutine_eq, Closure.relabel, Name.text_onLine]

theorem declareClass_follows (decl : ClassDecl NodeId (Stmt NodeId)) :
    Follows ρ pre lax (fun u : Unit => u) (declareClass .none decl)
      (declareClass .none (decl.relabel ρ)) := by
  refine (classContext_follows decl).bind fun (inherited, frame) =>
    freshIdentity_follows.bind fun id => ?_
  have h := @define_follows ρ pre lax decl.name.text (.classObject ⟨⟨id, decl.name.text, decl.fields,
    classMethods decl.name frame decl.methods, frame⟩, inherited⟩)
  simp only [Value.relabel, ClassValue.relabel, Layer.relabel, ← classMethods_relabel] at h
  exact h

theorem declareFunction_follows (decl : FunctionDecl (Stmt NodeId)) :
    Follows ρ pre lax (fun u : Unit => u) (declareFunction decl)
      (declareFunction (Stmt.relabelRoutine ρ decl)) := by
  refine Follows.get fun m m' hm => freshIdentity_follows.bind fun id => ?_
  have h := @define_follows ρ pre lax decl.name.text (.function id ⟨decl, m.current, false⟩)
  rw [hm.current, Stmt.relabelRoutine_eq]
  rw [Value.relabel, Closure.relabel, Stmt.relabelRoutine_eq] at h
  exact h

end

/-! ## Expressions and statements -/

/-- The second run may have more fuel only if a first run without fuel is excused. -/
def FuelFor (lax : Prop) (fuel fuel' : Nat) : Prop :=
  fuel = fuel' ∨ lax ∧ fuel ≤ fuel'

theorem FuelFor.pred {n n' : Nat} (h : FuelFor lax (n + 1) (n' + 1)) : FuelFor lax n n' :=
  h.imp (fun he => by omega) fun ⟨hl, hle⟩ => ⟨hl, by omega⟩

/-- A run without fuel corresponds to any other one that has no less. -/
theorem outOfFuel_follows {fuel' : Nat} (h : FuelFor lax 0 fuel') (f : α → β) (y : Nat → Run β)
    (h0 : y 0 = throw .outOfFuel) : Follows ρ pre lax f (throw .outOfFuel) (y fuel') := by
  rcases h with rfl | ⟨hlax, -⟩
  · rw [h0]
    exact fun _ => Related.throw rfl
  · exact fun _ _ _ _ => .excused ⟨hlax, rfl⟩

theorem evalWith_step_follows (h0 : ρ.line 0 = 0) {n n' : Nat}
    (he : EvalFollows ρ pre lax (evalWith .none n) (evalWith .none n'))
    (hs : ExecFollows ρ pre lax (execWith .none n) (execWith .none n')) :
    EvalFollows ρ pre lax (evalWith .none (n + 1)) (evalWith .none (n' + 1)) := by
  intro e
  match e with
  | .literal value =>
    have h := @Follows.pure _ _ ρ pre lax (Value.relabel ρ) (.ofLiteral value)
    rw [Value.ofLiteral_relabel] at h
    exact h
  | .grouping inner => exact he inner
  | .unary operator operand => exact unary_follows he operator operand
  | .suffixed operand operator =>
    exact (increment_follows operand operator).bind fun p => Follows.pure (Value.relabel ρ) p.1
  | .binary left operator right =>
    refine (he left).bind fun l => (he right).bind fun r => ?_
    rw [Operators.binary_relabel]
    exact Follows.ofExcept _
  | .logical left operator right =>
    refine (he left).bind fun l => ?_
    rw [decides_relabel]
    split
    · exact Follows.pure (Value.relabel ρ) l
    · exact he right
  | .variable id name => exact lookUp_follows id name
  | .assign id name value =>
    exact (he value).bind fun v => (assign_follows id name v).bind fun _ =>
      Follows.pure (Value.relabel ρ) v
  | .call callee line arguments =>
    exact (he callee).bind fun f => (evalAll_follows he arguments).bind fun args =>
      call_follows h0 he hs line f args
  | .get object name => exact (he object).bind fun v => property_follows v name
  | .set object name value =>
    refine (he object).bind fun target => (Follows.pure (fun u : Unit => u) ()).bind fun _ => ?_
    cases target with
    | object id c =>
      exact (he value).bind fun v => (setField_follows id name.text v).bind fun _ =>
        Follows.pure (Value.relabel ρ) v
    | _ => exact Follows.fail _ _ _
  | .this id keyword => exact lookUp_follows id keyword
  | .super id keyword method => exact superMethod_follows id keyword method

theorem execWith_step_follows {n n' : Nat}
    (he : EvalFollows ρ pre lax (evalWith .none n) (evalWith .none n'))
    (hs : ExecFollows ρ pre lax (execWith .none n) (execWith .none n')) :
    ExecFollows ρ pre lax (execWith .none (n + 1)) (execWith .none (n' + 1)) := by
  intro s
  refine (Follows.pure (fun u : Unit => u) ()).bind fun _ => ?_
  match s with
  | .expression value =>
    exact (he value).bind fun _ => Follows.pure (Flow.relabel ρ) .normal
  | .print value =>
    refine (he value).bind fun v => ?_
    rw [Value.text_relabel]
    exact (print_follows v.text).bind fun _ => Follows.pure (Flow.relabel ρ) .normal
  | .var decl =>
    exact (evalOption_follows he decl.initializer).bind fun v =>
      (define_follows decl.name.text v).bind fun _ => Follows.pure (Flow.relabel ρ) .normal
  | .block body => exact execBlock_follows hs body
  | .ifThen condition thenBranch =>
    refine (he condition).bind fun v => ?_
    rw [Value.isTruthy_relabel]
    split
    · exact hs thenBranch
    · exact Follows.pure (Flow.relabel ρ) .normal
  | .ifElse condition thenBranch elseBranch =>
    refine (he condition).bind fun v => ?_
    rw [Value.isTruthy_relabel]
    split
    · exact hs thenBranch
    · exact hs elseBranch
  | .whileLoop condition body =>
    refine (he condition).bind fun v => ?_
    rw [Value.isTruthy_relabel]
    split
    · refine (hs body).bind fun flow => ?_
      cases flow with
      | normal => exact hs (.whileLoop condition body)
      | returned v => exact Follows.pure (Flow.relabel ρ) (.returned v)
    · exact Follows.pure (Flow.relabel ρ) .normal
  | .function decl =>
    exact (declareFunction_follows decl).bind fun _ => Follows.pure (Flow.relabel ρ) .normal
  | .returnWith keyword value =>
    exact (evalOption_follows he value).bind fun v =>
      Follows.pure (Flow.relabel ρ) (.returned v)
  | .classDecl decl =>
    exact (declareClass_follows decl).bind fun _ => Follows.pure (Flow.relabel ρ) .normal

/-- Expressions and statements with other lines and labels run alike. -/
theorem evaluation_follows (h0 : ρ.line 0 = 0) {fuel fuel' : Nat} (h : FuelFor lax fuel fuel') :
    EvalFollows ρ pre lax (evalWith .none fuel) (evalWith .none fuel') ∧
      ExecFollows ρ pre lax (execWith .none fuel) (execWith .none fuel') := by
  induction fuel generalizing fuel' with
  | zero =>
    refine ⟨fun e => ?_, fun s => ?_⟩
    · exact outOfFuel_follows h (Value.relabel ρ) (fun n => evalWith .none n (e.relabel ρ)) rfl
    · exact outOfFuel_follows h (Flow.relabel ρ) (fun n => execWith .none n (s.relabel ρ)) rfl
  | succ n ih =>
    obtain ⟨n', rfl⟩ : ∃ n', fuel' = n' + 1 := by
      rcases h with rfl | ⟨-, hle⟩
      · exact ⟨n, rfl⟩
      · exact ⟨fuel' - 1, by omega⟩
    obtain ⟨he, hs⟩ := ih h.pred
    exact ⟨evalWith_step_follows h0 he hs, execWith_step_follows he hs⟩

end Run

namespace Machine

variable {ρ pre lax}

theorem runAll_follows {exec exec' : Run.ExecFn} (hs : Run.ExecFollows ρ pre lax exec exec')
    (program : List (Stmt NodeId)) :
    Run.Follows ρ pre lax (fun u : Unit => u) (runAll exec program)
      (runAll exec' (Stmt.relabelAll ρ program)) := by
  induction program with
  | nil => exact Run.Follows.pure _ ()
  | cons s rest ih => exact (hs s).bind fun _ => ih

/-- A program that ends well does so with other lines and labels. -/
theorem runAll_ok_follows (h0 : ρ.line 0 = 0) {fuel fuel' : Nat} (h : Run.FuelFor lax fuel fuel')
    {m m' n : Machine} (hm : Relabels ρ pre m m') {program : List (Stmt NodeId)}
    (hrun : runAll (Run.execWith .none fuel) program m = .ok () n) :
    ∃ n', runAll (Run.execWith .none fuel') (Stmt.relabelAll ρ program) m' = .ok () n' ∧
      Relabels ρ pre n n' ∧ n.setting = m.setting ∧ n'.setting = m'.setting := by
  have hfollows := runAll_follows (Run.evaluation_follows h0 h).2 program _ m m' ⟨hm, rfl⟩
  rw [hrun] at hfollows
  generalize runAll (Run.execWith .none fuel') (Stmt.relabelAll ρ program) m' = r' at hfollows ⊢
  cases hfollows with
  | @ok _ _ _ _ n' hle _ hs =>
    cases hle
    exact ⟨n', rfl, hs.1, congrArg Prod.fst hs.2, congrArg Prod.snd hs.2⟩

/-- A program ends well if it does so with other lines and labels. -/
theorem runAll_ok_of_follows (h0 : ρ.line 0 = 0) {fuel : Nat} {m m' n' : Machine}
    (hm : Relabels ρ pre m m') {program : List (Stmt NodeId)}
    (hrun : runAll (Run.execWith .none fuel) (Stmt.relabelAll ρ program) m' = .ok () n') :
    ∃ n, runAll (Run.execWith .none fuel) program m = .ok () n ∧ Relabels ρ pre n n' ∧
      n.setting = m.setting := by
  have hfuel : Run.FuelFor False fuel fuel := .inl rfl
  have hfollows := @runAll_follows ρ pre False _ _ (Run.evaluation_follows h0 hfuel).2 program _
    m m' ⟨hm, rfl⟩
  rw [hrun] at hfollows
  generalize runAll (Run.execWith .none fuel) program m = r at hfollows ⊢
  cases hfollows with
  | @ok _ _ _ n _ hle _ hs =>
    cases hle
    exact ⟨n, rfl, hs.1, congrArg Prod.fst hs.2⟩
  | excused he => exact he.1.elim

/-- The outcome of a run, with its fault on another line. -/
def outcomeOnLine (f : Nat → Nat) : Except Stop Unit → Except Stop Unit
  | .ok u => .ok u
  | .error e => .error (e.onLine f)

/-- Flushing the output gives the same outcome. -/
theorem finish_follows {m m' : Machine} (hm : Relabels ρ pre m m') (outcome : Except Stop Unit) :
    (finish (outcomeOnLine ρ.line outcome) m').1 = outcomeOnLine ρ.line (finish outcome m).1 ∧
      Relabels ρ pre (finish outcome m).2 (finish (outcomeOnLine ρ.line outcome) m').2 := by
  unfold finish Sink.flush
  rw [hm.sink]
  dsimp only
  cases m.sink.flushFails <;> exact ⟨rfl, hm⟩

/-- A program with other lines and labels runs alike; with more fuel it does if the first run ends
well. Both runs end in the setting in which they began, among the global names. -/
theorem interpret_follows (h0 : ρ.line 0 = 0) {fuel fuel' : Nat} (h : Run.FuelFor lax fuel fuel')
    {m m' : Machine} (hm : Relabels ρ pre m m') (program : List (Stmt NodeId))
    (hlax : lax → (m.interpret fuel program).1 = .ok ()) :
    ((m'.interpret fuel' (Stmt.relabelAll ρ program)).1 =
        outcomeOnLine ρ.line (m.interpret fuel program).1 ∧
      Relabels ρ pre (m.interpret fuel program).2
        (m'.interpret fuel' (Stmt.relabelAll ρ program)).2) ∧
      (m.interpret fuel program).2.setting = { m with current := globalFrame }.setting ∧
      (m'.interpret fuel' (Stmt.relabelAll ρ program)).2.setting =
        { m' with current := globalFrame }.setting := by
  have hrun := runAll_follows (Run.evaluation_follows h0 h).2 program _
    { m with current := globalFrame } { m' with current := globalFrame }
    ⟨hm.withCurrent globalFrame, rfl⟩
  unfold interpret interpretWith at hlax ⊢
  generalize runAll (Run.execWith .none fuel) program { m with current := globalFrame } = r
    at hrun hlax ⊢
  generalize runAll (Run.execWith .none fuel') (Stmt.relabelAll ρ program)
    { m' with current := globalFrame } = r' at hrun ⊢
  cases hrun with
  | ok hle _ hs =>
    cases hle
    obtain ⟨hl, hr⟩ := Prod.mk.inj hs.2
    exact ⟨finish_follows hs.1 (.ok ()), (congrArg setting (finish_machine _ _)).trans hl,
      (congrArg setting (finish_machine _ _)).trans hr⟩
  | @error _ e d _ _ hle he hs =>
    cases hle
    cases he
    obtain ⟨hl, hr⟩ := Prod.mk.inj hs.2
    exact ⟨finish_follows hs.1 (.error e), (congrArg setting (finish_machine _ _)).trans hl,
      (congrArg setting (finish_machine _ _)).trans hr⟩
  | excused he =>
    have hok := hlax he.1
    dsimp only [finish] at hok
    split at hok <;> cases hok

end Machine

end ClassScript
