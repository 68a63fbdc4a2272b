import ClassScript.Proofs.LaterMachines

/-!
# Construction

A call of a class makes a new object and gives it the fields of the class, layer by layer from the
farthest ancestor on: each initial value is computed once and in order (`Run.LayersSet`), and where
one fails nothing else happens (`Run.FieldFails`). Then the initializer runs, if the class has one.
From then on the object has all declared fields, whatever runs later, and what comes of the call is
this object, whatever the initializer returns (`Run.call_class`).
-/

set_option autoImplicit false

namespace ClassScript

/-- The next object that is made, one of the class. -/
def Machine.nextObject (m : Machine) (c : ClassValue) : Value :=
  .object m.objects.size c

/-- The machine with a new object without fields. -/
def Machine.addObject (m : Machine) : Machine :=
  { m with objects := m.objects.push .empty }

/-- The machine with a new frame for the fields of a layer, which knows the object as `this`. -/
def Machine.enterLayer (m : Machine) (layer : Layer) (this : Value) : Machine :=
  { m with frames := m.frames.addChild layer.frame (.single "this" this) }

/-- The machine with a field of an object set. -/
def Machine.putField (m : Machine) (id : ObjectId) (x : String) (v : Value) : Machine :=
  { m with objects := m.objects.modify id fun fields => fields.insert x v }

namespace Run

/-- From one machine to the other, fields of an object are set in order: the initial value of each is
computed once, in the frame, and then the field is set to it. -/
inductive FieldsSet (eval : EvalFn) (id : ObjectId) (frame : FrameId) :
    List (VarDecl NodeId) → Machine → Machine → Prop
  | nil {m : Machine} : FieldsSet eval id frame [] m m
  | cons {d : VarDecl NodeId} {rest : List (VarDecl NodeId)} {m k n : Machine} {v : Value} :
      inFrame frame (evalOption eval d.initializer) m = .ok v k →
      FieldsSet eval id frame rest (k.putField id d.name.text v) n →
      FieldsSet eval id frame (d :: rest) m n

/-- From one machine to the other, the fields of layers are set in order, those of each layer in a
new frame. -/
inductive LayersSet (eval : EvalFn) (id : ObjectId) (this : Value) :
    List Layer → Machine → Machine → Prop
  | nil {m : Machine} : LayersSet eval id this [] m m
  | bare {layer : Layer} {rest : List Layer} {m n : Machine} :
      layer.fields = [] → LayersSet eval id this rest m n →
      LayersSet eval id this (layer :: rest) m n
  | cons {layer : Layer} {rest : List Layer} {m k n : Machine} :
      layer.fields ≠ [] →
      FieldsSet eval id m.frames.nextId layer.fields (m.enterLayer layer this) k →
      LayersSet eval id this rest k n → LayersSet eval id this (layer :: rest) m n

/-- The initial value of a field fails. The fields before it have been set, and nothing comes after
it. -/
inductive FieldFails (eval : EvalFn) (id : ObjectId) (frame : FrameId) (ds : List (VarDecl NodeId))
    (m : Machine) (e : Stop) (n : Machine) : Prop
  | at {before after : List (VarDecl NodeId)} {d : VarDecl NodeId} {k : Machine} :
      ds = before ++ d :: after → FieldsSet eval id frame before m k →
      inFrame frame (evalOption eval d.initializer) k = .error e n → FieldFails eval id frame ds m e n

/-- The initial value of a field in one of the layers fails. -/
inductive LayerFails (eval : EvalFn) (id : ObjectId) (this : Value) (layers : List Layer)
    (m : Machine) (e : Stop) (n : Machine) : Prop
  | at {before after : List Layer} {layer : Layer} {k : Machine} :
      layers = before ++ layer :: after → LayersSet eval id this before m k →
      FieldFails eval id k.frames.nextId layer.fields (k.enterLayer layer this) e n →
      LayerFails eval id this layers m e n

/-! ## Fields are set or one fails -/

section

variable (eval : EvalFn) (id : ObjectId)

theorem setFields_cons (frame : FrameId) (d : VarDecl NodeId) (rest : List (VarDecl NodeId))
    (m : Machine) :
    setFields eval id frame (d :: rest) m =
      match inFrame frame (evalOption eval d.initializer) m with
      | .ok v k => setFields eval id frame rest (k.putField id d.name.text v)
      | .error e n => .error e n := by
  rw [setFields, bind_apply]
  cases inFrame frame (evalOption eval d.initializer) m <;> rfl

theorem setFields_ends (frame : FrameId) (ds : List (VarDecl NodeId)) (m : Machine) :
    (∃ n, FieldsSet eval id frame ds m n ∧ setFields eval id frame ds m = .ok () n) ∨
      ∃ e n, FieldFails eval id frame ds m e n ∧ setFields eval id frame ds m = .error e n := by
  induction ds generalizing m with
  | nil => exact .inl ⟨m, .nil, rfl⟩
  | cons d rest ih =>
    rw [setFields_cons]
    cases hv : inFrame frame (evalOption eval d.initializer) m with
    | error e n => exact .inr ⟨e, n, .at (show d :: rest = [] ++ d :: rest from rfl) .nil hv, rfl⟩
    | ok v k =>
      rcases ih (k.putField id d.name.text v) with ⟨n, hset, hr⟩ | ⟨e, n, hfails, hr⟩
      · exact .inl ⟨n, .cons hv hset, hr⟩
      · obtain ⟨hds, hset, he⟩ := hfails
        exact .inr ⟨e, n, .at (congrArg (d :: ·) hds) (.cons hv hset) he, hr⟩

theorem setLayers_cons (this : Value) (layer : Layer) (rest : List Layer) (m : Machine) :
    setLayers .none eval id this (layer :: rest) m =
      match setLayer .none eval id this layer m with
      | .ok _ k => setLayers .none eval id this rest k
      | .error e n => .error e n := by
  rw [setLayers, bind_apply]
  cases setLayer .none eval id this layer m <;> rfl

theorem setLayer_bare (this : Value) {layer : Layer} (h : layer.fields = []) (m : Machine) :
    setLayer .none eval id this layer m = .ok () m := by
  unfold setLayer
  rw [h]
  rfl

theorem setLayer_fields (this : Value) {layer : Layer} (h : layer.fields ≠ []) (m : Machine) :
    setLayer .none eval id this layer m =
      setFields eval id m.frames.nextId layer.fields (m.enterLayer layer this) := by
  have hne : layer.fields.isEmpty = false := by simpa using h
  unfold setLayer
  rw [hne]
  rfl

theorem setLayers_ends (this : Value) (layers : List Layer) (m : Machine) :
    (∃ n, LayersSet eval id this layers m n ∧ setLayers .none eval id this layers m = .ok () n) ∨
      ∃ e n, LayerFails eval id this layers m e n ∧
        setLayers .none eval id this layers m = .error e n := by
  induction layers generalizing m with
  | nil => exact .inl ⟨m, .nil, rfl⟩
  | cons layer rest ih =>
    rw [setLayers_cons]
    by_cases hfields : layer.fields = []
    · rw [setLayer_bare eval id this hfields]
      rcases ih m with ⟨n, hset, hr⟩ | ⟨e, n, hfails, hr⟩
      · exact .inl ⟨n, .bare hfields hset, hr⟩
      · obtain ⟨hlayers, hset, he⟩ := hfails
        exact .inr ⟨e, n, .at (congrArg (layer :: ·) hlayers) (.bare hfields hset) he, hr⟩
    · rw [setLayer_fields eval id this hfields]
      rcases setFields_ends eval id m.frames.nextId layer.fields (m.enterLayer layer this) with
        ⟨k, hset, hr⟩ | ⟨e, n, hfails, hr⟩
      · rw [hr]
        rcases ih k with ⟨n, hrest, hr'⟩ | ⟨e, n, hfails, hr'⟩
        · exact .inl ⟨n, .cons hfields hset hrest, hr'⟩
        · obtain ⟨hlayers, hrest, he⟩ := hfails
          exact .inr ⟨e, n, .at (congrArg (layer :: ·) hlayers) (.cons hfields hset hrest) he, hr'⟩
      · rw [hr]
        exact .inr ⟨e, n, .at (show layer :: rest = [] ++ layer :: rest from rfl) .nil hfails, rfl⟩

end

/-! ## Fields that are set stay -/

section

variable {fuel : Nat} {id : ObjectId} {this : Value} {m n : Machine}

theorem FieldsSet.later {frame : FrameId} {ds : List (VarDecl NodeId)}
    (h : FieldsSet (evalWith .none fuel) id frame ds m n) : m.Later n := by
  induction h with
  | nil => exact .refl _
  | @cons d rest m k n v hv _ ih =>
    have hrules := keeps_rules (Machine.stable_later m)
    have hvalue := hrules.evalOption (hrules.run fuel).1 d.initializer
    have hlast := (hrules.inFrame frame hvalue m (.refl m)).last
    have hk : m.Later k := by
      rw [hv] at hlast
      exact hlast
    exact (hk.step (.field id d.name.text v)).trans ih

theorem FieldsSet.bound {frame : FrameId} {ds : List (VarDecl NodeId)}
    (h : FieldsSet (evalWith .none fuel) id frame ds m n) (hid : id < m.objects.size) :
    ∀ d ∈ ds, (n.field? id d.name.text).isSome = true := by
  induction h with
  | nil => simp
  | @cons d rest m k n v hv hrest ih =>
    have hone : FieldsSet (evalWith .none fuel) id frame [d] m (k.putField id d.name.text v) :=
      .cons hv .nil
    have hsize : id < (k.putField id d.name.text v).objects.size :=
      Nat.lt_of_lt_of_le hid hone.later.objects_size
    refine List.forall_mem_cons.2 ⟨hrest.later.isSome_field? ?_, ih hsize⟩
    have hk : id < k.objects.size := by simpa [Machine.putField] using hsize
    rw [Machine.putField, Machine.field?_modify, if_pos ⟨rfl, rfl, hk⟩]
    rfl

theorem LayersSet.later {layers : List Layer}
    (h : LayersSet (evalWith .none fuel) id this layers m n) : m.Later n := by
  induction h with
  | nil => exact .refl _
  | bare _ _ ih => exact ih
  | @cons layer rest m k n _ hfields _ ih =>
    have henter : m.Later (m.enterLayer layer this) :=
      (Machine.Later.refl m).step (.frame layer.frame _)
    exact (henter.trans hfields.later).trans ih

theorem LayersSet.bound {layers : List Layer}
    (h : LayersSet (evalWith .none fuel) id this layers m n) (hid : id < m.objects.size) :
    ∀ layer ∈ layers, ∀ d ∈ layer.fields, (n.field? id d.name.text).isSome = true := by
  induction h with
  | nil => simp
  | bare hnone _ ih =>
    refine List.forall_mem_cons.2 ⟨?_, ih hid⟩
    rw [hnone]
    simp
  | @cons layer rest m k n _ hfields hrest ih =>
    have hid' : id < (m.enterLayer layer this).objects.size := hid
    have hk : id < k.objects.size := Nat.lt_of_lt_of_le hid' hfields.later.objects_size
    refine List.forall_mem_cons.2 ⟨fun d hd => ?_, ih hk⟩
    exact hrest.later.isSome_field? (hfields.bound hid' d hd)

end

/-! ## Calls of classes -/

/-- What is left of a construction when the fields are set: the initializer runs, if there is one. -/
def runInitializer (watch : Watch) (exec : ExecFn) (c : ClassValue) (this : Value) (args : List Value) :
    Run Value := do
  match c.initializer? with
  | some initializer =>
    let bound ← bindMethod watch initializer this
    let _ ← invoke watch exec bound args
    return this
  | none => return this

theorem construct_eq (eval : EvalFn) (exec : ExecFn) (c : ClassValue) (args : List Value)
    (m : Machine) :
    construct .none eval exec c args m =
      match setLayers .none eval m.objects.size (m.nextObject c) c.layers.reverse m.addObject with
      | .ok _ n => runInitializer .none exec c (m.nextObject c) args n
      | .error e n => .error e n := by
  refine (bind_apply (setLayers .none eval m.objects.size (m.nextObject c) c.layers.reverse) _
    m.addObject).trans ?_
  cases setLayers .none eval m.objects.size (m.nextObject c) c.layers.reverse m.addObject <;> rfl

/-- Whatever the initializer returns, the object comes of it. -/
theorem runInitializer_ok {exec : ExecFn} {c : ClassValue} {this v : Value} {args : List Value}
    {m n : Machine} (h : runInitializer .none exec c this args m = .ok v n) : v = this := by
  unfold runInitializer at h
  cases hi : c.initializer? with
  | none =>
    rw [hi] at h
    cases h
    rfl
  | some initializer =>
    rw [hi] at h
    dsimp only at h
    rw [bind_apply] at h
    split at h
    · rw [bind_apply] at h
      split at h
      · cases h
        rfl
      · cases h
    · cases h

theorem runInitializer_keeps {P : Machine → Prop} (hP : Machine.Stable P) (fuel : Nat) (c : ClassValue)
    (this : Value) (args : List Value) :
    Keeps P fun w => runInitializer w (execWith w fuel) c this args := by
  have hrules := keeps_rules hP
  unfold runInitializer
  cases c.initializer? with
  | none => exact .pure this
  | some initializer =>
    refine hrules.bind (hrules.bindMethod initializer this) fun bound => ?_
    exact hrules.map (hrules.invoke (hrules.run fuel).2 bound args) _

/-- The call of a class. -/
abbrev callClass (fuel line : Nat) (c : ClassValue) (args : List Value) : Run Value :=
  call .none (evalWith .none fuel) (execWith .none fuel) line (.classObject c) args

theorem callClass_eq (fuel line : Nat) (c : ClassValue) (args : List Value) (m : Machine) :
    callClass fuel line c args m =
      if c.arity = args.length then
        construct .none (evalWith .none fuel) (execWith .none fuel) c args m
      else .error (.fault ⟨.arity c.arity args.length, line⟩) m := by
  refine (bind_apply (checkArity line c.arity args.length) _ m).trans ?_
  unfold checkArity
  by_cases harity : c.arity = args.length
  · rw [if_pos harity, if_pos harity]
    rfl
  · rw [if_neg harity, if_neg harity]
    rfl

/-- All fields of the class are set, which was `n`. From then on the object has them: at every later
machine, and whatever runs from there leads to later ones only. -/
structure FieldsComplete (c : ClassValue) (id : ObjectId) (n : Machine) : Prop where
  fields : ∀ k, n.Later k → ∀ x, c.declares x = true → (k.field? id x).isSome = true
  onward : ∀ k, n.Later k → k.RunsIn n.Later

/-- A call of a class with another number of arguments than it takes does nothing but fail. Any
other call makes a new object, which differs from all that were there. Either the initial value of a
field fails; then the call fails so, and no later initial value is computed and no initializer runs.
Or all fields are set, those of ancestors first; then the object has them for ever, the initializer
runs from there, and if the call succeeds, its value is the object. -/
theorem call_class (fuel line : Nat) (c : ClassValue) (args : List Value) (m : Machine) :
    (c.arity ≠ args.length ∧
      callClass fuel line c args m = .error (.fault ⟨.arity c.arity args.length, line⟩) m) ∨
    c.arity = args.length ∧
      (∀ i < m.objects.size, ∀ c', (Value.object i c').isEqual (m.nextObject c) = false) ∧
      ((∃ e n, callClass fuel line c args m = .error e n ∧
          LayerFails (evalWith .none fuel) m.objects.size (m.nextObject c) c.layers.reverse
            m.addObject e n) ∨
        ∃ n, LayersSet (evalWith .none fuel) m.objects.size (m.nextObject c) c.layers.reverse
            m.addObject n ∧
          FieldsComplete c m.objects.size n ∧
          callClass fuel line c args m =
            runInitializer .none (execWith .none fuel) c (m.nextObject c) args n ∧
          Stays n.Later (fun w => runInitializer w (execWith w fuel) c (m.nextObject c) args) n ∧
          ∀ v k, callClass fuel line c args m = .ok v k → v = m.nextObject c) := by
  rw [callClass_eq]
  by_cases harity : c.arity = args.length
  · refine .inr ⟨harity, fun i hi c' => ?_, ?_⟩
    · exact beq_eq_false_iff_ne.2 (Nat.ne_of_lt hi)
    · rw [if_pos harity, construct_eq]
      rcases setLayers_ends (evalWith .none fuel) m.objects.size (m.nextObject c)
          c.layers.reverse m.addObject with ⟨n, hset, hr⟩ | ⟨e, n, hfails, hr⟩
      · refine .inr ⟨n, hset, ⟨fun k hk x hx => ?_, fun k hk => hk.runsIn⟩, by rw [hr], ?_, ?_⟩
        · obtain ⟨layer, hlayer, d, hd, rfl⟩ := ClassValue.declares_iff.1 hx
          have hid : m.objects.size < m.addObject.objects.size := by simp [Machine.addObject]
          exact hk.isSome_field? (hset.bound hid layer (List.mem_reverse.2 hlayer) d hd)
        · exact runInitializer_keeps (Machine.stable_later n) fuel c _ args n (.refl n)
        · intro v k hv
          rw [hr] at hv
          exact runInitializer_ok hv
      · exact .inl ⟨e, n, by rw [hr], hfails⟩
  · exact .inl ⟨harity, if_neg harity⟩

end Run

end ClassScript
