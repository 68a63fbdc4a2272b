import ClassScript.Proofs.ForLoops
import ClassScript.Proofs.PaddedMachines

/-!
# Runs of machines with extra frames

A piece of code whose uses of names find the same in a machine with extra frames as in another one does
the same in both (`Run.evaluation_moves`): it ends in the same way, prints the same, and leaves machines
that correspond. There is one lemma for each operation of the evaluator, and the induction on the fuel
ties them together.
-/

set_option autoImplicit false

namespace ClassScript

/-- Machines that correspond, over the frames that do. Their runs end with the same errors. -/
def Machine.padding (D : Distances) : Pairing PadWorld Stop Stop Machine Machine where
  le := PadWorld.Le
  refl := PadWorld.Le.refl
  trans := PadWorld.Le.trans
  state W m m' := m.Moved D W m'
  error e d := d = e
  excused _ := False

namespace Run

variable {α β γ δ : Type}

/-- Both parts of a run do the same, with values that are related over the frames that correspond. -/
abbrev Moves (D : Distances) (R : Homes → α → β → Prop) (W : PadWorld) (x : Run α) (y : Run β) :
    Prop :=
  Related (Machine.padding D) (fun W => R W.homes) W x y

variable {D : Distances} {W : PadWorld} {R : Homes → α → β → Prop} {Q : Homes → γ → δ → Prop}
  {x : Run α} {y : Run β} {f f' : FrameId} {p : Pad} {v v' : Value} {m m' : Machine}

namespace Moves

theorem pure {a : α} {b : β} (h : R W.homes a b) :
    Moves D R W (Pure.pure a : Run α) (Pure.pure b : Run β) :=
  Related.pure h

theorem fail (cause : RuntimeCause) (line : Nat) :
    Moves D R W (Run.fail cause line : Run α) (Run.fail cause line : Run β) :=
  Related.throw rfl

theorem bind {u : α → Run γ} {w : β → Run δ} (hx : Moves D R W x y)
    (h : ∀ W' a b, W.Le W' → R W'.homes a b → Moves D Q W' (u a) (w b)) :
    Moves D Q W (x >>= u) (y >>= w) :=
  Related.bind hx h

/-- Both go on from what they see of their machines. -/
theorem get {u : Machine → Run α} {w : Machine → Run β}
    (h : ∀ m m', m.Moved D W m' → Moves D R W (u m) (w m')) :
    Moves D R W (MonadState.get >>= u) (MonadState.get >>= w) :=
  Related.get fun m m' hm => h m m' hm m m' hm

/-- Both change their machines and make no frames. -/
theorem change {u : Machine → α × Machine} {w : Machine → β × Machine}
    (h : ∀ m m', m.Moved D W m' → R W.homes (u m).1 (w m').1 ∧ (u m).2.Moved D W (w m').2) :
    Moves D R W (modifyGet u) (modifyGet w) :=
  Related.change h

theorem ofLookup {r : Except LookupError α} {r' : Except LookupError β} (line : Nat)
    (h : SameFind (R W.homes) r r') :
    Moves D R W (Run.ofLookup line r) (Run.ofLookup line r') := by
  cases h with
  | ok h => exact pure h
  | error e => exact fail _ _

theorem ofExcept {r r' : Except RuntimeError Value}
    (h : Operators.SameResult D W.homes r r') :
    Moves D (Value.Moved D) W (Run.ofExcept r) (Run.ofExcept r') := by
  cases r with
  | ok v =>
    cases r' with
    | ok v' => exact pure h
    | error e => exact h.elim
  | error e =>
    cases r' with
    | ok v' => exact h.elim
    | error e' =>
      obtain rfl : e' = e := h
      exact Related.throw rfl

end Moves

/-! ## Operations of the machine -/

theorem inFrame_moves (hf : W.Stands f f' p) (h : Moves D R (W.enter f f' p) x y) :
    Moves D R W (inFrame f x) (inFrame f' y) := by
  intro m m' hm
  have hend := h { m with current := f } { m' with current := f' }
    { hm with current := rfl, current' := rfl, stands := hf }
  unfold inFrame
  dsimp only
  generalize x { m with current := f } = r at hend
  generalize y { m' with current := f' } = r' at hend
  cases hend with
  | @ok W' _ _ _ _ hle hr hs =>
    have hle' : W.Le (W'.enter W.current W.current' W.pad) := ⟨hle.homes, rfl, rfl, rfl, hle.extra⟩
    exact .ok hle' hr
      { hs with current := hm.current, current' := hm.current', stands := hm.stands.later hle' }
  | @error W' _ _ _ _ hle he hs =>
    have hle' : W.Le (W'.enter W.current W.current' W.pad) := ⟨hle.homes, rfl, rfl, rfl, hle.extra⟩
    exact .error hle' he
      { hs with current := hm.current, current' := hm.current', stands := hm.stands.later hle' }
  | excused he => exact he.elim

theorem freshIdentity_moves : Moves D (fun _ a b => b = a) W freshIdentity freshIdentity :=
  Moves.change fun _ _ hm =>
    ⟨hm.nextIdentity, { hm with nextIdentity := congrArg (· + 1) hm.nextIdentity }⟩

theorem newFrame_moves (hf : W.Stands f f' p) {vars vars' : Bindings Value}
    (hvars : vars.Both (Value.Moved D W.homes) vars') :
    Moves D (fun H g g' => H.Home g g' p.inner) W (newFrame f vars) (newFrame f' vars') :=
  fun _ m' hm =>
    .ok (W.le_add m'.frames.nextId p.inner)
      (PadWorld.home_add.2 (.inr ⟨hm.count.symm, rfl, rfl⟩)) (hm.addChild hf hvars)

theorem openFrame_moves (hf : W.Stands f f' p) {vars vars' : Bindings Value}
    (hvars : vars.Both (Value.Moved D W.homes) vars') (o o' : Opening) :
    Moves D (fun H g g' => H.Home g g' p.inner) W (openFrame .none f vars o)
      (openFrame .none f' vars' o') :=
  newFrame_moves hf hvars

theorem newObject_moves : Moves D (fun _ a b => b = a) W newObject newObject := by
  refine Moves.change fun m m' hm => ⟨hm.objectCount, { hm with objectCount := ?_, fields := ?_ }⟩
  · simp only [Array.size_push, hm.objectCount]
  · intro id x
    rw [Machine.field?_push, Machine.field?_push]
    exact hm.fields id x

theorem setField_moves (id : ObjectId) (name : String) (hv : v.Moved D W.homes v') :
    Moves D (fun _ (_ _ : Unit) => True) W (setField id name v) (setField id name v') := by
  refine Moves.change fun m m' hm => ⟨trivial, { hm with objectCount := ?_, fields := ?_ }⟩
  · simp only [Array.size_modify, hm.objectCount]
  · intro i x
    rw [Machine.field?_modify, Machine.field?_modify, hm.objectCount]
    split
    · exact .some hv
    · exact hm.fields i x

theorem getField?_moves (id : ObjectId) (name : String) :
    Moves D (fun H => Option.Rel (Value.Moved D H)) W (getField? id name) (getField? id name) :=
  Moves.get fun _ _ hm => Moves.pure (hm.fields id name)

theorem define_moves (hp : W.pad ≠ .behind 0) (name : String) (hv : v.Moved D W.homes v') :
    Moves D (fun _ (_ _ : Unit) => True) W (define name v) (define name v') := by
  refine Moves.change fun m m' hm => ⟨trivial, ?_⟩
  have hdefine := hm.define (hm.stands.home hp) name hv
  rw [← hm.current, ← hm.current'] at hdefine
  exact hdefine

theorem lookUp_moves {o : Occurrence NodeId} (ho : D.Moves W.pad o) (name : Name) :
    Moves D (Value.Moved D) W (lookUp .none o.id name) (lookUp .none (D.use o.id) name) :=
  (Moves.pure (R := fun _ (_ _ : Unit) => True) trivial).bind fun _ _ _ hle _ =>
    Moves.get fun _ _ hm => Moves.ofLookup name.line (hm.valueOf (hle.pad ▸ ho) name)

theorem assign_moves {o : Occurrence NodeId} (ho : D.Moves W.pad o) (name : Name)
    (hv : v.Moved D W.homes v') :
    Moves D (fun _ (_ _ : Unit) => True) W (assign o.id name v) (assign (D.use o.id) name v') :=
  Moves.get fun _ _ hm =>
    (Moves.ofLookup (R := fun H g g' => ∃ q, H.Home g g' q) name.line (hm.slot ho name)).bind
      fun _ _ _ hle ⟨_, hg⟩ => Moves.change fun _ _ hm =>
        ⟨trivial, hm.define hg name.text (hv.later hle.homes)⟩

theorem print_moves (text : String) :
    Moves D (fun _ (_ _ : Unit) => True) W (print text) (print text) := by
  intro m m' hm
  unfold print
  rw [hm.sink]
  generalize m.sink.write (text ++ "\n") = r
  obtain ⟨r, sink⟩ := r
  cases r with
  | ok u => exact .value trivial { hm with sink := rfl }
  | error e => exact .failure rfl { hm with sink := rfl }

theorem callNative_moves (id : Nat) {args args' : List Value}
    (h : List.Forall₂ (Value.Moved D W.homes) args args') :
    Moves D (Value.Moved D) W (callNative id args) (callNative id args') := by
  refine Moves.get fun m m' hm => ?_
  rw [hm.natives]
  cases hf : m.natives[id]? with
  | some f =>
    obtain ⟨hlt, hget⟩ := Array.getElem?_eq_some_iff.1 hf
    exact Moves.ofExcept (hm.uniform f (hget ▸ Array.getElem_mem hlt) D W.homes args args' h)
  | none => exact Moves.pure .nil

/-! ## Sequences -/

section

variable {eval eval' : EvalFn} {exec exec' : ExecFn}

/-- Both ways to run expressions do the same with expressions that fit. -/
abbrev EvalMoves (D : Distances) (eval eval' : EvalFn) : Prop :=
  ∀ W e, D.MovesAll W.pad e.occurrences →
    Moves D (Value.Moved D) W (eval e) (eval' (e.relabel D.code))

/-- Both ways to run statements do the same with statements that fit. -/
abbrev ExecMoves (D : Distances) (exec exec' : ExecFn) : Prop :=
  ∀ W s, s.Fits D W.pad → Moves D (Flow.Moved D) W (exec s) (exec' (s.relabel D.code))

/-- The values correspond one by one. -/
abbrev MovedAll (D : Distances) (H : Homes) : List Value → List Value → Prop :=
  List.Forall₂ (Value.Moved D H)

theorem evalAll_moves (he : EvalMoves D eval eval') (es : List (Expr NodeId)) {W : PadWorld}
    (h : D.MovesAll W.pad (Expr.occurrencesAll es)) :
    Moves D (MovedAll D) W (evalAll eval es)
      (evalAll eval' (Expr.relabelAll D.code es)) := by
  induction es generalizing W with
  | nil => exact Moves.pure .nil
  | cons e rest ih =>
    obtain ⟨hfirst, hrest⟩ := List.forall_mem_append.1 h
    exact (he W e hfirst).bind fun W' v v' hle hv => (ih (hle.pad ▸ hrest)).bind
      fun W'' vs vs' hle' hvs => Moves.pure (.cons (hv.later hle'.homes) hvs)

theorem evalOption_moves (he : EvalMoves D eval eval') {e : Option (Expr NodeId)}
    (h : D.MovesAll W.pad (Expr.occurrencesOption e)) :
    Moves D (Value.Moved D) W (evalOption eval e)
      (evalOption eval' (e.map (Expr.relabel D.code))) := by
  cases e with
  | none => exact Moves.pure .nil
  | some e => exact he W e h

theorem execAll_moves (hs : ExecMoves D exec exec') (ss : List (Stmt NodeId)) {W : PadWorld}
    (h : Stmt.FitsAll D W.pad ss) :
    Moves D (Flow.Moved D) W (execAll exec ss)
      (execAll exec' (Stmt.relabelAll D.code ss)) := by
  induction ss generalizing W with
  | nil => exact Moves.pure .normal
  | cons s rest ih =>
    refine (hs W s h.1).bind fun W' r r' hle hr => ?_
    cases hr with
    | normal => exact ih (hle.pad ▸ h.2)
    | returned hv => exact Moves.pure (.returned hv)

theorem execBlock_moves (hs : ExecMoves D exec exec') {body : List (Stmt NodeId)}
    (h : Stmt.FitsAll D W.pad.inner body) :
    Moves D (Flow.Moved D) W (execBlock .none exec body)
      (execBlock .none exec' (Stmt.relabelAll D.code body)) := by
  refine Moves.get fun m m' hm => ?_
  rw [hm.current, hm.current']
  exact (openFrame_moves hm.stands (.empty) _ _).bind fun W' g g' hle hg =>
    inFrame_moves (.inl hg) (execAll_moves hs body h)

theorem inScope_execBlock_moves {x : Run Flow} {body : List (Stmt NodeId)}
    (h : ∀ W' : PadWorld, W'.pad = W.pad.inner → W'.extra = W.extra →
      Moves D (Flow.Moved D) W' x (execAll exec' body)) :
    Moves D (Flow.Moved D) W (inScope x) (execBlock .none exec' body) := by
  refine Moves.get fun m m' hm => ?_
  rw [hm.current, hm.current']
  exact (newFrame_moves hm.stands (.empty)).bind fun W' g g' hle hg =>
    inFrame_moves (.inl hg) (h (W'.enter g g' W.pad.inner) rfl hle.extra)

/-- The second machine may run the statements in an extra frame. -/
theorem execAll_execBlock_moves (hs : ExecMoves D exec exec') (hp : W.pad = .nowhere)
    (hextra : W.extra = none) {body : List (Stmt NodeId)} (h : Stmt.FitsAll D (.behind 0) body) :
    Moves D (Flow.Moved D) W (execAll exec body)
      (execBlock .none exec' (Stmt.relabelAll D.code body)) := by
  intro m m' hm
  have hpad : W.pad ≠ .behind 0 := fun h => by cases hp.symm.trans h
  have hhome : W.homes.Home W.current W.current' W.pad := hm.stands.home hpad
  have hend := execAll_moves hs body (W := ⟨W.homes, W.current, m'.frames.nextId, .behind 0,
    some (W.current, m'.frames.nextId)⟩) h _ _ (hm.addExtra hp)
  show SameEnd _ _ _ _ (inFrame m'.frames.nextId (execAll exec' (Stmt.relabelAll D.code body))
    { m' with frames := m'.frames.addChild m'.current .empty })
  unfold inFrame
  dsimp only
  generalize execAll exec body m = r at hend
  generalize execAll exec' (Stmt.relabelAll D.code body) _ = r' at hend
  rw [hm.current']
  cases hend with
  | @ok W' _ _ _ _ hle hr hs =>
    have hhome' : W'.homes.Home W'.current W.current' W.pad := hle.current ▸ hhome.later hle.homes
    have hle' : W.Le ⟨W'.homes, W'.current, W.current', W.pad, none⟩ :=
      ⟨hle.homes, hle.current, rfl, rfl, hextra.symm⟩
    exact .ok hle' hr (hs.dropExtra hhome')
  | @error W' _ _ _ _ hle he hs =>
    have hhome' : W'.homes.Home W'.current W.current' W.pad := hle.current ▸ hhome.later hle.homes
    have hle' : W.Le ⟨W'.homes, W'.current, W.current', W.pad, none⟩ :=
      ⟨hle.homes, hle.current, rfl, rfl, hextra.symm⟩
    exact .error hle' he (hs.dropExtra hhome')
  | excused he => exact he.elim

/-! ## Calls -/

theorem bindMethod_moves {c c' : Closure} (hc : c.Moved D W.homes Pad.inner c')
    (hv : v.Moved D W.homes v') :
    Moves D (fun H => Closure.Moved D H fun p => p) W (bindMethod .none c v)
      (bindMethod .none c' v') := by
  obtain ⟨hdecl, hinit, p, hp, hfits⟩ := hc
  refine (openFrame_moves (.inl hp) (.single "this" hv) _ _).bind fun W' g g' hle hg => ?_
  exact Moves.pure ⟨hdecl, hinit, p.inner, hg, hfits⟩

theorem methodValue_moves {c c' : Closure} (hc : c.Moved D W.homes Pad.inner c')
    (hv : v.Moved D W.homes v') :
    Moves D (Value.Moved D) W (methodValue .none c v) (methodValue .none c' v') :=
  (bindMethod_moves hc hv).bind fun W' b b' hle hb => freshIdentity_moves.bind
    fun W'' i i' hle' hi => by
      subst hi
      exact Moves.pure (.function (hb.later hle'.homes))

theorem paramBindings_moves (params : List Param) {args args' : List Value}
    (h : MovedAll D W.homes args args') :
    (paramBindings params args).Both (Value.Moved D W.homes) (paramBindings params args') := by
  refine Bindings.Forall₂.both (.ofList ?_)
  induction h generalizing params with
  | nil =>
    rw [List.zip_nil_right]
    exact .nil
  | cons hv _ ih =>
    cases params with
    | nil => exact .nil
    | cons p rest => exact .cons ⟨rfl, hv⟩ (ih rest)

theorem callResult_moves {c c' : Closure} (hc : c.Moved D W.homes (fun p => p) c') {r r' : Flow}
    (hr : r.Moved D W.homes r') :
    Moves D (Value.Moved D) W (callResult c r) (callResult c' r') := by
  have hdecl := hc.decl_eq
  obtain ⟨-, hinit, p, hp, -⟩ := hc
  have hobject : Moves D (Value.Moved D) W (callResult.initialized c)
      (callResult.initialized c') := by
    unfold callResult.initialized
    rw [hdecl]
    refine Moves.get fun m m' hm => Moves.ofLookup _ ?_
    rw [Frames.getAt_zero, Frames.getAt_zero]
    exact hm.getOwn hp "this"
  unfold callResult
  rw [hinit]
  cases hr with
  | normal =>
    dsimp only
    split
    · exact hobject
    · exact Moves.pure .nil
  | returned hv =>
    dsimp only
    split
    · exact hobject
    · exact Moves.pure hv

theorem invoke_moves (hs : ExecMoves D exec exec') {c c' : Closure}
    (hc : c.Moved D W.homes (fun p => p) c') {args args' : List Value}
    (h : MovedAll D W.homes args args') :
    Moves D (Value.Moved D) W (invoke .none exec c args) (invoke .none exec' c' args') := by
  obtain ⟨p, hp, hfits⟩ := hc.home
  rw [Stmt.fitsRoutine_eq] at hfits
  unfold invoke
  rw [hc.decl_eq]
  refine (openFrame_moves (.inl hp) (paramBindings_moves _ h) _ _).bind fun W' g g' hle hg => ?_
  exact (inFrame_moves (.inl hg) (execAll_moves hs _ hfits)).bind fun W'' r r' hle' hr =>
    callResult_moves (hc.later (hle.trans hle').homes) hr

theorem setFields_moves (he : EvalMoves D eval eval') (id : ObjectId) (ds : List (VarDecl NodeId))
    {W : PadWorld} (hf : W.homes.Home f f' p) (h : D.MovesAll p (VarDecl.occurrencesAll ds)) :
    Moves D (fun _ (_ _ : Unit) => True) W (setFields eval id f ds)
      (setFields eval' id f' (ds.map (VarDecl.relabel D.code))) := by
  induction ds generalizing W with
  | nil => exact Moves.pure trivial
  | cons d rest ih =>
    rw [VarDecl.occurrencesAll, List.flatMap_cons] at h
    obtain ⟨hfirst, hrest⟩ := List.forall_mem_append.1 h
    exact (inFrame_moves (.inl hf) (evalOption_moves he hfirst)).bind fun W' v v' hle hv =>
      (setField_moves id d.name.text hv).bind fun W'' _ _ hle' _ =>
        ih (hf.later (hle.trans hle').homes) hrest

theorem setLayer_moves (he : EvalMoves D eval eval') (id : ObjectId) (hv : v.Moved D W.homes v')
    {l l' : Layer} (hl : l.Moved D W.homes l') :
    Moves D (fun _ (_ _ : Unit) => True) W (setLayer .none eval id v l)
      (setLayer .none eval' id v' l') := by
  obtain ⟨p, hp, hmoves⟩ := hl.home
  unfold setLayer
  rw [hl.fields, List.isEmpty_map]
  split
  · exact Moves.pure trivial
  · exact (openFrame_moves (.inl hp) (.single "this" hv) _ _).bind fun W' g g' hle hg =>
      setFields_moves he id l.fields hg hmoves

theorem setLayers_moves (he : EvalMoves D eval eval') (id : ObjectId) (ls : List Layer)
    {ls' : List Layer} {W : PadWorld} (hv : v.Moved D W.homes v')
    (hls : List.Forall₂ (Layer.Moved D W.homes) ls ls') :
    Moves D (fun _ (_ _ : Unit) => True) W (setLayers .none eval id v ls)
      (setLayers .none eval' id v' ls') := by
  induction ls generalizing W ls' with
  | nil =>
    cases hls
    exact Moves.pure trivial
  | cons l rest ih =>
    cases hls with
    | cons hl hrest =>
      exact (setLayer_moves he id hv hl).bind fun W' _ _ hle _ =>
        ih (hv.later hle.homes) (hrest.imp fun _ _ => .later hle.homes)

theorem construct_moves (he : EvalMoves D eval eval') (hs : ExecMoves D exec exec')
    {c c' : ClassValue} (hc : c.Moved D W.homes c') {args args' : List Value}
    (h : MovedAll D W.homes args args') :
    Moves D (Value.Moved D) W (construct .none eval exec c args)
      (construct .none eval' exec' c' args') := by
  unfold construct
  refine newObject_moves.bind fun W' i i' hle hi => ?_
  rw [hi]
  have hthis : (Value.object i c).Moved D W'.homes (.object i c') := .object (hc.later hle.homes)
  have hlayers := List.rel_reverse (hc.later hle.homes).layers
  refine (setLayers_moves he i _ hthis hlayers).bind fun W'' _ _ hle' _ => ?_
  have hle'' := hle.trans hle'
  have hinit := (hc.later hle''.homes).initializer?
  generalize c.initializer? = f at hinit ⊢
  generalize c'.initializer? = f' at hinit ⊢
  cases hinit with
  | none => exact Moves.pure (hthis.later hle'.homes)
  | some hf =>
    exact (bindMethod_moves hf (hthis.later hle'.homes)).bind fun W₃ b b' hle₃ hb =>
      (invoke_moves hs hb (h.imp fun _ _ => .later (hle''.trans hle₃).homes)).bind
        fun W₄ _ _ hle₄ _ => Moves.pure (hthis.later (hle'.trans (hle₃.trans hle₄)).homes)

theorem checkArity_moves (line expected got : Nat) :
    Moves D (fun _ (_ _ : Unit) => True) W (checkArity line expected got)
      (checkArity line expected got) := by
  unfold checkArity
  split
  · exact Moves.pure trivial
  · exact Moves.fail _ _

theorem call_moves (he : EvalMoves D eval eval') (hs : ExecMoves D exec exec') (line : Nat)
    (hv : v.Moved D W.homes v') {args args' : List Value} (h : MovedAll D W.homes args args') :
    Moves D (Value.Moved D) W (call .none eval exec line v args)
      (call .none eval' exec' line v' args') := by
  unfold call
  rw [← h.length_eq]
  cases hv with
  | native id arity =>
    dsimp only
    exact (checkArity_moves line arity args.length).bind fun _ _ _ hle _ =>
      callNative_moves id (h.imp fun _ _ => .later hle.homes)
  | function hc =>
    dsimp only
    rw [hc.decl_eq]
    exact (checkArity_moves line _ args.length).bind fun _ _ _ hle _ =>
      invoke_moves hs (hc.later hle.homes) (h.imp fun _ _ => .later hle.homes)
  | classObject hc =>
    dsimp only
    rw [hc.arity]
    exact (checkArity_moves line _ args.length).bind fun _ _ _ hle _ =>
      construct_moves he hs (hc.later hle.homes) (h.imp fun _ _ => .later hle.homes)
  | _ => exact Moves.fail _ _

/-! ## Properties -/

theorem property_moves (hv : v.Moved D W.homes v') (name : Name) :
    Moves D (Value.Moved D) W (property .none v name) (property .none v' name) := by
  refine (Moves.pure (R := fun _ (_ _ : Unit) => True) trivial).bind fun W' _ _ hle _ => ?_
  have hv := hv.later hle.homes
  cases hv with
  | object hc =>
    refine (getField?_moves _ name.text).bind fun W'' u u' hle' hu => ?_
    cases hu with
    | some hu => exact Moves.pure hu
    | none =>
      have hc := hc.later hle'.homes
      have hfound := hc.findMethod? name.text
      dsimp only
      generalize ClassValue.findMethod? _ name.text = f at hfound ⊢
      generalize ClassValue.findMethod? _ name.text = f' at hfound ⊢
      cases hfound with
      | none => exact Moves.fail _ _
      | some hf => exact methodValue_moves hf (.object hc)
  | _ => exact Moves.fail _ _

theorem superMethod_moves {id : NodeId} {keyword : Name}
    (ho : D.Moves W.pad ⟨.super, id, keyword⟩) (method : Name) :
    Moves D (Value.Moved D) W (superMethod .none id keyword method)
      (superMethod .none (D.use id) keyword method) := by
  refine (Moves.pure (R := fun _ (_ _ : Unit) => True) trivial).bind fun W' _ _ hle _ =>
    Moves.get fun m m' hm => ?_
  have ho : D.Moves W'.pad ⟨.super, id, keyword⟩ := hle.pad ▸ ho
  have hdistance : m'.distance? (D.use id) = (m.distance? id).map W'.pad.shift := hm.distance ho
  rw [hdistance]
  cases hd : m.distance? id with
  | none => exact Moves.fail _ _
  | some d =>
    -- The frame that knows `this` is the one in front, so it must not be the extra one.
    have hne : W'.pad ≠ .behind d := ho.super rfl d ((hm.plain id).symm.trans hd)
    have hthis := hm.getAt (d - 1) "this"
    rw [Pad.shift_pred hne] at hthis
    refine (Moves.ofLookup (R := Value.Moved D) keyword.line (hm.getAt d "super")).bind
      fun W'' u u' hle' hu => ?_
    cases hu with
    | classObject hc =>
      refine (Moves.ofLookup (R := Value.Moved D) keyword.line
        (hthis.mono fun _ _ h => h.later hle'.homes)).bind fun W₃ t t' hle₃ ht => ?_
      cases ht with
      | object hown =>
        have hfound := (hc.later hle₃.homes).findMethod? method.text
        dsimp only
        generalize ClassValue.findMethod? _ method.text = f at hfound ⊢
        generalize ClassValue.findMethod? _ method.text = f' at hfound ⊢
        cases hfound with
        | none => exact Moves.fail _ _
        | some hf => exact methodValue_moves hf (.object hown)
      | _ => exact Moves.fail _ _
    | _ => exact Moves.fail _ _

/-! ## Increments -/

theorem increment_moves (operand : Expr NodeId) (operator : Token)
    (h : D.MovesAll W.pad operand.occurrences) :
    Moves D (fun H r r' => r.1.Moved D H r'.1 ∧ r.2.Moved D H r'.2) W
      (increment .none operand operator)
      (increment .none (operand.relabel D.code) operator) := by
  match operand with
  | .variable id name =>
    have ho : D.Moves W.pad ⟨.variable, id, name⟩ := h _ (List.mem_cons_self ..)
    refine (lookUp_moves ho name).bind fun W' v v' hle hv => ?_
    cases hv with
    | number old =>
      have ho : D.Moves W'.pad ⟨.variable, id, name⟩ := hle.pad ▸ ho
      exact (assign_moves ho name (.number _)).bind fun W'' _ _ _ _ =>
        Moves.pure ⟨.number _, .number _⟩
    | _ => exact Moves.fail _ _
  | .literal _ => exact Moves.fail _ _
  | .unary _ _ => exact Moves.fail _ _
  | .suffixed _ _ => exact Moves.fail _ _
  | .binary _ _ _ => exact Moves.fail _ _
  | .logical _ _ _ => exact Moves.fail _ _
  | .grouping _ => exact Moves.fail _ _
  | .assign _ _ _ => exact Moves.fail _ _
  | .call _ _ _ => exact Moves.fail _ _
  | .get _ _ => exact Moves.fail _ _
  | .set _ _ _ => exact Moves.fail _ _
  | .this _ _ => exact Moves.fail _ _
  | .super _ _ _ => exact Moves.fail _ _

theorem unary_moves (he : EvalMoves D eval eval') (operator : Token) (operand : Expr NodeId)
    (h : D.MovesAll W.pad operand.occurrences) :
    Moves D (Value.Moved D) W (unary .none eval operator operand)
      (unary .none eval' operator (operand.relabel D.code)) := by
  unfold unary
  split
  · exact (increment_moves operand operator h).bind fun _ _ _ _ hr => Moves.pure hr.2
  · exact (increment_moves operand operator h).bind fun _ _ _ _ hr => Moves.pure hr.2
  · exact (he W operand h).bind fun _ _ _ _ hv => Moves.ofExcept (Operators.negate_moved _ hv)
  · refine (he W operand h).bind fun _ v v' _ hv => ?_
    rw [hv.isTruthy]
    exact Moves.pure (.boolean _)
  · exact Moves.fail _ _

theorem decides_moved (operator : Token) (hv : v.Moved D W.homes v') :
    decides operator v' = decides operator v := by
  unfold decides
  rw [hv.isTruthy]

/-! ## Classes -/

theorem superclass_moves {s : SuperclassRef NodeId}
    (h : D.MovesAll W.pad (SuperclassRef.occurrences (some s))) :
    Moves D (ClassValue.Moved D) W (superclass .none s) (superclass .none (s.relabel D.code)) := by
  have ho : D.Moves W.pad ⟨.variable, s.id, s.name⟩ := h _ (List.mem_cons_self ..)
  refine (lookUp_moves ho s.name).bind fun W' v v' hle hv => ?_
  cases hv with
  | classObject hc => exact Moves.pure hc
  | _ => exact Moves.fail _ _

/-- The layers and the frames of both correspond. -/
theorem classContext_moves (decl : ClassDecl NodeId (Stmt NodeId)) (hp : W.pad ≠ .behind 0)
    (h : D.MovesAll W.pad (SuperclassRef.occurrences decl.superclass)) :
    Moves D (fun H r r' => List.Forall₂ (Layer.Moved D H) r.1 r'.1 ∧
        H.Home r.2 r'.2 (W.pad.around decl.superclass)) W
      (classContext .none decl) (classContext .none (decl.relabel D.code)) := by
  unfold classContext ClassDecl.relabel
  cases hs : decl.superclass with
  | none =>
    refine Moves.get fun m m' hm => Moves.pure ⟨.nil, ?_⟩
    rw [hm.current, hm.current']
    exact hm.stands.home hp
  | some s =>
    rw [hs] at h
    refine (superclass_moves h).bind fun W' c c' hle hc => Moves.get fun m m' hm => ?_
    rw [hm.current, hm.current']
    exact (openFrame_moves hm.stands (.single "super" (.classObject hc)) _ _).bind
      fun W'' g g' hle' hg => Moves.pure ⟨(hc.later hle'.homes).layers, hle.pad ▸ hg⟩

theorem classMethods_moves (className : Name) (methods : List (FunctionDecl (Stmt NodeId)))
    (hf : W.homes.Home f f' p) (h : Stmt.FitsRoutines D p.inner methods) :
    (classMethods className f methods).Both (Closure.Moved D W.homes Pad.inner)
      (classMethods className f' (Stmt.relabelRoutines D.code methods)) := by
  refine Bindings.Forall₂.both (.ofList ?_)
  rw [Stmt.relabelRoutines_eq, List.map_map, List.forall₂_map_left_iff, List.forall₂_map_right_iff]
  refine List.forall₂_same.2 fun d hd => ?_
  have hname : (Stmt.relabelRoutine D.code d).name = d.name := by rw [D.routine_code]
  refine ⟨congrArg Name.text hname.symm, rfl, ?_, p, hf, Stmt.fitsRoutines_iff.1 h d hd⟩
  exact congrArg (fun name : Name => name.text == className.text) hname

theorem declareClass_moves (decl : ClassDecl NodeId (Stmt NodeId))
    (h : (Stmt.classDecl decl).Fits D W.pad) :
    Moves D (fun _ (_ _ : Unit) => True) W (declareClass .none decl)
      (declareClass .none (decl.relabel D.code)) := by
  obtain ⟨name, superclass, fields, methods⟩ := decl
  obtain ⟨hp, hsuper, hfields, hmethods⟩ := h
  refine (classContext_moves _ hp hsuper).bind fun W' (ls, f) (ls', f') hle ⟨hls, hf⟩ =>
    freshIdentity_moves.bind fun W'' i i' hle' hi => ?_
  have hf : W''.homes.Home f f' (W.pad.around superclass) := hf.later hle'.homes
  refine define_moves (by rwa [(hle.trans hle').pad]) name.text (.classObject ⟨?_, ?_⟩)
  · exact ⟨hi, rfl, rfl, ⟨_, hf, hfields⟩, classMethods_moves name methods hf hmethods⟩
  · exact hls.imp fun _ _ => .later hle'.homes

theorem declareFunction_moves (decl : FunctionDecl (Stmt NodeId))
    (h : (Stmt.function decl).Fits D W.pad) :
    Moves D (fun _ (_ _ : Unit) => True) W (declareFunction decl)
      (declareFunction (Stmt.relabelRoutine D.code decl)) := by
  obtain ⟨hp, hbody⟩ := h
  refine Moves.get fun m m' hm => freshIdentity_moves.bind fun W' i i' hle hi => ?_
  have hf : W'.homes.Home m.current m'.current W.pad := by
    rw [hm.current, hm.current']
    exact (hm.stands.home hp).later hle.homes
  rw [hi, D.routine_code]
  exact define_moves (by rwa [hle.pad]) decl.name.text
    (.function ⟨(D.routine_code decl).symm, rfl, W.pad, hf, hbody⟩)

end

/-! ## Expressions and statements -/

theorem evalWith_step_moves {n : Nat} (he : EvalMoves D (evalWith .none n) (evalWith .none n))
    (hs : ExecMoves D (execWith .none n) (execWith .none n)) :
    EvalMoves D (evalWith .none (n + 1)) (evalWith .none (n + 1)) := by
  intro W e h
  match e with
  | .literal value => exact Moves.pure (Value.moved_ofLiteral value)
  | .grouping inner => exact he W inner h
  | .unary operator operand => exact unary_moves he operator operand h
  | .suffixed operand operator =>
    exact (increment_moves operand operator h).bind fun _ _ _ _ hr => Moves.pure hr.1
  | .binary left operator right =>
    obtain ⟨hl, hr⟩ := List.forall_mem_append.1 h
    exact (he W left hl).bind fun W' l l' hle hv => (he W' right (hle.pad ▸ hr)).bind
      fun W'' r r' hle' hw =>
        Moves.ofExcept (Operators.binary_moved operator (hv.later hle'.homes) hw)
  | .logical left operator right =>
    obtain ⟨hl, hr⟩ := List.forall_mem_append.1 h
    refine (he W left hl).bind fun W' l l' hle hv => ?_
    rw [show (Token.onLine _ operator) = operator from rfl, decides_moved operator hv]
    split
    · exact Moves.pure hv
    · exact he W' right (hle.pad ▸ hr)
  | .variable id name =>
    exact lookUp_moves (h ⟨.variable, id, name⟩ (List.mem_cons_self ..)) name
  | .assign id name value =>
    obtain ⟨ho, hvalue⟩ := List.forall_mem_cons.1 h
    refine (he W value hvalue).bind fun W' v v' hle hv => ?_
    have ho : D.Moves W'.pad ⟨.assign, id, name⟩ := hle.pad ▸ ho
    exact (assign_moves ho name hv).bind fun W'' _ _ hle' _ => Moves.pure (hv.later hle'.homes)
  | .call callee line arguments =>
    obtain ⟨hcallee, hargs⟩ := List.forall_mem_append.1 h
    exact (he W callee hcallee).bind fun W' f f' hle hf =>
      (evalAll_moves he arguments (hle.pad ▸ hargs)).bind fun W'' args args' hle' hvs =>
        call_moves he hs line (hf.later hle'.homes) hvs
  | .get object name => exact (he W object h).bind fun _ _ _ _ hv => property_moves hv name
  | .set object name value =>
    obtain ⟨hobject, hvalue⟩ := List.forall_mem_append.1 h
    refine (he W object hobject).bind fun W' t t' hle ht =>
      (Moves.pure (R := fun _ (_ _ : Unit) => True) trivial).bind fun W'' _ _ hle' _ => ?_
    cases ht with
    | object hc =>
      exact (he W'' value ((hle.trans hle').pad ▸ hvalue)).bind fun W₃ v v' hle₃ hv =>
        (setField_moves _ name.text hv).bind fun W₄ _ _ hle₄ _ => Moves.pure (hv.later hle₄.homes)
    | _ => exact Moves.fail _ _
  | .this id keyword =>
    exact lookUp_moves (h ⟨.this, id, keyword⟩ (List.mem_cons_self ..)) keyword
  | .super id keyword method =>
    exact superMethod_moves (h ⟨.super, id, keyword⟩ (List.mem_cons_self ..)) method

theorem execWith_step_moves {n : Nat} (he : EvalMoves D (evalWith .none n) (evalWith .none n))
    (hs : ExecMoves D (execWith .none n) (execWith .none n)) :
    ExecMoves D (execWith .none (n + 1)) (execWith .none (n + 1)) := by
  intro W₀ s h₀
  refine (Moves.pure (R := fun _ (_ _ : Unit) => True) trivial).bind fun W _ _ hle _ => ?_
  have h : s.Fits D W.pad := hle.pad ▸ h₀
  clear h₀ hle
  match s with
  | .expression value => exact (he W value h).bind fun _ _ _ _ _ => Moves.pure .normal
  | .print value =>
    refine (he W value h).bind fun W' v v' _ hv => ?_
    rw [hv.text]
    exact (print_moves v.text).bind fun _ _ _ _ _ => Moves.pure .normal
  | .var decl =>
    exact (evalOption_moves he h.2).bind fun W' v v' hle hv =>
      (define_moves (hle.pad ▸ h.1) decl.name.text hv).bind fun _ _ _ _ _ => Moves.pure .normal
  | .block body => exact execBlock_moves hs h
  | .ifThen condition thenBranch =>
    refine (he W condition h.1).bind fun W' v v' hle hv => ?_
    rw [hv.isTruthy]
    split
    · exact hs W' thenBranch (hle.pad ▸ h.2)
    · exact Moves.pure .normal
  | .ifElse condition thenBranch elseBranch =>
    refine (he W condition h.1).bind fun W' v v' hle hv => ?_
    rw [hv.isTruthy]
    split
    · exact hs W' thenBranch (hle.pad ▸ h.2.1)
    · exact hs W' elseBranch (hle.pad ▸ h.2.2)
  | .whileLoop condition body =>
    refine (he W condition h.1).bind fun W' v v' hle hv => ?_
    rw [hv.isTruthy]
    split
    · refine (hs W' body (hle.pad ▸ h.2)).bind fun W'' r r' hle' hr => ?_
      cases hr with
      | normal => exact hs W'' (.whileLoop condition body) ((hle.trans hle').pad ▸ h)
      | returned hv => exact Moves.pure (.returned hv)
    · exact Moves.pure .normal
  | .function decl =>
    exact (declareFunction_moves decl h).bind fun _ _ _ _ _ => Moves.pure .normal
  | .returnWith keyword value =>
    exact (evalOption_moves he h).bind fun _ _ _ _ hv => Moves.pure (.returned hv)
  | .classDecl decl => exact (declareClass_moves decl h).bind fun _ _ _ _ _ => Moves.pure .normal

/-- Expressions and statements that fit do the same in both machines. -/
theorem evaluation_moves (D : Distances) (fuel : Nat) :
    EvalMoves D (evalWith .none fuel) (evalWith .none fuel) ∧
      ExecMoves D (execWith .none fuel) (execWith .none fuel) := by
  induction fuel with
  | zero => exact ⟨fun _ _ _ => Related.throw rfl, fun _ _ _ => Related.throw rfl⟩
  | succ n ih => exact ⟨evalWith_step_moves ih.1 ih.2, execWith_step_moves ih.1 ih.2⟩

end Run

end ClassScript
