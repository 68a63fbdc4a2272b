import ClassScript.Proofs.ReadSafety

/-!
# Runs keep frames and scopes in step

One lemma for each part of the evaluator: from a machine in step with a world, with the uses of names
that are about to run finding their names (`Ready`), it leads to a machine in step with a later world
and gives known values only. Calls, constructions and blocks are proved over any way to run
expressions and statements that does so (`EvalKnown`, `ExecKnown`); `run_known` ties the knot by
induction on the fuel.
-/

set_option autoImplicit false

namespace ClassScript

open Resolution

namespace FrameWorld

variable {W W' : FrameWorld} {m m' : Machine}

/-! ## Frames for scopes -/

/-- A scope in front of scopes that the chain of a frame leads through. -/
theorem Synced.cons {scope : LexicalScope} {f g : FrameId} {l : Lexical} (h : Synced W f l)
    (hs : ScopeIn W scope g) (hc : W.frames.chain g = g :: W.frames.chain f) :
    Synced W g (scope :: l) := by
  obtain ⟨fs, hfs, hl⟩ := h.chain
  exact ⟨hs.lt, g :: fs, by rw [hc, hfs]; rfl, .cons hs hl⟩

/-- A new frame is made for a scope. -/
theorem Describes.enter (h : Describes W m) {f : FrameId} {l : Lexical} (hl : Synced W f l)
    {scope : LexicalScope} {vars : Bindings Value} {o : Opening} (ho : o.Opens scope.site)
    (hn : ∀ x, scope.names.contains x = true → vars.contains x = true) :
    Synced (W.addFrame f vars o) W.frames.nextId (scope :: l) := by
  have hs : ScopeIn (W.addFrame f vars o) scope W.frames.nextId := by
    refine ⟨Nat.ne_of_gt h.rootLt, ?_, ⟨o, ?_, ho⟩, fun x hx => ?_⟩
    · simp [FrameWorld.addFrame]
    · simp [FrameWorld.addFrame]
    · simp only [FrameWorld.addFrame, Frames.binds, Frames.vars_addChild_nextId]
      exact hn x hx
  refine (hl.mono (h.le_addFrame f vars o)).cons hs ?_
  have hf : f ≠ W.frames.nextId := Nat.ne_of_lt hl.lt
  simp [FrameWorld.addFrame, Frames.chain_addChild, hf]

/-- The frame itself is the one made for the innermost scope. -/
theorem Synced.head {f : FrameId} {a : LexicalScope} {l : Lexical} (h : Synced W f (a :: l)) :
    ScopeIn W a f ∧ ∃ fs, W.frames.chain f = f :: fs ++ [Machine.globalFrame] ∧
      List.Forall₂ (ScopeIn W) l fs := by
  obtain ⟨fs, hfs, hl⟩ := h.chain
  obtain ⟨g, rest, hs, hrest, rfl⟩ := List.forall₂_cons_left_iff.1 hl
  have hg : g = f := by
    have hhead := W.frames.head?_chain f
    rw [hfs] at hhead
    exact Option.some.inj hhead
  subst hg
  exact ⟨hs, rest, hfs, hrest⟩

/-- A name that the frame binds may be bound in the innermost scope. -/
theorem Synced.bind {f : FrameId} {l : Lexical} (h : Synced W f l) {x : Name}
    (hb : W.frames.binds f x.text = true) : Synced W f (l.bind x) := by
  cases l with
  | nil => exact h
  | cons a outer =>
    obtain ⟨hs, rest, hfs, hrest⟩ := h.head
    obtain ⟨site, names⟩ := a
    rw [Lexical.bind_cons]
    refine ⟨h.lt, f :: rest, hfs, .cons ⟨hs.inner, hs.lt, hs.opened, fun y hy => ?_⟩ hrest⟩
    by_cases hxy : x.text = y
    · exact hxy ▸ hb
    · refine hs.names y ?_
      have hne : (x.text == y) = false := beq_eq_false_iff_ne.2 hxy
      rw [Bindings.contains_insert, hne, Bool.false_or] at hy
      split at hy
      · exact hy
      · rw [Bindings.contains_insert, hne, Bool.false_or] at hy
        exact hy

/-! ## Code that is about to run -/

/-- The machine is in step with the world, and the uses of names find their names. -/
structure Ready (W : FrameWorld) (m : Machine) (uses : List (Occurrence NodeId)) : Prop where
  describes : Describes W m
  lt : m.current < W.frames.nextId
  stands : ∀ o ∈ uses, W.Stands m.current o

theorem Ready.later {uses : List (Occurrence NodeId)} (h : Ready W m uses) (hle : Later W W')
    (hm : Describes W' m') (hc : m'.current = m.current) : Ready W' m' uses := by
  refine ⟨hm, ?_, fun o ho => ?_⟩
  · rw [hc]
    exact Nat.lt_of_lt_of_le h.lt hle.le.nextId
  · rw [hc]
    exact (h.stands o ho).mono hle.le

theorem Ready.sub {uses part : List (Occurrence NodeId)} (h : Ready W m uses)
    (hp : ∀ o ∈ part, o ∈ uses) : Ready W m part :=
  ⟨h.describes, h.lt, fun o ho => h.stands o (hp o ho)⟩

theorem Ready.left {us vs : List (Occurrence NodeId)} (h : Ready W m (us ++ vs)) : Ready W m us :=
  h.sub fun _ ho => List.mem_append_left vs ho

theorem Ready.right {us vs : List (Occurrence NodeId)} (h : Ready W m (us ++ vs)) : Ready W m vs :=
  h.sub fun _ ho => List.mem_append_right us ho

/-- How a statement ends is known. -/
def FlowKnown (W : FrameWorld) : Flow → Prop
  | .normal => True
  | .returned v => W.Knows v

/-- Expressions are run in step. -/
def EvalKnown (eval : Watch → Run.EvalFn) : Prop :=
  ∀ (W : FrameWorld) (m : Machine) (e : Expr NodeId), Ready W m e.occurrences →
    Safe reading W (fun w => eval w e) m fun W' v _ => W'.Knows v

/-- Statements are run in step, and what they bind is bound in the frame. -/
def ExecKnown (exec : Watch → Run.ExecFn) : Prop :=
  ∀ (W : FrameWorld) (m : Machine) (l : Lexical) (s : Stmt NodeId), Describes W m →
    W.Synced m.current l → W.StmtKnown l s →
    Safe reading W (fun w => exec w s) m fun W' flow _ =>
      W'.FlowKnown flow ∧ (flow = .normal → W'.Synced m.current (s.scopesAfter l))

/-! ## Names -/

theorem Describes.valueOf (h : Describes W m) {id : NodeId} {name : Name} {v : Value}
    (hv : m.valueOf id name = .ok v) : W.Knows v := by
  unfold Machine.valueOf at hv
  split at hv
  next d hd =>
    obtain ⟨g, -, hg⟩ := (m.frames.getAt_ok m.current).1 hv
    exact h.values g name.text v hg
  next => exact h.values _ name.text v ((m.frames.getOwn_ok _).1 hv)

theorem Describes.getAt (h : Describes W m) {f : FrameId} {d : Nat} {x : String} {v : Value}
    (hv : m.frames.getAt f d x = .ok v) : W.Knows v := by
  obtain ⟨g, -, hg⟩ := (m.frames.getAt_ok f).1 hv
  exact h.values g x v hg

/-- The name of a use is spelled as its kind says. -/
theorem Ready.spelled {uses : List (Occurrence NodeId)} (h : Ready W m uses) :
    ∀ o ∈ uses, o.Spelled := by
  intro o ho
  obtain ⟨around, l, hp, -⟩ := h.stands o ho
  exact (h.describes.proper _ hp).spelled

/-- A use of a variable or of `this` that is about to be read fits. -/
theorem Ready.fits {o : Occurrence NodeId} (h : Ready W m [o])
    (hk : o.kind = .variable ∨ o.kind = .this) :
    Fits W.opening W.known m (.read o.id o.name) := by
  intro d hd
  obtain ⟨around, l, hp, hl, hsites, hdepths⟩ := h.stands o (List.mem_singleton_self o)
  have hdepth : Resolution.depth? o.name.text around.scopes = some d :=
    (h.describes.places _ hp).symm.trans hd
  have hsame := hdepths (by rcases hk with hk | hk <;> simp [hk])
  obtain ⟨scope, hs, hn⟩ := scope_of_depth? (hsame.symm.trans hdepth)
  obtain ⟨g, hg, hin⟩ := hl.frameAt hs
  have hsites' : (around.map (·.site))[d]? = some scope.site := by
    rw [hsites, List.getElem?_map, hs]
    rfl
  obtain ⟨scope', hs', hsite⟩ := scope_of_site hsites'
  have hf : FoundAt W.opening m ⟨o, around⟩ o.name d scope' g :=
    { depth := hdepth
      around := hs'
      chain := by rw [h.describes.chain]; exact hg
      inner := hin.inner
      opened := hsite ▸ hin.opened
      binds := h.describes.binds g _ hin.inner (hin.names _ hn) }
  exact ⟨hf.value hd, _, hp, rfl, rfl, scope', g, hf⟩

theorem lookUp_known {o : Occurrence NodeId} (h : Ready W m [o])
    (hk : o.kind = .variable ∨ o.kind = .this) :
    Safe reading W (fun w => Run.lookUp w o.id o.name) m fun W' v m' =>
      W'.Knows v ∧ m'.valueOf o.id o.name = .ok v := by
  have he : reading.event W m (.read o.id o.name) := ⟨h.fits hk, trivial⟩
  unfold Run.lookUp
  refine Safe.told h.describes he (Safe.get (Safe.ofLookup h.describes (fun v hv => ?_) ?_))
  · exact ⟨h.describes.valueOf hv, hv⟩
  · exact fun _ _ => trivial

theorem assign_known (hm : Describes W m) {v : Value} (hv : W.Knows v) (id : NodeId) {name : Name}
    (hx : name.Free) : Safe reading W (fun _ => Run.assign id name v) m fun _ _ _ => True := by
  unfold Run.assign
  refine Safe.get ((Safe.ofLookup (R := fun _ _ _ => True) hm (fun _ _ => trivial)
    fun _ _ => trivial).bind ?_)
  intro W' slot m' hle hm' _ _
  have hle' := W'.le_bindName slot name.text v
  exact Safe.of_ok (fun _ => rfl) ⟨hle', rfl⟩ (hm'.define hx ((hv.mono hle.le).mono hle')) rfl trivial

theorem define_known (hm : Describes W m) {v : Value} {name : Name} (hx : name.Free)
    (hv : (W.bindName m.current name.text v).Knows v) :
    Safe reading W (fun _ => Run.define name.text v) m fun W' _ _ =>
      W' = W.bindName m.current name.text v :=
  Safe.of_ok (fun _ => rfl) ⟨W.le_bindName m.current name.text v, rfl⟩ (hm.define hx hv) rfl rfl

theorem print_known (hm : Describes W m) (text : String) :
    Safe reading W (fun _ => Run.print text) m fun _ _ _ => True := by
  cases hw : m.sink.write (text ++ "\n") with
  | mk r sink =>
    have hm' : Describes W { m with sink } := hm.output sink
    cases r with
    | ok _ =>
      have hrun : Run.print text m = .ok () { m with sink } := by simp only [Run.print, hw]
      exact Safe.of_ok (fun _ => hrun) (reading.refl W) hm' rfl trivial
    | error e =>
      have hrun : Run.print text m = .error (.output e) { m with sink } := by
        simp only [Run.print, hw]
      exact Safe.of_error (fun _ => hrun) trivial (reading.refl W) hm'

theorem increment_known (operand : Expr NodeId) (h : Ready W m operand.occurrences)
    (operator : Token) :
    Safe reading W (fun w => Run.increment w operand operator) m fun W' r _ =>
      W'.Knows r.1 ∧ W'.Knows r.2 := by
  cases operand with
  | «variable» id name =>
    have hx : name.Free := h.spelled ⟨.variable, id, name⟩ (List.mem_singleton_self _)
    refine (lookUp_known (o := ⟨.variable, id, name⟩) h (.inl rfl)).bind ?_
    intro W' v m' hle hm hc hv
    cases v with
    | number old =>
      refine (assign_known hm (v := .number _) trivial id hx).bind ?_
      intro W'' _ m'' _ hm' _ _
      exact Safe.pure hm' ⟨trivial, trivial⟩
    | _ => exact Safe.fail hm trivial
  | _ => exact Safe.fail h.describes trivial

/-! ## Sequences -/

section

variable {eval : Watch → Run.EvalFn} {exec : Watch → Run.ExecFn}

theorem evalOption_known (heval : EvalKnown eval) {e : Option (Expr NodeId)}
    (h : Ready W m (Expr.occurrencesOption e)) :
    Safe reading W (fun w => Run.evalOption (eval w) e) m fun W' v _ => W'.Knows v := by
  cases e with
  | none => exact Safe.pure h.describes trivial
  | some e => exact heval W m e h

theorem evalAll_known (heval : EvalKnown eval) {es : List (Expr NodeId)}
    (h : Ready W m (Expr.occurrencesAll es)) :
    Safe reading W (fun w => Run.evalAll (eval w) es) m fun W' vs _ => ∀ v ∈ vs, W'.Knows v := by
  have hstep : ∀ e ∈ es, ∀ V n, reading.holds V n → Ready V n (Expr.occurrencesAll es) →
      Safe reading V (fun w => eval w e) n fun V' v n' =>
        Ready V' n' (Expr.occurrencesAll es) ∧ V'.Knows v := by
    intro e he V n _ hr
    refine (heval V n e (hr.sub fun o ho => Expr.mem_occurrencesAll.2 ⟨e, he, ho⟩)).mono ?_
    intro V' v n' hle hn hc hv
    exact ⟨hr.later hle hn hc, hv⟩
  refine (Safe.evalAll (P := fun V _ v => V.Knows v) (fun hle hv => hv.mono hle.le) hstep
    h.describes h).mono ?_
  intro W' vs m' _ _ _ hvs
  obtain ⟨-, hall⟩ := hvs
  clear hstep h
  induction hall with
  | nil => simp
  | cons hv _ ih => exact List.forall_mem_cons.2 ⟨hv, ih⟩

theorem StmtsKnown.cons {l : Lexical} {s : Stmt NodeId} {rest : List (Stmt NodeId)}
    (h : StmtsKnown W l (s :: rest)) :
    StmtKnown W l s ∧ StmtsKnown W (s.scopesAfter l) rest := by
  obtain ⟨routine, enclosing, he⟩ := h.faultless
  obtain ⟨hs, hr⟩ := cons_errors.1 he
  have hc := List.forall_mem_append.1 h.covers
  exact ⟨⟨⟨routine, enclosing, hs⟩, h.shaped.1, hc.1⟩, ⟨⟨routine, enclosing, hr⟩, h.shaped.2, hc.2⟩⟩

theorem execAll_known (hexec : ExecKnown exec) {l : Lexical} {ss : List (Stmt NodeId)}
    (hm : Describes W m) (hl : W.Synced m.current l) (hs : W.StmtsKnown l ss) :
    Safe reading W (fun w => Run.execAll (exec w) ss) m fun W' flow _ => W'.FlowKnown flow := by
  induction ss generalizing W m l with
  | nil => exact Safe.pure hm trivial
  | cons s rest ih =>
    obtain ⟨hfirst, hrest⟩ := hs.cons
    refine (hexec W m l s hm hl hfirst).bind ?_
    intro W' flow m' hle hm' hc hflow
    cases flow with
    | normal =>
      refine ih hm' ?_ (hrest.mono hle.le)
      rw [hc]
      exact hflow.2 rfl
    | returned v => exact Safe.pure hm' hflow.1

theorem RoutineKnown.body {l : Lexical} {decl : FunctionDecl (Stmt NodeId)}
    (h : RoutineKnown W l decl) : StmtsKnown W (l.inRoutine decl) decl.body := by
  obtain ⟨routine, enclosing, he⟩ := h.faultless
  obtain ⟨name, params, result, body⟩ := decl
  exact ⟨⟨routine, enclosing, (routine_errors.1 he).2⟩, h.shaped.2.2, h.covers⟩

/-- A new frame changes no value. -/
theorem valueOf_addChild {id : NodeId} {name : Name} {v : Value}
    (h : m.valueOf id name = .ok v) (hlt : m.current < m.frames.nextId) (outer : FrameId)
    (vars : Bindings Value) :
    ({ m with frames := m.frames.addChild outer vars } : Machine).valueOf id name = .ok v := by
  have hold {g : FrameId} (hg : (m.frames.vars g).get? name.text = some v) :
      ((m.frames.addChild outer vars).vars g).get? name.text = some v := by
    have hb : m.frames.binds g name.text = true := (m.frames.binds_iff g).2 ⟨v, hg⟩
    rw [Frames.vars_addChild_of_lt _ _ _ (Frames.lt_of_binds hb)]
    exact hg
  unfold Machine.valueOf at h ⊢
  have hsame : ({ m with frames := m.frames.addChild outer vars } : Machine).distance? id =
      m.distance? id := rfl
  rw [hsame]
  cases hd : m.distance? id with
  | none =>
    rw [hd] at h
    exact (Frames.getOwn_ok _ _).2 (hold ((Frames.getOwn_ok _ _).1 h))
  | some d =>
    rw [hd] at h
    obtain ⟨g, hchain, hg⟩ := (m.frames.getAt_ok m.current).1 h
    refine (Frames.getAt_ok _ m.current).2 ⟨g, ?_, hold hg⟩
    rw [Frames.chain_addChild_of_lt _ _ _ hlt]
    exact hchain

theorem openFrame_known (hm : Describes W m) {outer : FrameId}
    (houter : outer < W.frames.nextId) {vars : Bindings Value}
    (hv : ∀ x v, vars.get? x = some v → W.Knows v) {o : Opening} (ho : o.Made m vars) :
    Safe reading W (fun w => Run.openFrame w outer vars o) m fun W' f _ =>
      W' = W.addFrame outer vars o ∧ f = W.frames.nextId := by
  have hm' := hm.addFrame houter hv ho.words
  have hnew : Safe reading W (fun _ => Run.newFrame outer vars) m fun W' f m' =>
      (W' = W.addFrame outer vars o ∧ m' = { m with frames := m.frames.addChild outer vars }) ∧
        f = W.frames.nextId :=
    Safe.of_ok (fun _ => rfl) ⟨hm.le_addFrame outer vars o, rfl⟩ hm' rfl ⟨⟨rfl, rfl⟩, hm.nextId⟩
  have hopening : (W.addFrame outer vars o).opening W.frames.nextId = some o := if_pos rfl
  have hevent : reading.event (W.addFrame outer vars o)
      { m with frames := m.frames.addChild outer vars } (.opened W.frames.nextId o) := by
    refine ⟨hopening, hopening, fun decl hdecl => ?_⟩
    obtain ⟨hlt, s, c, hs, hv, hc⟩ := ho.superclass decl hdecl
    exact ⟨s, c, hs, valueOf_addChild hv hlt outer vars, (if_pos rfl).trans hc⟩
  unfold Run.openFrame
  refine hnew.bind ?_
  intro W' f m' _ hm' _ hf
  obtain ⟨⟨rfl, rfl⟩, rfl⟩ := hf
  exact Safe.told hm' hevent (Safe.pure hm' ⟨rfl, rfl⟩)

/-- A new frame that knows one name. -/
theorem openSingle_known (hm : Describes W m) {f : FrameId} {l : Lexical} (hl : W.Synced f l)
    {site : Site} {o : Opening} (ho : o.Opens site) {word : String} {v : Value} (hv : W.Knows v)
    (hw : o.Made m (.single word v)) :
    Safe reading W (fun w => Run.openFrame w f (.single word v) o) m fun W' g _ =>
      W'.Synced g (⟨site, .single word true⟩ :: l) ∧
        W'.frames.chain g = g :: W'.frames.chain f := by
  have hvals : ∀ x u, (Bindings.single word v).get? x = some u → W.Knows u := by
    intro x u hx
    rw [Bindings.get?_single] at hx
    split at hx
    · cases hx
      exact hv
    · cases hx
  refine (openFrame_known hm hl.lt hvals hw).mono ?_
  intro W' g m' _ _ _ hg
  obtain ⟨rfl, rfl⟩ := hg
  have hf : f ≠ W.frames.nextId := Nat.ne_of_lt hl.lt
  refine ⟨hm.enter hl ho fun x hx => ?_, by simp [FrameWorld.addFrame, Frames.chain_addChild, hf]⟩
  rw [Bindings.contains_single] at hx ⊢
  exact hx

/-! ## Methods and fields -/

/-- A new frame for members of a class, which know an object as `this`. -/
theorem openMembers_known (hm : Describes W m) {f : FrameId} {l : Lexical} (hl : W.Synced f l)
    {decl : ClassDecl NodeId (Stmt NodeId)} {o : Opening} (ho : o.Opens (.members decl))
    {i : ObjectId} {c : ClassValue} (hv : W.KnowsClass c) :
    Safe reading W (fun w => Run.openFrame w f (.single "this" (.object i c)) o) m fun W' g _ =>
      W'.Synced g (memberScopes l decl) := by
  have hobject : W.Knows (.object i c) := hv
  refine (openSingle_known hm hl ho hobject (.members m ho i c)).mono ?_
  intro W' g m' _ _ _ hg
  exact hg.1

theorem bindMethod_known (hm : Describes W m) {method : Closure} {i : ObjectId} {c : ClassValue}
    (hk : W.KnowsMethod method) (hc : W.KnowsClass c) :
    Safe reading W (fun w => Run.bindMethod w method (.object i c)) m fun W' bound _ =>
      W'.KnowsClosure bound ∧ bound.decl = method.decl := by
  obtain ⟨l, decl, hl, hmem, hr⟩ := hk
  unfold Run.bindMethod
  have ho : (Opening.method method.decl).Opens (.members decl) := hmem
  refine (openMembers_known hm hl ho hc).bind ?_
  intro W' f m' hle hm' _ hf
  exact Safe.pure hm' ⟨⟨memberScopes l decl, hf, hr.mono hle.le⟩, rfl⟩

theorem methodValue_known (hm : Describes W m) {method : Closure} {i : ObjectId} {c : ClassValue}
    (hk : W.KnowsMethod method) (hc : W.KnowsClass c) :
    Safe reading W (fun w => Run.methodValue w method (.object i c)) m fun W' v _ => W'.Knows v := by
  unfold Run.methodValue
  refine (bindMethod_known hm hk hc).bind ?_
  intro W' bound m' _ hm' _ hb
  exact Safe.of_ok (fun _ => rfl) (reading.refl W') (hm'.identity _) rfl hb.1

theorem setFields_known (heval : EvalKnown eval) (hm : Describes W m) (id : ObjectId)
    {frame : FrameId} (hlt : frame < W.frames.nextId) {ds : List (VarDecl NodeId)}
    (hr : ∀ o ∈ VarDecl.occurrencesAll ds, W.Stands frame o) :
    Safe reading W (fun w => Run.setFields (eval w) id frame ds) m fun _ _ _ => True := by
  induction ds generalizing W m with
  | nil => exact Safe.pure hm trivial
  | cons d rest ih =>
    have hparts := List.forall_mem_append.1 hr
    have hready : Ready W { m with current := frame } (Expr.occurrencesOption d.initializer) :=
      ⟨hm.current frame, hlt, hparts.1⟩
    refine (evalOption_known heval hready).inFrame.bind ?_
    intro W' v m' hle hm' _ hv
    have hset : Safe reading W' (fun _ => Run.setField id d.name.text v) m' fun _ _ _ => True :=
      Safe.of_ok (fun _ => rfl) (reading.refl W') (hm'.setField hv) rfl trivial
    refine hset.bind ?_
    intro W'' _ m'' hle' hm'' _ _
    have hlater := hle.le.trans hle'.le
    exact ih hm'' (Nat.lt_of_lt_of_le hlt hlater.nextId)
      fun o ho => (hparts.2 o ho).mono hlater

theorem setLayer_known (heval : EvalKnown eval) (hm : Describes W m) (id : ObjectId)
    {i : ObjectId} {c : ClassValue} {layer : Layer} (hk : W.KnowsLayer layer)
    (hc : W.KnowsClass c) :
    Safe reading W (fun w => Run.setLayer w (eval w) id (.object i c) layer) m
      fun _ _ _ => True := by
  unfold Run.setLayer
  split
  · exact Safe.pure hm trivial
  · obtain ⟨l, decl, hl, hfields, hplaces⟩ := hk.fields
    have ho : (Opening.fields layer.fields).Opens (.members decl) := hfields
    refine (openMembers_known hm hl ho hc).bind ?_
    intro W' f m' hle hm' _ hf
    refine setFields_known heval hm' id hf.lt fun o ho => ?_
    exact hf.stands (hle.le.known _ (hplaces o ho))

theorem setLayers_known (heval : EvalKnown eval) (hm : Describes W m) (id : ObjectId)
    {i : ObjectId} {c : ClassValue} {layers : List Layer}
    (hk : ∀ layer ∈ layers, W.KnowsLayer layer) (hc : W.KnowsClass c) :
    Safe reading W (fun w => Run.setLayers w (eval w) id (.object i c) layers) m
      fun _ _ _ => True := by
  induction layers generalizing W m with
  | nil => exact Safe.pure hm trivial
  | cons layer rest ih =>
    refine (setLayer_known heval hm id (hk layer (List.mem_cons_self ..)) hc).bind ?_
    intro W' _ m' hle hm' _ _
    exact ih hm' (fun a ha => (hk a (List.mem_cons_of_mem layer ha)).mono hle.le) (hc.mono hle.le)

/-! ## Calls -/

theorem callResult_known (hm : Describes W m) (f : Closure) {flow : Flow} (hf : W.FlowKnown flow) :
    Safe reading W (fun _ => Run.callResult f flow) m fun W' v _ => W'.Knows v := by
  have hinit : Safe reading W (fun _ => Run.callResult.initialized f) m fun W' v _ => W'.Knows v :=
    Safe.get (Safe.ofLookup hm (fun v hv => hm.getAt hv) fun _ _ => trivial)
  unfold Run.callResult
  cases flow <;> dsimp only <;> split
  · exact hinit
  · exact Safe.pure hm trivial
  · exact hinit
  · exact Safe.pure hm hf

theorem invoke_known (hexec : ExecKnown exec) (hm : Describes W m) {f : Closure}
    (hf : W.KnowsClosure f) {args : List Value} (ha : ∀ v ∈ args, W.Knows v)
    (hlen : f.decl.params.length = args.length) :
    Safe reading W (fun w => Run.invoke w (exec w) f args) m fun W' v _ => W'.Knows v := by
  obtain ⟨l, hl, hr⟩ := hf
  have hzip : ((f.decl.params.map fun p => p.name.text).zip args).map (·.1) =
      f.decl.params.map fun p => p.name.text :=
    List.map_fst_zip (by simp [hlen])
  have hvals : ∀ x v, (Run.paramBindings f.decl.params args).get? x = some v → W.Knows v :=
    fun x v hx => ha v (List.of_mem_zip (Bindings.get?_ofList hx)).2
  obtain ⟨names, hin, hnames⟩ := Lexical.inRoutine_cons l f.decl
  have ho : (Opening.call f.decl).Opens (Site.routine f.decl) := rfl
  unfold Run.invoke
  refine (openFrame_known hm hl.lt hvals (.call m _ f.decl)).bind ?_
  intro W' g m' hle hm' _ hg
  obtain ⟨rfl, rfl⟩ := hg
  have hs : Synced (W.addFrame f.frame (Run.paramBindings f.decl.params args) (.call f.decl))
      W.frames.nextId (l.inRoutine f.decl) := by
    rw [hin]
    refine hm.enter hl ho fun x hx => ?_
    rw [Run.paramBindings, Bindings.contains_ofList, hzip]
    exact (hnames x).1 hx
  have hbody := (hr.mono hle.le).body
  refine (execAll_known hexec (hm'.current W.frames.nextId) hs hbody).inFrame.bind ?_
  intro W'' flow m'' _ hm'' _ hflow
  exact callResult_known hm'' f hflow

theorem construct_known (heval : EvalKnown eval) (hexec : ExecKnown exec) (hm : Describes W m)
    {c : ClassValue} (hc : W.KnowsClass c) {args : List Value} (ha : ∀ v ∈ args, W.Knows v)
    (hlen : c.arity = args.length) :
    Safe reading W (fun w => Run.construct w (eval w) (exec w) c args) m fun W' v _ =>
      W'.Knows v := by
  have hnew : Safe reading W (fun _ => Run.newObject) m fun W' _ _ => W' = W :=
    Safe.of_ok (fun _ => rfl) (reading.refl W) hm.newObject rfl rfl
  unfold Run.construct
  refine hnew.bind ?_
  intro W' id m' _ hm' _ he
  subst he
  have hlayers : ∀ layer ∈ c.layers.reverse, W'.KnowsLayer layer :=
    fun layer hl => hc layer (List.mem_reverse.1 hl)
  refine (setLayers_known heval hm' id hlayers hc).bind ?_
  intro W'' _ m'' hle hm'' _ _
  have hthis : W''.KnowsClass c := hc.mono hle.le
  cases hi : c.initializer? with
  | none => exact Safe.pure hm'' hthis
  | some initializer =>
    have hk : W''.KnowsMethod initializer :=
      (hthis c.own (List.mem_cons_self ..)).methods c.own.name initializer hi
    refine (bindMethod_known hm'' hk hthis).bind ?_
    intro V bound n hle' hn _ hb
    have hargs : bound.decl.params.length = args.length := by
      rw [hb.2, ← hlen, ClassValue.arity, hi]
    have hknown : ∀ v ∈ args, V.Knows v :=
      fun v hv => (ha v hv).mono (hle.le.trans hle'.le)
    refine (invoke_known hexec hn hb.1 hknown hargs).bind ?_
    intro V' _ n' hle'' hn' _ _
    exact Safe.pure hn' (hthis.mono (hle'.le.trans hle''.le) : V'.KnowsClass c)

theorem checkArity_known (hm : Describes W m) (line expected got : Nat) :
    Safe reading W (fun _ => Run.checkArity line expected got) m fun W' _ _ =>
      W' = W ∧ expected = got := by
  unfold Run.checkArity
  split
  next he => exact Safe.pure hm ⟨rfl, he⟩
  next => exact Safe.fail hm trivial

theorem callNative_known (hm : Describes W m) (id : Nat) (args : List Value) :
    Safe reading W (fun _ => Run.callNative id args) m fun W' v _ => W'.Knows v := by
  obtain ⟨c, hc⟩ := hm.natives
  unfold Run.callNative
  refine Safe.get ?_
  rw [hc]
  cases id with
  | zero =>
    refine Safe.ofExcept hm (fun v hv => ?_) fun _ _ => trivial
    cases c with
    | ok seconds =>
      cases hv
      trivial
    | error reason => cases hv
  | succ n => exact Safe.pure hm trivial

theorem call_known (heval : EvalKnown eval) (hexec : ExecKnown exec) (hm : Describes W m)
    (line : Nat) {f : Value} (hf : W.Knows f) {args : List Value} (ha : ∀ v ∈ args, W.Knows v) :
    Safe reading W (fun w => Run.call w (eval w) (exec w) line f args) m fun W' v _ =>
      W'.Knows v := by
  unfold Run.call
  cases f with
  | native id arity =>
    refine (checkArity_known hm line arity args.length).bind ?_
    intro W' _ m' _ hm' _ _
    exact callNative_known hm' id args
  | function id closure =>
    refine (checkArity_known hm line closure.decl.params.length args.length).bind ?_
    intro W' _ m' _ hm' _ h
    obtain ⟨rfl, hlen⟩ := h
    exact invoke_known hexec hm' hf ha hlen
  | classObject c =>
    refine (checkArity_known hm line c.arity args.length).bind ?_
    intro W' _ m' _ hm' _ h
    obtain ⟨rfl, hlen⟩ := h
    exact construct_known heval hexec hm' hf ha hlen
  | _ => exact Safe.fail hm trivial

/-! ## Properties and operators -/

theorem property_known (hm : Describes W m) {object : Value} (ho : W.Knows object) (name : Name) :
    Safe reading W (fun w => Run.property w object name) m fun W' v _ => W'.Knows v := by
  refine Safe.property hm (And.intro trivial trivial) trivial (fun i c v _ hv => ?_) ?_
    fun _ _ _ _ _ => trivial
  · obtain ⟨fields, hf, hg⟩ := Option.bind_eq_some_iff.1 hv
    exact hm.fields i fields name.text v hf hg
  · rintro i c f rfl - hf
    exact methodValue_known hm (KnowsClass.findMethod? ho hf) ho

/-- A frame that was made for the members of a class knows an object as `this`. -/
theorem Describes.this (h : Describes W m) {f : FrameId} {o : Opening} (ho : W.opening f = some o)
    {decl : ClassDecl NodeId (Stmt NodeId)} (hs : o.Opens (.members decl)) :
    ∃ i c, (m.frames.vars f).get? "this" = some (.object i c) := by
  have hwords := h.words f o ho
  cases o with
  | method d => exact hwords
  | fields ds => exact hwords
  | _ => cases hs

/-- A frame that was made for the superclass of a class knows a class as `super`. -/
theorem Describes.super (h : Describes W m) {f : FrameId} {o : Opening} (ho : W.opening f = some o)
    {decl : ClassDecl NodeId (Stmt NodeId)} (hs : o.Opens (.superclass decl)) :
    W.opening f = some (.superclass decl) ∧
      ∃ c, W.declared f = some c ∧ (m.frames.vars f).get? "super" = some (.classObject c) := by
  have hwords := h.words f o ho
  cases o with
  | superclass decl' =>
    obtain rfl : decl' = decl := hs
    exact ⟨ho, hwords⟩
  | _ => cases hs

/-- A use of `super` that is about to be evaluated fits. -/
theorem Ready.superAt {id : NodeId} {keyword : Name} (h : Ready W m [⟨.super, id, keyword⟩]) :
    ∃ p ∈ W.known, p.use = ⟨.super, id, keyword⟩ ∧ ∃ decl d c i own,
      m.distance? id = some (d + 1) ∧ SuperAt W.opening W.declared m p decl d c i own := by
  obtain ⟨around, l, hp, hl, hsites, -⟩ := h.stands _ (List.mem_singleton_self _)
  have hproper := h.describes.proper _ hp
  obtain ⟨decl, d, hin⟩ := hproper.super rfl
  have hspelled : keyword.text = "super" := hproper.spelled
  have hdistance : m.distance? id = some (d + 1) := by
    refine (h.describes.places _ hp).trans ?_
    show Resolution.depth? keyword.text around.scopes = _
    rw [hspelled, hin.depth?_super]
  obtain ⟨hmembers, hsuperclass⟩ := hin.sites
  rw [hsites] at hmembers hsuperclass
  obtain ⟨inner, hinner, hinnerSite⟩ := scope_of_site hmembers
  obtain ⟨f, hf, hfin⟩ := hl.frameAt hinner
  obtain ⟨o, ho, hopens⟩ := hfin.opened
  rw [hinnerSite] at hopens
  obtain ⟨i, own, hthis⟩ := h.describes.this ho hopens
  obtain ⟨outer, houter, houterSite⟩ := scope_of_site hsuperclass
  obtain ⟨g, hg, hgin⟩ := hl.frameAt houter
  obtain ⟨o', ho', hopens'⟩ := hgin.opened
  rw [houterSite] at hopens'
  obtain ⟨hopening, c, hdeclared, hsuper⟩ := h.describes.super ho' hopens'
  rw [← h.describes.chain] at hf hg
  exact ⟨⟨_, around⟩, hp, rfl, decl, d, c, i, own, hdistance,
    { inside := hin
      depth := hin.depth?_this
      members := ⟨f, o, hf, ho, hopens⟩
      superclass := ⟨g, hg, hopening, hdeclared⟩
      super := (m.frames.getAt_ok m.current).2 ⟨g, hg, hsuper⟩
      this := (m.frames.getAt_ok m.current).2 ⟨f, hf, hthis⟩ }⟩

theorem superMethod_known {id : NodeId} {keyword : Name} (h : Ready W m [⟨.super, id, keyword⟩])
    (method : Name) :
    Safe reading W (fun w => Run.superMethod w id keyword method) m fun W' v _ => W'.Knows v := by
  have hm := h.describes
  obtain ⟨p, hp, hu, decl, d, c, i, own, hdistance, hat⟩ := h.superAt
  have hevent : reading.event W m (.super id keyword method) :=
    ⟨trivial, p, hp, hu, decl, d, c, i, own, hat,
      Run.superMethod_outcome hdistance hat.super hat.this keyword method⟩
  have hknown : W.Knows (.classObject c) := hm.getAt hat.super
  exact Safe.superMethod hdistance hat.super hat.this hm hevent
    (fun f hf => methodValue_known hm (KnowsClass.findMethod? hknown hf) (hm.getAt hat.this))
    fun _ => trivial

theorem binary_known {operator : Token} {left right v : Value}
    (h : Operators.binary operator left right = .ok v) (W : FrameWorld) : W.Knows v := by
  rcases Operators.binary_constant h with ⟨x, rfl⟩ | ⟨s, rfl⟩ | ⟨b, rfl⟩ <;> trivial

theorem unary_known (heval : EvalKnown eval) (operator : Token) (operand : Expr NodeId)
    (h : Ready W m operand.occurrences) :
    Safe reading W (fun w => Run.unary w (eval w) operator operand) m fun W' v _ => W'.Knows v := by
  have hincrement := increment_known operand h operator
  unfold Run.unary
  split
  · exact hincrement.bind fun W' r m' _ hm' _ hr => Safe.pure hm' hr.2
  · exact hincrement.bind fun W' r m' _ hm' _ hr => Safe.pure hm' hr.2
  · refine (heval W m operand h).bind ?_
    intro W' v m' _ hm' _ _
    refine Safe.ofExcept hm' (fun u hu => ?_) fun _ _ => trivial
    cases v with
    | number x =>
      cases hu
      trivial
    | _ => cases hu
  · exact (heval W m operand h).bind fun W' v m' _ hm' _ _ => Safe.pure hm' trivial
  · exact Safe.fail h.describes trivial

/-! ## Declarations -/

theorem Synced.bindName {f : FrameId} {l : Lexical} (h : Synced W f l) (x : Name) (v : Value) :
    Synced (W.bindName f x.text v) f (l.bind x) :=
  (h.mono (W.le_bindName f x.text v)).bind ((W.frames.binds_define f f).2 (.inl ⟨rfl, h.lt, rfl⟩))

theorem declareFunction_known (hm : Describes W m) {l : Lexical} (hl : W.Synced m.current l)
    {decl : FunctionDecl (Stmt NodeId)} (hk : W.StmtKnown l (.function decl)) :
    Safe reading W (fun _ => Run.declareFunction decl) m fun W' _ _ =>
      W'.Synced m.current (l.bind decl.name) := by
  obtain ⟨routine, enclosing, he⟩ := hk.faultless
  have hfresh : Safe reading W (fun _ => Run.freshIdentity) m fun W' _ _ => W' = W :=
    Safe.of_ok (fun _ => rfl) (reading.refl W) (hm.identity _) rfl rfl
  unfold Run.declareFunction
  refine Safe.get (hfresh.bind ?_)
  intro W' id m' _ hm' hc h
  subst h
  have hl' : W'.Synced m'.current l := hc ▸ hl
  let v : Value := .function id ⟨decl, m.current, false⟩
  have hknown : (W'.bindName m'.current decl.name.text v).Knows v := by
    refine ⟨l.bind decl.name, hc ▸ hl'.bindName decl.name v, ?_⟩
    exact ⟨⟨_, _, (function_errors.1 he).2⟩, hk.shaped, hk.covers⟩
  have hx : decl.name.Free := by
    obtain ⟨name, params, result, body⟩ := decl
    exact hk.shaped.1
  refine (define_known hm' hx hknown).mono ?_
  intro W'' _ m'' _ _ _ h
  subst h
  exact hc ▸ hl'.bindName decl.name v

/-- A new frame for the superclass of a class, which knows it as `super`. -/
theorem openSuper_known (hm : Describes W m) {l : Lexical} (hl : W.Synced m.current l)
    {decl : ClassDecl NodeId (Stmt NodeId)} {s : SuperclassRef NodeId}
    (hs : decl.superclass = some s) {c : ClassValue} (hc : W.KnowsClass c)
    (hv : m.valueOf s.id s.name = .ok (.classObject c)) :
    Safe reading W (fun w => Run.openFrame w m.current (.single "super" (.classObject c))
      (.superclass decl)) m fun W' g _ =>
        W'.ScopeIn ⟨.superclass decl, .single "super" true⟩ g ∧
          W'.frames.chain g = g :: W'.frames.chain m.current := by
  have ho : (Opening.superclass decl).Opens (.superclass decl) := rfl
  have hlt : m.current < m.frames.nextId := hm.nextId ▸ hl.lt
  have hclass : W.Knows (.classObject c) := hc
  refine (openSingle_known hm hl ho hclass (.super hs hv hlt)).mono ?_
  intro W' g m' _ _ _ hg
  exact ⟨hg.1.head.1, hg.2⟩

/-- The frame around the members of a class: with a superclass, one that binds `super`. -/
def AroundMembers (W : FrameWorld) (decl : ClassDecl NodeId (Stmt NodeId)) (f g : FrameId) : Prop :=
  match decl.superclass with
  | none => g = f
  | some _ =>
    W.ScopeIn ⟨.superclass decl, .single "super" true⟩ g ∧
      W.frames.chain g = g :: W.frames.chain f

theorem AroundMembers.mono {decl : ClassDecl NodeId (Stmt NodeId)} {f g : FrameId}
    (h : AroundMembers W decl f g) (hle : Le W W') (hf : f < W.frames.nextId) :
    AroundMembers W' decl f g := by
  unfold AroundMembers at h ⊢
  split
  next hs =>
    rw [hs] at h
    exact h
  next s hs =>
    rw [hs] at h
    exact ⟨h.1.mono hle, by rw [hle.chain g h.1.lt, hle.chain f hf, h.2]⟩

theorem AroundMembers.synced {decl : ClassDecl NodeId (Stmt NodeId)} {f g : FrameId}
    (h : AroundMembers W decl f g) {l : Lexical} (hl : W.Synced f l) :
    ∃ l', W.Synced g l' ∧ l.inClass decl = memberScopes l' decl := by
  unfold AroundMembers at h
  unfold Lexical.inClass
  cases hs : decl.superclass with
  | none =>
    rw [hs] at h
    exact ⟨l, h ▸ hl, rfl⟩
  | some s =>
    rw [hs] at h
    exact ⟨_, hl.cons h.1 h.2, rfl⟩

theorem superclass_known (hm : Describes W m) {l : Lexical} (hl : W.Synced m.current l)
    {name : Name} {s : SuperclassRef NodeId} (hn : s.name.text ≠ name.text)
    (hp : ⟨⟨.variable, s.id, s.name⟩, l.bind name⟩ ∈ W.known) :
    Safe reading W (fun w => Run.superclass w s) m fun W' c m' =>
      W'.KnowsClass c ∧ m'.valueOf s.id s.name = .ok (.classObject c) := by
  have hstands : W.Stands m.current ⟨.variable, s.id, s.name⟩ :=
    ⟨l.bind name, l, hp, hl, l.sites_bind name, fun _ => l.depth?_bind_of_ne (Ne.symm hn)⟩
  have hready : Ready W m [⟨.variable, s.id, s.name⟩] :=
    ⟨hm, hl.lt, List.forall_mem_singleton.2 hstands⟩
  unfold Run.superclass
  refine (lookUp_known hready (.inl rfl)).bind ?_
  intro W' v m' _ hm' _ hv
  cases v with
  | classObject c => exact Safe.pure hm' hv
  | _ => exact Safe.fail hm' trivial

theorem classContext_known (hm : Describes W m) {l : Lexical} (hl : W.Synced m.current l)
    {decl : ClassDecl NodeId (Stmt NodeId)} (hk : W.StmtKnown l (.classDecl decl)) :
    Safe reading W (fun w => Run.classContext w decl) m fun W' r _ =>
      (∀ layer ∈ r.1, W'.KnowsLayer layer) ∧ W'.AroundMembers decl m.current r.2 := by
  obtain ⟨routine, enclosing, he⟩ := hk.faultless
  have herrors := (classDecl_errors.1 he).2.1
  have hplaces := (List.forall_mem_append.1 (List.forall_mem_append.1 hk.covers).1).1
  unfold Run.classContext AroundMembers
  cases hs : decl.superclass with
  | none => exact Safe.get (Safe.pure hm ⟨by simp, rfl⟩)
  | some s =>
    rw [hs] at herrors hplaces
    have hplace := hplaces ⟨⟨.variable, s.id, s.name⟩, l.bind decl.name⟩ (List.mem_singleton_self _)
    refine (superclass_known hm hl (superclass_errors herrors) hplace).bind ?_
    intro W' c m' hle hm' hc hclass
    obtain ⟨hclass, hvalue⟩ := hclass
    have hl' : W'.Synced m'.current l := by
      rw [hc]
      exact hl.mono hle.le
    refine Safe.get ((openSuper_known hm' hl' hs hclass hvalue).bind ?_)
    intro W'' g m'' hle' hm'' _ hg
    refine Safe.pure hm'' ⟨hclass.mono hle'.le, hg.1, ?_⟩
    rw [← hc]
    exact hg.2

/-- What a class declaration adds to a class is known where the frame of the members is in step. -/
theorem StmtKnown.layer {l l' : Lexical} {decl : ClassDecl NodeId (Stmt NodeId)}
    (hk : W.StmtKnown l (.classDecl decl)) {frame : FrameId} (hf : W.Synced frame l')
    (hin : (l.bind decl.name).inClass decl = memberScopes l' decl) (id : Nat) :
    W.KnowsLayer ⟨id, decl.name.text, decl.fields, Run.classMethods decl.name frame decl.methods,
      frame⟩ := by
  obtain ⟨routine, enclosing, he⟩ := hk.faultless
  have hmethods := methods_errors (classDecl_errors.1 he).2.2.2
  obtain ⟨hleft, hroutines⟩ := List.forall_mem_append.1 hk.covers
  have hfields := (List.forall_mem_append.1 hleft).2
  have hshaped := Stmt.shapedRoutines_iff.1 hk.shaped.2.2.2
  rw [hin] at hmethods
  constructor
  · intro x c hx
    obtain ⟨d, hd, hpair⟩ := List.mem_map.1 (Bindings.get?_ofList hx)
    cases hpair
    obtain ⟨r, hr⟩ := hmethods d hd
    refine ⟨l', decl, hf, hd, ⟨r, _, hr⟩, hshaped d hd, fun p hp => hroutines p ?_⟩
    exact Stmt.mem_placesRoutines.2 ⟨d, hd, hin ▸ hp⟩
  · refine ⟨l', decl, hf, rfl, fun o ho => hfields _ ?_⟩
    exact hin ▸ List.mem_map.2 ⟨o, ho, rfl⟩

theorem declareClass_known (hm : Describes W m) {l : Lexical} (hl : W.Synced m.current l)
    {decl : ClassDecl NodeId (Stmt NodeId)} (hk : W.StmtKnown l (.classDecl decl)) :
    Safe reading W (fun w => Run.declareClass w decl) m fun W' _ _ =>
      W'.Synced m.current (l.bind decl.name) := by
  unfold Run.declareClass
  refine (classContext_known hm hl hk).bind ?_
  rintro W' ⟨inherited, frame⟩ m' hle hm' hc ⟨hlayers, haround⟩
  have hfresh : Safe reading W' (fun _ => Run.freshIdentity) m' fun W'' _ _ => W'' = W' :=
    Safe.of_ok (fun _ => rfl) (reading.refl W') (hm'.identity _) rfl rfl
  refine hfresh.bind ?_
  intro W'' id m'' _ hm'' hc' h
  subst h
  have hcurrent : m''.current = m.current := hc'.trans hc
  have hl' : W''.Synced m.current l := hl.mono hle.le
  let own : Layer :=
    ⟨id, decl.name.text, decl.fields, Run.classMethods decl.name frame decl.methods, frame⟩
  let V := W''.bindName m.current decl.name.text (.classObject ⟨own, inherited⟩)
  have hV : Le W'' V := W''.le_bindName _ _ _
  have hbound : V.Synced m.current (l.bind decl.name) := hl'.bindName decl.name _
  obtain ⟨l', hframe, hin⟩ := (haround.mono hV hl'.lt).synced hbound
  have hown : V.KnowsLayer own := (hk.mono (hle.le.trans hV)).layer hframe hin id
  have hclass : V.Knows (.classObject ⟨own, inherited⟩) :=
    List.forall_mem_cons.2 ⟨hown, fun layer hi => (hlayers layer hi).mono hV⟩
  have hx : decl.name.Free := hk.shaped.1
  refine (define_known hm'' hx (hcurrent ▸ hclass)).mono ?_
  intro V' _ n _ _ _ h
  rw [h, hcurrent]
  exact hbound

/-! ## Expressions and statements -/

/-- The uses of names in an expression that stands where its frame is in step. -/
theorem Describes.ready (hm : Describes W m) {l : Lexical} (hl : W.Synced m.current l)
    {uses : List (Occurrence NodeId)} (hp : W.Covers (placesAt l uses)) : Ready W m uses :=
  ⟨hm, hl.lt, fun o ho => hl.stands (hp ⟨o, l⟩ (List.mem_map_of_mem ho))⟩

/-- The initial value of a variable does not read the variable, so its uses of names find their names
although the variable is announced before and bound after. -/
theorem Describes.readyInitializer (hm : Describes W m) {l : Lexical} (hl : W.Synced m.current l)
    {decl : VarDecl NodeId} (hk : W.StmtKnown l (.var decl)) :
    Ready W m (Expr.occurrencesOption decl.initializer) := by
  obtain ⟨routine, enclosing, he⟩ := hk.faultless
  obtain ⟨hdeclare, herrors⟩ := var_errors.1 he
  refine ⟨hm, hl.lt, fun o ho => ?_⟩
  have hp : ⟨o, l.declare decl.name⟩ ∈ W.known := hk.covers _ (List.mem_map_of_mem ho)
  refine ⟨_, l, hp, hl, l.sites_declare decl.name, fun hkind => ?_⟩
  obtain ⟨e, hinit, hoe⟩ : ∃ e, decl.initializer = some e ∧ o ∈ e.occurrences := by
    cases hd : decl.initializer with
    | none => rw [hd] at ho; cases ho
    | some e => rw [hd] at ho; exact ⟨e, rfl, ho⟩
  have hshape := hk.shaped
  rw [hinit] at herrors
  cases l with
  | nil => rfl
  | cons a outer =>
    obtain ⟨site, names⟩ := a
    refine Lexical.depth?_declare_of_ne _ ?_
    refine ne_of_initializer hshape.1 (not_contains_of_declare hdeclare) herrors ?_ hoe hkind
    have := hshape.2
    rwa [hinit] at this

/-- A statement that is known and binds nothing. -/
structure BranchKnown (W : FrameWorld) (l : Lexical) (s : Stmt NodeId) : Prop where
  known : W.StmtKnown l s
  branch : s.isBranch = true

section

variable {l : Lexical} {s thenBranch elseBranch body : Stmt NodeId} {condition : Expr NodeId}

theorem BranchKnown.mono (h : W.BranchKnown l s) (hle : Le W W') : W'.BranchKnown l s :=
  ⟨h.known.mono hle, h.branch⟩

/-- A branch leaves the scopes as they are. -/
theorem BranchKnown.scopesAfter (h : W.BranchKnown l s) : s.scopesAfter l = l :=
  Stmt.scopesAfter_of_isBranch l s h.known.shaped h.branch

theorem StmtKnown.ifThen (h : W.StmtKnown l (.ifThen condition thenBranch)) :
    W.Covers (placesAt l condition.occurrences) ∧ W.BranchKnown l thenBranch := by
  obtain ⟨routine, enclosing, he⟩ := h.faultless
  obtain ⟨-, hshape, hbranch⟩ := h.shaped
  obtain ⟨hcovers, hthen⟩ := List.forall_mem_append.1 h.covers
  exact ⟨hcovers, ⟨⟨routine, enclosing, (ifThen_errors.1 he).2⟩, hshape, hthen⟩, hbranch⟩

theorem StmtKnown.ifElse (h : W.StmtKnown l (.ifElse condition thenBranch elseBranch)) :
    W.Covers (placesAt l condition.occurrences) ∧ W.BranchKnown l thenBranch ∧
      W.BranchKnown l elseBranch := by
  obtain ⟨routine, enclosing, he⟩ := h.faultless
  obtain ⟨-, hthen, helse⟩ := ifElse_errors.1 he
  obtain ⟨-, ⟨hshape, hbranch⟩, hshapeElse, hbranchElse⟩ := h.shaped
  obtain ⟨hcovers, hcoversElse⟩ := List.forall_mem_append.1 h.covers
  obtain ⟨hcovers, hcoversThen⟩ := List.forall_mem_append.1 hcovers
  have hfirst : W.BranchKnown l thenBranch :=
    ⟨⟨⟨routine, enclosing, hthen⟩, hshape, hcoversThen⟩, hbranch⟩
  rw [hfirst.scopesAfter] at helse hcoversElse
  exact ⟨hcovers, hfirst, ⟨⟨routine, enclosing, helse⟩, hshapeElse, hcoversElse⟩, hbranchElse⟩

theorem StmtKnown.whileLoop (h : W.StmtKnown l (.whileLoop condition body)) :
    W.Covers (placesAt l condition.occurrences) ∧ W.BranchKnown l body := by
  obtain ⟨routine, enclosing, he⟩ := h.faultless
  obtain ⟨-, hshape, hbranch⟩ := h.shaped
  obtain ⟨hcovers, hbody⟩ := List.forall_mem_append.1 h.covers
  exact ⟨hcovers, ⟨⟨routine, enclosing, (whileLoop_errors.1 he).2⟩, hshape, hbody⟩, hbranch⟩

/-- A branch is run in step in a frame that is still the current one. -/
theorem ExecKnown.branch {exec : Watch → Run.ExecFn} (hexec : ExecKnown exec) (hm : Describes W m)
    {f : FrameId} (hc : m.current = f) (hl : W.Synced f l) (hs : W.BranchKnown l s) :
    Safe reading W (fun w => exec w s) m fun W' flow _ =>
      W'.FlowKnown flow ∧ (flow = .normal → W'.Synced f l) := by
  subst hc
  have hrun := hexec W m l s hm hl hs.known
  rwa [hs.scopesAfter] at hrun

/-- The statements of a block are run in a frame of their own. -/
theorem execBlock_known {exec : Watch → Run.ExecFn} (hexec : ExecKnown exec) (hm : Describes W m)
    (hl : W.Synced m.current l) {ss : List (Stmt NodeId)} (hk : W.StmtKnown l (.block ss)) :
    Safe reading W (fun w => Run.execBlock w (exec w) ss) m fun W' flow _ => W'.FlowKnown flow := by
  have hbody : W.StmtsKnown (l.inBlock ss) ss := ⟨hk.faultless, hk.shaped, hk.covers⟩
  have ho : (Opening.block ss).Opens (.block ss) := rfl
  have hempty : ∀ x v, (Bindings.empty : Bindings Value).get? x = some v → W.Knows v := by simp
  refine Safe.get ((openFrame_known hm hl.lt hempty (.block m _ ss)).bind ?_)
  intro W' f m' hle hm' _ hf
  obtain ⟨rfl, rfl⟩ := hf
  have hinner : Synced (W.addFrame m.current .empty (.block ss)) W.frames.nextId (l.inBlock ss) :=
    hm.enter hl ho fun x hx => hx
  exact (execAll_known hexec (hm'.current _) hinner (hbody.mono hle.le)).inFrame

end

/-- One more level of expressions is run in step. -/
theorem evalWith_step {fuel : Nat} (heval : EvalKnown fun w => Run.evalWith w fuel)
    (hexec : ExecKnown fun w => Run.execWith w fuel) :
    EvalKnown fun w => Run.evalWith w (fuel + 1) := by
  intro W m e h
  cases e with
  | literal value =>
    refine Safe.pure h.describes ?_
    cases value <;> trivial
  | grouping inner => exact heval W m inner h
  | unary operator operand => exact unary_known heval operator operand h
  | suffixed operand operator =>
    refine (increment_known operand h operator).bind ?_
    intro W' r m' _ hm' _ hr
    exact Safe.pure hm' hr.1
  | binary left operator right =>
    refine (heval W m left h.left).bind ?_
    intro W' l m' hle hm' hc _
    refine (heval W' m' right (h.right.later hle hm' hc)).bind ?_
    intro W'' r m'' _ hm'' _ _
    exact Safe.ofExcept hm'' (fun v hv => binary_known hv W'') fun _ _ => trivial
  | logical left operator right =>
    refine (heval W m left h.left).bind ?_
    intro W' l m' hle hm' hc hl
    split
    · exact Safe.pure hm' hl
    · exact heval W' m' right (h.right.later hle hm' hc)
  | «variable» id name =>
    exact (lookUp_known (o := ⟨.variable, id, name⟩) h (.inl rfl)).mono fun _ _ _ _ _ _ hv => hv.1
  | assign id name value =>
    refine (heval W m value (h.sub fun o ho => List.mem_cons_of_mem _ ho)).bind ?_
    intro W' v m' _ hm' _ hv
    have hx : name.Free := h.spelled ⟨.assign, id, name⟩ (List.mem_cons_self ..)
    refine (assign_known hm' hv id hx).bind ?_
    intro W'' _ m'' hle hm'' _ _
    exact Safe.pure hm'' (hv.mono hle.le)
  | call callee line arguments =>
    refine (heval W m callee h.left).bind ?_
    intro W' f m' hle hm' hc hf
    refine (evalAll_known heval (h.right.later hle hm' hc)).bind ?_
    intro W'' args m'' hle' hm'' _ hargs
    exact call_known heval hexec hm'' line (hf.mono hle'.le) hargs
  | get object name =>
    refine (heval W m object h).bind ?_
    intro W' v m' _ hm' _ hv
    exact property_known hm' hv name
  | set object name value =>
    refine (heval W m object h.left).bind ?_
    intro W' target m' hle hm' hc _
    refine Safe.told hm' (And.intro trivial trivial) ?_
    cases target with
    | object id c =>
      refine (heval W' m' value (h.right.later hle hm' hc)).bind ?_
      intro V v n _ hn _ hv
      have hset : Safe reading V (fun _ => Run.setField id name.text v) n fun V' _ _ => V' = V :=
        Safe.of_ok (fun _ => rfl) (reading.refl V) (hn.setField hv) rfl rfl
      refine hset.bind ?_
      intro V' _ n' _ hn' _ he
      exact Safe.pure hn' (he ▸ hv)
    | _ => exact Safe.fail hm' trivial
  | this id keyword =>
    exact (lookUp_known (o := ⟨.this, id, keyword⟩) h (.inr rfl)).mono fun _ _ _ _ _ _ hv => hv.1
  | super id keyword method => exact superMethod_known h method

/-- One more level of statements is run in step. -/
theorem execWith_step {fuel : Nat} (heval : EvalKnown fun w => Run.evalWith w fuel)
    (hexec : ExecKnown fun w => Run.execWith w fuel) :
    ExecKnown fun w => Run.execWith w (fuel + 1) := by
  intro W m l s hm hl hk
  have hevent : reading.event W m (.statement s) := ⟨trivial, trivial⟩
  refine Safe.told hm hevent ?_
  cases s with
  | expression value =>
    refine (heval W m value (hm.ready hl hk.covers)).bind ?_
    intro W' v m' hle hm' _ _
    exact Safe.pure hm' ⟨trivial, fun _ => hl.mono hle.le⟩
  | print value =>
    refine (heval W m value (hm.ready hl hk.covers)).bind ?_
    intro W' v m' hle hm' _ _
    refine (print_known hm' v.text).bind ?_
    intro W'' _ m'' hle' hm'' _ _
    exact Safe.pure hm'' ⟨trivial, fun _ => hl.mono (hle.le.trans hle'.le)⟩
  | var decl =>
    refine (evalOption_known heval (hm.readyInitializer hl hk)).bind ?_
    intro W' v m' hle hm' hc hv
    have hl' : W'.Synced m'.current l := hc ▸ hl.mono hle.le
    refine (define_known hm' hk.shaped.1 (hv.mono (W'.le_bindName _ _ _))).bind ?_
    intro W'' _ m'' _ hm'' _ h
    subst h
    exact Safe.pure hm'' ⟨trivial, fun _ => hc ▸ hl'.bindName decl.name v⟩
  | block body =>
    refine (execBlock_known hexec hm hl hk).mono ?_
    intro W' flow m' hle _ _ hflow
    exact ⟨hflow, fun _ => hl.mono hle.le⟩
  | ifThen condition thenBranch =>
    obtain ⟨hcovers, hthen⟩ := hk.ifThen
    rw [Stmt.scopesAfter, hthen.scopesAfter]
    refine (heval W m condition (hm.ready hl hcovers)).bind ?_
    intro W' v m' hle hm' hc _
    have hl' : W'.Synced m.current l := hl.mono hle.le
    split
    · exact hexec.branch hm' hc hl' (hthen.mono hle.le)
    · exact Safe.pure hm' ⟨trivial, fun _ => hl'⟩
  | ifElse condition thenBranch elseBranch =>
    obtain ⟨hcovers, hthen, helse⟩ := hk.ifElse
    rw [Stmt.scopesAfter, hthen.scopesAfter, helse.scopesAfter]
    refine (heval W m condition (hm.ready hl hcovers)).bind ?_
    intro W' v m' hle hm' hc _
    have hl' : W'.Synced m.current l := hl.mono hle.le
    split
    · exact hexec.branch hm' hc hl' (hthen.mono hle.le)
    · exact hexec.branch hm' hc hl' (helse.mono hle.le)
  | whileLoop condition body =>
    obtain ⟨hcovers, hbody⟩ := hk.whileLoop
    rw [Stmt.scopesAfter, hbody.scopesAfter]
    refine (heval W m condition (hm.ready hl hcovers)).bind ?_
    intro W' v m' hle hm' hc _
    have hl' : W'.Synced m.current l := hl.mono hle.le
    split
    · refine (hexec.branch hm' hc hl' (hbody.mono hle.le)).bind ?_
      intro W'' flow m'' hle' hm'' hc' hflow
      cases flow with
      | normal =>
        exact hexec.branch hm'' (hc'.trans hc) (hflow.2 rfl)
          ⟨hk.mono (hle.le.trans hle'.le), rfl⟩
      | returned v => exact Safe.pure hm'' ⟨hflow.1, fun h => by cases h⟩
    · exact Safe.pure hm' ⟨trivial, fun _ => hl'⟩
  | function decl =>
    refine (declareFunction_known hm hl hk).bind ?_
    intro W' _ m' _ hm' _ hs
    exact Safe.pure hm' ⟨trivial, fun _ => hs⟩
  | returnWith keyword value =>
    refine (evalOption_known heval (hm.ready hl hk.covers)).bind ?_
    intro W' v m' _ hm' _ hv
    exact Safe.pure hm' ⟨hv, fun h => by cases h⟩
  | classDecl decl =>
    refine (declareClass_known hm hl hk).bind ?_
    intro W' _ m' _ hm' _ hs
    exact Safe.pure hm' ⟨trivial, fun _ => hs⟩

/-- Runs keep the frames and the scopes in step. -/
theorem run_known (fuel : Nat) :
    EvalKnown (fun w => Run.evalWith w fuel) ∧ ExecKnown (fun w => Run.execWith w fuel) := by
  induction fuel with
  | zero =>
    constructor
    · intro W m e h
      exact Safe.throw h.describes trivial
    · intro W m l s hm _ _
      exact Safe.throw hm trivial
  | succ fuel ih => exact ⟨evalWith_step ih.1 ih.2, execWith_step ih.1 ih.2⟩

end

end FrameWorld

end ClassScript
