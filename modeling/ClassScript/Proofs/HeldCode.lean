import ClassScript.Proofs.Callables
import ClassScript.Proofs.ReadsFound

/-!
# The code that a machine holds

Functions, bound methods and the methods of classes come of the programs that were run: a machine that
holds only functions and methods of a collection that is closed under nesting still does so after
every run of code of the collection, and at every event in it, and only members of the collection
are called (`Run.run_held`). So whatever is asked of a session, all that its machine holds and all
that is called are functions and methods of the programs that ran (`Session.held`).
-/

set_option autoImplicit false

namespace ClassScript

/-! ## Values, machines and events -/

/-- The functions and methods in a value have the property. -/
def Value.Holds (P : Callable → Prop) : Value → Prop
  | .function _ f => P f.callable
  | .classObject c => ∀ layer ∈ c.layers, ∀ x f, layer.methods.get? x = some f → P f.callable
  | .object _ c => ∀ layer ∈ c.layers, ∀ x f, layer.methods.get? x = some f → P f.callable
  | _ => True

/-- The functions and methods that frames and objects hold have the property. -/
structure Machine.Holds (P : Callable → Prop) (m : Machine) : Prop where
  values : ∀ f x v, (m.frames.vars f).get? x = some v → v.Holds P
  fields : ∀ i x v, m.field? i x = some v → v.Holds P
  natives : ∃ c, m.natives = #[.clock c]

/-- What is called has the property. -/
def Event.Calls (P : Callable → Prop) : Event → Prop
  | .opened _ (.call decl) => ∃ f : Closure, f.decl = decl ∧ P f.callable
  | _ => True

section

variable {P Q : Callable → Prop} {m : Machine}

theorem Value.Holds.mono {v : Value} (h : v.Holds P) (hPQ : ∀ c, P c → Q c) : v.Holds Q := by
  cases v with
  | function id f => exact hPQ f.callable h
  | classObject c => exact fun layer hl x f hf => hPQ f.callable (h layer hl x f hf)
  | object id c => exact fun layer hl x f hf => hPQ f.callable (h layer hl x f hf)
  | _ => trivial

theorem Machine.Holds.mono (h : m.Holds P) (hPQ : ∀ c, P c → Q c) : m.Holds Q :=
  ⟨fun f x v hv => (h.values f x v hv).mono hPQ, fun i x v hv => (h.fields i x v hv).mono hPQ,
    h.natives⟩

theorem Event.Calls.mono {e : Event} (h : e.Calls P) (hPQ : ∀ c, P c → Q c) : e.Calls Q := by
  unfold Event.Calls at h ⊢
  split at h
  · obtain ⟨f, hdecl, hf⟩ := h
    exact ⟨f, hdecl, hPQ _ hf⟩
  · trivial

theorem Value.Holds.findMethod? {c : ClassValue} (h : (Value.classObject c).Holds P) {x : String}
    {f : Closure} (hf : c.findMethod? x = some f) : P f.callable := by
  obtain ⟨layer, hl, hg⟩ := List.exists_of_findSome?_eq_some hf
  exact h layer hl x f hg

theorem Value.Holds.initializer? {c : ClassValue} (h : (Value.classObject c).Holds P) {f : Closure}
    (hf : c.initializer? = some f) : P f.callable :=
  h c.own (List.mem_cons_self ..) _ f hf

theorem Value.holds_ofLiteral (l : Literal) : (Value.ofLiteral l).Holds P := by
  cases l <;> trivial

theorem Value.holds_single {word : String} {v : Value} (hv : v.Holds P) :
    ∀ x u, (Bindings.single word v).get? x = some u → u.Holds P := by
  intro x u hx
  rw [Bindings.get?_single] at hx
  split at hx
  · cases hx
    exact hv
  · cases hx

/-- Operators make no functions. -/
theorem Operators.binary_holds {operator : Token} {l r v : Value}
    (h : Operators.binary operator l r = .ok v) : v.Holds P := by
  rcases Operators.binary_constant h with ⟨x, rfl⟩ | ⟨s, rfl⟩ | ⟨b, rfl⟩ <;> trivial

theorem Operators.negate_holds {line : Nat} {v u : Value} (h : Operators.negate line v = .ok u) :
    u.Holds P := by
  unfold Operators.negate at h
  split at h
  · cases h
    trivial
  · cases h

namespace Machine.Holds

theorem getAt (h : m.Holds P) {f : FrameId} {d : Nat} {x : String} {v : Value}
    (hv : m.frames.getAt f d x = .ok v) : v.Holds P := by
  obtain ⟨g, -, hg⟩ := (m.frames.getAt_ok f).1 hv
  exact h.values g x v hg

theorem valueOf (h : m.Holds P) {id : NodeId} {name : Name} {v : Value}
    (hv : m.valueOf id name = .ok v) : v.Holds P := by
  unfold Machine.valueOf at hv
  split at hv
  · exact h.getAt hv
  · exact h.values _ _ v ((m.frames.getOwn_ok _).1 hv)

theorem define (h : m.Holds P) {v : Value} (hv : v.Holds P) (f : FrameId) (x : String) :
    ({ m with frames := m.frames.define f x v } : Machine).Holds P :=
  { h with
    values := fun g y u hu => by
      rw [Frames.get?_define] at hu
      split at hu
      · cases hu
        exact hv
      · exact h.values g y u hu }

theorem addFrame (h : m.Holds P) (outer : FrameId) {vars : Bindings Value}
    (hv : ∀ x v, vars.get? x = some v → v.Holds P) :
    ({ m with frames := m.frames.addChild outer vars } : Machine).Holds P :=
  { h with
    values := fun g y u hu => by
      rw [Frames.vars_addChild] at hu
      split at hu
      · exact hv y u hu
      · exact h.values g y u hu }

theorem addObject (h : m.Holds P) :
    ({ m with objects := m.objects.push .empty } : Machine).Holds P :=
  { h with fields := fun i x v hv => h.fields i x v (Machine.field?_push m i x ▸ hv) }

theorem setField (h : m.Holds P) {v : Value} (hv : v.Holds P) (i : ObjectId) (x : String) :
    ({ m with objects := m.objects.modify i fun fields => fields.insert x v } : Machine).Holds P :=
  { h with
    fields := fun j y u hu => by
      rw [Machine.field?_modify] at hu
      split at hu
      · cases hu
        exact hv
      · exact h.fields j y u hu }

theorem restore (h : m.Holds P) {vars : Bindings Value}
    (hv : ∀ x v, vars.get? x = some v → v.Holds P) : (m.restoreGlobals vars).Holds P :=
  { h with
    values := fun g y u hu => by
      by_cases hg : Machine.globalFrame = g
      · subst hg
        have hlt : Machine.globalFrame < m.frames.nextId := by
          have hbinds := (Frames.binds_iff _ _).2 ⟨u, hu⟩
          exact Frames.nextId_update m.frames _ _ ▸ Frames.lt_of_binds hbinds
        rw [show (m.restoreGlobals vars).frames.vars Machine.globalFrame = vars from
          Frames.vars_update_self _ _ hlt] at hu
        exact hv y u hu
      · rw [show (m.restoreGlobals vars).frames.vars g = m.frames.vars g from
          Frames.vars_update_of_ne _ _ hg] at hu
        exact h.values g y u hu }

end Machine.Holds

end

/-! ## Runs -/

/-- Runs that keep a machine holding functions and methods with the property, and call no other
ones. -/
def held (P : Callable → Prop) : Logic Unit where
  le _ _ := True
  refl _ := trivial
  trans _ _ := trivial
  holds _ := Machine.Holds P
  holds_current _ h := ⟨h.values, h.fields, h.natives⟩
  event _ m e := m.Holds P ∧ e.Calls P
  event_mono _ h := h
  stop _ _ _ := True
  stop_current _ _ := trivial

namespace Run

variable {α β : Type} {P : Callable → Prop}

/-- From every machine that holds functions and methods with the property only, the run keeps it so, and
what it leads to satisfies `R`. -/
def Held (P : Callable → Prop) (R : α → Prop) (x : Watch → Run α) : Prop :=
  ∀ m, m.Holds P → Safe (held P) () x m fun _ a _ => R a

namespace Held

variable {R : α → Prop} {S : β → Prop} {x : Watch → Run α}

theorem pure {a : α} (h : R a) : Held P R fun _ => (Pure.pure a : Run α) :=
  fun _ hm => Safe.pure hm h

theorem throw (e : Stop) : Held P R fun _ => (throwThe Stop e : Run α) :=
  fun _ hm => Safe.throw hm trivial

theorem fail (cause : RuntimeCause) (line : Nat) : Held P R fun _ => (Run.fail cause line : Run α) :=
  throw _

theorem ofExcept {r : Except RuntimeError α} (h : ∀ a, r = .ok a → R a) :
    Held P R fun _ => Run.ofExcept r :=
  fun _ hm => Safe.ofExcept hm h fun _ _ => trivial

theorem ofLookup {line : Nat} {r : Except LookupError α} (h : ∀ a, r = .ok a → R a) :
    Held P R fun _ => Run.ofLookup line r :=
  fun _ hm => Safe.ofLookup hm h fun _ _ => trivial

theorem bind {f : Watch → α → Run β} (hx : Held P R x) (hf : ∀ a, R a → Held P S fun w => f w a) :
    Held P S fun w => x w >>= f w :=
  fun m hm => (hx m hm).bind fun _ a m' _ hm' _ ha => hf a ha m' hm'

theorem get {f : Watch → Machine → Run α} (h : ∀ n, n.Holds P → Held P R fun w => f w n) :
    Held P R fun w => MonadState.get >>= f w :=
  fun m hm => Safe.get (h m hm m hm)

theorem tell (e : Event) (h : e.Calls P) : Held P (fun _ => True) fun w => w e :=
  fun _ hm => Safe.tell hm ⟨hm, h⟩ trivial

/-- An operation on the machine. -/
theorem change {f : Machine → Machine} {g : Machine → α} (hf : ∀ m, m.Holds P → (f m).Holds P)
    (hc : ∀ m, (f m).current = m.current) (hg : ∀ m, R (g m)) :
    Held P R fun _ => (modifyGet fun m => (g m, f m) : Run α) :=
  fun m hm => Safe.of_ok (fun _ => rfl) ((held P).refl ()) (hf m hm) (hc m) (hg m)

theorem inFrame (h : Held P R x) (frame : FrameId) : Held P R fun w => Run.inFrame frame (x w) :=
  fun _ hm => (h _ ((held P).holds_current (W := ()) frame hm)).inFrame

end Held

/-! ## Operations -/

theorem freshIdentity_held : Held P (fun _ => True) fun _ => freshIdentity :=
  .change (fun _ hm => { hm with }) (fun _ => rfl) fun _ => trivial

theorem newObject_held : Held P (fun _ => True) fun _ => newObject :=
  .change (fun _ hm => hm.addObject) (fun _ => rfl) fun _ => trivial

theorem setField_held (i : ObjectId) (x : String) {v : Value} (hv : v.Holds P) :
    Held P (fun _ => True) fun _ => setField i x v :=
  .change (fun _ hm => hm.setField hv i x) (fun _ => rfl) fun _ => trivial

theorem define_held (x : String) {v : Value} (hv : v.Holds P) :
    Held P (fun _ => True) fun _ => define x v :=
  .change (fun m hm => hm.define hv m.current x) (fun _ => rfl) fun _ => trivial

theorem openFrame_held (outer : FrameId) {vars : Bindings Value}
    (hv : ∀ x v, vars.get? x = some v → v.Holds P) (o : Opening)
    (ho : ∀ f, (Event.opened f o).Calls P) :
    Held P (fun _ => True) fun w => openFrame w outer vars o := by
  have hnew : Held P (fun _ => True) fun _ => newFrame outer vars :=
    .change (fun _ hm => hm.addFrame outer hv) (fun _ => rfl) fun _ => trivial
  unfold openFrame
  exact hnew.bind fun f _ => (Held.tell _ (ho f)).bind fun _ _ => .pure trivial

theorem lookUp_held (id : NodeId) (name : Name) :
    Held P (Value.Holds P) fun w => lookUp w id name := by
  unfold lookUp
  exact (Held.tell (.read id name) trivial).bind fun _ _ => .get fun n hn => .ofLookup fun v hv => hn.valueOf hv

theorem assign_held (id : NodeId) (name : Name) {v : Value} (hv : v.Holds P) :
    Held P (fun _ => True) fun _ => assign id name v := by
  unfold assign
  refine .get fun n _ => (Held.ofLookup (R := fun _ => True) fun _ _ => trivial).bind fun slot _ => ?_
  exact .change (fun m hm => hm.define hv slot name.text) (fun _ => rfl) fun _ => trivial

theorem print_held (text : String) : Held P (fun _ => True) fun _ => print text := by
  intro m hm
  have hsink (sink : Sink) : ({ m with sink } : Machine).Holds P := { hm with }
  cases hw : m.sink.write (text ++ "\n") with
  | mk r sink =>
    cases r with
    | ok _ =>
      have hrun : print text m = .ok () { m with sink } := by simp only [print, hw]
      exact Safe.of_ok (fun _ => hrun) ((held P).refl ()) (hsink sink) rfl trivial
    | error e =>
      have hrun : print text m = .error (.output e) { m with sink } := by simp only [print, hw]
      exact Safe.of_error (fun _ => hrun) trivial ((held P).refl ()) (hsink sink)

theorem callNative_held (id : Nat) (args : List Value) :
    Held P (Value.Holds P) fun _ => callNative id args := by
  unfold callNative
  refine .get fun _ hn => ?_
  obtain ⟨c, hc⟩ := hn.natives
  rw [hc]
  rcases id with _ | id
  · refine .ofExcept fun v hv => ?_
    simp only [Native.clock] at hv
    split at hv <;> cases hv
    trivial
  · exact .pure trivial

/-! ## Methods and calls -/

theorem bindMethod_held {method : Closure} (hf : P method.callable) {this : Value}
    (hthis : this.Holds P) :
    Held P (fun bound => P bound.callable) fun w => bindMethod w method this := by
  unfold bindMethod
  exact (openFrame_held method.frame (Value.holds_single hthis) (.method method.decl)
    fun _ => trivial).bind
    fun _ _ => .pure hf

theorem methodValue_held {method : Closure} (hf : P method.callable) {this : Value}
    (hthis : this.Holds P) : Held P (Value.Holds P) fun w => methodValue w method this := by
  unfold methodValue
  exact (bindMethod_held hf hthis).bind fun _ hb => freshIdentity_held.bind fun _ _ => .pure hb

theorem callResult_held (f : Closure) {flow : Flow} (hflow : ∀ v, flow = .returned v → v.Holds P) :
    Held P (Value.Holds P) fun _ => callResult f flow := by
  have hinit : Held P (Value.Holds P) fun _ => callResult.initialized f :=
    .get fun n hn => .ofLookup fun v hv => hn.getAt hv
  unfold callResult
  cases flow <;> dsimp only <;> split
  · exact hinit
  · exact .pure trivial
  · exact hinit
  · exact .pure (hflow _ rfl)

/-- A way to run code of which the functions and methods have the property. -/
structure Runs (P : Callable → Prop) (eval : Watch → EvalFn) (exec : Watch → ExecFn) : Prop where
  eval : ∀ e, Held P (Value.Holds P) fun w => eval w e
  exec : ∀ s : Stmt NodeId, (∀ c ∈ s.callables, P c) →
    Held P (fun flow => ∀ v, flow = .returned v → v.Holds P) fun w => exec w s

section

variable {eval : Watch → EvalFn} {exec : Watch → ExecFn} (h : Runs P eval exec)

include h

theorem evalAll_held (es : List (Expr NodeId)) :
    Held P (fun vs => ∀ v ∈ vs, v.Holds P) fun w => evalAll (eval w) es := by
  induction es with
  | nil => exact .pure (List.forall_mem_nil _)
  | cons e rest ih =>
    exact (h.eval e).bind fun v hv => ih.bind fun vs hvs => .pure (List.forall_mem_cons.2 ⟨hv, hvs⟩)

theorem evalOption_held (e : Option (Expr NodeId)) :
    Held P (Value.Holds P) fun w => evalOption (eval w) e := by
  cases e with
  | none => exact .pure trivial
  | some e => exact h.eval e

theorem execAll_held {ss : List (Stmt NodeId)} (hs : ∀ c ∈ Stmt.callablesAll ss, P c) :
    Held P (fun flow => ∀ v, flow = .returned v → v.Holds P) fun w => execAll (exec w) ss := by
  induction ss with
  | nil => exact .pure fun _ h => nomatch h
  | cons s rest ih =>
    obtain ⟨hfirst, hrest⟩ := List.forall_mem_append.1 hs
    refine (h.exec s hfirst).bind fun flow hflow => ?_
    cases flow with
    | normal => exact ih hrest
    | returned v => exact .pure hflow

theorem execBlock_held {body : List (Stmt NodeId)} (hs : ∀ c ∈ Stmt.callablesAll body, P c) :
    Held P (fun flow => ∀ v, flow = .returned v → v.Holds P)
      fun w => execBlock w (exec w) body := by
  have hempty (x : String) (v : Value) (hv : (Bindings.empty : Bindings Value).get? x = some v) :
      v.Holds P := nomatch hv
  unfold execBlock
  refine .get fun n _ => ?_
  refine (openFrame_held n.current hempty (.block body) fun _ => trivial).bind fun frame _ => ?_
  exact (execAll_held h hs).inFrame frame

theorem setFields_held (id : ObjectId) (frame : FrameId) (ds : List (VarDecl NodeId)) :
    Held P (fun _ => True) fun w => setFields (eval w) id frame ds := by
  induction ds with
  | nil => exact .pure trivial
  | cons d rest ih =>
    refine ((evalOption_held h d.initializer).inFrame frame).bind fun v hv => ?_
    exact (setField_held id d.name.text hv).bind fun _ _ => ih

theorem setLayers_held (id : ObjectId) {this : Value} (hthis : this.Holds P) (layers : List Layer) :
    Held P (fun _ => True) fun w => setLayers w (eval w) id this layers := by
  induction layers with
  | nil => exact .pure trivial
  | cons layer rest ih =>
    have hlayer : Held P (fun _ => True) fun w => setLayer w (eval w) id this layer := by
      unfold setLayer
      split
      · exact .pure trivial
      · refine (openFrame_held layer.frame (Value.holds_single hthis) (.fields layer.fields)
          fun _ => trivial).bind fun frame _ => ?_
        exact setFields_held h id frame layer.fields
    exact hlayer.bind fun _ _ => ih

variable (hP : ∀ c, P c → ∀ d ∈ Stmt.callablesAll c.decl.body, P d)

include hP

theorem invoke_held {f : Closure} (hf : P f.callable) {args : List Value}
    (hargs : ∀ v ∈ args, v.Holds P) :
    Held P (Value.Holds P) fun w => invoke w (exec w) f args := by
  have hparams (x : String) (v : Value) (hx : (paramBindings f.decl.params args).get? x = some v) :
      v.Holds P := hargs v (List.of_mem_zip (Bindings.get?_ofList hx)).2
  unfold invoke
  refine (openFrame_held f.frame hparams (.call f.decl) fun _ => ⟨f, rfl, hf⟩).bind
    fun frame _ => ?_
  refine ((execAll_held h (hP f.callable hf)).inFrame frame).bind fun flow hflow => ?_
  exact callResult_held f hflow

theorem construct_held {c : ClassValue} (hc : (Value.classObject c).Holds P) {args : List Value}
    (hargs : ∀ v ∈ args, v.Holds P) :
    Held P (Value.Holds P) fun w => construct w (eval w) (exec w) c args := by
  unfold construct
  refine newObject_held.bind fun id _ => ?_
  have hthis : (Value.object id c).Holds P := hc
  refine (setLayers_held h id hthis c.layers.reverse).bind fun _ _ => ?_
  cases hi : c.initializer? with
  | none => exact .pure hthis
  | some initializer =>
    refine (bindMethod_held (hc.initializer? hi) hthis).bind fun bound hbound => ?_
    exact (invoke_held h hP hbound hargs).bind fun _ _ => .pure hthis

theorem call_held (line : Nat) {f : Value} (hf : f.Holds P) {args : List Value}
    (hargs : ∀ v ∈ args, v.Holds P) :
    Held P (Value.Holds P) fun w => call w (eval w) (exec w) line f args := by
  have harity (expected : Nat) :
      Held P (fun _ => True) fun _ => checkArity line expected args.length := by
    unfold checkArity
    split
    · exact .pure trivial
    · exact .fail _ _
  unfold call
  cases f with
  | native id arity => exact (harity arity).bind fun _ _ => callNative_held id args
  | function _ closure => exact (harity _).bind fun _ _ => invoke_held h hP hf hargs
  | classObject c => exact (harity _).bind fun _ _ => construct_held h hP hf hargs
  | _ => exact .fail _ _

end

/-! ## Properties and operators -/

theorem property_held {object : Value} (ho : object.Holds P) (name : Name) :
    Held P (Value.Holds P) fun w => property w object name := by
  intro m hm
  refine Safe.property hm ⟨hm, trivial⟩ trivial (fun i _ v _ hv => hm.fields i _ v hv) ?_
    fun _ _ _ _ _ => trivial
  rintro i c f rfl - hf
  have hc : (Value.classObject c).Holds P := ho
  exact methodValue_held (hc.findMethod? hf) ho m hm

theorem superMethod_held (id : NodeId) (keyword method : Name) :
    Held P (Value.Holds P) fun w => superMethod w id keyword method := by
  unfold superMethod
  refine (Held.tell (.super id keyword method) trivial).bind fun _ _ => .get fun n hn => ?_
  cases n.distance? id with
  | none => exact .fail _ _
  | some d =>
    refine (Held.ofLookup fun v hv => hn.getAt hv).bind fun v hv => ?_
    cases v with
    | classObject superclass =>
      refine (Held.ofLookup fun u hu => hn.getAt hu).bind fun u hu => ?_
      cases u with
      | object i c =>
        dsimp only
        split
        next found hm => exact methodValue_held (hv.findMethod? hm) hu
        next => exact .fail _ _
      | _ => exact .fail _ _
    | _ => exact .fail _ _

theorem increment_held (operand : Expr NodeId) (operator : Token) :
    Held P (fun r => r.1.Holds P ∧ r.2.Holds P) fun w => increment w operand operator := by
  cases operand with
  | «variable» id name =>
    refine (lookUp_held id name).bind fun v _ => ?_
    cases v with
    | number old =>
      have hnew (x : Float) : (Value.number x).Holds P := trivial
      exact (assign_held id name (hnew _)).bind fun _ _ => .pure ⟨trivial, trivial⟩
    | _ => exact .fail _ _
  | _ => exact .fail _ _

theorem unary_held {eval : Watch → EvalFn} (heval : ∀ e, Held P (Value.Holds P) fun w => eval w e)
    (operator : Token) (operand : Expr NodeId) :
    Held P (Value.Holds P) fun w => unary w (eval w) operator operand := by
  have hincrement := increment_held (P := P) operand operator
  unfold unary
  split
  · exact hincrement.bind fun _ hr => .pure hr.2
  · exact hincrement.bind fun _ hr => .pure hr.2
  · exact (heval operand).bind fun _ _ => .ofExcept fun _ hv => Operators.negate_holds hv
  · exact (heval operand).bind fun _ _ => .pure trivial
  · exact .fail _ _

/-! ## Declarations -/

theorem declareFunction_held {decl : FunctionDecl (Stmt NodeId)} (hf : P ⟨decl, false⟩) :
    Held P (fun _ => True) fun _ => declareFunction decl := by
  unfold declareFunction
  refine .get fun n _ => freshIdentity_held.bind fun i _ => ?_
  have hv : (Value.function i ⟨decl, n.current, false⟩).Holds P := hf
  exact define_held _ hv

/-- A new class, whose own methods and ancestors have the property. -/
theorem declareClass_held {decl : ClassDecl NodeId (Stmt NodeId)}
    (hmethods : ∀ d ∈ decl.methods, P ⟨d, d.name.text == decl.name.text⟩) :
    Held P (fun _ => True) fun w => declareClass w decl := by
  have hcontext : Held P
      (fun r => ∀ layer ∈ r.1, ∀ x f, layer.methods.get? x = some f → P f.callable)
      fun w => classContext w decl := by
    unfold classContext
    cases decl.superclass with
    | none => exact .get fun _ _ => .pure (List.forall_mem_nil _)
    | some s =>
      have hsuper : Held P (fun c => (Value.classObject c).Holds P) fun w => superclass w s := by
        unfold superclass
        refine (lookUp_held s.id s.name).bind fun v hv => ?_
        cases v with
        | classObject c => exact .pure hv
        | _ => exact .fail _ _
      refine hsuper.bind fun c hc => .get fun n _ => ?_
      exact (openFrame_held n.current (Value.holds_single hc) (.superclass decl)
        fun _ => trivial).bind fun _ _ => .pure hc
  unfold declareClass
  refine hcontext.bind fun context hinherited => freshIdentity_held.bind fun i _ => ?_
  refine define_held _ (List.forall_mem_cons.2 ⟨fun x f hf => ?_, hinherited⟩)
  obtain ⟨d, hd, hpair⟩ := List.mem_map.1 (Bindings.get?_ofList hf)
  cases hpair
  exact hmethods d hd

/-! ## Expressions and statements -/

section

variable {fuel : Nat} (h : Runs P (fun w => evalWith w fuel) fun w => execWith w fuel)
  (hP : ∀ c, P c → ∀ d ∈ Stmt.callablesAll c.decl.body, P d)

include h

include hP in
theorem evalWith_held_succ (e : Expr NodeId) :
    Held P (Value.Holds P) fun w => evalWith w (fuel + 1) e := by
  unfold evalWith
  cases e with
  | literal value => exact .pure (Value.holds_ofLiteral value)
  | grouping inner => exact h.eval inner
  | unary operator operand => exact unary_held h.eval operator operand
  | suffixed operand operator => exact (increment_held operand operator).bind fun _ hr => .pure hr.1
  | binary left operator right =>
    exact (h.eval left).bind fun _ _ => (h.eval right).bind fun _ _ =>
      .ofExcept fun _ hv => Operators.binary_holds hv
  | logical left operator right =>
    refine (h.eval left).bind fun l hl => ?_
    split
    · exact .pure hl
    · exact h.eval right
  | «variable» id name => exact lookUp_held id name
  | assign id name value =>
    exact (h.eval value).bind fun v hv => (assign_held id name hv).bind fun _ _ => .pure hv
  | call callee line arguments =>
    refine (h.eval callee).bind fun f hf => (evalAll_held h arguments).bind fun args hargs => ?_
    exact call_held h hP line hf hargs
  | get object name => exact (h.eval object).bind fun v hv => property_held hv name
  | set object name value =>
    refine (h.eval object).bind fun target _ => (Held.tell (.access target name) trivial).bind fun _ _ => ?_
    cases target with
    | object id c =>
      refine (h.eval value).bind fun v hv => ?_
      exact (setField_held id name.text hv).bind fun _ _ => .pure hv
    | _ => exact .fail _ _
  | this id keyword => exact lookUp_held id keyword
  | super id keyword method => exact superMethod_held id keyword method

theorem execWith_held_succ (s : Stmt NodeId) (hs : ∀ c ∈ s.callables, P c) :
    Held P (fun flow => ∀ v, flow = .returned v → v.Holds P) fun w => execWith w (fuel + 1) s := by
  have hnormal (v : Value) (hv : Flow.normal = .returned v) : v.Holds P := nomatch hv
  unfold execWith
  refine (Held.tell (.statement s) trivial).bind fun _ _ => ?_
  cases s with
  | expression value => exact (h.eval value).bind fun _ _ => .pure hnormal
  | print value =>
    exact (h.eval value).bind fun v _ => (print_held v.text).bind fun _ _ => .pure hnormal
  | «var» decl =>
    refine (evalOption_held h decl.initializer).bind fun v hv => ?_
    exact (define_held decl.name.text hv).bind fun _ _ => .pure hnormal
  | block body => exact execBlock_held h hs
  | ifThen condition thenBranch =>
    refine (h.eval condition).bind fun v _ => ?_
    split
    · exact h.exec thenBranch hs
    · exact .pure hnormal
  | ifElse condition thenBranch elseBranch =>
    obtain ⟨hthen, helse⟩ := List.forall_mem_append.1 hs
    refine (h.eval condition).bind fun v _ => ?_
    split
    · exact h.exec thenBranch hthen
    · exact h.exec elseBranch helse
  | whileLoop condition body =>
    refine (h.eval condition).bind fun v _ => ?_
    split
    · refine (h.exec body hs).bind fun flow hflow => ?_
      cases flow with
      | normal => exact h.exec (.whileLoop condition body) hs
      | returned v => exact .pure hflow
    · exact .pure hnormal
  | function decl =>
    exact (declareFunction_held (hs _ (List.mem_cons_self ..))).bind fun _ _ => .pure hnormal
  | returnWith keyword value =>
    refine (evalOption_held h value).bind fun v hv => .pure fun u hu => ?_
    cases hu
    exact hv
  | classDecl decl =>
    have hmethods : ∀ d ∈ decl.methods, P ⟨d, d.name.text == decl.name.text⟩ :=
      fun d hd => hs _ (Stmt.mem_callablesOf hd)
    exact (declareClass_held hmethods).bind fun _ _ => .pure hnormal

end

/-- Code whose functions and methods have a property that what is nested in them has too keeps a
machine holding such functions and methods only, and calls no other ones. -/
theorem run_held (hP : ∀ c, P c → ∀ d ∈ Stmt.callablesAll c.decl.body, P d) (fuel : Nat) :
    Runs P (fun w => evalWith w fuel) fun w => execWith w fuel := by
  induction fuel with
  | zero =>
    constructor
    · intro e
      unfold evalWith
      exact .throw _
    · intro s _
      unfold execWith
      exact .throw _
  | succ fuel ih => exact ⟨evalWith_held_succ ih hP, execWith_held_succ ih⟩

end Run

/-! ## Programs and sessions -/

namespace Machine

variable {P : Callable → Prop} {m : Machine}

theorem Holds.load (h : m.Holds P) (l : Loaded) : (m.load l).Holds P :=
  { h with }

theorem Holds.setClock (h : m.Holds P) (clock : Clock) : (m.setClock clock).Holds P := by
  obtain ⟨c, hc⟩ := h.natives
  exact { h with natives := ⟨clock, by simp [Machine.setClock, hc]⟩ }

theorem new_holds (clock : Clock) (sink : Sink) : (Machine.new clock sink).Holds P := by
  have hempty (f : FrameId) : (Frames.new : Frames Value).vars f = .empty := by
    cases f <;> rfl
  refine ⟨fun f x v hv => ?_, fun i x v hv => ?_, ⟨clock, rfl⟩⟩
  · simp only [Machine.new, Frames.get?_define, hempty] at hv
    split at hv
    · cases hv
      trivial
    · cases hv
  · simp [Machine.field?, Machine.new] at hv

theorem runAll_held {exec : Watch → Run.ExecFn} {eval : Watch → Run.EvalFn}
    (h : Run.Runs P eval exec) {program : List (Stmt NodeId)}
    (hp : ∀ c ∈ Stmt.callablesAll program, P c) :
    Run.Held P (fun _ => True) fun w => runAll (exec w) program := by
  induction program with
  | nil => exact .pure trivial
  | cons s rest ih =>
    obtain ⟨hs, hrest⟩ := List.forall_mem_append.1 hp
    exact (h.exec s hs).bind fun _ _ => ih hrest

/-- A run of a program keeps the machine holding its functions and methods only. -/
theorem interpret_held (hP : ∀ c, P c → ∀ d ∈ Stmt.callablesAll c.decl.body, P d) (h : m.Holds P)
    {program : List (Stmt NodeId)} (hp : ∀ c ∈ Stmt.callablesAll program, P c) (fuel : Nat) :
    (m.interpret fuel program).2.Holds P ∧
      ∀ watch : Watch, (∀ k e, k.Holds P ∧ e.Calls P → watch e k = .ok () k) →
        m.interpretWith watch fuel program = m.interpret fuel program := by
  have hrun := runAll_held (Run.run_held hP fuel) hp _
    ((held P).holds_current (W := ()) globalFrame h)
  obtain ⟨_, -, hlast, -, -, hw⟩ := hrun.interpret
  exact ⟨hlast, hw⟩

end Machine

namespace Session

variable {P : Callable → Prop} {s : Session}

theorem inspect_held (h : s.machine.Holds P) (typeCheck : Bool) (source : String) :
    (s.inspect typeCheck source).machine.Holds P := by
  unfold inspect
  split
  · exact h
  · dsimp only
    split <;> exact h.load _

theorem serve_held (hP : ∀ c, P c → ∀ d ∈ Stmt.callablesAll c.decl.body, P d)
    (h : s.machine.Holds P) {r : Request}
    (hr : ∀ l ∈ s.ran? r, ∀ c ∈ Stmt.callablesAll l.program, P c) :
    (s.serve .none r).2.machine.Holds P ∧
      ∀ watch : Watch, (∀ k e, k.Holds P ∧ e.Calls P → watch e k = .ok () k) →
        s.serve watch r = s.serve .none r := by
  cases r with
  | check source => exact ⟨inspect_held h true source, fun _ _ => rfl⟩
  | run clock fuel source =>
    have hclock : (s.setClock clock).machine.Holds P := h.setClock clock
    unfold serve runWith
    dsimp only
    rw [show (s.setClock clock).typeCheck = s.typeCheck from rfl]
    cases hp : (s.setClock clock).prepare s.typeCheck source with
    | error failures => exact ⟨inspect_held hclock _ source, fun _ _ => rfl⟩
    | ok lc =>
      obtain ⟨l, c⟩ := lc
      have hl : ∀ c ∈ Stmt.callablesAll l.program, P c := hr l (by simp [ran?, hp])
      obtain ⟨hlast, hw⟩ := Machine.interpret_held hP (hclock.load l) hl fuel
      dsimp only
      refine ⟨?_, fun watch hq => by rw [hw watch hq]; rfl⟩
      split
      next machine hi =>
        rw [Machine.interpret, hi] at hlast
        exact hlast
      next e machine hi =>
        rw [Machine.interpret, hi] at hlast
        exact hlast.restore fun x v hv => hclock.values _ x v hv

theorem replay_held (hP : ∀ c, P c → ∀ d ∈ Stmt.callablesAll c.decl.body, P d)
    {requests : List Request} (h : s.machine.Holds P)
    (hr : ∀ l ∈ s.ran requests, ∀ c ∈ Stmt.callablesAll l.program, P c) :
    s.EveryEvent requests fun m e => m.Holds P ∧ e.Calls P := by
  induction requests generalizing s with
  | nil => exact fun _ _ => rfl
  | cons r rest ih =>
    obtain ⟨hfirst, hrest⟩ := List.forall_mem_append.1 hr
    obtain ⟨hnext, hw⟩ := serve_held hP h fun l hl => hfirst l (Option.mem_toList.2 hl)
    intro watch hq
    simp only [replay, hw watch hq, ih hnext hrest watch hq]

/-- A function or a method of one of the programs that requests run. -/
def Ran (s : Session) (requests : List Request) (c : Callable) : Prop :=
  ∃ l ∈ s.ran requests, c ∈ Stmt.callablesAll l.program

/-- Whatever is asked of a session, at every event of its runs the machine holds only functions and
methods of the programs that run, and only these are called. -/
theorem held (typeCheck : Bool) (clock : Clock) (sink : Sink) (requests : List Request) :
    (Session.new typeCheck clock sink).EveryEvent requests fun m e =>
      m.Holds ((Session.new typeCheck clock sink).Ran requests) ∧
        e.Calls ((Session.new typeCheck clock sink).Ran requests) := by
  refine replay_held ?_ (Machine.new_holds clock sink) fun l hl c hc => ⟨l, hl, hc⟩
  rintro c ⟨l, hl, hc⟩ d hd
  exact ⟨l, hl, Stmt.callablesAll_nested l.program c hc hd⟩

end Session

end ClassScript
