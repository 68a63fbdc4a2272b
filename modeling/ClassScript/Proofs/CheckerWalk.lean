import ClassScript.Typing.Walker

/-!
# The checker goes back to where it was

A statement leaves the checker in the frame in which it found it, with the same type of results, and
of the frames that were there before it binds names in that frame only: `Restored`, for every outcome.
With it, the walk of the checker through its frames is shown to be the check with a list of scopes
(`TypeChecker.checkStmt_mirrors`, `Checker.check_eq`), about which most of the theory speaks. Both go
through the statements together: `Mirrors` has one rule for every operation of the checker, and one for
a part that runs in inner frames.
-/

set_option autoImplicit false

namespace ClassScript

namespace Typing

variable {α : Type} {enter : TypeScope → TypeScope} {x : Check α} {st st' : TypeState}

theorem inside_of_ok {a : α} (h : x ⟨st.classes, enter st.scope⟩ = .ok a st') :
    inside enter x st = .ok a ⟨st'.classes, st.scope⟩ := by
  rw [inside, h]

theorem inside_of_error {e : TypeError} (h : x ⟨st.classes, enter st.scope⟩ = .error e st') :
    inside enter x st = .error e ⟨st'.classes, st.scope⟩ := by
  rw [inside, h]

end Typing

namespace TypeChecker

variable {ι σ α β : Type} {c c₁ c₂ : TypeChecker}

/-- The checker after a part of a walk, whatever its outcome. -/
def after (x : Walk α) (c : TypeChecker) : TypeChecker :=
  match x c with
  | .ok _ c' => c'
  | .error _ c' => c'

theorem bind_apply (x : Walk α) (f : α → Walk β) (c : TypeChecker) :
    (x >>= f) c =
      match x c with
      | .ok a c' => f a c'
      | .error e c' => .error e c' := by
  show EStateM.bind x f c = _
  unfold EStateM.bind
  cases x c <;> rfl

/-- An outcome with another checker. -/
def moved (f : TypeChecker → TypeChecker) :
    EStateM.Result TypeError TypeChecker α → EStateM.Result TypeError TypeChecker α
  | .ok a c => .ok a (f c)
  | .error e c => .error e (f c)

theorem moved_congr {x : Walk α} {f g : TypeChecker → TypeChecker}
    (h : f (after x c) = g (after x c)) : moved f (x c) = moved g (x c) := by
  unfold after at h
  cases hr : x c with
  | ok a c' =>
    rw [hr] at h
    exact congrArg (EStateM.Result.ok a) h
  | error e c' =>
    rw [hr] at h
    exact congrArg (EStateM.Result.error e) h

/-! ## Where the checker is -/

/-- The checker is back: in the frame of before with the type of results of before. Of the frames that
were there, it has bound names in this one only. -/
structure Restored (c c' : TypeChecker) : Prop where
  environment : c'.environment = c.environment
  returns : c'.returns = c.returns
  nextId : c.frames.nextId ≤ c'.frames.nextId
  chain : ∀ g < c.frames.nextId, c'.frames.chain g = c.frames.chain g
  vars : ∀ g < c.frames.nextId, g ≠ c.environment → c'.frames.vars g = c.frames.vars g

theorem Restored.refl (c : TypeChecker) : Restored c c :=
  ⟨rfl, rfl, Nat.le_refl _, fun _ _ => rfl, fun _ _ _ => rfl⟩

theorem Restored.trans (h : Restored c c₁) (h' : Restored c₁ c₂) : Restored c c₂ where
  environment := h'.environment.trans h.environment
  returns := h'.returns.trans h.returns
  nextId := Nat.le_trans h.nextId h'.nextId
  chain g hg := (h'.chain g (Nat.lt_of_lt_of_le hg h.nextId)).trans (h.chain g hg)
  vars g hg hne :=
    (h'.vars g (Nat.lt_of_lt_of_le hg h.nextId) (h.environment.symm ▸ hne)).trans (h.vars g hg hne)

/-- The checker is in a frame of the store, and the frames around it are older. -/
structure Placed (c : TypeChecker) : Prop where
  lt : c.environment < c.frames.nextId
  older : ∀ g ∈ (c.frames.chain c.environment).tail, g < c.environment

theorem chain_environment (c : TypeChecker) :
    c.frames.chain c.environment = c.environment :: (c.frames.chain c.environment).tail := by
  have h := Frames.head?_chain c.frames c.environment
  cases hc : c.frames.chain c.environment with
  | nil =>
    rw [hc] at h
    cases h
  | cons g outer =>
    rw [hc] at h
    cases h
    rfl

theorem Placed.lt_of_mem (h : c.Placed) {g : FrameId}
    (hg : g ∈ c.frames.chain c.environment) : g < c.frames.nextId := by
  rw [chain_environment c] at hg
  rcases List.mem_cons.1 hg with rfl | hg
  · exact h.lt
  · exact Nat.lt_trans (h.older g hg) h.lt

theorem Placed.restored (h : c.Placed) (hc : Restored c c₁) : c₁.Placed where
  lt := hc.environment ▸ Nat.lt_of_lt_of_le h.lt hc.nextId
  older g hg := by
    rw [hc.environment, hc.chain _ h.lt] at hg
    exact hc.environment ▸ h.older g hg

/-! ## Inner frames -/

/-- The checker in a new frame inside the current one. -/
def child (c : TypeChecker) (vars : Bindings Ty) : TypeChecker :=
  { c with frames := c.frames.addChild c.environment vars, environment := c.frames.nextId }

/-- The checker has gone from `c` into a new frame; the frames that were there are unchanged. -/
structure Inside (c c₁ : TypeChecker) : Prop where
  environment : c.frames.nextId ≤ c₁.environment
  nextId : c.frames.nextId ≤ c₁.frames.nextId
  chain : ∀ g < c.frames.nextId, c₁.frames.chain g = c.frames.chain g
  vars : ∀ g < c.frames.nextId, c₁.frames.vars g = c.frames.vars g

theorem inside_child (c : TypeChecker) (vars : Bindings Ty) : Inside c (c.child vars) where
  environment := Nat.le_refl _
  nextId := by simp [child]
  chain _ hg := Frames.chain_addChild_of_lt _ _ _ hg
  vars _ hg := Frames.vars_addChild_of_lt _ _ _ hg

theorem Inside.child (h : Inside c c₁) (vars : Bindings Ty) : Inside c (c₁.child vars) where
  environment := h.nextId
  nextId := Nat.le_trans h.nextId (inside_child c₁ vars).nextId
  chain g hg :=
    ((inside_child c₁ vars).chain g (Nat.lt_of_lt_of_le hg h.nextId)).trans (h.chain g hg)
  vars g hg := ((inside_child c₁ vars).vars g (Nat.lt_of_lt_of_le hg h.nextId)).trans (h.vars g hg)

theorem Placed.child (h : c.Placed) (vars : Bindings Ty) : (c.child vars).Placed where
  lt := by simp [TypeChecker.child]
  older g hg := by
    have hchain : (c.child vars).frames.chain (c.child vars).environment =
        c.frames.nextId :: c.frames.chain c.environment :=
      Frames.chain_addChild_nextId _ _ _
    rw [hchain] at hg
    exact h.lt_of_mem hg

/-- The checker back from an inner frame. -/
def leave (c c' : TypeChecker) : TypeChecker :=
  { c' with environment := c.environment, returns := c.returns }

/-- What happens in an inner frame changes none of the frames that were there. -/
theorem Restored.leave (h : Inside c c₁) (h' : Restored c₁ c₂) : Restored c (c.leave c₂) where
  environment := rfl
  returns := rfl
  nextId := Nat.le_trans h.nextId h'.nextId
  chain g hg := (h'.chain g (Nat.lt_of_lt_of_le hg h.nextId)).trans (h.chain g hg)
  vars g hg _ :=
    (h'.vars g (Nat.lt_of_lt_of_le hg h.nextId)
      (Nat.ne_of_lt (Nat.lt_of_lt_of_le hg h.environment))).trans (h.vars g hg)

/-! ## Scopes -/

theorem scope_congr {s : Frames Ty} {e : FrameId} {l : List FrameId}
    (hchain : s.chain e = l) (hvars : ∀ g ∈ l, s.vars g = c.frames.vars g)
    (hl : c.frames.chain c.environment = l) :
    TypeScope.ofChain ((s.chain e).map s.vars) = c.scope := by
  rw [scope, hchain, hl, List.map_congr_left hvars]

theorem ofChain_cons (vars : Bindings Ty) {l : List (Bindings Ty)} (hl : l ≠ []) :
    TypeScope.ofChain (vars :: l) = (TypeScope.ofChain l).enter vars := by
  cases l with
  | nil => exact absurd rfl hl
  | cons b rest => rfl

/-- A new frame adds an innermost scope. -/
theorem Placed.scope_child (h : c.Placed) (vars : Bindings Ty) :
    (c.child vars).scope = c.scope.enter vars := by
  have hne : (c.frames.chain c.environment).map c.frames.vars ≠ [] := by
    rw [chain_environment c]
    exact List.cons_ne_nil _ _
  have hmap : (c.frames.chain c.environment).map (c.frames.addChild c.environment vars).vars =
      (c.frames.chain c.environment).map c.frames.vars :=
    List.map_congr_left fun g hg => Frames.vars_addChild_of_lt _ _ _ (h.lt_of_mem hg)
  show TypeScope.ofChain (((c.frames.addChild c.environment vars).chain c.frames.nextId).map
    (c.frames.addChild c.environment vars).vars) = _
  rw [Frames.chain_addChild_nextId, List.map_cons, Frames.vars_addChild_nextId, hmap,
    ofChain_cons vars hne]
  rfl

/-- After inner frames, the scopes are those of before. -/
theorem Placed.scope_leave (hp : c.Placed) (h : Inside c c₁) (h' : Restored c₁ c₂) :
    (c.leave c₂).scope = c.scope := by
  refine scope_congr ((Restored.leave h h').chain _ hp.lt) (fun g hg => ?_) rfl
  have hlt := hp.lt_of_mem hg
  exact (h'.vars g (Nat.lt_of_lt_of_le hlt h.nextId)
    (Nat.ne_of_lt (Nat.lt_of_lt_of_le hlt h.environment))).trans (h.vars g hlt)

/-- A name bound in the current frame is bound in the innermost scope. -/
theorem Placed.scope_define (h : c.Placed) (name : String) (ty : Ty) :
    TypeChecker.scope { c with frames := c.frames.define c.environment name ty } =
      c.scope.define name ty := by
  have hself : (c.frames.define c.environment name ty).vars c.environment =
      (c.frames.vars c.environment).insert name ty :=
    Frames.vars_update_self c.frames _ h.lt
  have houter : (c.frames.chain c.environment).tail.map
        (c.frames.define c.environment name ty).vars =
      (c.frames.chain c.environment).tail.map c.frames.vars :=
    List.map_congr_left fun g hg => Frames.vars_update_of_ne c.frames _ (Nat.ne_of_gt (h.older g hg))
  show TypeScope.ofChain (((c.frames.define c.environment name ty).chain c.environment).map
    (c.frames.define c.environment name ty).vars) = (TypeScope.ofChain _).define name ty
  rw [Frames.chain_define, chain_environment c, List.map_cons, List.map_cons, hself, houter]
  cases (c.frames.chain c.environment).tail.map c.frames.vars <;> rfl

/-! ## The walk and the check -/

/-- The classes and scopes of the checker. -/
def view (c : TypeChecker) : TypeState :=
  ⟨c.classes, c.scope⟩

/-- An outcome with the classes and scopes that it leaves. -/
def viewed : EStateM.Result TypeError TypeChecker α → EStateM.Result TypeError TypeState α
  | .ok a c => .ok a c.view
  | .error e c => .error e c.view

/-- A part of a walk leads back to where the checker was, and it is the part `y` of a check with
scopes, which may depend on the type of results. -/
def Mirrors (x : Walk α) (y : Ty → Check α) : Prop :=
  ∀ c, Restored c (after x c) ∧ (c.Placed → viewed (x c) = y c.returns c.view)

namespace Mirrors

variable {x : Walk α} {y : Ty → Check α}

theorem pure (a : α) : Mirrors (Pure.pure a) fun _ => Pure.pure a :=
  fun c => ⟨.refl c, fun _ => rfl⟩

theorem bind {f : α → Walk β} {g : α → Ty → Check β} (hx : Mirrors x y)
    (hf : ∀ a, Mirrors (f a) (g a)) : Mirrors (x >>= f) fun r => y r >>= fun a => g a r := by
  intro c
  obtain ⟨hback, hview⟩ := hx c
  unfold after at hback ⊢
  rw [bind_apply]
  show _ ∧ (c.Placed → _ = EStateM.bind (y c.returns) (fun a => g a c.returns) c.view)
  unfold EStateM.bind
  cases hr : x c with
  | ok a c₁ =>
    rw [hr] at hback hview
    obtain ⟨hback', hview'⟩ := hf a c₁
    refine ⟨hback.trans hback', fun hp => ?_⟩
    rw [← hview hp, ← hback.returns]
    exact hview' (hp.restored hback)
  | error e c₁ =>
    rw [hr] at hback hview
    refine ⟨hback, fun hp => ?_⟩
    rw [← hview hp]
    rfl

theorem ask (q : ClassTable → TypeScope → Except TypeError α) :
    Mirrors (TypeChecker.ask q) fun _ => Typing.ask q := by
  intro c
  unfold after TypeChecker.ask Typing.ask view
  dsimp only
  cases q c.classes c.scope with
  | ok a => exact ⟨.refl c, fun _ => rfl⟩
  | error e => exact ⟨.refl c, fun _ => rfl⟩

/-- A question that is also about the type of results. -/
theorem askReturns (q : Ty → ClassTable → TypeScope → Except TypeError α) :
    Mirrors (get >>= fun c => TypeChecker.ask (q c.returns)) fun r => Typing.ask (q r) :=
  fun c => ask (q c.returns) c

theorem define (name : String) (ty : Ty) :
    Mirrors (TypeChecker.define name ty) fun _ => Typing.define name ty := by
  intro c
  refine ⟨⟨rfl, rfl, ?_, fun g _ => ?_, fun g _ hne => ?_⟩, fun hp => ?_⟩
  · exact Nat.le_of_eq (Frames.nextId_define c.frames c.environment name ty).symm
  · exact Frames.chain_define c.frames c.environment g name ty
  · exact Frames.vars_update_of_ne c.frames _ (Ne.symm hne)
  · show EStateM.Result.ok () (TypeState.mk c.classes _) = .ok () ⟨c.classes, _⟩
    rw [hp.scope_define name ty]
    rfl

theorem modifyClasses (f : ClassTable → ClassTable) :
    Mirrors (TypeChecker.modifyClasses f) fun _ => Typing.modifyClasses f :=
  fun _ => ⟨⟨rfl, rfl, Nat.le_refl _, fun _ _ => rfl, fun _ _ _ => rfl⟩, fun _ => rfl⟩

/-- A part in inner frames: `into` goes there, and the checker comes back whatever happens. -/
theorem inside {enter : TypeScope → TypeScope} {z : Walk α} (into : TypeChecker → TypeChecker)
    (hx : Mirrors x y) (hz : ∀ c, Restored (into c) (after x (into c)) → z c =
      moved c.leave (x (into c)))
    (hinside : ∀ c, Inside c (into c))
    (hplaced : ∀ c, c.Placed → (into c).Placed ∧ (into c).view = ⟨c.classes, enter c.scope⟩)
    (ret : Ty → Ty) (hret : ∀ c, (into c).returns = ret c.returns) :
    Mirrors z fun r => Typing.inside enter (y (ret r)) := by
  intro c
  obtain ⟨hback, hview⟩ := hx (into c)
  rw [hret] at hview
  have hleave := Restored.leave (hinside c) hback
  have hscope := fun hp : c.Placed => hp.scope_leave (hinside c) hback
  unfold after at hleave hscope ⊢
  rw [hz c hback]
  cases hr : x (into c) with
  | ok a c' =>
    rw [hr] at hleave hscope hview
    refine ⟨hleave, fun hp => ?_⟩
    have hy := (hview (hplaced c hp).1).symm
    rw [(hplaced c hp).2] at hy
    refine Eq.trans ?_ (Typing.inside_of_ok hy).symm
    exact congrArg (fun scope => EStateM.Result.ok a (TypeState.mk c'.classes scope)) (hscope hp)
  | error e c' =>
    rw [hr] at hleave hscope hview
    refine ⟨hleave, fun hp => ?_⟩
    have hy := (hview (hplaced c hp).1).symm
    rw [(hplaced c hp).2] at hy
    refine Eq.trans ?_ (Typing.inside_of_error hy).symm
    exact congrArg (fun scope => EStateM.Result.error e (TypeState.mk c'.classes scope)) (hscope hp)

end Mirrors

/-! ## Expressions and declarations -/

/-- A question changes nothing. -/
theorem after_ask (q : ClassTable → TypeScope → Except TypeError α) (c : TypeChecker) :
    after (ask q) c = c := by
  unfold after ask
  cases q c.classes c.scope <;> rfl

theorem ask_bind (q : ClassTable → TypeScope → Except TypeError α)
    (r : α → ClassTable → TypeScope → Except TypeError β) :
    (ask q >>= fun a => ask (r a)) = ask fun t scope => q t scope >>= fun a => r a t scope := by
  funext c
  rw [bind_apply]
  unfold ask
  cases h : q c.classes c.scope <;> simp [bind, Except.bind, h]

theorem ask_pure (a : α) : (pure a : Walk α) = ask fun _ _ => pure a := rfl

theorem increment_eq (operand : Expr ι) (operator : Token) {x : Walk Ty}
    (hx : x = ask fun t scope => Typing.typeOf t scope operand) :
    increment operand operator x = ask fun t scope => Typing.increment t scope operand operator := by
  subst hx
  simp only [increment, require, ask_pure, ask_bind]
  congr 1
  funext t scope
  cases operand <;> rfl

mutual

/-- The walk through an expression asks for its type. -/
theorem typeOf_eq : ∀ e : Expr ι, typeOf e = ask fun t scope => Typing.typeOf t scope e
  | .literal _ => rfl
  | .grouping inner => typeOf_eq inner
  | .unary operator operand => by
    unfold typeOf
    simp only [typeOf_eq operand, require, ask_pure, ask_bind, Typing.typeOf]
    split
    · exact increment_eq operand operator rfl
    · split
      · simp only [ask_bind]
      · simp only [ask_bind]
  | .suffixed operand operator => increment_eq operand operator (typeOf_eq operand)
  | .binary left _ right => by
    simp only [typeOf, typeOf_eq left, typeOf_eq right, ask_bind, Typing.typeOf]
  | .logical left _ right => by
    simp only [typeOf, typeOf_eq left, typeOf_eq right, require, ask_pure, ask_bind, Typing.typeOf]
  | .variable _ _ => rfl
  | .assign _ _ value => by
    simp only [typeOf, lookUp, typeOf_eq value, require, ask_pure, ask_bind, Typing.typeOf]
  | .call callee _ arguments => by
    simp only [typeOf, typeOf_eq callee, typesOf_eq arguments, ask_bind, Typing.typeOf]
  | .get object _ => by
    simp only [typeOf, typeOf_eq object, ask_bind, Typing.typeOf]
  | .set object _ value => by
    simp only [typeOf, typeOf_eq object, typeOf_eq value, require, ask_pure, ask_bind, Typing.typeOf]
  | .this _ _ => rfl
  | .super _ _ _ => rfl
termination_by structural e => e

theorem typesOf_eq : ∀ es : List (Expr ι),
    typesOf es = ask fun t scope => Typing.typesOf t scope es
  | [] => rfl
  | e :: rest => by
    simp only [typesOf, typeOf_eq e, typesOf_eq rest, ask_pure, ask_bind, Typing.typesOf]
termination_by structural es => es

end

theorem typeOfOption_eq (e : Option (Expr ι)) :
    typeOfOption e = ask fun t scope => Typing.initialType t scope e := by
  cases e with
  | none => rfl
  | some e =>
    simp only [typeOfOption, typeOf_eq e, ask_pure, ask_bind, Typing.initialType]
    congr 1

theorem declaredType_eq (d : VarDecl ι) : declaredType d = ask (Typing.declaredType d) := by
  simp only [declaredType, typeOfOption_eq, ask_bind]
  rfl

theorem fieldType_eq (id : ClassId) (d : VarDecl ι) :
    fieldType id d = ask (Typing.fieldType id d) := by
  simp only [fieldType, declaredType_eq, ask_pure, ask_bind]
  rfl

theorem checkCondition_eq (keyword : String) (condition : Expr ι) :
    checkCondition keyword condition = ask (Typing.checkCondition keyword condition) := by
  simp only [checkCondition, typeOf_eq, require, ask_bind]
  rfl

theorem superclassOf_eq (name : Name) (superclass : Option (SuperclassRef ι)) :
    superclassOf name superclass = ask (Typing.superclassOf name superclass) := by
  cases superclass with
  | none => rfl
  | some s =>
    simp only [superclassOf, lookUp, require, ask_bind]
    rfl

theorem checkReturn_eq (keyword : Name) (value : Option (Expr ι)) :
    checkReturn keyword value =
      get >>= fun c => ask (Typing.checkReturn c.returns keyword value) := by
  funext c
  have hget : checkReturn keyword value c = (typeOfOption value >>= fun ty => require
      (fun t => t.accepts c.returns (ty.getD .nil))
      (fun t => .returnMismatch (t.text c.returns) (t.text (ty.getD .nil))) keyword.line) c := by
    rw [typeOfOption_eq, bind_apply, checkReturn, typeOfOption_eq, bind_apply, ask]
    cases Typing.initialType c.classes c.scope value <;> rfl
  rw [hget, typeOfOption_eq]
  simp only [require, ask_bind]
  rfl

/-! ## Statements -/

theorem attempt_settle (x : Walk α) (f : TypeChecker → TypeChecker) (c : TypeChecker) :
    (do let result ← attempt x; modify f; settle result : Walk α) c = moved f (x c) := by
  rw [bind_apply, attempt]
  cases x c <;> rfl

theorem inFrame_apply (frame : FrameId) (x : Walk α) (c : TypeChecker) :
    inFrame frame x c =
      moved (fun c' => { c' with environment := c.environment })
        (x { c with environment := frame }) :=
  attempt_settle x (fun c' => { c' with environment := c.environment })
    { c with environment := frame }

theorem Restored.leave_eq (h : Restored c₁ c₂) (hr : c₁.returns = c.returns) :
    { c₂ with environment := c.environment } = c.leave c₂ := by
  rw [TypeChecker.leave, ← hr, ← h.returns]

namespace Mirrors

/-- A block. -/
theorem inChild (vars : Bindings Ty) {x : Walk α} {y : Ty → Check α} (hx : Mirrors x y) :
    Mirrors (childFrame vars >>= fun frame => inFrame frame x)
      fun r => Typing.inside (·.enter vars) (y r) := by
  refine inside (fun c => c.child vars) hx (fun c hback => ?_) (fun c => inside_child c vars)
    (fun c hp => ⟨hp.child vars, ?_⟩) id fun _ => rfl
  · refine Eq.trans (inFrame_apply c.frames.nextId x _) ?_
    exact moved_congr (hback.leave_eq rfl)
  · exact congrArg (TypeState.mk c.classes) (hp.scope_child vars)

/-- The body of a function. -/
theorem inRoutine (vars : Bindings Ty) (result : Ty) {x : Walk α} {y : Ty → Check α}
    (hx : Mirrors x y) :
    Mirrors (TypeChecker.inRoutine vars result x)
      fun _ => Typing.inside (·.enter vars) (y result) := by
  refine inside (fun c => { c.child vars with returns := result }) hx (fun c _ => ?_) (fun c => ?_)
    (fun c hp => ⟨?_, ?_⟩) (fun _ => result) fun _ => rfl
  · refine Eq.trans (attempt_settle (inFrame c.frames.nextId x)
      (fun c' => { c' with returns := c.returns }) _) ?_
    rw [inFrame_apply]
    show moved _ (moved _ (x { c.child vars with returns := result })) = _
    cases x { c.child vars with returns := result } <;> rfl
  · exact ⟨(inside_child c vars).1, (inside_child c vars).2, (inside_child c vars).3,
      (inside_child c vars).4⟩
  · exact ⟨(hp.child vars).1, (hp.child vars).2⟩
  · exact congrArg (TypeState.mk c.classes) (hp.scope_child vars)

/-- The frames inside a class. -/
def classFrames (c : TypeChecker) (id : ClassId) : Option ClassId → TypeChecker
  | none => c.child (.single "this" (.object id))
  | some s => (c.child (.single "super" (.object s))).child (.single "this" (.object id))

/-- The body of a class. -/
theorem inClass (id : ClassId) (parent : Option ClassId) {x : Walk α} {y : Ty → Check α}
    (hx : Mirrors x y) :
    Mirrors
      (do
        let outer := (← get).environment
        enterClass id parent
        let result ← attempt x
        let _ ← replaceEnvironment outer
        settle result)
      fun r => Typing.inside (Typing.enterClass id parent) (y r) := by
  refine inside (fun c => classFrames c id parent) hx (fun c hback => ?_) (fun c => ?_)
    (fun c hp => ?_) (fun r => r) ?_
  · have hreturns : (classFrames c id parent).returns = c.returns := by cases parent <;> rfl
    let back (c' : TypeChecker) : TypeChecker := { c' with environment := c.environment }
    refine Eq.trans ?_ (moved_congr (show back _ = c.leave _ from hback.leave_eq hreturns))
    cases parent with
    | none => exact attempt_settle x back _
    | some s => exact attempt_settle x back _
  · cases parent with
    | none => exact inside_child c _
    | some s => exact (inside_child c _).child _
  · cases parent with
    | none => exact ⟨hp.child _, congrArg (TypeState.mk c.classes) (hp.scope_child _)⟩
    | some s =>
      refine ⟨(hp.child _).child _, congrArg (TypeState.mk c.classes) ?_⟩
      rw [classFrames, (hp.child _).scope_child, hp.scope_child]
      rfl
  · intro c
    cases parent <;> rfl

end Mirrors

theorem newClass_mirrors (name : Name) (parent : Option ClassId) :
    Mirrors (newClass name parent) fun _ => Typing.newClass name parent := by
  intro c
  refine ((Mirrors.modifyClasses (·.add name.text parent)).bind
    fun _ => (Mirrors.define name.text (.classObject c.classes.nextId)).bind
      fun _ => .pure c.classes.nextId) c

theorem enterMethods_mirrors (id : ClassId) (className : Name) (parent : Option ClassId)
    (ds : List (FunctionDecl σ)) :
    Mirrors (enterMethods id className parent ds)
      fun _ => Typing.enterMethods id className parent ds := by
  induction ds with
  | nil => exact .pure []
  | cons d rest ih =>
    exact (Mirrors.ask _).bind fun s => (Mirrors.modifyClasses _).bind fun _ => ih.bind fun _ =>
      .pure _

theorem enterFields_mirrors (id : ClassId) (ds : List (VarDecl ι)) :
    Mirrors (enterFields id ds) fun _ => Typing.enterFields id ds := by
  induction ds with
  | nil => exact .pure ()
  | cons d rest ih =>
    rw [enterFields, fieldType_eq]
    exact (Mirrors.ask _).bind fun s => (Mirrors.modifyClasses _).bind fun _ => ih

mutual

/-- A statement leads back to where the checker was, and checks what the check with scopes does. -/
theorem checkStmt_mirrors : ∀ s : Stmt ι,
    Mirrors (checkStmt s) fun returns => Typing.checkStmt returns s
  | .expression value => by
    rw [checkStmt, typeOf_eq]
    exact (Mirrors.ask _).bind fun _ => .pure ()
  | .print value => by
    rw [checkStmt, typeOf_eq]
    exact (Mirrors.ask _).bind fun _ => .pure ()
  | .var decl => by
    rw [checkStmt, declaredType_eq]
    exact (Mirrors.ask _).bind fun ty => .define _ ty
  | .block body => (checkStmts_mirrors body).inChild .empty
  | .ifThen condition thenBranch => by
    rw [checkStmt, checkCondition_eq]
    exact (Mirrors.ask _).bind fun _ => checkStmt_mirrors thenBranch
  | .ifElse condition thenBranch elseBranch => by
    rw [checkStmt, checkCondition_eq]
    exact (Mirrors.ask _).bind fun _ => (checkStmt_mirrors thenBranch).bind fun _ =>
      checkStmt_mirrors elseBranch
  | .whileLoop condition body => by
    rw [checkStmt, checkCondition_eq]
    exact (Mirrors.ask _).bind fun _ => checkStmt_mirrors body
  | .function decl =>
    (Mirrors.ask _).bind fun s => (Mirrors.define _ _).bind fun _ => checkRoutine_mirrors s decl
  | .returnWith keyword value => by
    rw [checkStmt, checkReturn_eq]
    exact .askReturns fun returns => Typing.checkReturn returns keyword value
  | .classDecl ⟨name, superclass, fields, methods⟩ => by
    rw [checkStmt, superclassOf_eq]
    exact (Mirrors.ask _).bind fun parent => (newClass_mirrors name parent).bind fun id =>
      (enterMethods_mirrors id name parent methods).bind fun signatures =>
        ((enterFields_mirrors id fields).bind fun _ =>
          checkRoutines_mirrors signatures methods).inClass id parent
termination_by structural s => s

theorem checkStmts_mirrors : ∀ ss : List (Stmt ι),
    Mirrors (checkStmts ss) fun returns => Typing.checkStmts returns ss
  | [] => .pure ()
  | s :: rest => (checkStmt_mirrors s).bind fun _ => checkStmts_mirrors rest
termination_by structural ss => ss

theorem checkRoutine_mirrors (s : Signature) : ∀ d : FunctionDecl (Stmt ι),
    Mirrors (checkRoutine s d) fun _ => Typing.checkRoutine s d
  | ⟨_, _, _, body⟩ => ((checkStmts_mirrors body).inRoutine _ s.result).bind fun _ => .ask _
termination_by structural d => d

theorem checkRoutines_mirrors (signatures : List Signature) : ∀ ds : List (FunctionDecl (Stmt ι)),
    Mirrors (checkRoutines signatures ds) fun _ => Typing.checkRoutines signatures ds
  | [] => .pure ()
  | d :: rest =>
    match signatures with
    | [] => .pure ()
    | s :: others => (checkRoutine_mirrors s d).bind fun _ => checkRoutines_mirrors others rest
termination_by structural ds => ds

end

end TypeChecker

namespace Checker

theorem walker_placed (c : Checker) : c.walker.Placed where
  lt := Nat.lt_succ_self 0
  older _ hg := by cases hg

/-- After a program, the scopes are the global names. -/
theorem ofWalker_eq {c : Checker} {c' : TypeChecker} (h : TypeChecker.Restored c.walker c') :
    ofWalker c' = ⟨c'.view.classes, c'.view.scope.globals⟩ := by
  have henv : c'.environment = TypeChecker.globalFrame := h.environment
  have hchain : c'.frames.chain TypeChecker.globalFrame = [TypeChecker.globalFrame] :=
    h.chain _ c.walker_placed.lt
  show _ = Checker.mk c'.classes c'.scope.globals
  rw [TypeChecker.scope, henv, hchain]
  rfl

/-- The check of a program, with its names in a list of scopes. -/
theorem check_eq {ι : Type} (c : Checker) (program : List (Stmt ι)) :
    c.check program =
      match Typing.checkStmts .void program c.start with
      | .ok _ st => (.ok (), ⟨st.classes, st.scope.globals⟩)
      | .error e st => (.error e, ⟨st.classes, st.scope.globals⟩) := by
  obtain ⟨hback, hview⟩ := TypeChecker.checkStmts_mirrors program c.walker
  have hstmts : Typing.checkStmts .void program c.start =
      TypeChecker.viewed (TypeChecker.checkStmts program c.walker) := (hview c.walker_placed).symm
  unfold TypeChecker.after at hback
  rw [hstmts, check]
  cases hr : TypeChecker.checkStmts program c.walker with
  | ok _ c' =>
    rw [hr] at hback
    exact congrArg (Prod.mk (Except.ok ())) (ofWalker_eq hback)
  | error e c' =>
    rw [hr] at hback
    exact congrArg (Prod.mk (Except.error e)) (ofWalker_eq hback)

end Checker

end ClassScript
