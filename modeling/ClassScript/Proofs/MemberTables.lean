import ClassScript.Proofs.CheckGrowth
import ClassScript.Proofs.Overrides
import ClassScript.Proofs.PairedBindings

/-!
# The members that the checker and the evaluator know

The checker enters the signatures of a class one by one, and the evaluator builds the methods of a class
at once; in both the last method of a name stays. A class of the checker and one of the evaluator are
twins (`ClassTable.Twin`) if they were made for the same declaration and their superclasses, if there
are any, are twins. Twins have the same methods, each with the signature that the checker found for the
very declaration that runs, and the same initializer, so the checker and the evaluator ask for the same
numbers of arguments (`member_tables_agree`). This is carried from the superclass to the class: the own
methods of both agree name by name (`ClassTable.own_methods_agree`).
-/

set_option autoImplicit false

namespace ClassScript

/-! ## The class that the evaluator makes -/

namespace ClassValue

/-- The direct superclass of a class. -/
def superclass? (k : ClassValue) : Option ClassValue :=
  match k.inherited with
  | [] => none
  | own :: inherited => some ⟨own, inherited⟩

/-- The method of a name is the class's own, or else that of the superclass. -/
theorem findMethod?_eq (k : ClassValue) (x : String) :
    k.findMethod? x = (k.own.methods.get? x).or (k.superclass?.bind fun p => p.findMethod? x) := by
  obtain ⟨own, inherited⟩ := k
  unfold findMethod? superclass? layers
  rw [List.findSome?_cons]
  cases own.methods.get? x with
  | some f => rfl
  | none => cases inherited <;> rfl

/-- The evaluator has run the declaration `d` and bound its name to the class. -/
def DeclaredBy (k : ClassValue) (d : ClassDecl NodeId (Stmt NodeId)) : Prop :=
  ∃ fuel m flow m', Run.exec fuel (.classDecl d) m = .ok flow m' ∧
    m'.frames.getOwn m'.current d.name.text = .ok (.classObject k)

end ClassValue

theorem Run.declareClass_apply (d : ClassDecl NodeId (Stmt NodeId)) (m : Machine) :
    declareClass .none d m =
      match classContext .none d m with
      | .ok (inherited, frame) n =>
        let own : Layer :=
          ⟨n.nextIdentity, d.name.text, d.fields, classMethods d.name frame d.methods, frame⟩
        .ok () { n with
          nextIdentity := n.nextIdentity + 1
          frames := n.frames.define n.current d.name.text (.classObject ⟨own, inherited⟩) }
      | .error e n => .error e n := by
  rw [declareClass, bind_apply]
  cases classContext .none d m <;> rfl

/-- What is bound to the name of a class is the class with the methods of the declaration. -/
theorem ClassValue.DeclaredBy.own {k : ClassValue} {d : ClassDecl NodeId (Stmt NodeId)}
    (h : k.DeclaredBy d) :
    k.own.name = d.name.text ∧ k.own.methods = Run.classMethods d.name k.own.frame d.methods := by
  obtain ⟨fuel, m, flow, m', hrun, hbound⟩ := h
  cases fuel with
  | zero => cases hrun
  | succ fuel =>
    replace hrun : (Run.declareClass .none d >>= fun _ => pure Flow.normal) m = .ok flow m' := hrun
    rw [Run.bind_apply, Run.declareClass_apply] at hrun
    cases hc : Run.classContext .none d m with
    | error e n =>
      rw [hc] at hrun
      cases hrun
    | ok context n =>
      rw [hc] at hrun
      cases hrun
      rw [Frames.getOwn_ok, Frames.get?_define] at hbound
      split at hbound
      next =>
        cases hbound
        exact ⟨rfl, rfl⟩
      next hfree =>
        have hlt := Frames.lt_of_binds ((Frames.binds_iff _ _).2 ⟨_, hbound⟩)
        exact absurd ⟨rfl, hlt, rfl⟩ hfree

/-! ## The class that the checker enters -/

/-- From `c` on, the checker has taken the declaration `d` without an error and entered it as the class
`id`; the table has grown since. -/
structure TypeChecker.Enters (c : TypeChecker) (d : ClassDecl NodeId (Stmt NodeId)) (id : ClassId)
    (t : ClassTable) : Prop where
  placed : c.Placed
  next : c.classes.nextId = id
  accepted : ∃ c', TypeChecker.checkStmt (.classDecl d) c = .ok () c' ∧ c'.classes.Grows t

namespace ClassTable

/-- The signature is the one that the checker finds for the declaration that the closure runs, which is
one of the methods of the class `id`. -/
def Signs (t : ClassTable) (id : ClassId) (s : Signature) (f : Closure) : Prop :=
  ∃ (c : TypeChecker) (d : ClassDecl NodeId (Stmt NodeId)), c.Enters d id t ∧ f.decl ∈ d.methods ∧
    Typing.signature f.decl (c.scope.define d.name.text (.classObject id)) = .ok s

/-- A class of the table and a class of the evaluator were made for the same declaration, and so were
their superclasses, if there are any. -/
inductive Twin (t : ClassTable) : ClassId → ClassValue → Prop
  | root {id : ClassId} {k : ClassValue} {c : TypeChecker} {d : ClassDecl NodeId (Stmt NodeId)} :
      c.Enters d id t → k.DeclaredBy d → t.superclass? id = none → k.superclass? = none → Twin t id k
  | child {id p : ClassId} {k q : ClassValue} {c : TypeChecker}
      {d : ClassDecl NodeId (Stmt NodeId)} :
      c.Enters d id t → k.DeclaredBy d → t.superclass? id = some p → k.superclass? = some q →
      Twin t p q → Twin t id k

variable {t : ClassTable} {id : ClassId} {k : ClassValue} {c : TypeChecker}
  {d : ClassDecl NodeId (Stmt NodeId)}

/-- What is entered for a declaration: its name, and under the name of each method the signature of the
last method of this name. -/
theorem own_of_enters (h : c.Enters d id t) :
    t.name id = d.name.text ∧ ∃ signatures,
      List.Forall₂ (fun s f =>
        Typing.signature f (c.scope.define d.name.text (.classObject id)) = .ok s)
        signatures d.methods ∧
      ∀ x, t.ownMethod? id x =
        (Bindings.ofList ((d.methods.map fun f => f.name.text).zip signatures)).get? x := by
  obtain ⟨hp, rfl, c', haccepted, hgrows⟩ := h
  have hview := (TypeChecker.checkStmt_mirrors (.classDecl d) c).2 hp
  rw [haccepted] at hview
  obtain ⟨parent, signatures, entered, filled, hchecked⟩ :=
    Typing.checkStmt_classDecl.1 hview.symm
  have hentered := hchecked.entered
  obtain ⟨last, hroutines, hlast⟩ := hchecked.routines
  have hbodies := Typing.checkRoutines_keeps signatures d.methods filled
    (ClassTable.Grows.refl filled.classes)
  rw [hroutines] at hbodies
  have hclasses : c'.classes = last.classes := congrArg TypeState.classes hlast
  have hgrown : filled.classes.Grows t := hbodies.1.trans (hclasses ▸ hgrows)
  refine ⟨(hgrown.name hentered.lt).trans hentered.name, signatures,
    (Typing.enterMethods_scope hentered.methods).2, fun x => ?_⟩
  exact (hgrown.ownMethod? hentered.lt).trans
    ((hentered.filledMethod? _ x).trans (hentered.enteredMethod? x))

/-- The own methods of a class of the table and of the class of the evaluator are the same, with the
signatures of the declarations that run. -/
theorem own_methods_agree (he : c.Enters d id t) (hd : k.DeclaredBy d) (x : String) :
    Option.Rel (t.Signs id) (t.ownMethod? id x) (k.own.methods.get? x) := by
  obtain ⟨-, signatures, hsigned, hmethods⟩ := own_of_enters he
  have hdeclared := (List.forall₂_and_left (p := (· ∈ d.methods)) d.methods signatures).2
    ⟨fun _ hf => hf, hsigned.flip⟩
  rw [hmethods, hd.own.2]
  exact Bindings.Forall₂.get? (.ofZip _ _ (hdeclared.flip.imp fun s f hf => ⟨c, d, he, hf⟩)) x

theorem initializers_agree (he : c.Enters d id t) (hd : k.DeclaredBy d) :
    Option.Rel (t.Signs id) (t.initializer? id) k.initializer? := by
  rw [initializer?, ClassValue.initializer?, (own_of_enters he).1, hd.own.1]
  exact own_methods_agree he hd d.name.text

/-- A signature has the parameters of its declaration. -/
theorem Signs.length {s : Signature} {f : Closure} (h : t.Signs id s f) :
    s.params.length = f.decl.params.length := by
  obtain ⟨_, _, -, -, hs⟩ := h
  exact Typing.paramTypes_length (Typing.signature_ok.1 hs).2.1

/-- The signature is that of the declaration, in the class or in one of its ancestors. -/
def SignsFor (t : ClassTable) (id : ClassId) (s : Signature) (f : Closure) : Prop :=
  ∃ a, t.isSubclass id a = true ∧ t.Signs a s f

theorem Signs.here {s : Signature} {f : Closure} (ht : t.Forest) (h : t.Signs id s f) :
    t.SignsFor id s f :=
  ⟨id, ht.isSubclass_step.2 (.inl rfl), h⟩

theorem SignsFor.inherit {p : ClassId} {s : Signature} {f : Closure} (ht : t.Forest)
    (hp : t.superclass? id = some p) (h : t.SignsFor p s f) : t.SignsFor id s f := by
  obtain ⟨a, hpa, hs⟩ := h
  exact ⟨a, ht.isSubclass_step.2 (.inr ⟨p, hp, hpa⟩), hs⟩

/-- What twins find under a name agrees: their own methods do, and so do those of their superclasses. -/
theorem Twin.methods_agree (ht : t.Coherent) (h : t.Twin id k) (x : String) :
    Option.Rel (t.SignsFor id) (t.findMethod? id x) (k.findMethod? x) := by
  induction h with
  | root he hd hs hk =>
    have hown := rel_mono (fun _ _ h => h.here ht.forest) (own_methods_agree he hd x)
    rw [ht.findMethod?_eq, ClassValue.findMethod?_eq, hs, hk]
    exact rel_or hown .none
  | child he hd hs hk _ ih =>
    have hown := rel_mono (fun _ _ h => h.here ht.forest) (own_methods_agree he hd x)
    have hinherited := rel_mono (fun _ _ h => h.inherit ht.forest hs) ih
    rw [ht.findMethod?_eq, ClassValue.findMethod?_eq, hs, hk]
    exact rel_or hown hinherited

theorem Twin.initializers_agree (h : t.Twin id k) :
    Option.Rel (t.Signs id) (t.initializer? id) k.initializer? := by
  cases h with
  | root he hd => exact ClassTable.initializers_agree he hd
  | child he hd => exact ClassTable.initializers_agree he hd

theorem constructorParams_length (h : Option.Rel (t.Signs id) (t.initializer? id) k.initializer?) :
    (Typing.constructorParams t id).length = k.arity := by
  unfold Typing.constructorParams ClassValue.arity
  generalize t.initializer? id = a at h
  generalize k.initializer? = b at h
  cases h with
  | none => rfl
  | some hs => exact hs.length

end ClassTable

/-! ## Twins -/

theorem Checker.enters_class (c : Checker) (d : ClassDecl NodeId (Stmt NodeId)) {t : ClassTable}
    (haccepted : (c.check [.classDecl d]).1.isOk = true)
    (hgrows : (c.check [.classDecl d]).2.classes.Grows t) :
    c.walker.Enters d c.classes.nextId t := by
  refine ⟨c.walker_placed, rfl, ?_⟩
  unfold Checker.check at haccepted hgrows
  rw [TypeChecker.checkStmts, TypeChecker.bind_apply] at haccepted hgrows
  cases hr : TypeChecker.checkStmt (.classDecl d) c.walker with
  | ok _ c' =>
    rw [hr] at hgrows
    exact ⟨c', rfl, hgrows⟩
  | error e c' =>
    rw [hr] at haccepted
    cases haccepted

namespace CheckHistory

theorem run_grows (h : CheckHistory) (steps : List CheckStep) :
    h.checker.classes.Grows (h.run steps).checker.classes := by
  induction steps generalizing h with
  | nil => exact .refl _
  | cons s rest ih =>
    refine ClassTable.Grows.trans ?_ (ih (h.step s))
    cases s with
    | check program => exact h.checker.check_grows program
    | save => exact .refl _
    | restore index =>
      simp only [step]
      split <;> exact .refl _

/-- The program that only declares this class is checked. -/
def checkClass (d : ClassDecl NodeId (Stmt NodeId)) : CheckStep :=
  .check [.classDecl d]

/-- A class that is accepted as a whole program is entered with the next identity. -/
theorem enters_class (steps before after : List CheckStep) (d : ClassDecl NodeId (Stmt NodeId))
    {id : ClassId} (hsteps : steps = before ++ checkClass d :: after)
    (hid : (new.run before).checker.classes.nextId = id)
    (haccepted : ((new.run before).checker.check [.classDecl d]).1.isOk = true) :
    (new.run before).checker.walker.Enters d id (new.run steps).checker.classes := by
  subst hsteps hid
  refine (new.run before).checker.enters_class d haccepted ?_
  have happend : new.run (before ++ checkClass d :: after) =
      ((new.run before).step (checkClass d)).run after := List.foldl_append
  rw [happend]
  exact ((new.run before).step (checkClass d)).run_grows after

/-- A class that a checker has entered, whatever it was asked, and a class of the evaluator know the
same members, if they were made for the same declaration and their superclasses, if there are any,
are related in the same way. They find methods under the same names, where the signature is the one
that the checker found for the declaration that runs; they have initializers of their own, or have
none, in the same way; and calls of the class and of its methods need as many arguments in the
evaluator as in the checker. -/
theorem member_tables_agree (steps : List CheckStep) {id : ClassId} {k : ClassValue}
    (h : (new.run steps).checker.classes.Twin id k) :
    let t := (new.run steps).checker.classes
    (∀ x, Option.Rel (t.SignsFor id) (t.findMethod? id x) (k.findMethod? x)) ∧
      Option.Rel (t.Signs id) (t.initializer? id) k.initializer? ∧
      (Typing.constructorParams t id).length = k.arity ∧
      ∀ x s f, t.findMethod? id x = some s → k.findMethod? x = some f →
        s.params.length = f.decl.params.length := by
  intro t
  have hcoherent : t.Coherent := (new_good.run steps).checker.classes
  have hmethods := h.methods_agree hcoherent
  have hinitializers := h.initializers_agree
  refine ⟨hmethods, hinitializers, ClassTable.constructorParams_length hinitializers,
    fun x s f hs hf => ?_⟩
  have hrel := hmethods x
  rw [hs, hf] at hrel
  cases hrel with
  | some hsigned =>
    obtain ⟨a, -, hsigns⟩ := hsigned
    exact hsigns.length

/-- A parameter that is a number. -/
def numberParam : Param :=
  ⟨⟨"n", 1⟩, ⟨.symbol .numberWord, "number", 1⟩⟩

/-- A class with an initializer and with two methods of the same name. -/
def baseClass : ClassDecl NodeId (Stmt NodeId) :=
  ⟨⟨"A", 1⟩, none, [],
    [⟨⟨"A", 1⟩, [numberParam], none, []⟩, ⟨⟨"m", 1⟩, [numberParam], none, []⟩,
      ⟨⟨"m", 1⟩, [], none, []⟩]⟩

/-- A subclass with a method that is called like the superclass. -/
def middleClass : ClassDecl NodeId (Stmt NodeId) :=
  ⟨⟨"B", 1⟩, some ⟨0, ⟨"A", 1⟩⟩, [], [⟨⟨"A", 1⟩, [numberParam], none, []⟩]⟩

/-- A class that only inherits. -/
def lastClass : ClassDecl NodeId (Stmt NodeId) :=
  ⟨⟨"C", 1⟩, some ⟨1, ⟨"B", 1⟩⟩, [], []⟩

/-- The three classes are checked one after the other. -/
def chainSteps : List CheckStep :=
  [checkClass baseClass, checkClass middleClass, checkClass lastClass]

/-- The machine that has declared these classes. -/
def machineOf (ds : List (ClassDecl NodeId (Stmt NodeId))) : Machine :=
  Run.last (Machine.runAll (Run.exec 1) (ds.map .classDecl) (Machine.new (.ok 0) .unlimited))

/-- What the evaluator makes of a declaration, with the identity and the frame that it has then. -/
def layer (id : Nat) (frame : FrameId) (d : ClassDecl NodeId (Stmt NodeId)) : Layer :=
  ⟨id, d.name.text, d.fields, Run.classMethods d.name frame d.methods, frame⟩

/-- The class that the evaluator makes of the last declaration. -/
def lastValue : ClassValue :=
  ⟨layer 2 2 lastClass, [layer 1 1 middleClass, layer 0 0 baseClass]⟩

theorem base_twin : (new.run chainSteps).checker.classes.Twin 0 ⟨layer 0 0 baseClass, []⟩ := by
  have he := enters_class chainSteps [] [checkClass middleClass, checkClass lastClass] baseClass rfl
    (show _ = 0 by decide +kernel) (by decide +kernel)
  have hd : ClassValue.DeclaredBy ⟨layer 0 0 baseClass, []⟩ baseClass :=
    ⟨1, machineOf [], .normal, machineOf [baseClass], rfl, rfl⟩
  exact .root he hd (by decide +kernel) rfl

theorem middle_twin :
    (new.run chainSteps).checker.classes.Twin 1
      ⟨layer 1 1 middleClass, [layer 0 0 baseClass]⟩ := by
  have he := enters_class chainSteps [checkClass baseClass] [checkClass lastClass] middleClass rfl
    (show _ = 1 by decide +kernel) (by decide +kernel)
  have hd : ClassValue.DeclaredBy ⟨layer 1 1 middleClass, [layer 0 0 baseClass]⟩ middleClass :=
    ⟨1, machineOf [baseClass], .normal, machineOf [baseClass, middleClass], rfl, rfl⟩
  exact .child he hd (by decide +kernel) rfl base_twin

theorem last_twin : (new.run chainSteps).checker.classes.Twin 2 lastValue := by
  have he := enters_class chainSteps [checkClass baseClass, checkClass middleClass] [] lastClass rfl
    (show _ = 2 by decide +kernel) (by decide +kernel)
  have hd : lastValue.DeclaredBy lastClass :=
    ⟨1, machineOf [baseClass, middleClass], .normal,
      machineOf [baseClass, middleClass, lastClass], rfl, rfl⟩
  exact .child he hd (by decide +kernel) rfl middle_twin

/-- The last of three classes inherits the method that is called like the first one, but it has no
initializer. -/
theorem member_tables_agree_chain :
    let t := (new.run chainSteps).checker.classes
    t.Twin 2 lastValue ∧
      (∀ x, Option.Rel (t.SignsFor 2) (t.findMethod? 2 x) (lastValue.findMethod? x)) ∧
      Option.Rel (t.Signs 2) (t.initializer? 2) lastValue.initializer? ∧
      lastValue.arity = 0 ∧
      (lastValue.findMethod? "A").map (·.decl.params) = some [numberParam] ∧
      (lastValue.findMethod? "m").map (·.decl.params) = some [] := by
  obtain ⟨hmethods, hinitializers, -⟩ := member_tables_agree chainSteps last_twin
  exact ⟨last_twin, hmethods, hinitializers, rfl, by decide, by decide⟩

end CheckHistory

end ClassScript
