import ClassScript.Machine.Eval

/-!
# Members of objects

What a new object and a field that is set mean for the fields that objects have, and what is found
when a method of a superclass is looked for.
-/

set_option autoImplicit false

namespace ClassScript

namespace Machine

variable {m : Machine} {i j : ObjectId} {x y : String}

/-- A new object has no fields. -/
theorem field?_push (m : Machine) (i : ObjectId) (x : String) :
    ({ m with objects := m.objects.push .empty } : Machine).field? i x = m.field? i x := by
  unfold field?
  dsimp only
  rw [Array.getElem?_push]
  split
  next h =>
    rw [h, Array.getElem?_eq_none (Nat.le_refl _)]
    rfl
  next => rfl

/-- One field of one object is set. -/
theorem field?_modify (m : Machine) (i : ObjectId) (x : String) (v : Value) (j : ObjectId)
    (y : String) :
    ({ m with objects := m.objects.modify i fun fields => fields.insert x v } : Machine).field? j y =
      if i = j ∧ x = y ∧ i < m.objects.size then some v else m.field? j y := by
  unfold field?
  dsimp only
  rw [Array.getElem?_modify]
  by_cases hij : i = j
  · subst hij
    cases hf : m.objects[i]? with
    | none =>
      have hout : ¬ i < m.objects.size := fun hlt => by
        rw [Array.getElem?_eq_getElem hlt] at hf
        cases hf
      simp [hout]
    | some fields =>
      have hlt : i < m.objects.size := (Array.getElem?_eq_some_iff.1 hf).1
      simp [hlt, Bindings.get?_insert]
  · simp [hij]

/-- A field that is set is there, and none is taken away. -/
theorem isSome_field?_modify (v : Value) (h : (m.field? j y).isSome = true) :
    (({ m with objects := m.objects.modify i fun fields => fields.insert x v } : Machine).field?
      j y).isSome = true := by
  rw [field?_modify]
  split
  · rfl
  · exact h

end Machine

/-- A field of this name is declared in the class or in one of its ancestors. -/
def ClassValue.declares (c : ClassValue) (x : String) : Bool :=
  c.layers.any fun layer => layer.fields.any fun d => d.name.text == x

theorem ClassValue.declares_iff {c : ClassValue} {x : String} :
    c.declares x = true ↔ ∃ layer ∈ c.layers, ∃ d ∈ layer.fields, d.name.text = x := by
  simp [declares]

theorem ClassValue.findMethod?_eq_some_iff {c : ClassValue} {x : String} {method : Closure} :
    c.findMethod? x = some method ↔ ∃ nearer layer farther, c.layers = nearer ++ layer :: farther ∧
      layer.methods.get? x = some method ∧ ∀ l ∈ nearer, l.methods.get? x = none :=
  List.findSome?_eq_some_iff

theorem ClassValue.findMethod?_eq_none_iff {c : ClassValue} {x : String} :
    c.findMethod? x = none ↔ ∀ l ∈ c.layers, l.methods.get? x = none :=
  List.findSome?_eq_none_iff

namespace Run

variable {m : Machine}

/-- A method as a function of an object has a frame of its own, which knows the object as `this`. -/
theorem methodValue_eq (method : Closure) (this : Value) (m : Machine) :
    methodValue .none method this m =
      .ok (.function m.nextIdentity { method with frame := m.frames.nextId })
        { m with
          frames := m.frames.addChild method.frame (.single "this" this)
          nextIdentity := m.nextIdentity + 1 } :=
  rfl

/-- Where `super` and `this` are found, the method is looked for in the class that is `super` and
becomes a function of the object that is `this`. -/
theorem superMethod_eq {id : NodeId} {d : Nat} {c own : ClassValue} {i : ObjectId}
    (hd : m.distance? id = some (d + 1))
    (hsuper : m.frames.getAt m.current (d + 1) "super" = .ok (.classObject c))
    (hthis : m.frames.getAt m.current d "this" = .ok (.object i own)) (keyword method : Name) :
    superMethod .none id keyword method m =
      match c.findMethod? method.text with
      | some found => methodValue .none found (.object i own) m
      | none => .error (.fault ⟨.undefinedProperty method.text, method.line⟩) m := by
  have hget (f : Machine → Run Value) :
      (Watch.none (.super id keyword method) >>= fun _ => get >>= f) m = f m m := rfl
  have hfound {α : Type} (a : α) (f : α → Run Value) :
      (ofLookup keyword.line (.ok a) >>= f) m = f a m := rfl
  unfold superMethod
  rw [hget, hd]
  dsimp only
  rw [hsuper, hfound]
  dsimp only
  rw [Nat.add_sub_cancel, hthis, hfound]
  dsimp only
  cases c.findMethod? method.text <;> rfl

/-- What comes of looking for a method of an object from a class upward: the method of the nearest
layer that has one, in a frame of its own that knows the object as `this`, or else a fault. -/
inductive MethodOutcome (c : ClassValue) (this : Value) (method : Name) (m : Machine) :
    EStateM.Result Stop Machine Value → Prop
  | found {nearer farther : List Layer} {layer : Layer} {found : Closure} :
      c.layers = nearer ++ layer :: farther → (∀ l ∈ nearer, l.methods.get? method.text = none) →
      layer.methods.get? method.text = some found →
      MethodOutcome c this method m
        (.ok (.function m.nextIdentity { found with frame := m.frames.nextId })
          { m with
            frames := m.frames.addChild found.frame (.single "this" this)
            nextIdentity := m.nextIdentity + 1 })
  | missing : (∀ l ∈ c.layers, l.methods.get? method.text = none) →
      MethodOutcome c this method m (.error (.fault ⟨.undefinedProperty method.text, method.line⟩) m)

theorem superMethod_outcome {id : NodeId} {d : Nat} {c own : ClassValue} {i : ObjectId}
    (hd : m.distance? id = some (d + 1))
    (hsuper : m.frames.getAt m.current (d + 1) "super" = .ok (.classObject c))
    (hthis : m.frames.getAt m.current d "this" = .ok (.object i own)) (keyword method : Name) :
    MethodOutcome c (.object i own) method m (superMethod .none id keyword method m) := by
  rw [superMethod_eq hd hsuper hthis]
  cases hf : c.findMethod? method.text with
  | none => exact .missing (ClassValue.findMethod?_eq_none_iff.1 hf)
  | some found =>
    obtain ⟨nearer, layer, farther, hlayers, hlayer, hnearer⟩ :=
      ClassValue.findMethod?_eq_some_iff.1 hf
    exact .found hlayers hnearer hlayer

end Run

end ClassScript
