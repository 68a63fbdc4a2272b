import ClassScript.Scope.Bindings

/-!
# Types

The types of values and the table of classes. Classes are told apart by their number, not by their
name. A class knows its ancestors, nearest first; its members are entered one by one after the
class itself. `accepts` is assignability: a type accepts itself, a class its descendants and `nil`,
and `void` accepts `nil`.
-/

set_option autoImplicit false

namespace ClassScript

/-- The number of a class in the table of classes. -/
abbrev ClassId := Nat

/-- The type of a value. A function type carries the name of its declaration, which is no part of
what the type says. -/
inductive Ty where
  | nil
  | number
  | string
  | boolean
  | void
  | function (name : String) (params : List Ty) (result : Ty)
  | classObject (id : ClassId)
  | object (id : ClassId)
  deriving Repr

/-- What the declaration of a function says about its type. -/
structure Signature where
  name : String
  params : List Ty
  result : Ty
  deriving Repr

/-- The type of a function with this signature. -/
def Signature.ty (s : Signature) : Ty :=
  .function s.name s.params s.result

/-! ## Equality -/

mutual

/-- Whether two types say the same. -/
def Ty.same : Ty → Ty → Bool
  | .nil, .nil => true
  | .number, .number => true
  | .string, .string => true
  | .boolean, .boolean => true
  | .void, .void => true
  | .function _ params result, .function _ params' result' =>
    Ty.sameAll params params' && result.same result'
  | .classObject id, .classObject id' => id == id'
  | .object id, .object id' => id == id'
  | _, _ => false
termination_by structural t => t

/-- Whether two lists of types say the same, one by one. -/
def Ty.sameAll : List Ty → List Ty → Bool
  | [], [] => true
  | t :: ts, u :: us => t.same u && Ty.sameAll ts us
  | _, _ => false
termination_by structural ts => ts

end

/-- Whether a variable of this type must be given a value. -/
def Ty.requiresInitializer : Ty → Bool
  | .number => true
  | .string => true
  | .boolean => true
  | _ => false

/-! ## Classes -/

/-- A class: its name, its ancestors, nearest first, and its own members. -/
structure ClassInfo where
  name : String
  ancestors : List ClassId
  methods : Bindings Signature
  fields : Bindings Ty
  deriving Repr

/-- The classes, by number. -/
structure ClassTable where
  classes : Array ClassInfo
  deriving Repr

namespace ClassTable

/-- No classes. -/
def empty : ClassTable :=
  ⟨#[]⟩

/-- The class with this number and its ancestors, nearest first. -/
def lineage (t : ClassTable) (id : ClassId) : List ClassId :=
  match t.classes[id]? with
  | some c => id :: c.ancestors
  | none => [id]

/-- The name of a class. -/
def name (t : ClassTable) (id : ClassId) : String :=
  match t.classes[id]? with
  | some c => c.name
  | none => ""

/-- The direct superclass of a class. -/
def superclass? (t : ClassTable) (id : ClassId) : Option ClassId :=
  t.classes[id]?.bind fun c => c.ancestors.head?

/-- The lineage of a superclass that may be missing. -/
def lineageOption (t : ClassTable) : Option ClassId → List ClassId
  | none => []
  | some id => t.lineage id

/-- Adds a class without members; its number is the number of classes before. -/
def add (t : ClassTable) (name : String) (superclass : Option ClassId) : ClassTable :=
  ⟨t.classes.push ⟨name, t.lineageOption superclass, .empty, .empty⟩⟩

/-- The number of the next class. -/
def nextId (t : ClassTable) : ClassId :=
  t.classes.size

/-- Enters a method of a class. -/
def addMethod (t : ClassTable) (id : ClassId) (name : String) (s : Signature) : ClassTable :=
  ⟨t.classes.modify id fun c => ⟨c.name, c.ancestors, c.methods.insert name s, c.fields⟩⟩

/-- Enters a field of a class. -/
def addField (t : ClassTable) (id : ClassId) (name : String) (ty : Ty) : ClassTable :=
  ⟨t.classes.modify id fun c => ⟨c.name, c.ancestors, c.methods, c.fields.insert name ty⟩⟩

/-- The class's own method of this name. -/
def ownMethod? (t : ClassTable) (id : ClassId) (name : String) : Option Signature :=
  t.classes[id]?.bind fun c => c.methods.get? name

/-- The class's own field of this name. -/
def ownField? (t : ClassTable) (id : ClassId) (name : String) : Option Ty :=
  t.classes[id]?.bind fun c => c.fields.get? name

/-- The method of this name in the class or in its nearest ancestor that has one. -/
def findMethod? (t : ClassTable) (id : ClassId) (name : String) : Option Signature :=
  (t.lineage id).findSome? fun c => t.ownMethod? c name

/-- The field of this name in the class or in its nearest ancestor that has one. -/
def findField? (t : ClassTable) (id : ClassId) (name : String) : Option Ty :=
  (t.lineage id).findSome? fun c => t.ownField? c name

/-- The initializer of a class: its own method with its own name. -/
def initializer? (t : ClassTable) (id : ClassId) : Option Signature :=
  t.ownMethod? id (t.name id)

/-- Whether a class is another one or descends from it. -/
def isSubclass (t : ClassTable) (id ancestor : ClassId) : Bool :=
  (t.lineage id).contains ancestor

/-- Whether a value of type `value` may be stored where `target` is declared. -/
def accepts (t : ClassTable) (target value : Ty) : Bool :=
  match target, value with
  | .object id, .object id' => t.isSubclass id' id
  | .object _, .nil => true
  | .void, .nil => true
  | target, value => target.same value

mutual

/-- A type as text. -/
def text (t : ClassTable) : Ty → String
  | .nil => "nil"
  | .number => "number"
  | .string => "string"
  | .boolean => "boolean"
  | .void => "void"
  | .function _ params result =>
    "fun(" ++ ", ".intercalate (t.texts params) ++ "): " ++ t.text result
  | .classObject id => "class " ++ t.name id
  | .object id => t.name id
termination_by structural ty => ty

/-- The texts of types. -/
def texts (t : ClassTable) : List Ty → List String
  | [] => []
  | ty :: rest => t.text ty :: t.texts rest
termination_by structural tys => tys

end

/-! ## Tables after a change -/

section

variable (t : ClassTable) (id i : ClassId) (x y : String)

@[simp] theorem nextId_addMethod (s : Signature) : (t.addMethod id x s).nextId = t.nextId := by
  simp [addMethod, nextId]

@[simp] theorem nextId_addField (ty : Ty) : (t.addField id x ty).nextId = t.nextId := by
  simp [addField, nextId]

@[simp] theorem nextId_add (parent : Option ClassId) : (t.add x parent).nextId = t.nextId + 1 := by
  simp [add, nextId]

theorem classes_addMethod (s : Signature) :
    (t.addMethod id x s).classes[i]? = t.classes[i]?.map fun c =>
      if id = i then ⟨c.name, c.ancestors, c.methods.insert x s, c.fields⟩ else c := by
  unfold addMethod
  rw [Array.getElem?_modify]
  by_cases h : id = i <;> simp [h]

theorem classes_addField (ty : Ty) :
    (t.addField id x ty).classes[i]? = t.classes[i]?.map fun c =>
      if id = i then ⟨c.name, c.ancestors, c.methods, c.fields.insert x ty⟩ else c := by
  unfold addField
  rw [Array.getElem?_modify]
  by_cases h : id = i <;> simp [h]

@[simp] theorem name_addMethod (s : Signature) : (t.addMethod id x s).name i = t.name i := by
  unfold name
  rw [classes_addMethod]
  by_cases h : id = i <;> cases t.classes[i]? <;> simp [h]

@[simp] theorem name_addField (ty : Ty) : (t.addField id x ty).name i = t.name i := by
  unfold name
  rw [classes_addField]
  by_cases h : id = i <;> cases t.classes[i]? <;> simp [h]

@[simp] theorem lineage_addMethod (s : Signature) :
    (t.addMethod id x s).lineage i = t.lineage i := by
  unfold lineage
  rw [classes_addMethod]
  by_cases h : id = i <;> cases t.classes[i]? <;> simp [h]

@[simp] theorem lineage_addField (ty : Ty) : (t.addField id x ty).lineage i = t.lineage i := by
  unfold lineage
  rw [classes_addField]
  by_cases h : id = i <;> cases t.classes[i]? <;> simp [h]

@[simp] theorem superclass?_addMethod (s : Signature) :
    (t.addMethod id x s).superclass? i = t.superclass? i := by
  unfold superclass?
  rw [classes_addMethod]
  by_cases h : id = i <;> cases t.classes[i]? <;> simp [h]

@[simp] theorem superclass?_addField (ty : Ty) :
    (t.addField id x ty).superclass? i = t.superclass? i := by
  unfold superclass?
  rw [classes_addField]
  by_cases h : id = i <;> cases t.classes[i]? <;> simp [h]

theorem ownMethod?_addMethod (s : Signature) :
    (t.addMethod id x s).ownMethod? i y =
      if id = i ∧ i < t.nextId ∧ x = y then some s else t.ownMethod? i y := by
  unfold ownMethod? nextId
  rw [classes_addMethod]
  by_cases hlt : i < t.classes.size
  · by_cases h : id = i <;> simp [h, hlt, Bindings.get?_insert]
  · simp [hlt]

@[simp] theorem ownField?_addMethod (s : Signature) :
    (t.addMethod id x s).ownField? i y = t.ownField? i y := by
  unfold ownField?
  rw [classes_addMethod]
  by_cases h : id = i <;> cases t.classes[i]? <;> simp [h]

@[simp] theorem ownMethod?_addField (ty : Ty) :
    (t.addField id x ty).ownMethod? i y = t.ownMethod? i y := by
  unfold ownMethod?
  rw [classes_addField]
  by_cases h : id = i <;> cases t.classes[i]? <;> simp [h]

theorem ownField?_addField (ty : Ty) :
    (t.addField id x ty).ownField? i y =
      if id = i ∧ i < t.nextId ∧ x = y then some ty else t.ownField? i y := by
  unfold ownField? nextId
  rw [classes_addField]
  by_cases hlt : i < t.classes.size
  · by_cases h : id = i <;> simp [h, hlt, Bindings.get?_insert]
  · simp [hlt]

theorem classes_add (parent : Option ClassId) :
    (t.add x parent).classes[i]? =
      if i = t.nextId then some ⟨x, t.lineageOption parent, .empty, .empty⟩
      else t.classes[i]? := by
  unfold add nextId
  rw [Array.getElem?_push]

end

end ClassTable

end ClassScript
