/-!
# Names bound to values

A finite map from names to values, each name bound once. Binding a name again replaces its value.
-/

set_option autoImplicit false

namespace ClassScript

/-- The value of a name in a list of pairs. -/
def lookupName {V : Type} (x : String) : List (String × V) → Option V
  | [] => none
  | (y, v) :: rest => if y = x then some v else lookupName x rest

/-- The list of pairs in which `x` has the value `v`. -/
def insertName {V : Type} (x : String) (v : V) : List (String × V) → List (String × V)
  | [] => [(x, v)]
  | (y, w) :: rest => if y = x then (y, v) :: rest else (y, w) :: insertName x v rest

/-- Names bound to values. -/
structure Bindings (V : Type) where
  entries : List (String × V)
  deriving Repr

namespace Bindings

variable {V : Type}

/-- No names. -/
def empty : Bindings V :=
  ⟨[]⟩

instance : Inhabited (Bindings V) := ⟨empty⟩

/-- The value of a name. -/
def get? (b : Bindings V) (x : String) : Option V :=
  lookupName x b.entries

/-- Binds a name, replacing its value if it is bound already. -/
def insert (b : Bindings V) (x : String) (v : V) : Bindings V :=
  ⟨insertName x v b.entries⟩

/-- Whether a name is bound. -/
def contains (b : Bindings V) (x : String) : Bool :=
  (b.get? x).isSome

/-- One name. -/
def single (x : String) (v : V) : Bindings V :=
  empty.insert x v

/-- Binds the names in order; the last value of a name stays. -/
def ofList (pairs : List (String × V)) : Bindings V :=
  pairs.foldl (fun b p => b.insert p.1 p.2) empty

/-- The bound names. -/
def names (b : Bindings V) : List String :=
  b.entries.map (·.1)

@[simp] theorem get?_empty (x : String) : (empty : Bindings V).get? x = none := rfl

theorem lookupName_insertName (x y : String) (v : V) (l : List (String × V)) :
    lookupName y (insertName x v l) = if x = y then some v else lookupName y l := by
  induction l with
  | nil => simp [insertName, lookupName]
  | cons p rest ih =>
    obtain ⟨z, w⟩ := p
    simp only [insertName]
    split
    next hz =>
      subst hz
      by_cases hy : z = y <;> simp [lookupName, hy]
    next hz =>
      by_cases hy : z = y
      · subst hy
        simp [lookupName, Ne.symm hz]
      · simp [lookupName, hy, ih]

theorem get?_insert (b : Bindings V) (x y : String) (v : V) :
    (b.insert x v).get? y = if x = y then some v else b.get? y :=
  lookupName_insertName x y v b.entries

@[simp] theorem get?_insert_self (b : Bindings V) (x : String) (v : V) :
    (b.insert x v).get? x = some v := by
  simp [get?_insert]

theorem get?_insert_of_ne (b : Bindings V) {x y : String} (v : V) (h : x ≠ y) :
    (b.insert x v).get? y = b.get? y := by
  simp [get?_insert, h]

theorem contains_insert (b : Bindings V) (x y : String) (v : V) :
    (b.insert x v).contains y = (x == y || b.contains y) := by
  by_cases h : x = y <;> simp [contains, get?_insert, h]

@[simp] theorem contains_empty (x : String) : (empty : Bindings V).contains x = false := rfl

theorem get?_single (x y : String) (v : V) :
    (single x v).get? y = if x = y then some v else none := by
  simp [single, get?_insert]

theorem contains_single (x y : String) (v : V) : (single x v).contains y = (x == y) := by
  simp [single, contains_insert]

/-- What is bound in a list of pairs is one of the pairs, or was bound before. -/
theorem get?_foldl_insert {pairs : List (String × V)} {b : Bindings V} {x : String} {v : V}
    (h : (pairs.foldl (fun b p => b.insert p.1 p.2) b).get? x = some v) :
    (x, v) ∈ pairs ∨ b.get? x = some v := by
  induction pairs generalizing b with
  | nil => exact .inr h
  | cons p rest ih =>
    rcases ih h with hr | hb
    · exact .inl (List.mem_cons_of_mem p hr)
    · rw [get?_insert] at hb
      split at hb
      next hx =>
        cases hb
        exact .inl (hx ▸ List.mem_cons_self ..)
      next => exact .inr hb

theorem get?_ofList {pairs : List (String × V)} {x : String} {v : V}
    (h : (ofList pairs).get? x = some v) : (x, v) ∈ pairs := by
  rcases get?_foldl_insert h with hp | he
  · exact hp
  · cases he

theorem contains_foldl_insert (pairs : List (String × V)) (b : Bindings V) (x : String) :
    (pairs.foldl (fun b p => b.insert p.1 p.2) b).contains x = true ↔
      x ∈ pairs.map (·.1) ∨ b.contains x = true := by
  induction pairs generalizing b with
  | nil => simp
  | cons p rest ih =>
    rw [List.foldl_cons, ih, contains_insert]
    simp only [List.map_cons, List.mem_cons, Bool.or_eq_true, beq_iff_eq, eq_comm (a := x)]
    rw [← or_assoc, or_comm (a := x ∈ _)]

theorem contains_ofList (pairs : List (String × V)) (x : String) :
    (ofList pairs).contains x = true ↔ x ∈ pairs.map (·.1) := by
  simp [ofList, contains_foldl_insert]

end Bindings

end ClassScript
