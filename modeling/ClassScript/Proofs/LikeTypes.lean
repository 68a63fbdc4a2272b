import ClassScript.Proofs.PairedBindings
import ClassScript.Proofs.Relabel
import ClassScript.Typing.Checker

/-!
# The same types over other class numbers

Two class tables may hold the same classes under different numbers, each next to classes that the other
one does not have. `ClassPairs` says which classes correspond; types, members and scopes are alike if they
say the same about corresponding classes. All questions to a table have the same answer, and expressions
have the same types (`typeOf_agrees`), up to such numbers and to the lines of errors.
-/

set_option autoImplicit false

namespace ClassScript

variable {ι κ α β γ δ : Type}

/-! ## Types -/

/-- Which classes of two tables correspond, where no class corresponds to two others, and the numbers of
the next classes of both. -/
structure ClassPairs where
  pair : ClassId → ClassId → Prop
  left : ∀ {i j k : ClassId}, pair i k → pair j k → i = j
  right : ∀ {i j k : ClassId}, pair i j → pair i k → j = k
  next : ClassId
  next' : ClassId

/-- More classes correspond. -/
def ClassPairs.le (A B : ClassPairs) : Prop :=
  ∀ i j, A.pair i j → B.pair i j

theorem ClassPairs.le.option {A B : ClassPairs} (h : A.le B) {i j : Option ClassId}
    (hij : Option.Rel A.pair i j) : Option.Rel B.pair i j :=
  rel_mono h hij

mutual

/-- The types say the same about corresponding classes. -/
inductive Ty.Like (K : ClassPairs) : Ty → Ty → Prop
  | nil : Ty.Like K .nil .nil
  | number : Ty.Like K .number .number
  | string : Ty.Like K .string .string
  | boolean : Ty.Like K .boolean .boolean
  | void : Ty.Like K .void .void
  | function {name : String} {params params' : List Ty} {result result' : Ty} :
    Ty.LikeAll K params params' → Ty.Like K result result' →
      Ty.Like K (.function name params result) (.function name params' result')
  | classObject {i j : ClassId} : K.pair i j → Ty.Like K (.classObject i) (.classObject j)
  | object {i j : ClassId} : K.pair i j → Ty.Like K (.object i) (.object j)

/-- The types say the same about corresponding classes, one by one. -/
inductive Ty.LikeAll (K : ClassPairs) : List Ty → List Ty → Prop
  | nil : Ty.LikeAll K [] []
  | cons {a b : Ty} {as bs : List Ty} :
    Ty.Like K a b → Ty.LikeAll K as bs → Ty.LikeAll K (a :: as) (b :: bs)

end

/-- The signatures say the same about corresponding classes. -/
structure Signature.Like (K : ClassPairs) (s s' : Signature) : Prop where
  name : s'.name = s.name
  params : Ty.LikeAll K s.params s'.params
  result : s.result.Like K s'.result

/-- The classes have the same name and corresponding ancestors and members. -/
structure ClassInfo.Like (K : ClassPairs) (c d : ClassInfo) : Prop where
  name : d.name = c.name
  ancestors : List.Forall₂ K.pair c.ancestors d.ancestors
  methods : Bindings.Forall₂ (Signature.Like K) c.methods d.methods
  fields : Bindings.Forall₂ (Ty.Like K) c.fields d.fields

/-- Corresponding classes are in the tables and alike. -/
structure ClassTable.Like (K : ClassPairs) (t t' : ClassTable) : Prop where
  classes : ∀ i j, K.pair i j →
    ∃ c d, t.classes[i]? = some c ∧ t'.classes[j]? = some d ∧ c.Like K d
  next : t.nextId = K.next
  next' : t'.nextId = K.next'

/-- The same names are in scope, with types that are alike. -/
structure TypeScope.Like (K : ClassPairs) (s s' : TypeScope) : Prop where
  globals : Bindings.Forall₂ (Ty.Like K) s.globals s'.globals
  locals : List.Forall₂ (Bindings.Forall₂ (Ty.Like K)) s.locals s'.locals

section

variable {K K' : ClassPairs}

mutual

theorem Ty.Like.mono (hle : K.le K') : ∀ {a b : Ty}, a.Like K b → a.Like K' b
  | _, _, .nil => .nil
  | _, _, .number => .number
  | _, _, .string => .string
  | _, _, .boolean => .boolean
  | _, _, .void => .void
  | _, _, .function hps hr => .function (Ty.LikeAll.mono hle hps) (Ty.Like.mono hle hr)
  | _, _, .classObject h => .classObject (hle _ _ h)
  | _, _, .object h => .object (hle _ _ h)
termination_by structural _ _ h => h

theorem Ty.LikeAll.mono (hle : K.le K') : ∀ {as bs : List Ty}, Ty.LikeAll K as bs → Ty.LikeAll K' as bs
  | _, _, .nil => .nil
  | _, _, .cons h hs => .cons (Ty.Like.mono hle h) (Ty.LikeAll.mono hle hs)
termination_by structural _ _ h => h

end

theorem Signature.Like.mono (hle : K.le K') {s s' : Signature} (h : s.Like K s') : s.Like K' s' :=
  ⟨h.name, h.params.mono hle, h.result.mono hle⟩

theorem Signature.Like.ty {s s' : Signature} (h : s.Like K s') : s.ty.Like K s'.ty := by
  unfold Signature.ty
  rw [h.name]
  exact .function h.params h.result

theorem ClassInfo.Like.mono (hle : K.le K') {c d : ClassInfo} (h : c.Like K d) : c.Like K' d where
  name := h.name
  ancestors := h.ancestors.imp hle
  methods := h.methods.mono fun _ _ => Signature.Like.mono hle
  fields := h.fields.mono fun _ _ => Ty.Like.mono hle

theorem TypeScope.Like.mono (hle : K.le K') {s s' : TypeScope} (h : s.Like K s') : s.Like K' s' where
  globals := h.globals.mono fun _ _ => Ty.Like.mono hle
  locals := h.locals.imp fun _ _ hb => hb.mono fun _ _ => Ty.Like.mono hle

theorem ClassPairs.beq (K : ClassPairs) {i j i' j' : ClassId} (h : K.pair i j) (h' : K.pair i' j') :
    (j == j') = (i == i') := by
  by_cases he : i = i'
  · subst he
    rw [K.right h h']
    simp
  · have hne : j ≠ j' := fun hj => he (K.left h (hj ▸ h'))
    simp [he, hne]

mutual

theorem Ty.Like.same : ∀ {a a' : Ty}, a.Like K a' → ∀ {b b' : Ty}, b.Like K b' →
    a'.same b' = a.same b
  | _, _, .function hps hr, _, _, hb => by
    cases hb with
    | function hqs hs => rw [Ty.same, Ty.same, Ty.LikeAll.same hps hqs, Ty.Like.same hr hs]
    | _ => rfl
  | _, _, .classObject h, _, _, hb => by
    cases hb with
    | classObject h' => exact K.beq h h'
    | _ => rfl
  | _, _, .object h, _, _, hb => by
    cases hb with
    | object h' => exact K.beq h h'
    | _ => rfl
  | _, _, .nil, _, _, hb => by cases hb <;> rfl
  | _, _, .number, _, _, hb => by cases hb <;> rfl
  | _, _, .string, _, _, hb => by cases hb <;> rfl
  | _, _, .boolean, _, _, hb => by cases hb <;> rfl
  | _, _, .void, _, _, hb => by cases hb <;> rfl
termination_by structural _ _ h => h

theorem Ty.LikeAll.same : ∀ {as as' : List Ty}, Ty.LikeAll K as as' → ∀ {bs bs' : List Ty},
    Ty.LikeAll K bs bs' → Ty.sameAll as' bs' = Ty.sameAll as bs
  | _, _, .nil, _, _, hbs => by cases hbs <;> rfl
  | _, _, .cons h hs, _, _, hbs => by
    cases hbs with
    | nil => rfl
    | cons h' hs' => rw [Ty.sameAll, Ty.sameAll, Ty.Like.same h h', Ty.LikeAll.same hs hs']
termination_by structural _ _ h => h

end

theorem Ty.LikeAll.length {as bs : List Ty} (h : Ty.LikeAll K as bs) : bs.length = as.length := by
  induction as generalizing bs with
  | nil => cases h; rfl
  | cons a as ih =>
    cases h with
    | cons _ hs => rw [List.length_cons, List.length_cons, ih hs]

theorem Ty.Like.requiresInitializer {a b : Ty} (h : a.Like K b) :
    b.requiresInitializer = a.requiresInitializer := by
  cases h <;> rfl

/-! ## Questions to a table -/

namespace ClassTable.Like

variable {t t' : ClassTable} {i j : ClassId} {x : String}

theorem name (ht : t.Like K t') (h : K.pair i j) : t'.name j = t.name i := by
  obtain ⟨c, d, hc, hd, hcd⟩ := ht.classes i j h
  unfold ClassTable.name
  rw [hc, hd]
  exact hcd.name

theorem lineage (ht : t.Like K t') (h : K.pair i j) :
    List.Forall₂ K.pair (t.lineage i) (t'.lineage j) := by
  obtain ⟨c, d, hc, hd, hcd⟩ := ht.classes i j h
  unfold ClassTable.lineage
  rw [hc, hd]
  exact .cons h hcd.ancestors

theorem superclass? (ht : t.Like K t') (h : K.pair i j) :
    Option.Rel K.pair (t.superclass? i) (t'.superclass? j) := by
  obtain ⟨c, d, hc, hd, hcd⟩ := ht.classes i j h
  unfold ClassTable.superclass?
  rw [hc, hd]
  show Option.Rel K.pair c.ancestors.head? d.ancestors.head?
  have hline := hcd.ancestors
  generalize c.ancestors = l at hline
  generalize d.ancestors = m at hline
  cases hline with
  | nil => exact .none
  | cons h _ => exact .some h

theorem ownMethod? (ht : t.Like K t') (h : K.pair i j) :
    Option.Rel (Signature.Like K) (t.ownMethod? i x) (t'.ownMethod? j x) := by
  obtain ⟨c, d, hc, hd, hcd⟩ := ht.classes i j h
  unfold ClassTable.ownMethod?
  rw [hc, hd]
  exact hcd.methods.get? x

theorem ownField? (ht : t.Like K t') (h : K.pair i j) :
    Option.Rel (Ty.Like K) (t.ownField? i x) (t'.ownField? j x) := by
  obtain ⟨c, d, hc, hd, hcd⟩ := ht.classes i j h
  unfold ClassTable.ownField?
  rw [hc, hd]
  exact hcd.fields.get? x

/-- The first answer along two lines of corresponding classes is the same. -/
theorem findSome? {R : α → β → Prop} {f : ClassId → Option α} {g : ClassId → Option β}
    {l m : List ClassId} (h : List.Forall₂ K.pair l m)
    (hfg : ∀ i j, K.pair i j → Option.Rel R (f i) (g j)) :
    Option.Rel R (l.findSome? f) (m.findSome? g) := by
  induction h with
  | nil => exact .none
  | @cons i j _ _ hij _ ih =>
    have hfirst := hfg i j hij
    rw [List.findSome?_cons, List.findSome?_cons]
    generalize f i = a at hfirst
    generalize g j = b at hfirst
    cases hfirst with
    | none => exact ih
    | some hab => exact .some hab

theorem findMethod? (ht : t.Like K t') (h : K.pair i j) :
    Option.Rel (Signature.Like K) (t.findMethod? i x) (t'.findMethod? j x) :=
  findSome? (ht.lineage h) fun _ _ => ht.ownMethod?

theorem findField? (ht : t.Like K t') (h : K.pair i j) :
    Option.Rel (Ty.Like K) (t.findField? i x) (t'.findField? j x) :=
  findSome? (ht.lineage h) fun _ _ => ht.ownField?

theorem initializer? (ht : t.Like K t') (h : K.pair i j) :
    Option.Rel (Signature.Like K) (t.initializer? i) (t'.initializer? j) := by
  unfold ClassTable.initializer?
  rw [ht.name h]
  exact ht.ownMethod? h

theorem isSubclass {i' j' : ClassId} (ht : t.Like K t') (h : K.pair i j) (h' : K.pair i' j') :
    t'.isSubclass j j' = t.isSubclass i i' := by
  unfold ClassTable.isSubclass
  have hline := ht.lineage h
  generalize t.lineage i = l at hline
  generalize t'.lineage j = m at hline
  induction hline with
  | nil => rfl
  | cons hab _ ih => rw [List.contains_cons, List.contains_cons, ih, K.beq h' hab]

theorem accepts {a a' b b' : Ty} (ht : t.Like K t') (ha : a.Like K a') (hb : b.Like K b') :
    t'.accepts a' b' = t.accepts a b := by
  have hsame := ha.same hb
  cases ha with
  | object h =>
    cases hb with
    | object h' => exact ht.isSubclass h' h
    | _ => rfl
  | void => cases hb <;> rfl
  | _ => cases hb <;> exact hsame

mutual

theorem text (ht : t.Like K t') : ∀ {a a' : Ty}, a.Like K a' → t'.text a' = t.text a
  | _, _, .nil => rfl
  | _, _, .number => rfl
  | _, _, .string => rfl
  | _, _, .boolean => rfl
  | _, _, .void => rfl
  | _, _, .function hps hr => by
    rw [ClassTable.text, ClassTable.text, texts ht hps, text ht hr]
  | _, _, .classObject h => by rw [ClassTable.text, ClassTable.text, ht.name h]
  | _, _, .object h => by rw [ClassTable.text, ClassTable.text, ht.name h]
termination_by structural _ _ h => h

theorem texts (ht : t.Like K t') : ∀ {as as' : List Ty}, Ty.LikeAll K as as' →
    t'.texts as' = t.texts as
  | _, _, .nil => rfl
  | _, _, .cons h hs => by rw [ClassTable.texts, ClassTable.texts, text ht h, texts ht hs]
termination_by structural _ _ h => h

end

end ClassTable.Like

/-! ## Scopes -/

namespace TypeScope.Like

variable {s s' : TypeScope}

theorem lookupLocal? {l m : List (Bindings Ty)}
    (h : List.Forall₂ (Bindings.Forall₂ (Ty.Like K)) l m) (x : String) :
    Option.Rel (Ty.Like K) (TypeScope.lookupLocal? x l) (TypeScope.lookupLocal? x m) := by
  induction h with
  | nil => exact .none
  | @cons b c _ _ hbc _ ih =>
    have hfirst := hbc.get? x
    rw [TypeScope.lookupLocal?, TypeScope.lookupLocal?]
    generalize b.get? x = a at hfirst
    generalize c.get? x = d at hfirst
    cases hfirst with
    | none => exact ih
    | some hab => exact .some hab

theorem get? (h : s.Like K s') (x : String) : Option.Rel (Ty.Like K) (s.get? x) (s'.get? x) := by
  have hlocal := lookupLocal? h.locals x
  unfold TypeScope.get?
  generalize TypeScope.lookupLocal? x s.locals = a at hlocal
  generalize TypeScope.lookupLocal? x s'.locals = b at hlocal
  cases hlocal with
  | none => exact h.globals.get? x
  | some hab => exact .some hab

theorem define (h : s.Like K s') (x : String) {a b : Ty} (hab : a.Like K b) :
    (s.define x a).Like K (s'.define x b) := by
  obtain ⟨globals, locals⟩ := s
  obtain ⟨globals', locals'⟩ := s'
  obtain ⟨hg, hl⟩ := h
  dsimp only at hg hl
  cases hl with
  | nil => exact ⟨hg.insert x hab, .nil⟩
  | cons hb hrest => exact ⟨hg, .cons (hb.insert x hab) hrest⟩

theorem enter (h : s.Like K s') {b c : Bindings Ty} (hbc : Bindings.Forall₂ (Ty.Like K) b c) :
    (s.enter b).Like K (s'.enter c) :=
  ⟨h.globals, .cons hbc h.locals⟩

end TypeScope.Like

end

/-! ## Expressions -/

namespace Typing

/-- Both find something, and what they find corresponds, or both fail for the same reason, on
lines that correspond. -/
inductive Agree (f : Nat → Nat) (R : α → β → Prop) :
    Except TypeError α → Except TypeError β → Prop
  | ok {a : α} {b : β} : R a b → Agree f R (.ok a) (.ok b)
  | error (cause : TypeCause) (line : Nat) :
    Agree f R (.error ⟨cause, line⟩) (.error ⟨cause, f line⟩)

namespace Agree

variable {f : Nat → Nat} {R : α → β → Prop} {Q : γ → δ → Prop} {x : Except TypeError α}
  {y : Except TypeError β}

theorem bind {u : α → Except TypeError γ} {v : β → Except TypeError δ} (h : Agree f R x y)
    (huv : ∀ a b, R a b → Agree f Q (u a) (v b)) : Agree f Q (x >>= u) (y >>= v) := by
  cases h with
  | ok hab => exact huv _ _ hab
  | error cause line => exact .error cause line

theorem map {u : α → γ} {v : β → δ} (h : Agree f R x y) (huv : ∀ a b, R a b → Q (u a) (v b)) :
    Agree f Q (x.map u) (y.map v) := by
  cases h with
  | ok hab => exact .ok (huv _ _ hab)
  | error cause line => exact .error cause line

end Agree

section

variable {K : ClassPairs} {t t' : ClassTable} {scope scope' : TypeScope} {a a' b b' : Ty}

theorem lookUp_agrees (f : Nat → Nat) (hs : scope.Like K scope') (name : String) (line : Nat) :
    Agree f (Ty.Like K) (lookUp scope name line) (lookUp scope' name (f line)) := by
  have h := hs.get? name
  unfold lookUp
  generalize scope.get? name = r at h
  generalize scope'.get? name = r' at h
  cases h with
  | none => exact .error _ _
  | some h => exact .ok h

theorem require_agrees (f : Nat → Nat) (condition : Bool) (cause : TypeCause) (line : Nat) :
    Agree f (fun _ _ => True) (require condition cause line) (require condition cause (f line)) := by
  cases condition with
  | false => exact .error _ _
  | true => exact .ok trivial

theorem literal_like (l : Literal) : (literal l).Like K (literal l) := by
  cases l
  · exact .nil
  · exact .boolean
  · exact .number
  · exact .string

theorem binary_agrees (f : Nat → Nat) (ht : t.Like K t') (ha : a.Like K a') (hb : b.Like K b')
    (operator : Token) :
    Agree f (Ty.Like K) (binary t operator a b) (binary t' (operator.onLine f) a' b') := by
  unfold binary
  simp only [Token.lexeme_onLine, Token.line_onLine, ht.text ha, ht.text hb, ha.same hb,
    ht.accepts ha hb, ht.accepts hb ha]
  rw [show operation? (operator.onLine f) = operation? operator from rfl]
  cases operation? operator with
  | none => exact .error _ _
  | some op =>
    cases op with
    | equate =>
      dsimp only
      split
      · exact .ok .boolean
      · exact .error _ _
    | _ => cases ha <;> cases hb <;> first | exact .error _ _ | exact .ok (by constructor)

theorem arguments_agree (f : Nat → Nat) (ht : t.Like K t') (line : Nat) (callee : String)
    {ps ps' as as' : List Ty} (hps : Ty.LikeAll K ps ps') (has : Ty.LikeAll K as as')
    (position : Nat) :
    Agree f (fun _ _ => True) (arguments t line callee position ps as)
      (arguments t' (f line) callee position ps' as') := by
  induction ps generalizing ps' as as' position with
  | nil => cases hps; exact .ok trivial
  | cons p ps ih =>
    cases hps with
    | cons hp hps =>
      cases has with
      | nil => exact .ok trivial
      | cons ha has =>
        simp only [arguments, ht.accepts hp ha, ht.text hp, ht.text ha]
        split
        · exact ih hps has (position + 1)
        · exact .error _ _

theorem checkArguments_agrees (f : Nat → Nat) (ht : t.Like K t') (line : Nat) (callee : String)
    {ps ps' as as' : List Ty} (hps : Ty.LikeAll K ps ps') (has : Ty.LikeAll K as as') :
    Agree f (fun _ _ => True) (checkArguments t line callee ps as)
      (checkArguments t' (f line) callee ps' as') := by
  unfold checkArguments
  rw [hps.length, has.length]
  exact (require_agrees f _ _ line).bind fun _ _ _ => arguments_agree f ht line callee hps has 1

theorem constructorParams_like (ht : t.Like K t') {i j : ClassId} (h : K.pair i j) :
    Ty.LikeAll K (constructorParams t i) (constructorParams t' j) := by
  have hinit := ht.initializer? h
  unfold constructorParams
  generalize t.initializer? i = r at hinit
  generalize t'.initializer? j = r' at hinit
  cases hinit with
  | none => exact .nil
  | some hs => exact hs.params

theorem call_agrees (f : Nat → Nat) (ht : t.Like K t') (line : Nat) (ha : a.Like K a')
    {as as' : List Ty} (has : Ty.LikeAll K as as') :
    Agree f (Ty.Like K) (call t line a as) (call t' (f line) a' as') := by
  cases ha with
  | classObject h =>
    simp only [call, ht.name h]
    exact (checkArguments_agrees f ht line _ (constructorParams_like ht h) has).bind fun _ _ _ =>
      .ok (.object h)
  | function hps hr =>
    exact (checkArguments_agrees f ht line _ hps has).bind fun _ _ _ => .ok hr
  | object h =>
    simp only [call, ht.text (.object h)]
    exact .error _ _
  | _ => exact .error _ _

theorem property?_like (ht : t.Like K t') {i j : ClassId} (h : K.pair i j) (name : String) :
    Option.Rel (Ty.Like K) (property? t i name) (property? t' j name) := by
  have hfield := ht.findField? (x := name) h
  have hmethod := ht.findMethod? (x := name) h
  unfold property?
  generalize t.findField? i name = r at hfield
  generalize t'.findField? j name = r' at hfield
  cases hfield with
  | some hty => exact .some hty
  | none =>
    generalize t.findMethod? i name = u at hmethod
    generalize t'.findMethod? j name = u' at hmethod
    cases hmethod with
    | none => exact .none
    | some hs => exact .some hs.ty

theorem property_agrees (f : Nat → Nat) (ht : t.Like K t') (ha : a.Like K a') (name : Name) :
    Agree f (Ty.Like K) (property t a name) (property t' a' (name.onLine f)) := by
  have htext := ht.text ha
  cases ha with
  | @object i j h =>
    have hp := property?_like ht h name.text
    simp only [property, Name.text_onLine, Name.line_onLine, ht.name h]
    generalize property? t i name.text = r at hp
    generalize property? t' j name.text = r' at hp
    cases hp with
    | none => exact .error _ _
    | some hty => exact .ok hty
  | _ =>
    simp only [property, htext]
    exact .error _ _

theorem field_agrees (f : Nat → Nat) (ht : t.Like K t') (ha : a.Like K a') (name : Name) :
    Agree f (Ty.Like K) (field t a name) (field t' a' (name.onLine f)) := by
  cases ha with
  | @object i j h =>
    have hp := ht.findField? (x := name.text) h
    simp only [field, Name.text_onLine, Name.line_onLine, ht.name h]
    generalize t.findField? i name.text = r at hp
    generalize t'.findField? j name.text = r' at hp
    cases hp with
    | none => exact .error _ _
    | some hty => exact .ok hty
  | _ => exact .error _ _

theorem superMethod_agrees (f : Nat → Nat) (ht : t.Like K t') (hs : scope.Like K scope')
    (keyword method : Name) :
    Agree f (Ty.Like K) (superMethod t scope keyword method)
      (superMethod t' scope' (keyword.onLine f) (method.onLine f)) := by
  refine (lookUp_agrees f hs "super" keyword.line).bind fun a a' ha => ?_
  cases ha with
  | @object i j h =>
    have hm := ht.findMethod? (x := method.text) h
    simp only [Name.text_onLine, Name.line_onLine, ht.name h]
    generalize t.findMethod? i method.text = r at hm
    generalize t'.findMethod? j method.text = r' at hm
    cases hm with
    | none => exact .error _ _
    | some hsig => exact .ok hsig.ty
  | _ => exact .error _ _

variable (ρ : Relabel ι κ)

theorem increment_agrees (ht : t.Like K t') (hs : scope.Like K scope') (operand : Expr ι)
    (operator : Token) :
    Agree ρ.line (Ty.Like K) (increment t scope operand operator)
      (increment t' scope' (operand.relabel ρ) (operator.onLine ρ.line)) := by
  match operand with
  | .variable _ name =>
    refine (lookUp_agrees ρ.line hs name.text name.line).bind fun a a' ha => ?_
    rw [ht.text ha, ha.same .number]
    exact (require_agrees ρ.line _ _ _).bind fun _ _ _ => .ok .number
  | .literal _ => exact .error _ _
  | .unary _ _ => exact .error _ _
  | .suffixed _ _ => exact .error _ _
  | .binary _ _ _ => exact .error _ _
  | .logical _ _ _ => exact .error _ _
  | .grouping _ => exact .error _ _
  | .assign _ _ _ => exact .error _ _
  | .call _ _ _ => exact .error _ _
  | .get _ _ => exact .error _ _
  | .set _ _ _ => exact .error _ _
  | .this _ _ => exact .error _ _
  | .super _ _ _ => exact .error _ _

mutual

/-- An expression with other lines and labels has the same type. -/
theorem typeOf_agrees (ht : t.Like K t') (hs : scope.Like K scope') : ∀ e : Expr ι,
    Agree ρ.line (Ty.Like K) (typeOf t scope e) (typeOf t' scope' (e.relabel ρ))
  | .literal value => .ok (literal_like value)
  | .grouping inner => typeOf_agrees ht hs inner
  | .unary operator operand => by
    rw [Expr.relabel, typeOf, typeOf]
    rw [show isIncrement (operator.onLine ρ.line) = isIncrement operator from rfl]
    split
    · exact increment_agrees ρ ht hs operand operator
    · refine (typeOf_agrees ht hs operand).bind fun a a' ha => ?_
      rw [Token.isSymbol_onLine]
      split
      · exact .ok .boolean
      · rw [ht.text ha, ha.same .number]
        exact (require_agrees ρ.line _ _ _).bind fun _ _ _ => .ok .number
  | .suffixed operand operator => increment_agrees ρ ht hs operand operator
  | .binary left operator right =>
    (typeOf_agrees ht hs left).bind fun _ _ hl => (typeOf_agrees ht hs right).bind fun _ _ hr =>
      binary_agrees ρ.line ht hl hr operator
  | .logical left operator right => by
    refine (typeOf_agrees ht hs left).bind fun _ _ hl =>
      (typeOf_agrees ht hs right).bind fun _ _ hr => ?_
    rw [ht.text hl, ht.text hr, hl.same .boolean, hr.same .boolean]
    exact (require_agrees ρ.line _ _ _).bind fun _ _ _ => .ok .boolean
  | .variable _ name => lookUp_agrees ρ.line hs name.text name.line
  | .assign _ name value => by
    refine (lookUp_agrees ρ.line hs name.text name.line).bind fun _ _ htarget =>
      (typeOf_agrees ht hs value).bind fun _ _ hty => ?_
    rw [ht.text htarget, ht.text hty, ht.accepts htarget hty]
    exact (require_agrees ρ.line _ _ _).bind fun _ _ _ => .ok htarget
  | .call callee line args =>
    (typeOf_agrees ht hs callee).bind fun _ _ hf => (typesOf_agrees ht hs args).bind fun _ _ has =>
      call_agrees ρ.line ht line hf has
  | .get object name =>
    (typeOf_agrees ht hs object).bind fun _ _ ho => property_agrees ρ.line ht ho name
  | .set object name value => by
    refine (typeOf_agrees ht hs object).bind fun _ _ ho =>
      (field_agrees ρ.line ht ho name).bind fun _ _ hd =>
        (typeOf_agrees ht hs value).bind fun _ _ hg => ?_
    rw [ht.text hd, ht.text hg, ht.accepts hd hg]
    exact (require_agrees ρ.line _ _ _).bind fun _ _ _ => .ok hd
  | .this _ keyword => lookUp_agrees ρ.line hs "this" keyword.line
  | .super _ keyword method => superMethod_agrees ρ.line ht hs keyword method
termination_by structural e => e

theorem typesOf_agrees (ht : t.Like K t') (hs : scope.Like K scope') : ∀ es : List (Expr ι),
    Agree ρ.line (Ty.LikeAll K) (typesOf t scope es) (typesOf t' scope' (Expr.relabelAll ρ es))
  | [] => .ok .nil
  | e :: rest =>
    (typeOf_agrees ht hs e).bind fun _ _ h => (typesOf_agrees ht hs rest).bind fun _ _ hrest =>
      .ok (.cons h hrest)
termination_by structural es => es

end

end

end Typing

end ClassScript
