import ClassScript.Proofs.SuperPlaces
import ClassScript.Proofs.Safety

/-!
# Frames and the scopes they were made for

A `FrameWorld` remembers for every frame what it was made for, which names it binds, which class it
knows as `super`, and the places of the programs that were loaded. `Synced W f l` says that the
chain of the frame `f` leads through frames made for the scopes `l`, one for one, which bind the
names of these scopes, and then to the global frame. All code that a machine holds, in closures, in
classes and in objects, was found where its frame is in step with the scopes around it
(`FrameWorld.Knows`); this stays so while frames are added and names are bound (`FrameWorld.Le`).
-/

set_option autoImplicit false

namespace ClassScript

open Resolution

/-! ## Frames and scopes -/

/-- The frame was made for this part of a program. -/
def Opening.Opens : Opening → Site → Prop
  | .block body, .block body' => body = body'
  | .call decl, .routine decl' => decl = decl'
  | .method decl, .members c => decl ∈ c.methods
  | .fields decls, .members c => decls = c.fields
  | .superclass c, .superclass c' => c = c'
  | _, _ => False

/-- What is known of the frames of a machine. -/
structure FrameWorld where
  frames : Frames Value
  opening : FrameId → Option Opening
  declared : FrameId → Option ClassValue
  known : List Place

namespace FrameWorld

/-- Frames were added, names were bound and programs were loaded. -/
structure Le (A B : FrameWorld) : Prop where
  nextId : A.frames.nextId ≤ B.frames.nextId
  chain : ∀ f < A.frames.nextId, B.frames.chain f = A.frames.chain f
  binds : ∀ f x, A.frames.binds f x = true → B.frames.binds f x = true
  opening : ∀ f o, A.opening f = some o → B.opening f = some o
  declared : ∀ f c, A.declared f = some c → B.declared f = some c
  known : ∀ p ∈ A.known, p ∈ B.known

theorem Le.refl (W : FrameWorld) : Le W W :=
  ⟨Nat.le_refl _, fun _ _ => rfl, fun _ _ h => h, fun _ _ h => h, fun _ _ h => h, fun _ h => h⟩

theorem Le.trans {A B C : FrameWorld} (h : Le A B) (k : Le B C) : Le A C where
  nextId := Nat.le_trans h.nextId k.nextId
  chain f hf := (k.chain f (Nat.lt_of_lt_of_le hf h.nextId)).trans (h.chain f hf)
  binds f x hb := k.binds f x (h.binds f x hb)
  opening f o ho := k.opening f o (h.opening f o ho)
  declared f c hc := k.declared f c (h.declared f c hc)
  known p hp := k.known p (h.known p hp)

/-- The frame was made for the scope and binds its names. -/
structure ScopeIn (W : FrameWorld) (scope : LexicalScope) (f : FrameId) : Prop where
  inner : f ≠ Machine.globalFrame
  lt : f < W.frames.nextId
  opened : ∃ o, W.opening f = some o ∧ o.Opens scope.site
  names : ∀ x, scope.names.contains x = true → W.frames.binds f x = true

/-- The chain of the frame leads through frames made for the scopes to the global frame. -/
structure Synced (W : FrameWorld) (f : FrameId) (l : Lexical) : Prop where
  lt : f < W.frames.nextId
  chain : ∃ fs, W.frames.chain f = fs ++ [Machine.globalFrame] ∧ List.Forall₂ (ScopeIn W) l fs

theorem ScopeIn.mono {A B : FrameWorld} {scope : LexicalScope} {f : FrameId} (h : ScopeIn A scope f)
    (hle : Le A B) : ScopeIn B scope f where
  inner := h.inner
  lt := Nat.lt_of_lt_of_le h.lt hle.nextId
  opened := by
    obtain ⟨o, ho, hs⟩ := h.opened
    exact ⟨o, hle.opening f o ho, hs⟩
  names x hx := hle.binds f x (h.names x hx)

theorem Synced.mono {A B : FrameWorld} {f : FrameId} {l : Lexical} (h : Synced A f l)
    (hle : Le A B) : Synced B f l where
  lt := Nat.lt_of_lt_of_le h.lt hle.nextId
  chain := by
    obtain ⟨fs, hc, hf⟩ := h.chain
    exact ⟨fs, (hle.chain f h.lt).trans hc, hf.imp fun _ _ hs => hs.mono hle⟩

/-- The chain of the frame leads through frames made for the scopes around the use, and the name of
the use is found as far out as in these scopes, unless it is assigned to. -/
def Stands (W : FrameWorld) (f : FrameId) (o : Occurrence NodeId) : Prop :=
  ∃ around l, ⟨o, around⟩ ∈ W.known ∧ W.Synced f l ∧ around.map (·.site) = l.map (·.site) ∧
    (o.kind ≠ .assign →
      Resolution.depth? o.name.text around.scopes = Resolution.depth? o.name.text l.scopes)

theorem Stands.mono {A B : FrameWorld} {f : FrameId} {o : Occurrence NodeId} (h : Stands A f o)
    (hle : Le A B) : Stands B f o := by
  obtain ⟨around, l, hp, hl, hsites, hd⟩ := h
  exact ⟨around, l, hle.known _ hp, hl.mono hle, hsites, hd⟩

/-- What stands in scopes with which its frame is in step. -/
theorem Synced.stands {W : FrameWorld} {f : FrameId} {l : Lexical} (h : Synced W f l)
    {o : Occurrence NodeId} (hp : ⟨o, l⟩ ∈ W.known) : Stands W f o :=
  ⟨l, l, hp, h, rfl, fun _ => rfl⟩

/-- A name is found in the scope at its depth. -/
theorem scope_of_depth? {l : Lexical} {x : String} {d : Nat}
    (h : Resolution.depth? x l.scopes = some d) :
    ∃ scope, l[d]? = some scope ∧ scope.names.contains x = true := by
  induction l generalizing d with
  | nil => cases h
  | cons a outer ih =>
    simp only [Lexical.scopes, List.map_cons, Resolution.depth?] at h
    split at h
    next hc => cases h; exact ⟨a, rfl, hc⟩
    next =>
      obtain ⟨k, hk, rfl⟩ := Option.map_eq_some_iff.1 h
      obtain ⟨scope, hs, hn⟩ := ih hk
      exact ⟨scope, hs, hn⟩

/-- The frame as far out as a scope was made for the scope. -/
theorem Synced.frameAt {W : FrameWorld} {f : FrameId} {l : Lexical} (h : Synced W f l) {d : Nat}
    {scope : LexicalScope} (hs : l[d]? = some scope) :
    ∃ g, (W.frames.chain f)[d]? = some g ∧ ScopeIn W scope g := by
  obtain ⟨fs, hc, hf⟩ := h.chain
  obtain ⟨hlt, hget⟩ := List.getElem?_eq_some_iff.1 hs
  have hlt' : d < fs.length := hf.length_eq ▸ hlt
  have hin : ScopeIn W l[d] fs[d] := hf.get hlt hlt'
  refine ⟨fs[d], ?_, hget ▸ hin⟩
  rw [hc, List.getElem?_append_left hlt', List.getElem?_eq_getElem hlt']

/-- The scope as far out as a site is the one of the site. -/
theorem scope_of_site {l : Lexical} {d : Nat} {site : Site}
    (h : (l.map (·.site))[d]? = some site) : ∃ scope, l[d]? = some scope ∧ scope.site = site := by
  rw [List.getElem?_map] at h
  exact Option.map_eq_some_iff.1 h

/-! ## Code -/

/-- The places in a piece of code are among the known ones. -/
abbrev Covers (W : FrameWorld) (ps : List Place) : Prop :=
  ∀ p ∈ ps, p ∈ W.known

/-- A function or a method that the walk over it finds faultless, with its places known. -/
structure RoutineKnown (W : FrameWorld) (l : Lexical) (decl : FunctionDecl (Stmt NodeId)) : Prop where
  faultless : ∃ routine enclosing,
    (Resolution.function routine enclosing l.scopes decl).errors = []
  shaped : Stmt.ShapedRoutine decl
  covers : W.Covers (Stmt.placesRoutine l decl)

/-- Statements that the walk over them finds faultless, with their places known. -/
structure StmtsKnown (W : FrameWorld) (l : Lexical) (ss : List (Stmt NodeId)) : Prop where
  faultless : ∃ routine enclosing, (statements routine enclosing l.scopes ss).2.errors = []
  shaped : Stmt.ShapedAll ss
  covers : W.Covers (Stmt.placesAll l ss)

/-- A statement that the walk over it finds faultless, with its places known. -/
structure StmtKnown (W : FrameWorld) (l : Lexical) (s : Stmt NodeId) : Prop where
  faultless : ∃ routine enclosing, (statement routine enclosing l.scopes s).2.errors = []
  shaped : s.Shaped
  covers : W.Covers (s.places l)

/-- The frame of a function is in step with the scopes around its code. -/
def KnowsClosure (W : FrameWorld) (c : Closure) : Prop :=
  ∃ l, W.Synced c.frame l ∧ W.RoutineKnown l c.decl

/-- The scopes of the members of a class, inside the scopes around them. -/
def memberScopes (l : Lexical) (decl : ClassDecl NodeId (Stmt NodeId)) : Lexical :=
  ⟨.members decl, .single "this" true⟩ :: l

/-- The frame of a method of a class is in step with the scopes around the members of the class. -/
def KnowsMethod (W : FrameWorld) (c : Closure) : Prop :=
  ∃ l decl, W.Synced c.frame l ∧ c.decl ∈ decl.methods ∧ W.RoutineKnown (memberScopes l decl) c.decl

/-- The frame of the fields of a class is in step with the scopes around its members. -/
def KnowsFields (W : FrameWorld) (layer : Layer) : Prop :=
  ∃ l decl, W.Synced layer.frame l ∧ layer.fields = decl.fields ∧
    ∀ o ∈ VarDecl.occurrencesAll layer.fields, ⟨o, memberScopes l decl⟩ ∈ W.known

/-- The members of a layer of a class. -/
structure KnowsLayer (W : FrameWorld) (layer : Layer) : Prop where
  methods : ∀ x c, layer.methods.get? x = some c → W.KnowsMethod c
  fields : W.KnowsFields layer

/-- All layers of a class. -/
def KnowsClass (W : FrameWorld) (c : ClassValue) : Prop :=
  ∀ layer ∈ c.layers, W.KnowsLayer layer

/-- The code in a value was found where its frame is in step with the scopes around it. -/
def Knows (W : FrameWorld) : Value → Prop
  | .function _ c => W.KnowsClosure c
  | .classObject c => W.KnowsClass c
  | .object _ c => W.KnowsClass c
  | _ => True

section

variable {A B : FrameWorld} (hle : Le A B)
include hle

theorem RoutineKnown.mono {l : Lexical} {decl : FunctionDecl (Stmt NodeId)}
    (h : A.RoutineKnown l decl) : B.RoutineKnown l decl :=
  ⟨h.faultless, h.shaped, fun p hp => hle.known p (h.covers p hp)⟩

theorem StmtsKnown.mono {l : Lexical} {ss : List (Stmt NodeId)} (h : A.StmtsKnown l ss) :
    B.StmtsKnown l ss :=
  ⟨h.faultless, h.shaped, fun p hp => hle.known p (h.covers p hp)⟩

theorem StmtKnown.mono {l : Lexical} {s : Stmt NodeId} (h : A.StmtKnown l s) : B.StmtKnown l s :=
  ⟨h.faultless, h.shaped, fun p hp => hle.known p (h.covers p hp)⟩

theorem KnowsClosure.mono {c : Closure} (h : A.KnowsClosure c) : B.KnowsClosure c := by
  obtain ⟨l, hs, hr⟩ := h
  exact ⟨l, hs.mono hle, hr.mono hle⟩

theorem KnowsMethod.mono {c : Closure} (h : A.KnowsMethod c) : B.KnowsMethod c := by
  obtain ⟨l, decl, hs, hm, hr⟩ := h
  exact ⟨l, decl, hs.mono hle, hm, hr.mono hle⟩

theorem KnowsLayer.mono {layer : Layer} (h : A.KnowsLayer layer) : B.KnowsLayer layer := by
  obtain ⟨hm, l, decl, hs, hf, hp⟩ := h
  exact ⟨fun x c hc => (hm x c hc).mono hle,
    l, decl, hs.mono hle, hf, fun o ho => hle.known _ (hp o ho)⟩

theorem KnowsClass.mono {c : ClassValue} (h : A.KnowsClass c) : B.KnowsClass c :=
  fun layer hl => (h layer hl).mono hle

theorem Knows.mono {v : Value} (h : A.Knows v) : B.Knows v := by
  cases v with
  | function id c => exact KnowsClosure.mono hle h
  | classObject c => exact KnowsClass.mono hle h
  | object id c => exact KnowsClass.mono hle h
  | _ => trivial

end

/-- A method that a class finds is known if the class is. -/
theorem KnowsClass.findMethod? {W : FrameWorld} {c : ClassValue} (h : W.KnowsClass c) {x : String}
    {method : Closure} (hf : c.findMethod? x = some method) : W.KnowsMethod method := by
  obtain ⟨layer, hl, hg⟩ := List.exists_of_findSome?_eq_some hf
  exact (h layer hl).methods x method hg

end FrameWorld

end ClassScript
