import ClassScript.Proofs.FormReader
import ClassScript.Proofs.JoinedSources
import ClassScript.Proofs.SpelledSources

/-!
# Printed programs

The forms of a legible program are proper (`Stmt.forms_proper`), so the text of the program tells its forms, and
the forms tell the program but for its lines. So the printer loses nothing of a program that was parsed
(`programText_injective`).
-/

set_option autoImplicit false

namespace ClassScript

variable {ι : Type}

/-! ## Words -/

open Form (Wordly Proper ProperAll isWordChar)

theorem isWordChar_of_isWordPart {c : Char} (h : Lexer.isWordPart c = true) : isWordChar c = true := by
  rw [isWordChar, decide_eq_true_iff]
  refine ⟨?_, ?_, ?_, ?_, ?_⟩ <;> rintro rfl <;> cases h

theorem isWordChar_of_isDigit {c : Char} (h : c.isDigit = true) : isWordChar c = true :=
  isWordChar_of_isWordPart (by simp [Lexer.isWordPart, Char.isAlphanum, h])

theorem Form.Wordly.append {s t : String} (hs : Wordly s) (ht : Wordly t) : Wordly (s ++ t) := by
  rw [Wordly, String.toList_append]
  exact List.forall_mem_append.2 ⟨hs, ht⟩

theorem IsWord.wordly {text : String} (h : IsWord text.toList) : Wordly text :=
  fun c hc => isWordChar_of_isWordPart (h.mem c hc)

theorem IsWord.proper {text : String} (h : IsWord text.toList) : (Form.word text).Proper := by
  refine ⟨?_, h.wordly⟩
  rintro rfl
  obtain ⟨c, rest, htext, -⟩ := h
  cases htext

/-- A word with a sign behind it. -/
theorem IsWord.proper_append {text sign : String} (h : IsWord text.toList) (hsign : Wordly sign) :
    (Form.word (text ++ sign)).Proper := by
  refine ⟨fun hempty => ?_, h.wordly.append hsign⟩
  exact h.proper.1 (String.append_eq_empty_iff.1 hempty).1

theorem Token.Among.proper {symbols : List Symbol} {t : Token} (h : t.Among symbols)
    (hs : ∀ s ∈ symbols, s.spelling ≠ "" ∧ Wordly s.spelling) :
    (Form.word t.lexeme).Proper := by
  obtain ⟨s, hmem, -, hlexeme⟩ := h
  rw [hlexeme]
  exact hs s hmem

theorem Literal.numberText_proper {x : Float} (h : (Exact.ofFloat x).isFinite = true) :
    (Form.word (numberText x)).Proper := by
  obtain ⟨negative, ds, v, htext, hv⟩ := numberText_numeral h
  refine ⟨fun hempty => ?_, ?_⟩
  · obtain ⟨c, rest, rfl, -⟩ := hv.head
    rw [hempty] at htext
    simp at htext
  · rw [Wordly, htext]
    refine List.forall_mem_append.2 ⟨?_, fun c hc => ?_⟩
    · cases negative <;> exact List.all_eq_true.1 rfl
    · obtain hdigit | rfl := hv.mem c hc
      · exact isWordChar_of_isDigit hdigit
      · rfl

/-! ## Forms -/

theorem Form.properAll_append {fs gs : List Form} (hf : ProperAll fs) (hg : ProperAll gs) :
    ProperAll (fs ++ gs) := by
  induction fs with
  | nil => exact hg
  | cons f fs ih => exact ⟨hf.1, ih hf.2⟩

theorem Form.properAll_map {α : Type} {f : α → Form} {as : List α} (h : ∀ a ∈ as, (f a).Proper) :
    ProperAll (as.map f) := by
  induction as with
  | nil => trivial
  | cons a as ih =>
    obtain ⟨ha, has⟩ := List.forall_mem_cons.1 h
    exact ⟨ha, ih has⟩

theorem Form.wordly_empty : Wordly "" :=
  fun _ hc => nomatch hc

/-- Proper forms behind a fixed word, between parentheses. -/
theorem Form.proper_list {w : String} {fs : List Form} (h : ProperAll fs)
    (hw : w ≠ "" ∧ Wordly w := by decide) :
    (Form.list (.word w :: fs)).Proper :=
  ⟨wordly_empty, ⟨hw, h⟩, wordly_empty⟩

theorem Literal.form_proper {v : Literal} (h : v.Legible) : v.form.Proper := by
  cases v with
  | nil => exact ⟨by decide, by decide⟩
  | boolean b => cases b <;> exact ⟨by decide, by decide⟩
  | number x => exact numberText_proper h
  | string value => trivial

mutual

theorem Expr.form_proper (e : Expr ι) (h : e.Legible) : e.form.Proper := by
  match e with
  | .literal value => exact Literal.form_proper h
  | .unary operator operand =>
    exact Form.proper_list ⟨operand.form_proper h.2, trivial⟩ (h.1.proper (by decide))
  | .suffixed operand operator =>
    have hpost : Wordly "post" := by decide
    have ho := h.2.proper (by decide)
    exact Form.proper_list ⟨operand.form_proper h.1, trivial⟩
      ⟨fun hempty => ho.1 (String.append_eq_empty_iff.1 hempty).2, hpost.append ho.2⟩
  | .binary left operator right =>
    exact Form.proper_list ⟨left.form_proper h.1, right.form_proper h.2.2, trivial⟩
      (h.2.1.proper (by decide))
  | .logical left operator right =>
    exact Form.proper_list ⟨left.form_proper h.1, right.form_proper h.2.2, trivial⟩
      (h.2.1.proper (by decide))
  | .grouping inner => exact Form.proper_list ⟨inner.form_proper h, trivial⟩
  | .variable id name => exact IsWord.proper h.word
  | .assign id name value =>
    exact Form.proper_list ⟨h.1.word.proper, value.form_proper h.2, trivial⟩
  | .call callee line arguments =>
    exact Form.proper_list ⟨callee.form_proper h.1, Expr.forms_proper arguments h.2⟩
  | .get object name =>
    exact Form.proper_list ⟨object.form_proper h.1, h.2.word.proper, trivial⟩
  | .set object name value =>
    exact Form.proper_list
      ⟨object.form_proper h.1, h.2.1.word.proper, value.form_proper h.2.2, trivial⟩
  | .this id keyword => exact ⟨by decide, by decide⟩
  | .super id keyword method => exact Form.proper_list ⟨h.2.word.proper, trivial⟩
termination_by structural e

theorem Expr.forms_proper (es : List (Expr ι)) (h : Expr.LegibleAll es) :
    ProperAll (Expr.forms es) := by
  match es with
  | [] => trivial
  | e :: rest => exact ⟨e.form_proper h.1, Expr.forms_proper rest h.2⟩
termination_by structural es

end

theorem Expr.formsOption_proper {v : Option (Expr ι)} (h : ∀ e ∈ v, e.Legible) :
    ProperAll (Expr.formsOption v) := by
  cases v with
  | none => trivial
  | some e => exact ⟨e.form_proper (h e rfl), trivial⟩

theorem VarDecl.form_proper {d : VarDecl ι} (h : d.Legible) : d.form.Proper := by
  have htyped : ProperAll (typedForms d.name.text d.typeName) := by
    cases htype : d.typeName with
    | none => exact ⟨h.name.word.proper, trivial⟩
    | some t =>
      exact ⟨h.name.word.proper_append (by decide), (h.typeName t htype).word.proper, trivial⟩
  exact Form.proper_list (Form.properAll_append htyped (Expr.formsOption_proper h.initializer))

theorem paramForms_proper {ps : List Param} (h : ∀ p ∈ ps, p.Legible) : ProperAll (paramForms ps) := by
  induction ps with
  | nil => trivial
  | cons p rest ih =>
    obtain ⟨hp, hrest⟩ := List.forall_mem_cons.1 h
    have hname := hp.name.word.proper_append (show Wordly ":" by decide)
    cases rest with
    | nil => exact ⟨hname, hp.typeName.word.proper, trivial⟩
    | cons q rest => exact ⟨hname, hp.typeName.word.proper_append (by decide), ih hrest⟩

theorem headerForms_proper {name : Name} {ps : List Param} {result : Option Token}
    (hname : name.Legible) (hps : ∀ p ∈ ps, p.Legible) (hresult : ∀ t ∈ result, t.Word) :
    ProperAll (headerForms name.text ps result) := by
  cases result with
  | none => exact ⟨⟨hname.word.wordly, paramForms_proper hps, Form.wordly_empty⟩, trivial⟩
  | some t =>
    have hcolon : Wordly ":" := by decide
    exact ⟨⟨hname.word.wordly, paramForms_proper hps, hcolon⟩, (hresult t rfl).word.proper, trivial⟩

theorem superclassForms_proper {s : Option (SuperclassRef ι)} (h : ∀ r ∈ s, r.name.Legible) :
    ProperAll (superclassForms s) := by
  cases s with
  | none => trivial
  | some r => exact ⟨⟨by decide, by decide⟩, (h r rfl).word.proper, trivial⟩

mutual

theorem Stmt.form_proper (s : Stmt ι) (h : s.Legible) : s.form.Proper := by
  match s with
  | .expression value => exact Form.proper_list ⟨value.form_proper h, trivial⟩
  | .print value => exact Form.proper_list ⟨value.form_proper h, trivial⟩
  | .var decl => exact VarDecl.form_proper h
  | .block body => exact Form.proper_list (Stmt.forms_proper body h)
  | .ifThen condition thenBranch =>
    exact Form.proper_list ⟨condition.form_proper h.1, thenBranch.form_proper h.2, trivial⟩
  | .ifElse condition thenBranch elseBranch =>
    exact Form.proper_list ⟨condition.form_proper h.1, thenBranch.form_proper h.2.1,
      elseBranch.form_proper h.2.2, trivial⟩
  | .whileLoop condition body =>
    exact Form.proper_list ⟨condition.form_proper h.1, body.form_proper h.2, trivial⟩
  | .function decl => exact Form.proper_list (Stmt.functionForms_proper decl h)
  | .returnWith keyword value => exact Form.proper_list (Expr.formsOption_proper h.2)
  | .classDecl ⟨name, superclass, fields, methods⟩ =>
    obtain ⟨hname, hsuper, hfields, hmethods⟩ := h
    exact Form.proper_list ⟨hname.word.proper, Form.properAll_append (superclassForms_proper hsuper)
      (Form.properAll_append (Form.properAll_map fun d hd => VarDecl.form_proper (hfields d hd))
        (Stmt.methodForms_proper methods hmethods))⟩
termination_by structural s

theorem Stmt.forms_proper (ss : List (Stmt ι)) (h : Stmt.LegibleAll ss) :
    ProperAll (Stmt.forms ss) := by
  match ss with
  | [] => trivial
  | s :: rest => exact ⟨s.form_proper h.1, Stmt.forms_proper rest h.2⟩
termination_by structural ss

theorem Stmt.functionForms_proper (d : FunctionDecl (Stmt ι)) (h : Stmt.LegibleRoutine d) :
    ProperAll (Stmt.functionForms d) := by
  match d with
  | ⟨name, params, result, body⟩ =>
    obtain ⟨hname, hparams, hresult, hbody⟩ := h
    exact Form.properAll_append (headerForms_proper hname hparams hresult)
      ⟨Form.proper_list (Stmt.forms_proper body hbody), trivial⟩
termination_by structural d

theorem Stmt.methodForms_proper (ds : List (FunctionDecl (Stmt ι))) (h : Stmt.LegibleRoutines ds) :
    ProperAll (Stmt.methodForms ds) := by
  match ds with
  | [] => trivial
  | d :: rest =>
    exact ⟨Form.proper_list (Stmt.functionForms_proper d h.1), Stmt.methodForms_proper rest h.2⟩
termination_by structural ds

end

/-! ## Programs -/

/-- The number literals of the source are finite. -/
def FiniteNumbers (source : String) : Prop :=
  ∀ t ∈ scannedTokens (scan source), t.kind.isFinite = true

instance (source : String) : Decidable (FiniteNumbers source) :=
  inferInstanceAs (Decidable (∀ t ∈ scannedTokens (scan source), t.kind.isFinite = true))

/-- A reading of the texts of finite numbers. -/
theorem exists_readsNumbers : ∃ number, ReadsNumbers number := by
  classical
  refine ⟨fun w => if h : ∃ x, (Exact.ofFloat x).isFinite = true ∧ Literal.numberText x = w
    then h.choose else 0, fun x hx => ?_⟩
  have hex : ∃ y, (Exact.ofFloat y).isFinite = true ∧ Literal.numberText y = Literal.numberText x :=
    ⟨x, hx, rfl⟩
  dsimp only
  rw [dif_pos hex]
  exact Literal.numberText_inj hex.choose_spec.1 hx hex.choose_spec.2

/-- Legible programs with the same text are the same but for their lines and labels. -/
theorem programText_legible {κ : Type} {p : List (Stmt ι)} {q : List (Stmt κ)}
    (hp : Stmt.LegibleAll p) (hq : Stmt.LegibleAll q) (h : programText p = programText q) :
    Stmt.relabelAll .forget p = Stmt.relabelAll .forget q := by
  -- Both programs are what is read of their forms, and the text tells the forms.
  obtain ⟨number, hnumber⟩ := exists_readsNumbers
  have htext := congrArg String.toList h
  rw [programText_toList, programText_toList] at htext
  have hforms := Form.lines_inj (Stmt.forms_proper p hp) (Stmt.forms_proper q hq) htext
  rw [← Stmt.stmts_forms hnumber p hp, hforms, Stmt.stmts_forms hnumber q hq]

theorem parse_legible {source : String} {p : List (Stmt Unit)} (h : parse source = .ok p)
    (hfinite : FiniteNumbers source) : Stmt.LegibleAll p := by
  have hmem : ∀ t ∈ Lexer.tokens 1 (Lexer.lexemes source.toList), t ∈ scannedTokens (scan source) := by
    rw [scan_eq, Lexer.scannedTokens_items]
    exact fun t ht => List.mem_append_left _ ht
  exact Derives.program_legible (parse_ok_iff.1 h).2 fun t ht =>
    ⟨scannedTokens_spells source t (hmem t ht), hfinite t (hmem t ht)⟩

/-- Two sources with finite numbers that are parsed to programs with the same text are parsed to the same
program, but for the lines and the labels. -/
theorem programText_injective {source source' : String} {p q : List (Stmt Unit)}
    (hp : parse source = .ok p) (hq : parse source' = .ok q) (hfp : FiniteNumbers source)
    (hfq : FiniteNumbers source') (h : programText p = programText q) :
    Stmt.relabelAll .forget p = Stmt.relabelAll .forget q :=
  programText_legible (parse_legible hp hfp) (parse_legible hq hfq) h

/-- Two sources of one program, with its lines, the members of its class and its numeral in two ways. -/
def twoLayouts : String × String :=
  ("class A { f() { return 1.50; } var v; }", "class A\n{ var v; f() { return 1.5; } }")

theorem programText_injective_twoLayouts :
    ∃ p q, parse twoLayouts.1 = .ok p ∧ parse twoLayouts.2 = .ok q ∧
      FiniteNumbers twoLayouts.1 ∧ FiniteNumbers twoLayouts.2 ∧ programText p = programText q ∧
      Stmt.relabelAll .forget p = Stmt.relabelAll .forget q := by
  have hfirst : twoLayouts.1 = String.ofList _ := rfl
  have hsecond : twoLayouts.2 = String.ofList _ := rfl
  have hok : (parse twoLayouts.1).toOption.isSome = true ∧
      (parse twoLayouts.2).toOption.isSome = true := by
    rw [parse_spelled hfirst, parse_spelled hsecond]
    decide +kernel
  have htexts : (parse twoLayouts.1).toOption.map programText =
      (parse twoLayouts.2).toOption.map programText := by
    rw [parse_spelled hfirst, parse_spelled hsecond]
    decide +kernel
  have hfinite : FiniteNumbers twoLayouts.1 ∧ FiniteNumbers twoLayouts.2 := by
    rw [FiniteNumbers, FiniteNumbers, scan_spelled hfirst, scan_spelled hsecond]
    decide +kernel
  match hp : parse twoLayouts.1, hq : parse twoLayouts.2 with
  | .ok p, .ok q =>
    rw [hp, hq] at htexts
    have htext : programText p = programText q := Option.some.inj htexts
    exact ⟨p, q, rfl, rfl, hfinite.1, hfinite.2, htext,
      programText_injective hp hq hfinite.1 hfinite.2 htext⟩
  | .error _, _ =>
    rw [hp] at hok
    cases hok.1
  | _, .error _ =>
    rw [hq] at hok
    cases hok.2

end ClassScript
