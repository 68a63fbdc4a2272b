import ClassScript.Proofs.NumberTexts
import ClassScript.Proofs.ProgramForms
import ClassScript.Proofs.Relabel

/-!
# Reading forms

`Form.expr` and `Form.stmt` read the trees of the forms that are printed, for a reading `number` of the texts of
numbers. They give back every legible tree without its lines and labels (`Expr.form_expr`, `Stmt.form_stmt`).
What is read of other forms does not matter.
-/

set_option autoImplicit false

namespace ClassScript

variable {ι : Type}

/-- Programs without lines and labels. -/
def Relabel.forget : Relabel ι Unit :=
  ⟨fun _ => 0, fun _ => ()⟩

/-! ## Words -/

/-- The symbol with this text. -/
def Symbol.ofSpelling (w : String) : Symbol :=
  (Symbol.all.find? fun s => s.spelling == w).getD .bang

theorem Symbol.ofSpelling_spelling (s : Symbol) : ofSpelling s.spelling = s := by
  cases s <;> decide

/-- The symbol with this text as a token. -/
def symbolToken (w : String) : Token :=
  ⟨.symbol (.ofSpelling w), w, 0⟩

/-- The word as a token. -/
def wordToken (w : String) : Token :=
  ⟨Lexer.wordKind w.toList, w, 0⟩

/-- The text without its last character, if that is `c`. -/
def withoutLast? (c : Char) (w : String) : Option String :=
  if w.toList.getLast? = some c then some (String.ofList w.toList.dropLast) else none

namespace Form

section

variable (number : String → Float)

/-! ## Expressions -/

/-- A word as an expression. -/
def wordExpr (w : String) : Expr Unit :=
  if w = "nil" then .literal .nil
  else if w = "true" then .literal (.boolean true)
  else if w = "false" then .literal (.boolean false)
  else if w = "this" then .this () ⟨"this", 0⟩
  else if w.toList.head?.any Lexer.isWordStart then .variable () ⟨w, 0⟩
  else .literal (.number (number w))

/-- A word with forms behind it, and the expressions of these forms. -/
def nodeExpr (w : String) (forms : List Form) (es : List (Expr Unit)) : Expr Unit :=
  match w, forms, es with
  | "group", _, [e] => .grouping e
  | "=", [.word name, _], [_, value] => .assign () ⟨name, 0⟩ value
  | "call", _, callee :: arguments => .call callee 0 arguments
  | ".", [_, .word name], [object, _] => .get object ⟨name, 0⟩
  | ".=", [_, .word name, _], [object, _, value] => .set object ⟨name, 0⟩ value
  | "super", [.word method], _ => .super () ⟨"super", 0⟩ ⟨method, 0⟩
  | "post++", _, [e] => .suffixed e (symbolToken "++")
  | "post--", _, [e] => .suffixed e (symbolToken "--")
  | "and", _, [left, right] => .logical left (symbolToken "and") right
  | "or", _, [left, right] => .logical left (symbolToken "or") right
  | w, _, [e] => .unary (symbolToken w) e
  | w, _, [left, right] => .binary left (symbolToken w) right
  | _, _, _ => .literal .nil

/-- Forms between parentheses, and the expressions of these forms. -/
def groupExpr (forms : List Form) (es : List (Expr Unit)) : Expr Unit :=
  match forms with
  | .word w :: forms => nodeExpr w forms es.tail
  | _ => .literal .nil

mutual

/-- The expression of a form. -/
def expr : Form → Expr Unit
  | .word w => wordExpr number w
  | .quoted value => .literal (.string value)
  | .group _ items _ => groupExpr items (exprs items)
termination_by structural f => f

/-- The expressions of forms. -/
def exprs : List Form → List (Expr Unit)
  | [] => []
  | f :: rest => f.expr :: exprs rest
termination_by structural fs => fs

end

/-! ## Declarations -/

/-- A variable. -/
def varDecl (forms : List Form) : VarDecl Unit :=
  match forms with
  | .word name :: rest =>
    match withoutLast? ':' name, rest with
    -- A colon behind the name: a type follows.
    | some name, .word t :: rest => ⟨⟨name, 0⟩, some (wordToken t), (exprs number rest).head?⟩
    | _, rest => ⟨⟨name, 0⟩, none, (exprs number rest).head?⟩
  | _ => ⟨⟨"", 0⟩, none, none⟩

/-- Parameters. -/
def params : List Form → List Param
  | .word name :: .word t :: rest =>
    ⟨⟨(withoutLast? ':' name).getD name, 0⟩, wordToken ((withoutLast? ',' t).getD t)⟩ :: params rest
  | _ => []

/-- A function. -/
def routine (forms : List Form) (ss : List (Stmt Unit)) : FunctionDecl (Stmt Unit) :=
  match forms, ss with
  | [.group name items _, _], [_, .block body] => ⟨⟨name, 0⟩, params items, none, body⟩
  | [.group name items _, .word t, _], [_, _, .block body] =>
    ⟨⟨name, 0⟩, params items, some (wordToken t), body⟩
  | _, _ => ⟨⟨"", 0⟩, [], none, []⟩

/-- A superclass. -/
def superclass : List Form → Option (SuperclassRef Unit)
  | .word "<" :: .word name :: _ => some ⟨(), ⟨name, 0⟩⟩
  | _ => none

/-! ## Statements -/

/-- The variable or field that the statement declares. -/
def field? : Stmt Unit → Option (VarDecl Unit)
  | .var d => some d
  | _ => none

/-- The function that the statement declares. -/
def method? : Stmt Unit → Option (FunctionDecl (Stmt Unit))
  | .function d => some d
  | _ => none

/-- A word with forms behind it, and the statements of these forms. -/
def nodeStmt (w : String) (forms : List Form) (ss : List (Stmt Unit)) : Stmt Unit :=
  match w, forms, ss with
  | ";", [e], _ => .expression (e.expr number)
  | "print", [e], _ => .print (e.expr number)
  | "var", forms, _ => .var (varDecl number forms)
  | "block", _, ss => .block ss
  | "if", [c, _], [_, thenBranch] => .ifThen (c.expr number) thenBranch
  | "if", [c, _, _], [_, thenBranch, elseBranch] => .ifElse (c.expr number) thenBranch elseBranch
  | "while", [c, _], [_, body] => .whileLoop (c.expr number) body
  | "fun", forms, ss => .function (routine forms ss)
  | "method", forms, ss => .function (routine forms ss)
  | "return", forms, _ => .returnWith ⟨"return", 0⟩ (exprs number forms).head?
  | "class", .word name :: forms, ss =>
    .classDecl ⟨⟨name, 0⟩, superclass forms, ss.filterMap field?, ss.filterMap method?⟩
  | _, _, _ => .block []

/-- Forms between parentheses, and the statements of these forms. -/
def groupStmt (forms : List Form) (ss : List (Stmt Unit)) : Stmt Unit :=
  match forms with
  | .word w :: forms => nodeStmt number w forms ss.tail
  | _ => .block []

mutual

/-- The statement of a form. -/
def stmt : Form → Stmt Unit
  | .word _ => .block []
  | .quoted _ => .block []
  | .group _ items _ => groupStmt number items (stmts items)
termination_by structural f => f

/-- The statements of forms. -/
def stmts : List Form → List (Stmt Unit)
  | [] => []
  | f :: rest => f.stmt :: stmts rest
termination_by structural fs => fs

end

end

end Form

/-! ## Reading back -/

variable {number : String → Float}

theorem Token.Among.onLine {symbols : List Symbol} {t : Token} (h : t.Among symbols) :
    t.onLine (fun _ => 0) = symbolToken t.lexeme := by
  obtain ⟨s, -, hkind, hlexeme⟩ := h
  rw [Token.onLine, symbolToken, hkind, hlexeme, Symbol.ofSpelling_spelling]

theorem Token.Word.onLine {t : Token} (h : t.Word) : t.onLine (fun _ => 0) = wordToken t.lexeme := by
  rw [Token.onLine, wordToken, h.kind]

/-! ### Words -/

theorem IsWord.head {text : List Char} (h : IsWord text) :
    text.head?.any Lexer.isWordStart = true := by
  obtain ⟨c, rest, rfl, hc, -⟩ := h
  exact hc

theorem IsWord.mem {text : List Char} (h : IsWord text) : ∀ c ∈ text, Lexer.isWordPart c = true := by
  obtain ⟨c, rest, rfl, hc, hrest⟩ := h
  refine List.forall_mem_cons.2 ⟨?_, hrest⟩
  simp only [Lexer.isWordStart, Lexer.isWordPart, Char.isAlphanum, Bool.or_eq_true] at hc ⊢
  exact hc.imp_left .inl

theorem wordExpr_name {n : Name} (h : n.Legible) :
    Form.wordExpr number n.text = .variable () ⟨n.text, 0⟩ := by
  have hne {w : String} (hw : Symbol.ofWord? w ≠ none) : n.text ≠ w := fun he => hw (he ▸ h.free)
  unfold Form.wordExpr
  rw [if_neg (hne (by decide)), if_neg (hne (by decide)), if_neg (hne (by decide)),
    if_neg (hne (by decide)), if_pos h.word.head]

theorem wordExpr_number {x : Float} (hfinite : (Exact.ofFloat x).isFinite = true)
    (hnumber : number (Literal.numberText x) = x) :
    Form.wordExpr number (Literal.numberText x) = .literal (.number x) := by
  have hhead := Literal.numberText_head hfinite
  have hne {w : String} (hw : w.toList.head?.any Lexer.isWordStart = true) :
      Literal.numberText x ≠ w := by
    rintro rfl
    rw [hhead] at hw
    cases hw
  unfold Form.wordExpr
  rw [if_neg (hne (by decide)), if_neg (hne (by decide)), if_neg (hne (by decide)),
    if_neg (hne (by decide)), hhead, if_neg (by decide), hnumber]

/-! ### Expressions -/

/-- The reading of texts of numbers gives back finite numbers. -/
def ReadsNumbers (number : String → Float) : Prop :=
  ∀ x, (Exact.ofFloat x).isFinite = true → number (Literal.numberText x) = x

open Form (expr exprs)

theorem Literal.expr_form (hnumber : ReadsNumbers number) {v : Literal} (h : v.Legible) :
    v.form.expr number = .literal v := by
  cases v with
  | nil => rfl
  | boolean b => cases b <;> rfl
  | number x => exact wordExpr_number h (hnumber x h)
  | string value => rfl

/-- What is read of a list is read of its word and of the forms behind it. -/
theorem Form.expr_list (w : String) (forms : List Form) :
    (Form.list (.word w :: forms)).expr number = nodeExpr w forms (exprs number forms) :=
  rfl

namespace Form

variable {t : Token} {f g : Form} {e e' : Expr Unit}

theorem nodeExpr_unary (h : t.Among Grammar.prefixSymbols) :
    nodeExpr t.lexeme [f] [e] = .unary (t.onLine fun _ => 0) e := by
  rw [h.onLine]
  obtain ⟨s, hs, -, hlexeme⟩ := h
  rw [hlexeme]
  simp only [Grammar.prefixSymbols, List.mem_cons, List.not_mem_nil, or_false] at hs
  obtain rfl | rfl | rfl | rfl := hs <;> rfl

theorem nodeExpr_suffixed (h : t.Among Grammar.suffixSymbols) :
    nodeExpr ("post" ++ t.lexeme) [f] [e] = .suffixed e (t.onLine fun _ => 0) := by
  rw [h.onLine]
  obtain ⟨s, hs, -, hlexeme⟩ := h
  rw [hlexeme]
  simp only [Grammar.suffixSymbols, List.mem_cons, List.not_mem_nil, or_false] at hs
  obtain rfl | rfl := hs <;> rfl

theorem nodeExpr_binary (h : t.Among binarySymbols) :
    nodeExpr t.lexeme [f, g] [e, e'] = .binary e (t.onLine fun _ => 0) e' := by
  rw [h.onLine]
  obtain ⟨s, hs, -, hlexeme⟩ := h
  rw [hlexeme]
  simp only [binarySymbols, Grammar.Level.operators, List.flatMap_cons, List.flatMap_nil,
    List.cons_append, List.nil_append, List.mem_cons, List.not_mem_nil, or_false] at hs
  obtain rfl | rfl | rfl | rfl | rfl | rfl | rfl | rfl | rfl | rfl := hs <;> rfl

theorem nodeExpr_logical (h : t.Among logicalSymbols) :
    nodeExpr t.lexeme [f, g] [e, e'] = .logical e (t.onLine fun _ => 0) e' := by
  rw [h.onLine]
  obtain ⟨s, hs, -, hlexeme⟩ := h
  rw [hlexeme]
  simp only [logicalSymbols, Grammar.Level.operators, List.flatMap_cons, List.flatMap_nil,
    List.cons_append, List.nil_append, List.mem_cons, List.not_mem_nil, or_false] at hs
  obtain rfl | rfl := hs <;> rfl

end Form

mutual

theorem Expr.expr_form (hnumber : ReadsNumbers number) (e : Expr ι) (h : e.Legible) :
    e.form.expr number = e.relabel .forget := by
  match e with
  | .literal value => exact Literal.expr_form hnumber h
  | .unary operator operand =>
    rw [Expr.form, Form.expr_list, exprs, exprs, operand.expr_form hnumber h.2,
      Form.nodeExpr_unary h.1]
    rfl
  | .suffixed operand operator =>
    rw [Expr.form, Form.expr_list, exprs, exprs, operand.expr_form hnumber h.1,
      Form.nodeExpr_suffixed h.2]
    rfl
  | .binary left operator right =>
    rw [Expr.form, Form.expr_list, exprs, exprs, exprs, left.expr_form hnumber h.1,
      right.expr_form hnumber h.2.2, Form.nodeExpr_binary h.2.1]
    rfl
  | .logical left operator right =>
    rw [Expr.form, Form.expr_list, exprs, exprs, exprs, left.expr_form hnumber h.1,
      right.expr_form hnumber h.2.2, Form.nodeExpr_logical h.2.1]
    rfl
  | .grouping inner =>
    rw [Expr.form, Form.expr_list, exprs, exprs, inner.expr_form hnumber h]
    rfl
  | .variable id name => exact wordExpr_name h
  | .assign id name value =>
    rw [Expr.form, Form.expr_list, exprs, exprs, exprs, value.expr_form hnumber h.2]
    rfl
  | .call callee line arguments =>
    rw [Expr.form, Form.expr_list, exprs, callee.expr_form hnumber h.1,
      Expr.exprs_forms hnumber arguments h.2]
    rfl
  | .get object name =>
    rw [Expr.form, Form.expr_list, exprs, exprs, exprs, object.expr_form hnumber h.1]
    rfl
  | .set object name value =>
    rw [Expr.form, Form.expr_list, exprs, exprs, exprs, exprs, object.expr_form hnumber h.1,
      value.expr_form hnumber h.2.2]
    rfl
  | .this id keyword =>
    have hkeyword : keyword.text = "this" := h
    rw [Expr.relabel, Name.onLine, hkeyword]
    rfl
  | .super id keyword method =>
    rw [Expr.relabel, Name.onLine, h.1]
    rfl
termination_by structural e

theorem Expr.exprs_forms (hnumber : ReadsNumbers number) (es : List (Expr ι))
    (h : Expr.LegibleAll es) : exprs number (Expr.forms es) = Expr.relabelAll .forget es := by
  match es with
  | [] => rfl
  | e :: rest =>
    rw [Expr.forms, exprs, e.expr_form hnumber h.1, Expr.exprs_forms hnumber rest h.2]
    rfl
termination_by structural es

end

/-! ### Declarations -/

theorem withoutLast?_append {c : Char} {w s : String} (hs : s.toList = [c]) :
    withoutLast? c (w ++ s) = some w := by
  unfold withoutLast?
  rw [String.toList_append, hs, List.getLast?_concat, if_pos rfl, List.dropLast_concat,
    String.ofList_toList]

theorem withoutLast?_word {c : Char} {w : String} (h : IsWord w.toList)
    (hc : Lexer.isWordPart c = false) : withoutLast? c w = none := by
  refine if_neg fun hlast => ?_
  have hmem := h.mem c (List.mem_of_getLast? hlast)
  rw [hc] at hmem
  cases hmem

theorem Expr.exprs_formsOption (hnumber : ReadsNumbers number) {v : Option (Expr ι)}
    (h : ∀ e ∈ v, e.Legible) :
    (exprs number (Expr.formsOption v)).head? = v.map (Expr.relabel .forget) := by
  cases v with
  | none => rfl
  | some e => exact congrArg some (e.expr_form hnumber (h e rfl))

theorem VarDecl.varDecl_forms (hnumber : ReadsNumbers number) {d : VarDecl ι} (h : d.Legible) :
    Form.varDecl number (typedForms d.name.text d.typeName ++ Expr.formsOption d.initializer) =
      d.relabel .forget := by
  obtain ⟨name, typeName, initializer⟩ := d
  have hvalue := Expr.exprs_formsOption hnumber h.initializer
  rw [VarDecl.relabel, ← hvalue]
  cases typeName with
  | none =>
    have hname : withoutLast? ':' name.text = none := withoutLast?_word h.name.word rfl
    simp [typedForms, Form.varDecl, hname, Name.onLine, Relabel.forget]
  | some t =>
    have hname : withoutLast? ':' (name.text ++ ":") = some name.text := withoutLast?_append rfl
    have htype := (h.typeName t rfl).onLine
    simp [typedForms, Form.varDecl, hname, Name.onLine, Relabel.forget, htype]

theorem Form.params_forms {ps : List Param} (h : ∀ p ∈ ps, p.Legible) :
    Form.params (paramForms ps) = ps.map (Param.onLine fun _ => 0) := by
  have hname (p : Param) : (withoutLast? ':' (p.name.text ++ ":")).getD (p.name.text ++ ":") =
      p.name.text := by
    rw [withoutLast?_append rfl, Option.getD_some]
  induction ps with
  | nil => rfl
  | cons p rest ih =>
    obtain ⟨hp, hrest⟩ := List.forall_mem_cons.1 h
    have htype := hp.typeName.onLine
    cases rest with
    | nil =>
      have hlast : withoutLast? ',' p.typeName.lexeme = none := withoutLast?_word hp.typeName.word rfl
      simp [paramForms, Form.params, hname, hlast, Param.onLine, Name.onLine, htype]
    | cons q rest =>
      have hcomma : withoutLast? ',' (p.typeName.lexeme ++ ",") = some p.typeName.lexeme :=
        withoutLast?_append rfl
      rw [paramForms, Form.params, ih hrest, hname, hcomma]
      simp [Param.onLine, Name.onLine, htype]

/-! ### Classes -/

open Form (stmt stmts field? method?)

theorem Form.stmt_list (w : String) (forms : List Form) :
    (Form.list (.word w :: forms)).stmt number = nodeStmt number w forms (stmts number forms) :=
  rfl

theorem Form.stmts_append (fs gs : List Form) :
    stmts number (fs ++ gs) = stmts number fs ++ stmts number gs := by
  induction fs with
  | nil => rfl
  | cons f fs ih => exact congrArg (f.stmt number :: ·) ih

theorem VarDecl.stmt_form (hnumber : ReadsNumbers number) {d : VarDecl ι} (h : d.Legible) :
    d.form.stmt number = .var (d.relabel .forget) :=
  congrArg Stmt.var (d.varDecl_forms hnumber h)

theorem VarDecl.stmts_forms (hnumber : ReadsNumbers number) {fields : List (VarDecl ι)}
    (h : ∀ d ∈ fields, d.Legible) :
    stmts number (fields.map VarDecl.form) =
      (fields.map (VarDecl.relabel .forget)).map Stmt.var := by
  induction fields with
  | nil => rfl
  | cons d rest ih =>
    obtain ⟨hd, hrest⟩ := List.forall_mem_cons.1 h
    rw [List.map_cons, stmts, d.stmt_form hnumber hd, ih hrest]
    rfl

/-- The forms behind the name of a class: what they are read as. -/
theorem Form.superclass_forms (s : Option (SuperclassRef ι)) (fields : List (VarDecl ι))
    (methods : List (FunctionDecl (Stmt ι))) :
    Form.superclass (superclassForms s ++ (fields.map VarDecl.form ++ Stmt.methodForms methods)) =
      s.map (SuperclassRef.relabel .forget) := by
  cases s with
  | some s => rfl
  | none =>
    cases fields with
    | cons d rest => rfl
    | nil =>
      cases methods with
      | cons d rest => rfl
      | nil => rfl

theorem Form.members_forms (hnumber : ReadsNumbers number) (s : Option (SuperclassRef ι))
    {fields : List (VarDecl ι)} {methods : List (FunctionDecl (Stmt ι))}
    (h : ∀ d ∈ fields, d.Legible)
    (hmethods : stmts number (Stmt.methodForms methods) =
      (Stmt.relabelRoutines .forget methods).map Stmt.function) :
    let ss := stmts number
      (superclassForms s ++ (fields.map VarDecl.form ++ Stmt.methodForms methods))
    ss.filterMap field? = fields.map (VarDecl.relabel .forget) ∧
      ss.filterMap method? = Stmt.relabelRoutines .forget methods := by
  have hsuper : (stmts number (superclassForms s)).filterMap field? = [] ∧
      (stmts number (superclassForms s)).filterMap method? = [] := by
    cases s <;> exact ⟨rfl, rfl⟩
  rw [stmts_append, stmts_append, VarDecl.stmts_forms hnumber h, hmethods]
  simp [hsuper.1, hsuper.2, List.filterMap_map, Function.comp_def, field?, method?]

/-! ### Statements -/

mutual

theorem Stmt.stmt_form (hnumber : ReadsNumbers number) (s : Stmt ι) (h : s.Legible) :
    s.form.stmt number = s.relabel .forget := by
  match s with
  | .expression value => exact congrArg Stmt.expression (value.expr_form hnumber h)
  | .print value => exact congrArg Stmt.print (value.expr_form hnumber h)
  | .var decl => exact decl.stmt_form hnumber h
  | .block body =>
    exact congrArg Stmt.block (Stmt.stmts_forms hnumber body h)
  | .ifThen condition thenBranch =>
    exact congr (congrArg Stmt.ifThen (condition.expr_form hnumber h.1))
      (thenBranch.stmt_form hnumber h.2)
  | .ifElse condition thenBranch elseBranch =>
    exact congr (congr (congrArg Stmt.ifElse (condition.expr_form hnumber h.1))
      (thenBranch.stmt_form hnumber h.2.1)) (elseBranch.stmt_form hnumber h.2.2)
  | .whileLoop condition body =>
    exact congr (congrArg Stmt.whileLoop (condition.expr_form hnumber h.1))
      (body.stmt_form hnumber h.2)
  | .function decl => exact congrArg Stmt.function (Stmt.routine_forms hnumber decl h)
  | .returnWith keyword value =>
    rw [Stmt.form, Form.stmt_list, Stmt.relabel, Name.onLine, h.1,
      ← Expr.exprs_formsOption hnumber h.2]
    rfl
  | .classDecl ⟨name, superclass, fields, methods⟩ =>
    obtain ⟨hname, hsuper, hfields, hmethods⟩ := h
    have hmembers := Form.members_forms hnumber superclass hfields
      (Stmt.stmts_methodForms hnumber methods hmethods)
    rw [Stmt.form, Form.stmt_list, stmts, Stmt.relabel, ← hmembers.1, ← hmembers.2,
      ← Form.superclass_forms superclass fields methods]
    rfl
termination_by structural s

theorem Stmt.stmts_forms (hnumber : ReadsNumbers number) (ss : List (Stmt ι))
    (h : Stmt.LegibleAll ss) : stmts number (Stmt.forms ss) = Stmt.relabelAll .forget ss := by
  match ss with
  | [] => rfl
  | s :: rest =>
    rw [Stmt.forms, stmts, s.stmt_form hnumber h.1, Stmt.stmts_forms hnumber rest h.2]
    rfl
termination_by structural ss

theorem Stmt.routine_forms (hnumber : ReadsNumbers number) (d : FunctionDecl (Stmt ι))
    (h : Stmt.LegibleRoutine d) :
    Form.routine (Stmt.functionForms d) (stmts number (Stmt.functionForms d)) =
      Stmt.relabelRoutine .forget d := by
  match d with
  | ⟨name, params, result, body⟩ =>
    obtain ⟨hname, hparams, hresult, hbody⟩ := h
    have hbody := Stmt.stmts_forms hnumber body hbody
    rw [Stmt.relabelRoutine, ← hbody, show (Relabel.forget : Relabel ι Unit).line = fun _ => 0 from rfl,
      ← Form.params_forms hparams]
    cases result with
    | none => rfl
    | some t =>
      rw [Option.map_some, (hresult t rfl).onLine]
      rfl
termination_by structural d

theorem Stmt.stmts_methodForms (hnumber : ReadsNumbers number) (ds : List (FunctionDecl (Stmt ι)))
    (h : Stmt.LegibleRoutines ds) :
    stmts number (Stmt.methodForms ds) = (Stmt.relabelRoutines .forget ds).map Stmt.function := by
  match ds with
  | [] => rfl
  | d :: rest =>
    rw [Stmt.methodForms, stmts, Form.stmt_list, Stmt.stmts_methodForms hnumber rest h.2,
      Stmt.relabelRoutines, List.map_cons, ← Stmt.routine_forms hnumber d h.1]
    rfl
termination_by structural ds

end

end ClassScript
