import ClassScript.Proofs.Forms
import ClassScript.Syntax.Printer

/-!
# The forms of programs

The printer writes a program as forms: `Expr.form` and `Stmt.form` are these forms, and their text is what
is printed (`programText_lines`).
-/

set_option autoImplicit false

namespace ClassScript

variable {ι : Type}

/-! ## Expressions -/

/-- A constant: a quoted text, or a word. -/
def Literal.form : Literal → Form
  | .string s => .quoted s
  | v => .word v.text

/-- Forms between parentheses. -/
def Form.list (items : List Form) : Form :=
  .group "" items ""

mutual

/-- The form of an expression. -/
def Expr.form : Expr ι → Form
  | .literal value => value.form
  | .unary operator operand => .list [.word operator.lexeme, operand.form]
  | .suffixed operand operator => .list [.word ("post" ++ operator.lexeme), operand.form]
  | .binary left operator right => .list [.word operator.lexeme, left.form, right.form]
  | .logical left operator right => .list [.word operator.lexeme, left.form, right.form]
  | .grouping inner => .list [.word "group", inner.form]
  | .variable _ name => .word name.text
  | .assign _ name value => .list [.word "=", .word name.text, value.form]
  | .call callee _ arguments => .list (.word "call" :: callee.form :: Expr.forms arguments)
  | .get object name => .list [.word ".", object.form, .word name.text]
  | .set object name value => .list [.word ".=", object.form, .word name.text, value.form]
  | .this _ _ => .word "this"
  | .super _ _ method => .list [.word "super", .word method.text]
termination_by structural e => e

/-- The forms of expressions. -/
def Expr.forms : List (Expr ι) → List Form
  | [] => []
  | e :: rest => e.form :: Expr.forms rest
termination_by structural es => es

end

/-! ## Declarations -/

/-- A name and the type behind it, if there is one. -/
def typedForms (name : String) : Option Token → List Form
  | none => [.word name]
  | some t => [.word (name ++ ":"), .word t.lexeme]

/-- An expression that may be missing. -/
def Expr.formsOption : Option (Expr ι) → List Form
  | none => []
  | some e => [e.form]

/-- The form of a variable or a field. -/
def VarDecl.form (d : VarDecl ι) : Form :=
  .list (.word "var" :: (typedForms d.name.text d.typeName ++ Expr.formsOption d.initializer))

/-- The forms of parameters, with a comma glued to each but the last. -/
def paramForms : List Param → List Form
  | [] => []
  | [p] => [.word (p.name.text ++ ":"), .word p.typeName.lexeme]
  | p :: q :: rest =>
    .word (p.name.text ++ ":") :: .word (p.typeName.lexeme ++ ",") :: paramForms (q :: rest)

/-- The header of a function: its parameters between parentheses, its name in front of them and the type
of its result behind them. -/
def headerForms (name : String) (params : List Param) : Option Token → List Form
  | none => [.group name (paramForms params) ""]
  | some t => [.group name (paramForms params) ":", .word t.lexeme]

/-- The superclass of a class. -/
def superclassForms : Option (SuperclassRef ι) → List Form
  | none => []
  | some s => [.word "<", .word s.name.text]

/-! ## Statements -/

mutual

/-- The form of a statement. -/
def Stmt.form : Stmt ι → Form
  | .expression value => .list [.word ";", value.form]
  | .print value => .list [.word "print", value.form]
  | .var decl => decl.form
  | .block body => .list (.word "block" :: Stmt.forms body)
  | .ifThen condition thenBranch => .list [.word "if", condition.form, thenBranch.form]
  | .ifElse condition thenBranch elseBranch =>
    .list [.word "if", condition.form, thenBranch.form, elseBranch.form]
  | .whileLoop condition body => .list [.word "while", condition.form, body.form]
  | .function decl => .list (.word "fun" :: Stmt.functionForms decl)
  | .returnWith _ value => .list (.word "return" :: Expr.formsOption value)
  | .classDecl ⟨name, superclass, fields, methods⟩ =>
    .list (.word "class" :: .word name.text ::
      (superclassForms superclass ++ (fields.map VarDecl.form ++ Stmt.methodForms methods)))
termination_by structural s => s

/-- The forms of statements. -/
def Stmt.forms : List (Stmt ι) → List Form
  | [] => []
  | s :: rest => s.form :: Stmt.forms rest
termination_by structural ss => ss

/-- The header and the body of a function. -/
def Stmt.functionForms : FunctionDecl (Stmt ι) → List Form
  | ⟨name, params, result, body⟩ =>
    headerForms name.text params result ++ [.list (.word "block" :: Stmt.forms body)]
termination_by structural d => d

/-- The forms of methods. -/
def Stmt.methodForms : List (FunctionDecl (Stmt ι)) → List Form
  | [] => []
  | d :: rest => .list (.word "method" :: Stmt.functionForms d) :: Stmt.methodForms rest
termination_by structural ds => ds

end

/-! ## Texts -/

open Form (chars itemChars moreChars)

theorem Literal.chars_form (v : Literal) : v.form.chars = v.text.toList := by
  cases v <;> rfl

/-- The text of forms between parentheses, after the first one. -/
theorem Form.chars_list (f : Form) (rest : List Form) :
    (Form.list (f :: rest)).chars = '(' :: (f.chars ++ moreChars rest ++ [')']) := by
  simp [Form.list, chars, itemChars]

mutual

theorem Expr.chars_form (e : Expr ι) : e.form.chars = e.text.toList := by
  match e with
  | .literal value => exact value.chars_form
  | .unary operator operand =>
    simp [Expr.form, Expr.text, Form.chars_list, chars, moreChars, operand.chars_form]
  | .suffixed operand operator =>
    simp [Expr.form, Expr.text, Form.chars_list, chars, moreChars, operand.chars_form]
  | .binary left operator right =>
    simp [Expr.form, Expr.text, Form.chars_list, chars, moreChars, left.chars_form, right.chars_form]
  | .logical left operator right =>
    simp [Expr.form, Expr.text, Form.chars_list, chars, moreChars, left.chars_form, right.chars_form]
  | .grouping inner => simp [Expr.form, Expr.text, Form.chars_list, chars, moreChars, inner.chars_form]
  | .variable id name => rfl
  | .assign id name value =>
    simp [Expr.form, Expr.text, Form.chars_list, chars, moreChars, value.chars_form]
  | .call callee line arguments =>
    simp [Expr.form, Expr.text, Form.chars_list, chars, moreChars, callee.chars_form,
      Expr.moreChars_forms arguments]
  | .get object name =>
    simp [Expr.form, Expr.text, Form.chars_list, chars, moreChars, object.chars_form]
  | .set object name value =>
    simp [Expr.form, Expr.text, Form.chars_list, chars, moreChars, object.chars_form,
      value.chars_form]
  | .this id keyword => rfl
  | .super id keyword method => simp [Expr.form, Expr.text, Form.chars_list, chars, moreChars]
termination_by structural e

theorem Expr.moreChars_forms (es : List (Expr ι)) :
    moreChars (Expr.forms es) = (Expr.argumentTexts es).toList := by
  match es with
  | [] => rfl
  | e :: rest =>
    simp [Expr.forms, Expr.argumentTexts, moreChars, e.chars_form, Expr.moreChars_forms rest]
termination_by structural es

end

@[simp] theorem Form.moreChars_append (fs gs : List Form) :
    moreChars (fs ++ gs) = moreChars fs ++ moreChars gs := by
  induction fs with
  | nil => rfl
  | cons f fs ih => simp [moreChars, ih]

theorem VarDecl.chars_form (d : VarDecl ι) : d.form.chars = d.text.toList := by
  obtain ⟨name, typeName, initializer⟩ := d
  cases typeName <;> cases initializer <;>
    simp [VarDecl.form, VarDecl.text, Form.chars_list, chars, moreChars, typedForms, typeNameText,
      Expr.formsOption, Expr.chars_form]

theorem itemChars_paramForms (params : List Param) :
    itemChars (paramForms params) = (", ".intercalate (params.map Param.text)).toList := by
  rw [String.toList_intercalate, List.map_map]
  induction params with
  | nil => rfl
  | cons p rest ih =>
    cases rest with
    | nil => simp [paramForms, itemChars, moreChars, chars, Param.text]
    | cons q rest =>
      rw [List.map_cons, List.map_cons, List.intercalate_cons_cons, ← List.map_cons, ← ih]
      cases rest <;> simp [paramForms, itemChars, moreChars, chars, Param.text]

theorem moreChars_headerForms (name : String) (params : List Param) (result : Option Token) :
    moreChars (headerForms name params result) =
      ' ' :: (name ++ "(" ++ ", ".intercalate (params.map Param.text) ++ ")" ++
        typeNameText result).toList := by
  cases result <;>
    simp [headerForms, moreChars, chars, itemChars_paramForms, typeNameText]

theorem moreChars_superclassForms (s : Option (SuperclassRef ι)) :
    moreChars (superclassForms s) = (superclassText s).toList := by
  cases s <;> simp [superclassForms, superclassText, moreChars, chars]

theorem moreChars_fields (fields : List (VarDecl ι)) :
    moreChars (fields.map VarDecl.form) = (fieldTexts fields).toList := by
  induction fields with
  | nil => rfl
  | cons d rest ih =>
    rw [fieldTexts, String.toList_join] at ih
    simp [fieldTexts, moreChars, String.toList_join, d.chars_form, ih]

mutual

theorem Stmt.chars_form (s : Stmt ι) : s.form.chars = s.text.toList := by
  match s with
  | .expression value =>
    simp [Stmt.form, Stmt.text, Form.chars_list, chars, moreChars, value.chars_form]
  | .print value =>
    simp [Stmt.form, Stmt.text, Form.chars_list, chars, moreChars, value.chars_form]
  | .var decl => exact decl.chars_form
  | .block body =>
    simp [Stmt.form, Stmt.text, inBlock, Form.chars_list, chars, Stmt.moreChars_forms body]
  | .ifThen condition thenBranch =>
    simp [Stmt.form, Stmt.text, Form.chars_list, chars, moreChars, condition.chars_form,
      thenBranch.chars_form]
  | .ifElse condition thenBranch elseBranch =>
    simp [Stmt.form, Stmt.text, Form.chars_list, chars, moreChars, condition.chars_form,
      thenBranch.chars_form, elseBranch.chars_form]
  | .whileLoop condition body =>
    simp [Stmt.form, Stmt.text, Form.chars_list, chars, moreChars, condition.chars_form,
      body.chars_form]
  | .function decl =>
    simp [Stmt.form, Stmt.text, Form.chars_list, chars, Stmt.moreChars_functionForms decl]
  | .returnWith keyword none =>
    simp [Stmt.form, Stmt.text, Form.chars_list, chars, moreChars, Expr.formsOption]
  | .returnWith keyword (some value) =>
    simp [Stmt.form, Stmt.text, Form.chars_list, chars, moreChars, Expr.formsOption, value.chars_form]
  | .classDecl ⟨name, superclass, fields, methods⟩ =>
    simp [Stmt.form, Stmt.text, Form.chars_list, chars, moreChars, moreChars_superclassForms,
      moreChars_fields, Stmt.moreChars_methodForms methods]
termination_by structural s

theorem Stmt.moreChars_forms (ss : List (Stmt ι)) :
    moreChars (Stmt.forms ss) = (Stmt.bodyTexts ss).toList := by
  match ss with
  | [] => rfl
  | s :: rest => simp [Stmt.forms, Stmt.bodyTexts, moreChars, s.chars_form, Stmt.moreChars_forms rest]
termination_by structural ss

theorem Stmt.moreChars_functionForms (d : FunctionDecl (Stmt ι)) :
    moreChars (Stmt.functionForms d) = ' ' :: (Stmt.functionText d).toList := by
  match d with
  | ⟨name, params, result, body⟩ =>
    simp [Stmt.functionForms, Stmt.functionText, moreChars_headerForms, moreChars, Form.chars_list,
      chars, inBlock, Stmt.moreChars_forms body]
termination_by structural d

theorem Stmt.moreChars_methodForms (ds : List (FunctionDecl (Stmt ι))) :
    moreChars (Stmt.methodForms ds) = (Stmt.methodTexts ds).toList := by
  match ds with
  | [] => rfl
  | d :: rest =>
    simp [Stmt.methodForms, Stmt.methodTexts, moreChars, Form.chars_list, chars,
      Stmt.moreChars_functionForms d, Stmt.moreChars_methodForms rest]
termination_by structural ds

end

/-- A printed program is the lines of its forms. -/
theorem programText_toList (program : List (Stmt ι)) :
    (programText program).toList = Form.lines (Stmt.forms program) := by
  rw [programText, String.toList_intercalate, List.map_map]
  cases program with
  | nil => rfl
  | cons s rest =>
    rw [Stmt.forms, Form.lines, Form.moreLines]
    induction rest generalizing s with
    | nil => simp [Stmt.forms, s.chars_form]
    | cons t rest ih =>
      rw [List.map_cons, List.map_cons, List.intercalate_cons_cons, ← List.map_cons, ih t]
      simp [Stmt.forms, s.chars_form]

end ClassScript
