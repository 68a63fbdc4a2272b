import ClassScript.Proofs.Derivation
import ClassScript.Proofs.Relabel

/-!
# Derivations on other lines

No rule of the grammar looks at lines. So tokens on other lines are derived by the same rules, and stand
for the same tree on these lines (`Derives.Program.onLines`).
-/

set_option autoImplicit false

namespace ClassScript

/-- The tokens on other lines. -/
def Token.onLines (f : Nat → Nat) (ts : List Token) : List Token :=
  ts.map (Token.onLine f)

section

variable (f : Nat → Nat)

@[simp] theorem Token.onLines_cons (t : Token) (ts : List Token) :
    Token.onLines f (t :: ts) = t.onLine f :: Token.onLines f ts := rfl

@[simp] theorem Token.onLines_append (ts us : List Token) :
    Token.onLines f (ts ++ us) = Token.onLines f ts ++ Token.onLines f us :=
  List.map_append

end

namespace Derives

variable {σ : Relabel Unit Unit}

/-! ## Expressions -/

theorem Atom.onLine {t : Token} {e : Expr Unit} (h : Atom t e) :
    Atom (t.onLine σ.line) (e.relabel σ) := by
  cases h with
  | falseWord h => exact .falseWord h
  | trueWord h => exact .trueWord h
  | nilWord h => exact .nilWord h
  | number h => exact .number h
  | string h => exact .string h
  | this h => exact .this h
  | «variable» h => exact .variable h

mutual

theorem Expression.onLines : ∀ {ts : List Token} {e : Expr Unit}, Expression ts e →
    Expression (Token.onLines σ.line ts) (e.relabel σ)
  | _, _, .assign hn he hv => .assign hn he hv.onLines
  | _, _, .set ho hd hn he hv => by
    rw [Token.onLines_append]
    exact .set ho.onLines hd hn he hv.onLines
  | _, _, .operators h => .operators h.onLines
termination_by structural _ _ h => h

theorem Operators.onLines : ∀ {level : Grammar.Level} {ts : List Token} {e : Expr Unit},
    Operators level ts e → Operators level (Token.onLines σ.line ts) (e.relabel σ)
  | _, _, _, .operand h => .operand h.onLines
  | _, _, _, .join hl ho hr => by
    rw [Token.onLines_append, Grammar.Level.combine_relabel]
    exact .join hl.onLines ho hr.onLines
termination_by structural _ _ _ h => h

theorem Operand.onLines : ∀ {level : Grammar.Level} {ts : List Token} {e : Expr Unit},
    Operand level ts e → Operand level (Token.onLines σ.line ts) (e.relabel σ)
  | _, _, _, .or h => .or h.onLines
  | _, _, _, .and h => .and h.onLines
  | _, _, _, .equality h => .equality h.onLines
  | _, _, _, .comparison h => .comparison h.onLines
  | _, _, _, .term h => .term h.onLines
  | _, _, _, .factor h => .factor h.onLines
termination_by structural _ _ _ h => h

theorem Unary.onLines : ∀ {ts : List Token} {e : Expr Unit}, Unary ts e →
    Unary (Token.onLines σ.line ts) (e.relabel σ)
  | _, _, .before ho h => .before ho h.onLines
  | _, _, .behind h ho => by
    rw [Token.onLines_append]
    exact .behind h.onLines ho
  | _, _, .call h => .call h.onLines
termination_by structural _ _ h => h

theorem Call.onLines : ∀ {ts : List Token} {e : Expr Unit}, Call ts e →
    Call (Token.onLines σ.line ts) (e.relabel σ)
  | _, _, .primary h => .primary h.onLines
  | _, _, .apply hf ho ha hn hc => by
    rw [Token.onLines_append, Token.onLines_cons, Token.onLines_append, Expr.relabel]
    refine .apply hf.onLines ho ha.onLines ?_ hc
    rwa [Expr.relabelAll_eq, List.length_map]
  | _, _, .get ho hd hn => by
    rw [Token.onLines_append]
    exact .get ho.onLines hd hn
termination_by structural _ _ h => h

theorem Arguments.onLines : ∀ {ts : List Token} {es : List (Expr Unit)}, Arguments ts es →
    Arguments (Token.onLines σ.line ts) (Expr.relabelAll σ es)
  | _, _, .none => .none
  | _, _, .some h => .some h.onLines
termination_by structural _ _ h => h

theorem ArgumentList.onLines : ∀ {ts : List Token} {es : List (Expr Unit)}, ArgumentList ts es →
    ArgumentList (Token.onLines σ.line ts) (Expr.relabelAll σ es)
  | _, _, .one h => .one h.onLines
  | _, _, .cons h hc hs => by
    rw [Token.onLines_append]
    exact .cons h.onLines hc hs.onLines
termination_by structural _ _ h => h

theorem Primary.onLines : ∀ {ts : List Token} {e : Expr Unit}, Primary ts e →
    Primary (Token.onLines σ.line ts) (e.relabel σ)
  | _, _, .atom h => .atom h.onLine
  | _, _, .super hk hd hm => .super hk hd hm
  | _, _, .grouping ho h hc => by
    rw [Token.onLines_cons, Token.onLines_append]
    exact .grouping ho h.onLines hc
termination_by structural _ _ h => h

end

theorem Option?.onLines {ts : List Token} {e : Option (Expr Unit)} (h : Option? ts e) :
    Option? (Token.onLines σ.line ts) (e.map (Expr.relabel σ)) := by
  cases h with
  | none => exact .none
  | some h => exact .some h.onLines

/-! ## Variables, parameters and headers -/

theorem TypeName.onLines {ts : List Token} {t : Option Token} (h : TypeName ts t) :
    TypeName (Token.onLines σ.line ts) (t.map (Token.onLine σ.line)) := by
  cases h with
  | none => exact .none
  | some hc hn => exact .some hc hn

theorem Initializer.onLines {ts : List Token} {e : Option (Expr Unit)} (h : Initializer ts e) :
    Initializer (Token.onLines σ.line ts) (e.map (Expr.relabel σ)) := by
  cases h with
  | none => exact .none
  | some he h => exact .some he h.onLines

theorem Variable.onLines {ts : List Token} {d : VarDecl Unit} (h : Variable ts d) :
    Variable (Token.onLines σ.line ts) (d.relabel σ) := by
  cases h with
  | mk hn ht hi hs =>
    rw [Token.onLines_cons, Token.onLines_append, Token.onLines_append]
    exact .mk hn ht.onLines hi.onLines hs

theorem Parameter.onLines {ts : List Token} {p : Param} (h : Parameter ts p) :
    Parameter (Token.onLines σ.line ts) (p.onLine σ.line) := by
  cases h with
  | mk hn hc ht => exact .mk hn hc ht

theorem ParameterList.onLines {ts : List Token} {ps : List Param} (h : ParameterList ts ps) :
    ParameterList (Token.onLines σ.line ts) (ps.map (Param.onLine σ.line)) := by
  induction h with
  | one h => exact .one h.onLines
  | cons h hc _ ih =>
    rw [Token.onLines_append]
    exact .cons h.onLines hc ih

theorem Parameters.onLines {ts : List Token} {ps : List Param} (h : Parameters ts ps) :
    Parameters (Token.onLines σ.line ts) (ps.map (Param.onLine σ.line)) := by
  cases h with
  | none => exact .none
  | some h => exact .some h.onLines

theorem Header.onLines {ts : List Token} {name : Name} {params : List Param} {result : Option Token}
    (h : Header ts (name, params, result)) :
    Header (Token.onLines σ.line ts) (name.onLine σ.line, params.map (Param.onLine σ.line),
      result.map (Token.onLine σ.line)) := by
  cases h with
  | mk hn ho hp hl hc ht =>
    rw [Token.onLines_cons, Token.onLines_cons, Token.onLines_append, Token.onLines_cons]
    exact .mk hn ho hp.onLines (by rwa [List.length_map]) hc ht.onLines

theorem Superclass.onLines {ts : List Token} {s : Option (SuperclassRef Unit)}
    (h : Superclass ts s) :
    Superclass (Token.onLines σ.line ts) (s.map (SuperclassRef.relabel σ)) := by
  cases h with
  | none => exact .none
  | some hl hn => exact .some hl hn

/-! ## Statements and declarations -/

theorem FirstClause.onLines {ts : List Token} {s : Option (Stmt Unit)} (h : FirstClause ts s) :
    FirstClause (Token.onLines σ.line ts) (s.map (Stmt.relabel σ)) := by
  cases h with
  | none hs => exact .none hs
  | var hk hd => exact .var hk hd.onLines
  | expression he hs =>
    rw [Token.onLines_append]
    exact .expression he.onLines hs

theorem Clauses.onLines {ts : List Token} {c : Grammar.ForClauses} (h : Clauses ts c) :
    Clauses (Token.onLines σ.line ts) (c.relabel σ) := by
  cases h with
  | mk ho hf hc hs hi hcl =>
    simp only [Token.onLines_cons, Token.onLines_append]
    exact .mk ho hf.onLines hc.onLines hs hi.onLines hcl

theorem Condition.onLines {ts : List Token} {e : Expr Unit} (h : Condition ts e) :
    Condition (Token.onLines σ.line ts) (e.relabel σ) := by
  cases h with
  | mk ho he hc =>
    rw [Token.onLines_cons, Token.onLines_append]
    exact .mk ho he.onLines hc

mutual

theorem Statement.onLines : ∀ {dangling : Bool} {ts : List Token} {s : Stmt Unit},
    Statement dangling ts s → Statement dangling (Token.onLines σ.line ts) (s.relabel σ)
  | _, _, _, .expression he hs => by
    rw [Token.onLines_append]
    exact .expression he.onLines hs
  | _, _, _, .print hk he hs => by
    rw [Token.onLines_cons, Token.onLines_append]
    exact .print hk he.onLines hs
  | _, _, _, .returnWith hk he hs => by
    rw [Token.onLines_cons, Token.onLines_append]
    exact .returnWith hk he.onLines hs
  | _, _, _, .block ho hb => .block ho hb.onLines
  | _, _, _, .ifThen hk hc ht => by
    rw [Token.onLines_cons, Token.onLines_append]
    exact .ifThen hk hc.onLines ht.onLines
  | _, _, _, .ifElse hk hc ht ho he => by
    simp only [Token.onLines_cons, Token.onLines_append]
    exact .ifElse hk hc.onLines ht.onLines ho he.onLines
  | _, _, _, .whileLoop hk hc hb => by
    rw [Token.onLines_cons, Token.onLines_append]
    exact .whileLoop hk hc.onLines hb.onLines
  | _, _, _, .forLoop hk hc hb => by
    rw [Token.onLines_cons, Token.onLines_append, Grammar.ForClauses.loop_relabel]
    exact .forLoop hk hc.onLines hb.onLines
termination_by structural _ _ _ h => h

theorem Body.onLines : ∀ {ts : List Token} {ss : List (Stmt Unit)}, Body ts ss →
    Body (Token.onLines σ.line ts) (Stmt.relabelAll σ ss)
  | _, _, .nil hc => .nil hc
  | _, _, .cons hd hb => by
    rw [Token.onLines_append]
    exact .cons hd.onLines hb.onLines
termination_by structural _ _ h => h

theorem Declaration.onLines : ∀ {ts : List Token} {s : Stmt Unit}, Declaration ts s →
    Declaration (Token.onLines σ.line ts) (s.relabel σ)
  | _, _, .classDecl hk hn hs ho hm => by
    simp only [Token.onLines_cons, Token.onLines_append]
    exact .classDecl hk hn hs.onLines ho hm.onLines
  | _, _, .function hk hr => .function hk hr.onLines
  | _, _, .var hk hd => .var hk hd.onLines
  | _, _, .statement hs => .statement hs.onLines
termination_by structural _ _ h => h

theorem Routine.onLines : ∀ {ts : List Token} {d : FunctionDecl (Stmt Unit)}, Routine ts d →
    Routine (Token.onLines σ.line ts) (Stmt.relabelRoutine σ d)
  | _, _, .mk hh ho hb => by
    rw [Token.onLines_append]
    exact .mk hh.onLines ho hb.onLines
termination_by structural _ _ h => h

theorem MembersOf.onLines : ∀ {ts : List Token} {fields : List (VarDecl Unit)}
    {methods : List (FunctionDecl (Stmt Unit))}, MembersOf ts fields methods →
    MembersOf (Token.onLines σ.line ts) (fields.map (VarDecl.relabel σ))
      (Stmt.relabelRoutines σ methods)
  | _, _, _, .nil hc => .nil hc
  | _, _, _, .field hk hd hm => by
    rw [Token.onLines_cons, Token.onLines_append]
    exact .field hk hd.onLines hm.onLines
  | _, _, _, .method hr hm => by
    rw [Token.onLines_append]
    exact .method hr.onLines hm.onLines
termination_by structural _ _ _ h => h

end

/-! ## Programs -/

theorem Program.onLines {ts : List Token} {ss : List (Stmt Unit)} (h : Program ts ss) :
    Program (Token.onLines σ.line ts) (Stmt.relabelAll σ ss) := by
  induction h with
  | nil => exact .nil
  | cons hd _ ih =>
    rw [Token.onLines_append]
    exact .cons hd.onLines ih

/-- Declarations may follow those of any program. -/
theorem Program.append {ts us : List Token} {ss rest : List (Stmt Unit)} (h : Program ts ss)
    (hrest : Program us rest) : Program (ts ++ us) (ss ++ rest) := by
  induction h with
  | nil => exact hrest
  | cons hd _ ih =>
    rw [List.append_assoc]
    exact .cons hd ih

end Derives

end ClassScript
