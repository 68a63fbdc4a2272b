import ClassScript.Machine.Eval
import ClassScript.Proofs.PaddedScopes
import ClassScript.Proofs.ParserSoundness

/-!
# What a `for` loop means

A `for` loop is a scope of its own for the variable of its first clause, and rounds in it: while the
condition holds, which is true if it is missing, the body runs and then the increment, both inside the
one scope of the loop. A `return` in the body leaves the loop at once. `ForLoop.run` says so for a run
and `ForLoop.report` for the walk that resolves names. The parser has another form for the loop, a
`while` loop in blocks (`ForLoop.tree`).
-/

set_option autoImplicit false

namespace ClassScript

open Resolution

/-- A `for` loop: its clauses, which may be missing, and its body. -/
structure ForLoop (ι : Type) where
  initializer : Option (Stmt ι)
  condition : Option (Expr ι)
  increment : Option (Expr ι)
  body : Stmt ι

namespace Run

/-- A part of a run in a new scope inside the current one. -/
def inScope {α : Type} (x : Run α) : Run α := do
  let frame ← newFrame (← get).current .empty
  inFrame frame x

end Run

namespace ForLoop

variable {ι : Type}

/-! ## Runs -/

/-- The value of the condition, true without one. -/
def test (loop : ForLoop NodeId) (fuel : Nat) : Run Value :=
  match loop.condition with
  | none => return .boolean true
  | some e => Run.evalWith .none fuel e

/-- One round: the body and then the increment, unless the body returns. -/
def round (loop : ForLoop NodeId) (fuel : Nat) : Run Flow := do
  match ← Run.execWith .none fuel loop.body with
  | .normal =>
    let _ ← Run.evalOption (Run.evalWith .none fuel) loop.increment
    return .normal
  | .returned v => return .returned v

/-- Rounds, as long as the condition holds and none of them returns. -/
def rounds (loop : ForLoop NodeId) : (fuel : Nat) → Run Flow
  | 0 => throw .outOfFuel
  | fuel + 1 => do
    if (← loop.test fuel).isTruthy then
      match ← loop.round fuel with
      | .normal => loop.rounds fuel
      | .returned v => return .returned v
    else return .normal

/-- The first clause and the rounds, in a scope of their own if there is a first clause. -/
def start (loop : ForLoop NodeId) (exec : Run.ExecFn) (rounds : Run Flow) : Run Flow :=
  match loop.initializer with
  | none => rounds
  | some first => Run.inScope do
    match ← exec first with
    | .normal => rounds
    | .returned v => return .returned v

/-- Runs the loop. -/
def run (loop : ForLoop NodeId) (fuel : Nat) : Run Flow :=
  loop.start (Run.execWith .none fuel) (loop.rounds fuel)

/-! ## Resolving -/

/-- The scopes inside the loop and the report on its first clause. -/
def entry (routine : Routine) (enclosing : Enclosing) (scopes : Scopes) (loop : ForLoop NodeId) :
    Scopes × Report :=
  match loop.initializer with
  | none => (scopes, .empty)
  | some first => statement routine enclosing (.empty :: scopes) first

/-- The report on the loop: the condition, the body and the increment stand in the scope of the loop. -/
def report (routine : Routine) (enclosing : Enclosing) (scopes : Scopes) (loop : ForLoop NodeId) :
    Report :=
  let (inside, first) := loop.entry routine enclosing scopes
  first ++ expressionOption enclosing inside loop.condition ++
    (statement routine enclosing inside loop.body).2 ++
    expressionOption enclosing inside loop.increment

/-! ## Numbering -/

/-- Numbers the uses of names in the loop. -/
def number (loop : ForLoop ι) : StateM NodeId (ForLoop NodeId) := do
  let initializer ← match loop.initializer with
    | none => pure none
    | some first => some <$> first.number
  let condition ← Expr.numberOption loop.condition
  let body ← loop.body.number
  let increment ← Expr.numberOption loop.increment
  return ⟨initializer, condition, increment, body⟩

/-- The loop as a statement of a machine: its uses of names get numbers that the machine does not know yet,
and it learns at which distances they are bound. -/
def load (routine : Routine) (enclosing : Enclosing) (scopes : Scopes) (loop : ForLoop ι)
    (m : Machine) : ForLoop NodeId × Machine :=
  let (numbered, next) := loop.number.run m.nextUse
  (numbered, (m.reserve next).note (numbered.report routine enclosing scopes).notes)

/-! ## The form of the parser -/

/-- The `while` loop of the parser, in a block with the first clause if there is one. Its body is a block
with the increment if there is one. -/
def tree (loop : ForLoop ι) : Stmt ι :=
  let round := match loop.increment with
    | none => loop.body
    | some e => .block [loop.body, .expression e]
  let rounds := .whileLoop (loop.condition.getD (.literal (.boolean true))) round
  match loop.initializer with
  | none => rounds
  | some first => .block [first, rounds]

/-- The loop with these clauses and this body. -/
def ofClauses (clauses : Grammar.ForClauses) (body : Stmt Unit) : ForLoop Unit :=
  ⟨clauses.initializer, clauses.condition, clauses.increment, body⟩

theorem tree_ofClauses (clauses : Grammar.ForClauses) (body : Stmt Unit) :
    (ofClauses clauses body).tree = clauses.loop body := by
  obtain ⟨initializer, condition, increment⟩ := clauses
  cases initializer <;> cases increment <;> rfl

/-- Numbering the form of the parser is numbering the loop. -/
theorem number_tree (loop : ForLoop ι) (n : NodeId) :
    loop.tree.number.run n = ((loop.number.run n).1.tree, (loop.number.run n).2) := by
  obtain ⟨initializer, condition, increment, body⟩ := loop
  cases initializer <;> cases condition <;> cases increment <;> rfl

/-- The statement is the first clause of a loop: a variable or an expression. -/
def isFirst : Stmt ι → Bool
  | .var _ => true
  | .expression _ => true
  | _ => false

/-- The loop has the shape of those that are read. -/
structure Shaped (loop : ForLoop ι) : Prop where
  initializer : ∀ first ∈ loop.initializer, first.Shaped ∧ isFirst first = true
  condition : Expr.ShapedOption loop.condition
  increment : Expr.ShapedOption loop.increment
  body : loop.body.Shaped ∧ loop.body.isBranch = true

theorem number_isFirst (s : Stmt ι) (n : NodeId) : isFirst (s.number.run n).1 = isFirst s := by
  cases s <;> rfl

/-- Numbering keeps the shape. -/
theorem number_shaped {loop : ForLoop ι} (h : loop.Shaped) (n : NodeId) :
    (loop.number.run n).1.Shaped := by
  obtain ⟨initializer, condition, increment, body⟩ := loop
  obtain ⟨hi, hc, hn, hb, hbranch⟩ := h
  have hbranch' (k : NodeId) := (body.number_isBranch k).trans hbranch
  cases initializer with
  | none =>
    exact ⟨fun _ hfirst => (nomatch hfirst), Expr.numberOption_shaped condition n hc,
      Expr.numberOption_shaped increment _ hn, body.number_shaped _ hb, hbranch' _⟩
  | some s =>
    refine ⟨fun first hfirst => ?_, Expr.numberOption_shaped condition _ hc,
      Expr.numberOption_shaped increment _ hn, body.number_shaped _ hb, hbranch' _⟩
    cases hfirst
    exact ⟨s.number_shaped n (hi s rfl).1, (number_isFirst s n).trans (hi s rfl).2⟩

end ForLoop

/-! ## What the parser reads -/

namespace Grammar

open Derives

theorem gives_reads {α : Type} {a : Bool} {s r : List Token} {P : α → Prop}
    {o : Outcome a α s} {v : α} (h : o.Gives P) (hr : o.Reads v r) : P v ∧ AllSpelled r := by
  obtain ⟨_, rfl⟩ := hr
  exact h

/-- What the parser reads at the word `for` is its form of a loop with the clauses and the body that stand
there. -/
theorem reads_forLoop {final keyword : Token} {s r : List Token} {st : Stmt Unit}
    (hs : AllSpelled (keyword :: s)) (hk : keyword.kind = .symbol .forWord)
    (h : (statement final (keyword :: s)).Reads st r) :
    ∃ (clauses : ForClauses) (body : Stmt Unit),
      (ForLoop.ofClauses clauses body).tree = st ∧ (ForLoop.ofClauses clauses body).Shaped ∧
        ∃ ts us dangling, s = ts ++ us ++ r ∧ Clauses ts clauses ∧ Statement dangling us body := by
  unfold statement at h
  rw [hk] at h
  obtain ⟨clauses, r', -, hc, hb⟩ := Reply.reads_andThen.1 (Reply.reads_past.1 h)
  obtain ⟨body, hbody, rfl⟩ := Reply.reads_map.1 hb
  have hclauses := Reply.reads_quiet.1 hc
  obtain ⟨hshaped, hr'⟩ := gives_reads (forClauses_gives final hs.tail) hclauses
  have hbranch := (gives_reads (statement_gives final r' hr') hbody.2).1
  obtain ⟨ts, rfl, hts⟩ := forClauses_derives hclauses
  obtain ⟨dangling, us, rfl, hus, -⟩ := statement_derives r' hbody
  refine ⟨clauses, body, ForLoop.tree_ofClauses clauses body, ?_, ts, us, dangling, by simp, hts, hus⟩
  refine ⟨fun first hfirst => ⟨hshaped.initializer first hfirst, ?_⟩, hshaped.condition,
    hshaped.increment, hbranch⟩
  obtain ⟨-, hclause, -⟩ := hts
  cases hclause <;> cases hfirst <;> rfl

end Grammar

end ClassScript
