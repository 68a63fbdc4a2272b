import ClassScript.Proofs.Derivation

/-!
# What the rules read is derived

`Outcome.Reads o v r` says that a rule has read the value `v` and left the tokens `r`. What each rule
reads is a derivation of the tokens that it has used (`expression_derives`, `statement_derives`,
`program_derives`). A rule that recovers from errors keeps them, so what it reads without errors has
been read without recovery.
-/

set_option autoImplicit false

namespace ClassScript

open Derives

variable {α β : Type} {a b : Bool} {s r : List Token} {t : Token}

/-! ## What an outcome reads -/

/-- The rule has read the value and left these tokens. -/
def Outcome.Reads (o : Outcome a α s) (v : α) (r : List Token) : Prop :=
  ∃ h, o = .ok v r h

namespace Outcome

variable {v w : α} {u : β} {r' : List Token}

theorem reads_ok {h : r.length + a.toNat ≤ s.length} :
    (Outcome.ok v r h : Outcome a α s).Reads w r' ↔ v = w ∧ r = r' := by
  constructor
  · rintro ⟨_, he⟩
    cases he
    exact ⟨rfl, rfl⟩
  · rintro ⟨rfl, rfl⟩
    exact ⟨h, rfl⟩

theorem reads_fail {e : SyntaxError} {h : r.length ≤ s.length} :
    ¬ (Outcome.fail e r h : Outcome a α s).Reads w r' := by
  rintro ⟨_, he⟩
  cases he

theorem reads_andThen {x : Outcome a α s}
    {next : α → (r : List Token) → r.length + a.toNat ≤ s.length → Outcome b β r} :
    (x.andThen next).Reads u r' ↔ ∃ v r h, x.Reads v r ∧ (next v r h).Reads u r' := by
  cases x with
  | ok v r h =>
    constructor
    · intro hr
      refine ⟨v, r, h, ⟨h, rfl⟩, ?_⟩
      simp only [andThen] at hr
      cases hn : next v r h with
      | ok u' r'' h' =>
        rw [hn] at hr
        exact reads_ok.2 (reads_ok.1 hr)
      | fail e r'' h' =>
        rw [hn] at hr
        exact absurd hr reads_fail
    · rintro ⟨v', r'', h', hx, hn⟩
      obtain ⟨rfl, rfl⟩ := reads_ok.1 hx
      obtain ⟨h'', hn⟩ := hn
      simp only [andThen]
      rw [hn]
      exact ⟨_, rfl⟩
  | fail e r h =>
    constructor
    · intro hr
      exact absurd hr reads_fail
    · rintro ⟨_, _, _, hx, _⟩
      exact absurd hx reads_fail

theorem reads_map {x : Outcome a α s} {f : α → β} :
    (x.map f).Reads u r ↔ ∃ v, x.Reads v r ∧ f v = u := by
  cases x with
  | ok v r' h => simp only [map, reads_ok]; grind
  | fail e r' h => simp only [map, reads_fail, false_and, exists_false]

theorem reads_within {x : Outcome a α r} {h : r.length ≤ s.length} :
    (x.within h).Reads v r' ↔ x.Reads v r' := by
  cases x with
  | ok v' r'' h' => simp only [within, reads_ok]
  | fail e r'' h' => simp only [within, reads_fail]

theorem reads_past {x : Outcome a α r} :
    (x.past : Outcome b α (t :: r)).Reads v r' ↔ x.Reads v r' := by
  cases x with
  | ok v' r'' h' => simp only [past, reads_ok]
  | fail e r'' h' => simp only [past, reads_fail]

theorem reads_done : (Outcome.done v s).Reads w r' ↔ v = w ∧ s = r' :=
  reads_ok

theorem reads_one : (Outcome.one v t r : Outcome b α (t :: r)).Reads w r' ↔ v = w ∧ r = r' :=
  reads_ok

end Outcome

open Outcome

/-- The rule has read the value without errors and left these tokens. -/
def Reply.Reads (x : Reply a α s) (v : α) (r : List Token) : Prop :=
  x.log = [] ∧ x.outcome.Reads v r

namespace Reply

variable {v w : α} {u : β} {r' : List Token}

theorem reads_quiet {o : Outcome a α s} : (Reply.quiet o).Reads v r ↔ o.Reads v r :=
  ⟨fun h => h.2, fun h => ⟨rfl, h⟩⟩

theorem reads_andThen {x : Reply a α s}
    {next : α → (r : List Token) → r.length + a.toNat ≤ s.length → Reply b β r} :
    (x.andThen next).Reads u r' ↔ ∃ v r h, x.Reads v r ∧ (next v r h).Reads u r' := by
  obtain ⟨log, o⟩ := x
  cases o with
  | ok v r h =>
    have hlog : (Reply.andThen ⟨log, .ok v r h⟩ next).log = log ++ (next v r h).log := rfl
    have hout : (Reply.andThen ⟨log, .ok v r h⟩ next).outcome =
        (Outcome.ok v r h : Outcome a α s).andThen fun v r h => (next v r h).outcome := rfl
    unfold Reads
    rw [hlog, hout, Outcome.reads_andThen, List.append_eq_nil_iff]
    constructor
    · rintro ⟨⟨hl, hn⟩, v', r'', h', hx, hr⟩
      obtain ⟨rfl, rfl⟩ := reads_ok.1 hx
      exact ⟨v, r, h, ⟨hl, hx⟩, hn, hr⟩
    · rintro ⟨v', r'', h', ⟨hl, hx⟩, hn, hr⟩
      obtain ⟨rfl, rfl⟩ := reads_ok.1 hx
      exact ⟨⟨hl, hn⟩, v, r, h, hx, hr⟩
  | fail e r h =>
    constructor
    · rintro ⟨_, hr⟩
      exact absurd hr reads_fail
    · rintro ⟨_, _, _, ⟨_, hx⟩, _⟩
      exact absurd hx reads_fail

theorem reads_map {x : Reply a α s} {f : α → β} :
    (x.map f).Reads u r ↔ ∃ v, x.Reads v r ∧ f v = u := by
  unfold Reads
  simp only [Reply.map, Outcome.reads_map]
  constructor
  · rintro ⟨hl, v, hv, hf⟩
    exact ⟨v, ⟨hl, hv⟩, hf⟩
  · rintro ⟨v, ⟨hl, hv⟩, hf⟩
    exact ⟨hl, v, hv, hf⟩

theorem reads_past {x : Reply a α r} :
    (x.past : Reply b α (t :: r)).Reads v r' ↔ x.Reads v r' := by
  unfold Reads
  simp only [Reply.past, Outcome.reads_past]

end Reply

theorem Token.isSymbol_iff {symbol : Symbol} :
    t.isSymbol symbol = true ↔ t.kind = .symbol symbol := by
  simp [Token.isSymbol]

namespace Grammar

variable {final : Token} {s r : List Token}

/-! ## Single tokens -/

theorem reads_reject {cause : SyntaxCause} {v : α} :
    ¬ (reject final cause s : Outcome true α s).Reads v r :=
  reads_fail

theorem reads_expect {test : Token → Bool} {cause : SyntaxCause} {v : Token} :
    (expect final test cause s).Reads v r ↔ s = v :: r ∧ test v = true := by
  cases s with
  | nil => simp [expect, reads_reject]
  | cons t rest =>
    rw [expect]
    split
    next ht =>
      rw [reads_one, List.cons.injEq]
      exact ⟨fun h => ⟨h, h.1 ▸ ht⟩, fun h => h.1⟩
    next ht =>
      simp only [reads_reject, List.cons.injEq, false_iff, not_and]
      rintro ⟨rfl, -⟩
      exact ht

theorem reads_expectSymbol {symbol : Symbol} {cause : SyntaxCause} {v : Token} :
    (expectSymbol final symbol cause s).Reads v r ↔ s = v :: r ∧ v.kind = .symbol symbol := by
  rw [expectSymbol, reads_expect, Token.isSymbol_iff]

theorem reads_expectName {cause : SyntaxCause} {v : Name} :
    (expectName final cause s).Reads v r ↔
      ∃ t, s = t :: r ∧ t.kind = .identifier ∧ t.toName = v := by
  simp only [expectName, reads_map, reads_expect, decide_eq_true_eq, and_assoc]

/-! ## Targets of assignments -/

/-- A variable or a property, which may be assigned to. -/
def IsTarget : Expr Unit → Prop
  | .variable _ _ => True
  | .get _ _ => True
  | _ => False

theorem not_isTarget_combine {level : Level} {left right : Expr Unit} {operator : Token} :
    ¬ IsTarget (level.combine left operator right) := by
  cases level <;> exact id

theorem call_of_unary {ts : List Token} {e : Expr Unit} (h : Unary ts e) (he : IsTarget e) :
    Call ts e := by
  cases h with
  | before _ _ => exact he.elim
  | behind _ _ => exact he.elim
  | call hc => exact hc

/-- No operator makes a variable or a property. -/
theorem operand_of_operators {level : Level} {ts : List Token} {e : Expr Unit}
    (h : Operators level ts e) (he : IsTarget e) : Operand level ts e := by
  cases h with
  | operand ho => exact ho
  | join _ _ _ => exact absurd he not_isTarget_combine

theorem call_of_operators {ts : List Token} {e : Expr Unit} (h : Operators .or ts e)
    (he : IsTarget e) : Call ts e := by
  cases operand_of_operators h he with
  | or h =>
    cases operand_of_operators h he with
    | and h =>
      cases operand_of_operators h he with
      | equality h =>
        cases operand_of_operators h he with
        | comparison h =>
          cases operand_of_operators h he with
          | term h =>
            cases operand_of_operators h he with
            | factor h => exact call_of_unary h he

/-- What an assignment makes of a target is derived. -/
theorem assignTo?_derives {ts us : List Token} {equal : Token} {target value e : Expr Unit}
    (ht : Operators .or ts target) (hequal : equal.kind = .symbol .equal)
    (hv : Expression us value) (he : assignTo? target value = some e) :
    Expression (ts ++ equal :: us) e := by
  match target, ht, he with
  | .variable _ _, ht, rfl =>
    obtain ⟨⟨ha⟩⟩ := call_of_operators ht trivial
    cases ha with
    | _ hk => exact .assign hk hequal hv
  | .get _ _, ht, rfl =>
    rcases call_of_operators ht trivial with ⟨⟨⟨⟩⟩⟩ | _ | ⟨ho, hd, hn⟩
    rw [List.append_assoc]
    exact .set ho hd hn hequal hv

/-! ## Expressions -/

theorem suffix_derives {e e' : Expr Unit} {ts : List Token} (he : Call ts e)
    (h : (suffix e s).Reads e' r) : ∃ us, s = us ++ r ∧ Unary (ts ++ us) e' := by
  cases s with
  | nil =>
    obtain ⟨rfl, rfl⟩ := reads_done.1 h
    exact ⟨[], rfl, by rw [List.append_nil]; exact .call he⟩
  | cons t rest =>
    rw [suffix] at h
    split at h
    next ht =>
      obtain ⟨rfl, rfl⟩ := reads_one.1 h
      exact ⟨[t], rfl, .behind he ht⟩
    next =>
      obtain ⟨rfl, rfl⟩ := reads_done.1 h
      exact ⟨[], rfl, by rw [List.append_nil]; exact .call he⟩

theorem superAccess_derives {keyword : Token} {e : Expr Unit}
    (hk : keyword.kind = .symbol .superWord)
    (h : (superAccess final keyword.toName s).Reads e r) :
    ∃ us, s = us ++ r ∧ Primary (keyword :: us) e := by
  unfold superAccess at h
  obtain ⟨dot, r', -, hd, hm⟩ := reads_andThen.1 h
  obtain ⟨hs, hdot⟩ := reads_expectSymbol.1 hd
  obtain ⟨_, hname, rfl⟩ := reads_map.1 hm
  obtain ⟨method, hr, hkind, rfl⟩ := reads_expectName.1 hname
  exact ⟨[dot, method], by rw [hs, hr]; rfl, .super hk hdot hkind⟩

theorem atom_derives {t : Token} {rest : List Token} {e e' : Expr Unit} (ha : Atom t e)
    (h : (Outcome.one e t rest : Outcome true (Expr Unit) (t :: rest)).Reads e' r) :
    ∃ ts, t :: rest = ts ++ r ∧ Primary ts e' := by
  obtain ⟨rfl, rfl⟩ := reads_one.1 h
  exact ⟨[t], rfl, .atom ha⟩

mutual

theorem expression_derives (s : List Token) {e : Expr Unit} {r : List Token}
    (h : (expression final s).Reads e r) : ∃ ts, s = ts ++ r ∧ Expression ts e := by
  unfold expression at h
  obtain ⟨target, r', hlt, ht, ha⟩ := reads_andThen.1 h
  obtain ⟨ts, hs, hts⟩ := operators_derives .or s ht
  obtain ⟨us, hr, hus⟩ := assignment_derives target r' hts ha
  exact ⟨ts ++ us, by rw [hs, hr, List.append_assoc], hus⟩
termination_by 32 * s.length + 20
decreasing_by
  all_goals
    simp only [Level.height, Bool.toNat_true] at *
    omega

theorem assignment_derives (target : Expr Unit) (s : List Token) {e : Expr Unit}
    {ts r : List Token} (hts : Operators .or ts target)
    (h : (assignment final target s).Reads e r) : ∃ us, s = us ++ r ∧ Expression (ts ++ us) e := by
  match s with
  | [] =>
    unfold assignment at h
    obtain ⟨rfl, rfl⟩ := reads_done.1 h
    exact ⟨[], rfl, by rw [List.append_nil]; exact .operators hts⟩
  | t :: rest =>
    unfold assignment at h
    split at h
    next ht =>
      obtain ⟨value, r', -, hv, hr⟩ := reads_andThen.1 (reads_past.1 h)
      obtain ⟨us, hrest, hus⟩ := expression_derives rest hv
      split at hr
      next e' he =>
        obtain ⟨rfl, rfl⟩ := reads_done.1 hr
        exact ⟨t :: us, by rw [hrest]; rfl,
          assignTo?_derives hts (Token.isSymbol_iff.1 ht) hus he⟩
      next => exact absurd hr reads_fail
    next =>
      obtain ⟨rfl, rfl⟩ := reads_done.1 h
      exact ⟨[], rfl, by rw [List.append_nil]; exact .operators hts⟩
termination_by 32 * s.length

theorem operators_derives (level : Level) (s : List Token) {e : Expr Unit} {r : List Token}
    (h : (operators final level s).Reads e r) : ∃ ts, s = ts ++ r ∧ Operators level ts e := by
  unfold operators at h
  obtain ⟨left, r', hlt, hl, hm⟩ := reads_andThen.1 h
  obtain ⟨ts, hs, hts⟩ := operand_derives level s hl
  obtain ⟨us, hr, hus⟩ := moreOperands_derives level left r' (.operand hts) hm
  exact ⟨ts ++ us, by rw [hs, hr, List.append_assoc], hus⟩
termination_by 32 * s.length + 2 * level.height + 5

theorem moreOperands_derives (level : Level) (left : Expr Unit) (s : List Token) {e : Expr Unit}
    {ts r : List Token} (hts : Operators level ts left)
    (h : (moreOperands final level left s).Reads e r) :
    ∃ us, s = us ++ r ∧ Operators level (ts ++ us) e := by
  match s with
  | [] =>
    unfold moreOperands at h
    obtain ⟨rfl, rfl⟩ := reads_done.1 h
    exact ⟨[], rfl, by rw [List.append_nil]; exact hts⟩
  | t :: rest =>
    unfold moreOperands at h
    split at h
    next ht =>
      obtain ⟨right, r', hlt, hr, hm⟩ := reads_andThen.1 (reads_past.1 h)
      obtain ⟨us, hrest, hus⟩ := operand_derives level rest hr
      obtain ⟨vs, hr', hvs⟩ := moreOperands_derives level _ r' (.join hts ht hus) hm
      refine ⟨t :: (us ++ vs), by rw [hrest, hr', List.cons_append, List.append_assoc], ?_⟩
      simpa only [List.append_assoc, List.cons_append] using hvs
    next =>
      obtain ⟨rfl, rfl⟩ := reads_done.1 h
      exact ⟨[], rfl, by rw [List.append_nil]; exact hts⟩
termination_by 32 * s.length
decreasing_by
  all_goals
    have := level.height_le
    simp only [List.length_cons, Bool.toNat_true] at *
    omega

theorem operand_derives (level : Level) (s : List Token) : ∀ {e : Expr Unit} {r : List Token},
    (operand final level s).Reads e r → ∃ ts, s = ts ++ r ∧ Operand level ts e := by
  unfold operand
  intro e r
  cases level with
  | or => exact fun h => (operators_derives .and s h).imp fun _ ht => ⟨ht.1, .or ht.2⟩
  | and => exact fun h => (operators_derives .equality s h).imp fun _ ht => ⟨ht.1, .and ht.2⟩
  | equality =>
    exact fun h => (operators_derives .comparison s h).imp fun _ ht => ⟨ht.1, .equality ht.2⟩
  | comparison =>
    exact fun h => (operators_derives .term s h).imp fun _ ht => ⟨ht.1, .comparison ht.2⟩
  | term => exact fun h => (operators_derives .factor s h).imp fun _ ht => ⟨ht.1, .term ht.2⟩
  | factor => exact fun h => (unary_derives s h).imp fun _ ht => ⟨ht.1, .factor ht.2⟩
termination_by 32 * s.length + 2 * level.height + 4
decreasing_by all_goals simp [Level.height]

theorem unary_derives (s : List Token) {e : Expr Unit} {r : List Token}
    (h : (unary final s).Reads e r) : ∃ ts, s = ts ++ r ∧ Unary ts e := by
  match s with
  | [] =>
    unfold unary at h
    exact suffixed_derives [] h
  | t :: rest =>
    unfold unary at h
    split at h
    next ht =>
      obtain ⟨operand, ho, rfl⟩ := reads_map.1 (reads_past.1 h)
      obtain ⟨ts, hrest, hts⟩ := unary_derives rest ho
      exact ⟨t :: ts, by rw [hrest]; rfl, .before ht hts⟩
    next => exact suffixed_derives (t :: rest) h
termination_by 32 * s.length + 5

theorem suffixed_derives (s : List Token) {e : Expr Unit} {r : List Token}
    (h : (suffixed final s).Reads e r) : ∃ ts, s = ts ++ r ∧ Unary ts e := by
  unfold suffixed at h
  obtain ⟨inner, r', -, hc, hs⟩ := reads_andThen.1 h
  obtain ⟨ts, hts, hcall⟩ := call_derives s hc
  obtain ⟨us, hus, hu⟩ := suffix_derives hcall hs
  exact ⟨ts ++ us, by rw [hts, hus, List.append_assoc], hu⟩
termination_by 32 * s.length + 4

theorem call_derives (s : List Token) {e : Expr Unit} {r : List Token}
    (h : (call final s).Reads e r) : ∃ ts, s = ts ++ r ∧ Call ts e := by
  unfold call at h
  obtain ⟨inner, r', hlt, hp, hm⟩ := reads_andThen.1 h
  obtain ⟨ts, hts, hprimary⟩ := primary_derives s hp
  obtain ⟨us, hus, hc⟩ := moreCalls_derives inner r' (.primary hprimary) hm
  exact ⟨ts ++ us, by rw [hts, hus, List.append_assoc], hc⟩
termination_by 32 * s.length + 3

theorem moreCalls_derives (inner : Expr Unit) (s : List Token) {e : Expr Unit} {ts r : List Token}
    (hts : Call ts inner) (h : (moreCalls final inner s).Reads e r) :
    ∃ us, s = us ++ r ∧ Call (ts ++ us) e := by
  match s with
  | [] =>
    unfold moreCalls at h
    obtain ⟨rfl, rfl⟩ := reads_done.1 h
    exact ⟨[], rfl, by rw [List.append_nil]; exact hts⟩
  | t :: rest =>
    unfold moreCalls at h
    split at h
    next ht =>
      obtain ⟨found, r', hlt, ha, hm⟩ := reads_andThen.1 (reads_past.1 h)
      obtain ⟨us, closing, hrest, hargs, hlen, hclose, hline⟩ := arguments_derives rest ha
      have hcall := Call.apply hts (Token.isSymbol_iff.1 ht) hargs hlen hclose
      rw [hline] at hcall
      obtain ⟨vs, hr', hvs⟩ := moreCalls_derives _ r' hcall hm
      refine ⟨t :: (us ++ closing :: vs), by rw [hrest, hr']; simp, ?_⟩
      simpa only [List.append_assoc, List.cons_append, List.nil_append] using hvs
    next =>
      split at h
      next ht =>
        obtain ⟨_, r', hlt, hn, hm⟩ := reads_andThen.1 (reads_past.1 h)
        obtain ⟨name, hrest, hkind, rfl⟩ := reads_expectName.1 hn
        have hget := Call.get hts (Token.isSymbol_iff.1 ht) hkind
        obtain ⟨vs, hr', hvs⟩ := moreCalls_derives _ r' hget hm
        refine ⟨t :: name :: vs, by rw [hrest, hr']; rfl, ?_⟩
        simpa only [List.append_assoc, List.cons_append, List.nil_append] using hvs
      next =>
        obtain ⟨rfl, rfl⟩ := reads_done.1 h
        exact ⟨[], rfl, by rw [List.append_nil]; exact hts⟩
termination_by 32 * s.length

theorem arguments_derives (s : List Token) {found : List (Expr Unit) × Nat} {r : List Token}
    (h : (arguments final s).Reads found r) :
    ∃ ts closing, s = ts ++ closing :: r ∧ Arguments ts found.1 ∧ found.1.length ≤ maxArity ∧
      closing.kind = .symbol .rightParen ∧ closing.line = found.2 := by
  match s with
  | [] =>
    unfold arguments at h
    obtain ⟨ts, closing, hs, ha, hlen, hc⟩ := argumentList_derives 0 [] h
    exact ⟨ts, closing, hs, .some ha, by omega, hc⟩
  | t :: rest =>
    unfold arguments at h
    split at h
    next ht =>
      obtain ⟨rfl, rfl⟩ := reads_one.1 h
      exact ⟨[], t, rfl, .none, Nat.zero_le _, Token.isSymbol_iff.1 ht, rfl⟩
    next =>
      obtain ⟨ts, closing, hs, ha, hlen, hc⟩ := argumentList_derives 0 (t :: rest) h
      exact ⟨ts, closing, hs, .some ha, by omega, hc⟩
termination_by 32 * s.length + 22

theorem argumentList_derives (count : Nat) (s : List Token) {found : List (Expr Unit) × Nat}
    {r : List Token} (h : (argumentList final count s).Reads found r) :
    ∃ ts closing, s = ts ++ closing :: r ∧ ArgumentList ts found.1 ∧
      count + found.1.length ≤ maxArity ∧ closing.kind = .symbol .rightParen ∧
      closing.line = found.2 := by
  unfold argumentList at h
  split at h
  next => exact absurd h reads_reject
  next hcount =>
    obtain ⟨e, r', hlt, he, hm⟩ := reads_andThen.1 h
    obtain ⟨others, ho, rfl⟩ := reads_map.1 hm
    obtain ⟨ts, hs, hts⟩ := expression_derives s he
    rcases moreArguments_derives count r' ho with
      ⟨closing, hr', hnone, hc⟩ | ⟨comma, us, closing, hr', hcomma, hus, hlen, hc⟩
    · refine ⟨ts, closing, by rw [hs, hr'], ?_, ?_, hc⟩
      · rw [hnone]
        exact .one hts
      · rw [hnone]
        simp only [List.length_cons, List.length_nil]
        omega
    · refine ⟨ts ++ comma :: us, closing, by rw [hs, hr']; simp, .cons hts hcomma hus, ?_, hc⟩
      simp only [List.length_cons]
      omega
termination_by 32 * s.length + 21

theorem moreArguments_derives (count : Nat) (s : List Token) {found : List (Expr Unit) × Nat}
    {r : List Token} (h : (moreArguments final count s).Reads found r) :
    (∃ closing, s = closing :: r ∧ found.1 = [] ∧ closing.kind = .symbol .rightParen ∧
      closing.line = found.2) ∨
    ∃ comma ts closing, s = comma :: (ts ++ closing :: r) ∧ comma.kind = .symbol .comma ∧
      ArgumentList ts found.1 ∧ count + 1 + found.1.length ≤ maxArity ∧
      closing.kind = .symbol .rightParen ∧ closing.line = found.2 := by
  match s with
  | [] =>
    unfold moreArguments at h
    exact absurd h reads_reject
  | t :: rest =>
    unfold moreArguments at h
    split at h
    next ht =>
      obtain ⟨ts, closing, hs, ha, hlen, hc⟩ := argumentList_derives (count + 1) rest
        (reads_past.1 h)
      exact .inr ⟨t, ts, closing, by rw [hs], Token.isSymbol_iff.1 ht, ha, hlen, hc⟩
    next =>
      split at h
      next ht =>
        obtain ⟨rfl, rfl⟩ := reads_one.1 h
        exact .inl ⟨t, rfl, rfl, Token.isSymbol_iff.1 ht, rfl⟩
      next => exact absurd h reads_reject
termination_by 32 * s.length

theorem primary_derives (s : List Token) {e : Expr Unit} {r : List Token}
    (h : (primary final s).Reads e r) : ∃ ts, s = ts ++ r ∧ Primary ts e := by
  match s with
  | [] =>
    unfold primary at h
    exact absurd h reads_reject
  | t :: rest =>
    unfold primary at h
    split at h
    next hk => exact atom_derives (.falseWord hk) h
    next hk => exact atom_derives (.trueWord hk) h
    next hk => exact atom_derives (.nilWord hk) h
    next hk => exact atom_derives (.number hk) h
    next hk => exact atom_derives (.string hk) h
    next hk => exact atom_derives (.this hk) h
    next hk =>
      obtain ⟨us, hrest, hp⟩ := superAccess_derives hk (reads_past.1 h)
      exact ⟨t :: us, by rw [hrest]; rfl, hp⟩
    next hk => exact atom_derives (.variable hk) h
    next hk =>
      obtain ⟨inner, r', -, he, hm⟩ := reads_andThen.1 (reads_past.1 h)
      obtain ⟨closing, hc, rfl⟩ := reads_map.1 hm
      obtain ⟨hr', hclose⟩ := reads_expectSymbol.1 hc
      obtain ⟨ts, hrest, hts⟩ := expression_derives rest he
      exact ⟨t :: (ts ++ [closing]), by rw [hrest, hr']; simp, .grouping hk hts hclose⟩
    next => exact absurd h reads_reject
termination_by 32 * s.length + 2

end

/-! ## Variables, parameters and headers -/

theorem typeName?_derives {v : Option Token} (h : (typeName? final s).Reads v r) :
    ∃ ts, s = ts ++ r ∧ TypeName ts v := by
  cases s with
  | nil =>
    obtain ⟨rfl, rfl⟩ := reads_done.1 h
    exact ⟨[], rfl, .none⟩
  | cons t rest =>
    rw [typeName?] at h
    split at h
    next ht =>
      obtain ⟨name, hn, rfl⟩ := reads_map.1 (reads_past.1 h)
      obtain ⟨hrest, hname⟩ := reads_expect.1 hn
      exact ⟨[t, name], by rw [hrest]; rfl, .some (Token.isSymbol_iff.1 ht) hname⟩
    next =>
      obtain ⟨rfl, rfl⟩ := reads_done.1 h
      exact ⟨[], rfl, .none⟩

theorem initializer?_derives {v : Option (Expr Unit)} (h : (initializer? final s).Reads v r) :
    ∃ ts, s = ts ++ r ∧ Initializer ts v := by
  cases s with
  | nil =>
    obtain ⟨rfl, rfl⟩ := reads_done.1 h
    exact ⟨[], rfl, .none⟩
  | cons t rest =>
    rw [initializer?] at h
    split at h
    next ht =>
      obtain ⟨e, he, rfl⟩ := reads_map.1 (reads_past.1 h)
      obtain ⟨ts, hrest, hts⟩ := expression_derives rest he
      exact ⟨t :: ts, by rw [hrest]; rfl, .some (Token.isSymbol_iff.1 ht) hts⟩
    next =>
      obtain ⟨rfl, rfl⟩ := reads_done.1 h
      exact ⟨[], rfl, .none⟩

theorem varDeclaration_derives {d : VarDecl Unit} (h : (varDeclaration final s).Reads d r) :
    ∃ ts, s = ts ++ r ∧ Variable ts d := by
  unfold varDeclaration at h
  obtain ⟨_, r₁, -, hn, h⟩ := reads_andThen.1 h
  obtain ⟨typeName, r₂, -, ht, h⟩ := reads_andThen.1 h
  obtain ⟨initial, r₃, -, hi, h⟩ := reads_andThen.1 h
  obtain ⟨semicolon, hs, rfl⟩ := reads_map.1 h
  obtain ⟨name, hs₀, hname, rfl⟩ := reads_expectName.1 hn
  obtain ⟨ts, hs₁, hts⟩ := typeName?_derives ht
  obtain ⟨us, hs₂, hus⟩ := initializer?_derives hi
  obtain ⟨hs₃, hsemicolon⟩ := reads_expectSymbol.1 hs
  exact ⟨_, by rw [hs₀, hs₁, hs₂, hs₃]; simp, .mk hname hts hus hsemicolon⟩

theorem parameter_derives {p : Param} (h : (parameter final s).Reads p r) :
    ∃ ts, s = ts ++ r ∧ Parameter ts p := by
  unfold parameter at h
  obtain ⟨_, r₁, -, hn, h⟩ := reads_andThen.1 h
  obtain ⟨colon, r₂, -, hc, h⟩ := reads_andThen.1 h
  obtain ⟨typeName, ht, rfl⟩ := reads_map.1 h
  obtain ⟨name, hs₀, hname, rfl⟩ := reads_expectName.1 hn
  obtain ⟨hs₁, hcolon⟩ := reads_expectSymbol.1 hc
  obtain ⟨hs₂, htype⟩ := reads_expect.1 ht
  exact ⟨_, by rw [hs₀, hs₁, hs₂]; simp, .mk hname hcolon htype⟩

theorem parameterList_derives (count : Nat) (s : List Token) {params : List Param}
    {r : List Token} (h : (parameterList final count s).Reads params r) :
    ∃ ts closing, s = ts ++ closing :: r ∧ ParameterList ts params ∧
      count + params.length ≤ maxArity ∧ closing.kind = .symbol .rightParen := by
  unfold parameterList at h
  split at h
  next => exact absurd h reads_reject
  next hcount =>
    obtain ⟨p, r', hlt, hp, h⟩ := reads_andThen.1 h
    obtain ⟨ts, hs, hts⟩ := parameter_derives hp
    cases r' with
    | nil => exact absurd h reads_reject
    | cons t rest =>
      dsimp only at h
      split at h
      next ht =>
        obtain ⟨others, ho, rfl⟩ := reads_map.1 (reads_past.1 h)
        obtain ⟨us, closing, hrest, hus, hlen, hc⟩ := parameterList_derives (count + 1) rest ho
        refine ⟨ts ++ t :: us, closing, by rw [hs, hrest]; simp,
          .cons hts (Token.isSymbol_iff.1 ht) hus, ?_, hc⟩
        simp only [List.length_cons]
        omega
      next =>
        split at h
        next ht =>
          obtain ⟨rfl, rfl⟩ := reads_one.1 h
          refine ⟨ts, t, hs, .one hts, ?_, Token.isSymbol_iff.1 ht⟩
          simp only [List.length_cons, List.length_nil]
          omega
        next => exact absurd h reads_reject
termination_by s.length
decreasing_by
  simp only [List.length_cons, Bool.toNat_true] at hlt
  omega

theorem parameters_derives {params : List Param} (h : (parameters final s).Reads params r) :
    ∃ ts closing, s = ts ++ closing :: r ∧ Parameters ts params ∧ params.length ≤ maxArity ∧
      closing.kind = .symbol .rightParen := by
  have hlist {s : List Token} (h : (parameterList final 0 s).Reads params r) :
      ∃ ts closing, s = ts ++ closing :: r ∧ Parameters ts params ∧ params.length ≤ maxArity ∧
        closing.kind = .symbol .rightParen := by
    obtain ⟨ts, closing, hs, hp, hlen, hc⟩ := parameterList_derives 0 s h
    exact ⟨ts, closing, hs, .some hp, by omega, hc⟩
  cases s with
  | nil => exact hlist h
  | cons t rest =>
    rw [parameters] at h
    split at h
    next ht =>
      obtain ⟨rfl, rfl⟩ := reads_one.1 h
      exact ⟨[], t, rfl, .none, Nat.zero_le _, Token.isSymbol_iff.1 ht⟩
    next => exact hlist h

theorem header_derives {kind : RoutineKind} {v : Name × List Param × Option Token}
    (h : (header final kind s).Reads v r) :
    ∃ ts opening, s = ts ++ opening :: r ∧ Header ts v ∧ opening.kind = .symbol .leftBrace := by
  unfold header at h
  obtain ⟨_, r₁, -, hn, h⟩ := reads_andThen.1 h
  obtain ⟨opening, r₂, -, ho, h⟩ := reads_andThen.1 h
  obtain ⟨params, r₃, -, hp, h⟩ := reads_andThen.1 h
  obtain ⟨result, r₄, -, ht, h⟩ := reads_andThen.1 h
  obtain ⟨brace, hb, rfl⟩ := reads_map.1 h
  obtain ⟨name, hs₀, hname, rfl⟩ := reads_expectName.1 hn
  obtain ⟨hs₁, hopening⟩ := reads_expectSymbol.1 ho
  obtain ⟨ts, closing, hs₂, hts, hlen, hclosing⟩ := parameters_derives hp
  obtain ⟨us, hs₃, hus⟩ := typeName?_derives ht
  obtain ⟨hs₄, hbrace⟩ := reads_expectSymbol.1 hb
  exact ⟨_, brace, by rw [hs₀, hs₁, hs₂, hs₃, hs₄]; simp,
    .mk hname hopening hts hlen hclosing hus, hbrace⟩

theorem superclass?_derives {v : Option (SuperclassRef Unit)}
    (h : (superclass? final s).Reads v r) : ∃ ts, s = ts ++ r ∧ Superclass ts v := by
  cases s with
  | nil =>
    obtain ⟨rfl, rfl⟩ := reads_done.1 h
    exact ⟨[], rfl, .none⟩
  | cons t rest =>
    rw [superclass?] at h
    split at h
    next ht =>
      obtain ⟨_, hn, rfl⟩ := reads_map.1 (reads_past.1 h)
      obtain ⟨name, hrest, hname, rfl⟩ := reads_expectName.1 hn
      exact ⟨[t, name], by rw [hrest]; rfl, .some (Token.isSymbol_iff.1 ht) hname⟩
    next =>
      obtain ⟨rfl, rfl⟩ := reads_done.1 h
      exact ⟨[], rfl, .none⟩

theorem classHeader_derives {v : Name × Option (SuperclassRef Unit)}
    (h : (classHeader final s).Reads v r) :
    ∃ name ts opening, s = name :: (ts ++ opening :: r) ∧ name.kind = .identifier ∧
      name.toName = v.1 ∧ Superclass ts v.2 ∧ opening.kind = .symbol .leftBrace := by
  unfold classHeader at h
  obtain ⟨_, r₁, -, hn, h⟩ := reads_andThen.1 h
  obtain ⟨superclass, r₂, -, hc, h⟩ := reads_andThen.1 h
  obtain ⟨opening, ho, rfl⟩ := reads_map.1 h
  obtain ⟨name, hs₀, hname, rfl⟩ := reads_expectName.1 hn
  obtain ⟨ts, hs₁, hts⟩ := superclass?_derives hc
  obtain ⟨hs₂, hopening⟩ := reads_expectSymbol.1 ho
  exact ⟨name, ts, opening, by rw [hs₀, hs₁, hs₂], hname, rfl, hts, hopening⟩

/-! ## Simple statements -/

theorem expressionStatement_derives {st : Stmt Unit}
    (h : (expressionStatement final s).Reads st r) :
    ∃ ts e semicolon, s = ts ++ semicolon :: r ∧ Expression ts e ∧
      semicolon.kind = .symbol .semicolon ∧ .expression e = st := by
  unfold expressionStatement at h
  obtain ⟨e, r₁, -, he, h⟩ := reads_andThen.1 h
  obtain ⟨semicolon, hs, rfl⟩ := reads_map.1 h
  obtain ⟨ts, hs₀, hts⟩ := expression_derives s he
  obtain ⟨hs₁, hsemicolon⟩ := reads_expectSymbol.1 hs
  exact ⟨ts, e, semicolon, by rw [hs₀, hs₁], hts, hsemicolon, rfl⟩

theorem printStatement_derives {st : Stmt Unit} (h : (printStatement final s).Reads st r) :
    ∃ ts e semicolon, s = ts ++ semicolon :: r ∧ Expression ts e ∧
      semicolon.kind = .symbol .semicolon ∧ .print e = st := by
  unfold printStatement at h
  obtain ⟨e, r₁, -, he, h⟩ := reads_andThen.1 h
  obtain ⟨semicolon, hs, rfl⟩ := reads_map.1 h
  obtain ⟨ts, hs₀, hts⟩ := expression_derives s he
  obtain ⟨hs₁, hsemicolon⟩ := reads_expectSymbol.1 hs
  exact ⟨ts, e, semicolon, by rw [hs₀, hs₁], hts, hsemicolon, rfl⟩

theorem expressionUntil_derives {close : Symbol} {cause : SyntaxCause} {v : Option (Expr Unit)}
    (h : (expressionUntil final close cause s).Reads v r) :
    ∃ ts closing, s = ts ++ closing :: r ∧ Option? ts v ∧ closing.kind = .symbol close := by
  cases s with
  | nil => exact absurd h reads_reject
  | cons t rest =>
    rw [expressionUntil] at h
    split at h
    next ht =>
      obtain ⟨rfl, rfl⟩ := reads_one.1 h
      exact ⟨[], t, rfl, .none, Token.isSymbol_iff.1 ht⟩
    next =>
      obtain ⟨e, r₁, -, he, h⟩ := reads_andThen.1 h
      obtain ⟨closing, hc, rfl⟩ := reads_map.1 h
      obtain ⟨ts, hs₀, hts⟩ := expression_derives (t :: rest) he
      obtain ⟨hs₁, hclosing⟩ := reads_expectSymbol.1 hc
      exact ⟨ts, closing, by rw [hs₀, hs₁], .some hts, hclosing⟩

theorem condition_derives {opening closing : SyntaxCause} {e : Expr Unit}
    (h : (condition final opening closing s).Reads e r) : ∃ ts, s = ts ++ r ∧ Condition ts e := by
  unfold condition at h
  obtain ⟨o, r₁, -, ho, h⟩ := reads_andThen.1 h
  obtain ⟨_, r₂, -, he, h⟩ := reads_andThen.1 h
  obtain ⟨c, hc, rfl⟩ := reads_map.1 h
  obtain ⟨hs₀, hopening⟩ := reads_expectSymbol.1 ho
  obtain ⟨ts, hs₁, hts⟩ := expression_derives r₁ he
  obtain ⟨hs₂, hclosing⟩ := reads_expectSymbol.1 hc
  exact ⟨_, by rw [hs₀, hs₁, hs₂]; simp, .mk hopening hts hclosing⟩

theorem forInitializer_derives {v : Option (Stmt Unit)} (h : (forInitializer final s).Reads v r) :
    ∃ ts, s = ts ++ r ∧ FirstClause ts v := by
  have hexpression {s : List Token} (h : ((expressionStatement final s).map some).Reads v r) :
      ∃ ts, s = ts ++ r ∧ FirstClause ts v := by
    obtain ⟨_, he, rfl⟩ := reads_map.1 h
    obtain ⟨ts, e, semicolon, hs, hts, hsemicolon, rfl⟩ := expressionStatement_derives he
    exact ⟨_, by rw [hs]; simp, .expression hts hsemicolon⟩
  cases s with
  | nil => exact hexpression h
  | cons t rest =>
    rw [forInitializer] at h
    split at h
    next ht =>
      obtain ⟨rfl, rfl⟩ := reads_one.1 h
      exact ⟨[t], rfl, .none (Token.isSymbol_iff.1 ht)⟩
    next =>
      split at h
      next ht =>
        obtain ⟨d, hd, rfl⟩ := reads_map.1 (reads_past.1 h)
        obtain ⟨ts, hrest, hts⟩ := varDeclaration_derives hd
        exact ⟨t :: ts, by rw [hrest]; rfl, .var (Token.isSymbol_iff.1 ht) hts⟩
      next => exact hexpression h

theorem forClauses_derives {v : ForClauses} (h : (forClauses final s).Reads v r) :
    ∃ ts, s = ts ++ r ∧ Clauses ts v := by
  unfold forClauses at h
  obtain ⟨opening, r₁, -, ho, h⟩ := reads_andThen.1 h
  obtain ⟨first, r₂, -, hf, h⟩ := reads_andThen.1 h
  obtain ⟨condition, r₃, -, hc, h⟩ := reads_andThen.1 h
  obtain ⟨increment, hi, rfl⟩ := reads_map.1 h
  obtain ⟨hs₀, hopening⟩ := reads_expectSymbol.1 ho
  obtain ⟨ts, hs₁, hts⟩ := forInitializer_derives hf
  obtain ⟨us, semicolon, hs₂, hus, hsemicolon⟩ := expressionUntil_derives hc
  obtain ⟨vs, closing, hs₃, hvs, hclosing⟩ := expressionUntil_derives hi
  exact ⟨_, by rw [hs₀, hs₁, hs₂, hs₃]; simp, .mk hopening hts hus hsemicolon hvs hclosing⟩

/-! ## Statements and declarations -/

/-- The declaration was faultless, and these are its statement and the tokens after it. -/
def Declared.Reads (d : Declared s) (st : Stmt Unit) (r : List Token) : Prop :=
  d.errors = [] ∧ d.statement = some st ∧ d.rest = r

/-- A faulty declaration has errors. -/
theorem recover_reads {t : Token} {s : List Token} {x : Reply true (Stmt Unit) (t :: s)}
    {st : Stmt Unit} {r : List Token} : (recover t s x).Reads st r ↔ x.Reads st r := by
  obtain ⟨log, o⟩ := x
  cases o with
  | ok v r' h =>
    simp only [Declared.Reads, Reply.Reads, recover, reads_ok, Option.some.injEq]
  | fail e r' h =>
    simp only [Declared.Reads, Reply.Reads, recover, reads_fail, reduceCtorEq, false_and, and_false]

theorem recover_of_errors {t : Token} {s : List Token} {x : Reply true (Stmt Unit) (t :: s)}
    (h : (recover t s x).errors = []) : ∃ st, (recover t s x).statement = some st := by
  obtain ⟨log, o⟩ := x
  cases o with
  | ok v r' h' => exact ⟨v, rfl⟩
  | fail e r' h' => simp [recover] at h

/-- A declaration without errors has a statement. -/
theorem declaration_of_errors {t : Token} {s : List Token}
    (h : (declaration final t s).errors = []) :
    ∃ st, (declaration final t s).Reads st (declaration final t s).rest := by
  have hsome : ∃ st, (declaration final t s).statement = some st := by
    rw [declaration] at h ⊢
    split at h
    all_goals exact recover_of_errors h
  obtain ⟨st, hst⟩ := hsome
  exact ⟨st, h, hst, rfl⟩

/-- A block is a closing brace, or a declaration and the rest of the block. -/
theorem body_reads {t : Token} {s r : List Token} {ss : List (Stmt Unit)} :
    (body final (t :: s)).Reads ss r ↔
      (t.kind = .symbol .rightBrace ∧ ss = [] ∧ s = r) ∨
      (t.kind ≠ .symbol .rightBrace ∧ ∃ st r' rest, (declaration final t s).Reads st r' ∧
        (body final r').Reads rest r ∧ ss = st :: rest) := by
  rw [body]
  split
  next ht =>
    have hk := Token.isSymbol_iff.1 ht
    simp only [Reply.reads_quiet, reads_one, hk, true_and, ne_eq, not_true, false_and, or_false,
      eq_comm (a := [])]
  next ht =>
    have hk : t.kind ≠ .symbol .rightBrace := fun h => ht (Token.isSymbol_iff.2 h)
    simp only [hk, false_and, false_or, ne_eq, not_false_eq_true, true_and]
    constructor
    · rintro ⟨hlog, hout⟩
      obtain ⟨herrors, hrest⟩ := List.append_eq_nil_iff.1 hlog
      obtain ⟨st, hst⟩ := declaration_of_errors herrors
      obtain ⟨rest, hr, rfl⟩ := reads_map.1
        ((reads_within (h := Nat.le_of_lt (declaration final t s).fewer)).1 hout)
      refine ⟨st, _, rest, hst, ⟨hrest, hr⟩, ?_⟩
      rw [hst.2.1]
      rfl
    · rintro ⟨st, r', rest, ⟨herrors, hst, rfl⟩, ⟨hlog, hout⟩, rfl⟩
      refine ⟨List.append_eq_nil_iff.2 ⟨herrors, hlog⟩, ?_⟩
      have hothers : (((body final (declaration final t s).rest).map
          ((declaration final t s).statement.toList ++ ·)).outcome).Reads (st :: rest) r :=
        reads_map.2 ⟨rest, hout, by rw [hst]; rfl⟩
      exact (reads_within (h := Nat.le_of_lt (declaration final t s).fewer)).2 hothers

/-- The tokens may follow a statement: a dangling one has no `else` behind it. -/
def MayFollow (dangling : Bool) (r : List Token) : Prop :=
  dangling = true → ∀ t rest, r = t :: rest → t.kind ≠ .symbol .elseWord

theorem mayFollow_false (r : List Token) : MayFollow false r := by
  intro h
  cases h

mutual

theorem statement_derives (s : List Token) {st : Stmt Unit} {r : List Token}
    (h : (statement final s).Reads st r) :
    ∃ dangling ts, s = ts ++ r ∧ Statement dangling ts st ∧ MayFollow dangling r := by
  have hexpression {s : List Token} (h : (expressionStatement final s).Reads st r) :
      ∃ dangling ts, s = ts ++ r ∧ Statement dangling ts st ∧ MayFollow dangling r := by
    obtain ⟨ts, e, semicolon, hs, hts, hsemicolon, rfl⟩ := expressionStatement_derives h
    exact ⟨false, _, by rw [hs]; simp, .expression hts hsemicolon, mayFollow_false r⟩
  match s with
  | [] =>
    unfold statement at h
    exact hexpression (Reply.reads_quiet.1 h)
  | t :: rest =>
    unfold statement at h
    split at h
    next hk =>
      obtain ⟨clauses, r', hlt, hc, hb⟩ := Reply.reads_andThen.1 (Reply.reads_past.1 h)
      obtain ⟨loop, hloop, rfl⟩ := Reply.reads_map.1 hb
      obtain ⟨ts, hs, hts⟩ := forClauses_derives (Reply.reads_quiet.1 hc)
      obtain ⟨dangling, us, hr, hus, hf⟩ := statement_derives r' hloop
      exact ⟨dangling, t :: (ts ++ us), by rw [hs, hr]; simp, .forLoop hk hts hus, hf⟩
    next hk =>
      obtain ⟨c, r', hlt, hc, hb⟩ := Reply.reads_andThen.1 (Reply.reads_past.1 h)
      obtain ⟨thenBranch, r'', hlt', ht, he⟩ := Reply.reads_andThen.1 hb
      obtain ⟨ts, hs, hts⟩ := condition_derives (Reply.reads_quiet.1 hc)
      obtain ⟨dangling, us, hr, hus, hf⟩ := statement_derives r' ht
      obtain ⟨dangling', vs, hr', hvs, hf'⟩ := elseBranch_derives c thenBranch r'' hk hts hus hf he
      exact ⟨dangling', _, by rw [hs, hr, hr']; simp, hvs, hf'⟩
    next hk =>
      obtain ⟨c, r', hlt, hc, hb⟩ := Reply.reads_andThen.1 (Reply.reads_past.1 h)
      obtain ⟨inner, hinner, rfl⟩ := Reply.reads_map.1 hb
      obtain ⟨ts, hs, hts⟩ := condition_derives (Reply.reads_quiet.1 hc)
      obtain ⟨dangling, us, hr, hus, hf⟩ := statement_derives r' hinner
      exact ⟨dangling, t :: (ts ++ us), by rw [hs, hr]; simp, .whileLoop hk hts hus, hf⟩
    next hk =>
      obtain ⟨value, hv, rfl⟩ := reads_map.1 (reads_past.1 (Reply.reads_quiet.1 h))
      obtain ⟨ts, semicolon, hs, hts, hsemicolon⟩ := expressionUntil_derives hv
      exact ⟨false, t :: (ts ++ [semicolon]), by rw [hs]; simp, .returnWith hk hts hsemicolon,
        mayFollow_false r⟩
    next hk =>
      obtain ⟨inner, hinner, rfl⟩ := Reply.reads_map.1 (Reply.reads_past.1 h)
      obtain ⟨ts, hs, hts⟩ := body_derives rest hinner
      exact ⟨false, t :: ts, by rw [hs]; rfl, .block hk hts, mayFollow_false r⟩
    next hk =>
      obtain ⟨ts, e, semicolon, hs, hts, hsemicolon, rfl⟩ :=
        printStatement_derives (reads_past.1 (Reply.reads_quiet.1 h))
      exact ⟨false, t :: (ts ++ [semicolon]), by rw [hs]; simp, .print hk hts hsemicolon,
        mayFollow_false r⟩
    next => exact hexpression (Reply.reads_quiet.1 h)
termination_by 8 * s.length + 1

/-- What stands behind the first branch of an `if`: that branch is not dangling if it is an
`else`. -/
theorem elseBranch_derives (c : Expr Unit) (thenBranch : Stmt Unit) (s : List Token)
    {keyword : Token} {ts us : List Token} {dangling : Bool} {st : Stmt Unit} {r : List Token}
    (hk : keyword.kind = .symbol .ifWord) (hc : Condition ts c)
    (ht : Statement dangling us thenBranch) (hf : MayFollow dangling s)
    (h : (elseBranch final c thenBranch s).Reads st r) :
    ∃ dangling' vs, s = vs ++ r ∧ Statement dangling' (keyword :: (ts ++ (us ++ vs))) st ∧
      MayFollow dangling' r := by
  match s with
  | [] =>
    unfold elseBranch at h
    obtain ⟨rfl, rfl⟩ := reads_done.1 (Reply.reads_quiet.1 h)
    refine ⟨true, [], rfl, by rw [List.append_nil]; exact .ifThen hk hc ht, ?_⟩
    intro _ t rest he
    cases he
  | t :: rest =>
    unfold elseBranch at h
    split at h
    next he =>
      have he := Token.isSymbol_iff.1 he
      obtain ⟨other, ho, rfl⟩ := Reply.reads_map.1 (Reply.reads_past.1 h)
      obtain ⟨dangling', vs, hs, hvs, hf'⟩ := statement_derives rest ho
      cases dangling with
      | true => exact absurd he (hf rfl t rest rfl)
      | false => exact ⟨dangling', t :: vs, by rw [hs]; rfl, .ifElse hk hc ht he hvs, hf'⟩
    next he =>
      obtain ⟨rfl, rfl⟩ := reads_done.1 (Reply.reads_quiet.1 h)
      refine ⟨true, [], rfl, by rw [List.append_nil]; exact .ifThen hk hc ht, ?_⟩
      rintro _ _ _ ⟨⟩ hkind
      exact he (Token.isSymbol_iff.2 hkind)
termination_by 8 * s.length

theorem body_derives (s : List Token) {ss : List (Stmt Unit)} {r : List Token}
    (h : (body final s).Reads ss r) : ∃ ts, s = ts ++ r ∧ Body ts ss := by
  match s with
  | [] =>
    unfold body at h
    exact absurd (Reply.reads_quiet.1 h) reads_reject
  | t :: rest =>
    rcases body_reads.1 h with ⟨hk, rfl, rfl⟩ | ⟨-, st, r', others, hd, hb, rfl⟩
    · exact ⟨[t], rfl, .nil hk⟩
    · have hlt : r'.length < (t :: rest).length := hd.2.2 ▸ (declaration final t rest).fewer
      obtain ⟨ts, hs, hts⟩ := declaration_derives t rest hd
      obtain ⟨us, hr, hus⟩ := body_derives r' hb
      exact ⟨ts ++ us, by rw [hs, hr, List.append_assoc], .cons hts hus⟩
termination_by 8 * s.length + 3
decreasing_by
  all_goals
    simp only [List.length_cons] at *
    omega

theorem declaration_derives (t : Token) (s : List Token) {st : Stmt Unit} {r : List Token}
    (h : (declaration final t s).Reads st r) : ∃ ts, t :: s = ts ++ r ∧ Declaration ts st := by
  unfold declaration at h
  split at h
  next hk =>
    obtain ⟨ts, hs, hts⟩ := classDeclaration_derives s hk (Reply.reads_past.1 (recover_reads.1 h))
    exact ⟨t :: ts, by rw [hs]; rfl, hts⟩
  next hk =>
    obtain ⟨d, hd, rfl⟩ := Reply.reads_map.1 (Reply.reads_past.1 (recover_reads.1 h))
    obtain ⟨ts, hs, hts⟩ := routine_derives .function s hd
    exact ⟨t :: ts, by rw [hs]; rfl, .function hk hts⟩
  next hk =>
    obtain ⟨d, hd, rfl⟩ := reads_map.1 (reads_past.1 (Reply.reads_quiet.1 (recover_reads.1 h)))
    obtain ⟨ts, hs, hts⟩ := varDeclaration_derives hd
    exact ⟨t :: ts, by rw [hs]; rfl, .var hk hts⟩
  next =>
    obtain ⟨_, ts, hs, hts, -⟩ := statement_derives (t :: s) (recover_reads.1 h)
    exact ⟨ts, hs, .statement hts⟩
termination_by 8 * s.length + 10

theorem routine_derives (kind : RoutineKind) (s : List Token) {d : FunctionDecl (Stmt Unit)}
    {r : List Token} (h : (routine final kind s).Reads d r) : ∃ ts, s = ts ++ r ∧ Routine ts d := by
  unfold routine at h
  obtain ⟨found, r', hlt, hh, hb⟩ := Reply.reads_andThen.1 h
  obtain ⟨statements, hstatements, rfl⟩ := Reply.reads_map.1 hb
  obtain ⟨ts, opening, hs, hts, ho⟩ := header_derives (Reply.reads_quiet.1 hh)
  obtain ⟨us, hr, hus⟩ := body_derives r' hstatements
  exact ⟨ts ++ opening :: us, by rw [hs, hr]; simp, .mk hts ho hus⟩
termination_by 8 * s.length
decreasing_by
  simp only [Bool.toNat_true] at hlt
  omega

theorem classDeclaration_derives (s : List Token) {keyword : Token} {st : Stmt Unit}
    {r : List Token} (hk : keyword.kind = .symbol .classWord)
    (h : (classDeclaration final s).Reads st r) :
    ∃ ts, s = ts ++ r ∧ Declaration (keyword :: ts) st := by
  unfold classDeclaration at h
  obtain ⟨found, r', hlt, hh, hm⟩ := Reply.reads_andThen.1 h
  obtain ⟨ms, hms, rfl⟩ := Reply.reads_map.1 hm
  obtain ⟨name, ts, opening, hs, hname, hfound, hts, ho⟩ :=
    classHeader_derives (Reply.reads_quiet.1 hh)
  obtain ⟨us, hr, hus⟩ := members_derives r' hms
  refine ⟨name :: (ts ++ opening :: us), by rw [hs, hr]; simp, ?_⟩
  rw [← hfound]
  exact .classDecl hk hname hts ho hus
termination_by 8 * s.length
decreasing_by
  simp only [Bool.toNat_true] at hlt
  omega

theorem members_derives (s : List Token) {ms : Members} {r : List Token}
    (h : (members final s).Reads ms r) : ∃ ts, s = ts ++ r ∧ MembersOf ts ms.1 ms.2 := by
  match s with
  | [] =>
    unfold members at h
    exact absurd (Reply.reads_quiet.1 h) reads_reject
  | t :: rest =>
    unfold members at h
    split at h
    next ht =>
      obtain ⟨rfl, rfl⟩ := reads_one.1 (Reply.reads_quiet.1 h)
      exact ⟨[t], rfl, .nil (Token.isSymbol_iff.1 ht)⟩
    next =>
      split at h
      next ht =>
        obtain ⟨f, r', hlt, hf, hm⟩ := Reply.reads_andThen.1 (Reply.reads_past.1 h)
        obtain ⟨others, ho, rfl⟩ := Reply.reads_map.1 hm
        obtain ⟨ts, hs, hts⟩ := varDeclaration_derives (Reply.reads_quiet.1 hf)
        obtain ⟨us, hr, hus⟩ := members_derives r' ho
        exact ⟨t :: (ts ++ us), by rw [hs, hr]; simp, .field (Token.isSymbol_iff.1 ht) hts hus⟩
      next =>
        obtain ⟨m, r', hlt, hf, hm⟩ := Reply.reads_andThen.1 h
        obtain ⟨others, ho, rfl⟩ := Reply.reads_map.1 hm
        obtain ⟨ts, hs, hts⟩ := routine_derives .method (t :: rest) hf
        obtain ⟨us, hr, hus⟩ := members_derives r' ho
        exact ⟨ts ++ us, by rw [hs, hr]; simp, .method hts hus⟩
termination_by 8 * s.length + 1
decreasing_by
  all_goals
    simp only [List.length_cons, Bool.toNat_true] at *
    omega

end

/-- A program is empty, or a declaration and the rest of the program. -/
theorem program_eq_nil {t : Token} {s : List Token} {ss : List (Stmt Unit)} :
    program final (t :: s) = ([], ss) ↔
      ∃ st r rest, (declaration final t s).Reads st r ∧ program final r = ([], rest) ∧
        ss = st :: rest := by
  rw [program]
  dsimp only
  constructor
  · intro h
    obtain ⟨herrors, hss⟩ := Prod.mk.inj h
    obtain ⟨hd, hrest⟩ := List.append_eq_nil_iff.1 herrors
    obtain ⟨st, hst⟩ := declaration_of_errors hd
    refine ⟨st, _, _, hst, Prod.ext hrest rfl, ?_⟩
    rw [← hss, hst.2.1]
    rfl
  · rintro ⟨st, r, rest, ⟨herrors, hst, rfl⟩, hp, rfl⟩
    rw [herrors, hst, hp]
    rfl

/-- A program that is read without errors is derived. -/
theorem program_derives (s : List Token) {ss : List (Stmt Unit)}
    (h : program final s = ([], ss)) : Program s ss := by
  match s with
  | [] =>
    unfold program at h
    cases h
    exact .nil
  | t :: rest =>
    obtain ⟨st, r, others, hd, hp, rfl⟩ := program_eq_nil.1 h
    have hlt : r.length < (t :: rest).length := hd.2.2 ▸ (declaration final t rest).fewer
    obtain ⟨ts, hs, hts⟩ := declaration_derives t rest hd
    rw [hs]
    exact .cons hts (program_derives r hp)
termination_by s.length
decreasing_by exact hlt

end Grammar

end ClassScript
