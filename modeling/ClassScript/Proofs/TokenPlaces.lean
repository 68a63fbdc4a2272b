import ClassScript.Syntax.Descent

/-!
# The parser among its tokens

`Parser.At final s p`: the tokens `s` are left before the end of the source, and `final` is the token at
which messages about the end point. There every look at a token succeeds, and the operations of the parser
are those on the list `s`. `Parser.Follows` says that a rule of the parser makes of the tokens what a rule
of the grammar makes of them, unless calls are nested too deeply.
-/

set_option autoImplicit false

namespace ClassScript

namespace Parser

variable {α β : Type} {p : Parser} {final t : Token} {s rest : List Token}

/-! ## Places -/

/-- What stands behind the tokens before the end of the source: the end, or nothing if there is none. -/
inductive Tail (tokens : List Token) (final : Token) : List Token → Prop
  | eof {junk : List Token} : final.kind = .eof → Tail tokens final (final :: junk)
  | missing : tokens.getLast? = some final → Tail tokens final []

/-- The tokens `s` are left before the end of the source, to which `final` stands. -/
structure At (final : Token) (s : List Token) (p : Parser) : Prop where
  inside : p.current ≤ p.tokens.size
  before : ∀ t ∈ s, t.kind ≠ .eof
  rest : ∃ tail, Tail p.tokens.toList final tail ∧ p.tokens.toList.drop p.current = s ++ tail

/-- The parser behind some tokens and some errors. -/
def past (p : Parser) (used : List Token) (log : List SyntaxError) : Parser :=
  { p with current := p.current + used.length, errors := p.errors ++ log }

theorem past_nil (p : Parser) : p.past [] [] = p := by
  simp [past]

theorem past_past (p : Parser) (used used' : List Token) (log log' : List SyntaxError) :
    (p.past used log).past used' log' = p.past (used ++ used') (log ++ log') := by
  simp [past, Nat.add_assoc]

namespace At

theorem past {used : List Token} (h : At final (used ++ s) p) (log : List SyntaxError) :
    At final s (p.past used log) := by
  obtain ⟨tail, htail, hdrop⟩ := h.rest
  have hrest : p.tokens.toList.drop (p.current + used.length) = s ++ tail := by
    rw [← List.drop_drop, hdrop, List.append_assoc, List.drop_left]
  have hlength := congrArg List.length hdrop
  simp only [List.length_drop, List.length_append, Array.length_toList] at hlength
  refine ⟨?_, fun t ht => h.before t (List.mem_append_right _ ht), tail, htail, hrest⟩
  have := h.inside
  simp only [Parser.past]
  omega

theorem tail (h : At final (t :: rest) p) : At final rest (p.past [t] []) :=
  At.past (s := rest) (show At final ([t] ++ rest) p from h) []

theorem size_pos (h : At final s p) : 0 < p.tokens.size := by
  obtain ⟨tail, htail, hdrop⟩ := h.rest
  rw [← Array.length_toList]
  cases htail with
  | eof _ =>
    have := congrArg List.length hdrop
    simp only [List.length_drop, List.length_append, List.length_cons] at this
    omega
  | missing hlast =>
    exact List.length_pos_iff.2 fun he => by rw [he] at hlast; cases hlast

theorem get_head (h : At final (t :: rest) p) : p.tokens[p.current]? = some t := by
  obtain ⟨tail, -, hdrop⟩ := h.rest
  rw [← Array.getElem?_toList, ← List.head?_drop, hdrop]
  rfl

/-- At the end the parser looks at the token to which messages point. -/
theorem get_final (h : At final [] p) :
    p.tokens[min p.current (p.tokens.size - 1)]? = some final := by
  obtain ⟨tail, htail, hdrop⟩ := h.rest
  cases htail with
  | eof _ =>
    have hget : p.tokens[p.current]? = some final := by
      rw [← Array.getElem?_toList, ← List.head?_drop, hdrop]
      rfl
    obtain ⟨hlt, -⟩ := Array.getElem?_eq_some_iff.1 hget
    rw [Nat.min_eq_left (by omega), hget]
  | missing hlast =>
    have hle : p.tokens.size ≤ p.current := by simpa using hdrop
    rw [Nat.min_eq_right (by omega), ← Array.getElem?_toList, ← Array.length_toList,
      ← List.getLast?_eq_getElem?, hlast]

theorem lt_size (h : At final (t :: rest) p) : p.current < p.tokens.size :=
  (Array.getElem?_eq_some_iff.1 h.get_head).1

end At

/-! ## Looks at tokens -/

theorem bind_of_ok {ι : Type} {x : Labeled ι α} {f : α → Labeled ι β} {v : α} {p q : Parser ι}
    (h : x p = .ok v q) : (x >>= f) p = f v q := by
  show EStateM.bind x f p = f v q
  rw [EStateM.bind, h]

theorem bind_of_error {ι : Type} {x : Labeled ι α} {f : α → Labeled ι β} {i : Interrupt}
    {p q : Parser ι} (h : x p = .error i q) : (x >>= f) p = .error i q := by
  show EStateM.bind x f p = .error i q
  rw [EStateM.bind, h]

/-- Without labels there is nothing to draw. -/
theorem fresh_bind (f : Unit → Rule β) : (fresh >>= f) = f () :=
  rfl

theorem get_bind {ι : Type} {p : Parser ι} (f : Parser ι → Labeled ι β) : (get >>= f) p = f p p :=
  rfl

theorem tokenAt_of_get {ι : Type} {p : Parser ι} {index : Nat} (h : p.tokens[index]? = some t) :
    tokenAt index p = .ok t p := by
  rw [tokenAt, get_bind, h]
  rfl

namespace At

theorem peek (h : At final s p) : peek p = .ok (s.headD final) p := by
  rw [Parser.peek, get_bind]
  refine tokenAt_of_get ?_
  cases s with
  | nil => exact h.get_final
  | cons t rest =>
    have := h.lt_size
    rw [Nat.min_eq_left (by omega), h.get_head]
    rfl

theorem previous_tail (h : At final (t :: rest) p) :
    Parser.previous (p.past [t] []) = .ok t (p.past [t] []) :=
  tokenAt_of_get h.get_head

theorem isAtEnd (h : At final s p) : isAtEnd p = .ok s.isEmpty p := by
  rw [Parser.isAtEnd, get_bind]
  cases s with
  | cons t rest =>
    rw [if_neg (by have := h.lt_size; omega), bind_of_ok h.peek]
    have hkind : t.kind ≠ .eof := h.before t (List.mem_cons_self ..)
    show EStateM.Result.ok (decide (t.kind = .eof)) p = .ok false p
    rw [decide_eq_false hkind]
  | nil =>
    split
    · rfl
    next hlt =>
      rw [bind_of_ok h.peek]
      obtain ⟨tail, htail, hdrop⟩ := h.rest
      cases htail with
      | eof hkind =>
        show EStateM.Result.ok (decide (final.kind = .eof)) p = .ok true p
        rw [decide_eq_true hkind]
      | missing _ => exact absurd (by simpa using hdrop) hlt

theorem check (h : At final s p) (kind : TokenKind) :
    check kind p = .ok (s.head?.any (·.kind = kind)) p := by
  rw [Parser.check, bind_of_ok h.isAtEnd]
  cases s with
  | nil => rfl
  | cons t rest =>
    show (Parser.peek >>= fun u => pure (decide (u.kind = kind))) p = _
    rw [bind_of_ok h.peek]
    rfl

theorem advance (h : At final (t :: rest) p) : advance p = .ok t (p.past [t] []) := by
  rw [Parser.advance, bind_of_ok h.isAtEnd]
  have hmove : (modify fun p => { p with current := p.current + 1 } : Rule PUnit) p =
      .ok () (p.past [t] []) := by
    show EStateM.Result.ok () { p with current := p.current + 1 } = _
    simp [Parser.past]
  show ((modify fun p => { p with current := p.current + 1 } : Rule PUnit) >>=
    fun _ => Parser.previous) p = _
  rw [bind_of_ok hmove, h.previous_tail]

theorem accept_nil (h : At final [] p) (kind : TokenKind) : accept kind p = .ok false p := by
  rw [accept, bind_of_ok (h.check kind)]
  rfl

theorem accept_eq (h : At final (t :: rest) p) {kind : TokenKind} (ht : t.kind = kind) :
    accept kind p = .ok true (p.past [t] []) := by
  rw [accept, bind_of_ok (h.check kind)]
  show (if decide (t.kind = kind) = true then _ else _ : Rule Bool) p = _
  rw [if_pos (decide_eq_true ht), bind_of_ok h.advance]
  rfl

theorem accept_ne (h : At final (t :: rest) p) {kind : TokenKind} (ht : t.kind ≠ kind) :
    accept kind p = .ok false p := by
  rw [accept, bind_of_ok (h.check kind)]
  show (if decide (t.kind = kind) = true then _ else _ : Rule Bool) p = _
  rw [if_neg (by simpa using ht)]
  rfl

theorem consume_eq (h : At final (t :: rest) p) {kind : TokenKind} (ht : t.kind = kind)
    (cause : SyntaxCause) : consume kind cause p = .ok t (p.past [t] []) := by
  rw [consume, bind_of_ok (h.check kind)]
  show (if decide (t.kind = kind) = true then _ else _ : Rule Token) p = _
  rw [if_pos (decide_eq_true ht), h.advance]

theorem leftFrom (h : At final s p) : p.leftFrom p.current = s.length := by
  obtain ⟨tail, htail, hdrop⟩ := h.rest
  have hbefore : beforeEnd (s ++ tail) = s := by
    rw [beforeEnd, List.takeWhile_append_of_pos (by simpa using h.before)]
    cases htail with
    | eof hkind => rw [List.takeWhile_cons_of_neg (by simpa using hkind), List.append_nil]
    | missing _ => rw [List.takeWhile_nil, List.append_nil]
  rw [Parser.leftFrom, hdrop, hbefore]

theorem fail (h : At final s p) (cause : SyntaxCause) :
    (fail cause : Rule α) p = .error (.fault (Grammar.errorAt final cause s)) p := by
  rw [Parser.fail, get_bind, bind_of_ok h.peek, h.leftFrom]
  rfl

end At

/-! ## Rules beside rules -/

variable {a b : Bool} {enough : Prop}

/-- The rule of the parser does to the parser what the reply says: it goes past the tokens that the reply
has used and keeps the errors of the reply. It may also break off because calls are nested too deeply,
if no `enough` of them are allowed. -/
inductive Follows (enough : Prop) (p : Parser) (x : Rule α) : Reply a α s → Prop
  | tooDeep {reply : Reply a α s} {q : Parser} : ¬ enough → x p = .error (.crash .tooDeep) q →
    Follows enough p x reply
  | ok (used : List Token) (log : List SyntaxError) {v : α} {r : List Token}
    (h : r.length + a.toNat ≤ s.length) :
    s = used ++ r → x p = .ok v (p.past used log) → Follows enough p x ⟨log, .ok v r h⟩
  | fail (used : List Token) (log : List SyntaxError) {e : SyntaxError} {r : List Token}
    (h : r.length ≤ s.length) :
    s = used ++ r → x p = .error (.fault e) (p.past used log) →
    Follows enough p x ⟨log, .fail e r h⟩

/-- The same beside a rule that recovers from nothing. -/
abbrev Tracks (enough : Prop) (p : Parser) (x : Rule α) (o : Outcome a α s) : Prop :=
  Follows enough p x (.quiet o)

/-- Calls are not nested deeper than no calls at all. -/
theorem Follows.zero {n : Nat} {reply : Reply a α s} : Follows (n < 0) p (crash .tooDeep) reply :=
  .tooDeep (Nat.not_lt_zero n) rfl

namespace Follows

theorem mono {enough' : Prop} {x : Rule α} {reply : Reply a α s} (h : Follows enough' p x reply)
    (himp : enough → enough') : Follows enough p x reply := by
  cases h with
  | tooDeep hne hx => exact .tooDeep (fun he => hne (himp he)) hx
  | ok used log h hs hx => exact .ok used log h hs hx
  | fail used log h hs hx => exact .fail used log h hs hx

theorem congr {x y : Rule α} {reply : Reply a α s} (h : Follows enough p y reply) (he : x p = y p) :
    Follows enough p x reply := by
  cases h with
  | tooDeep hne hx => exact .tooDeep hne (he.trans hx)
  | ok used log h hs hx => exact .ok used log h hs (he.trans hx)
  | fail used log h hs hx => exact .fail used log h hs (he.trans hx)

/-- Both read on after a value, wherever the rule has left the parser. -/
theorem andThen_of {x : Rule α} {f : α → Rule β} {reply : Reply a α s}
    {next : α → (r : List Token) → r.length + a.toNat ≤ s.length → Reply b β r} (hp : At final s p)
    (hx : Follows enough p x reply)
    (hf : ∀ v r h q, x p = .ok v q → At final r q → Follows enough q (f v) (next v r h)) :
    Follows enough p (x >>= f) (reply.andThen next) := by
  cases hx with
  | tooDeep hne hx => exact .tooDeep hne (bind_of_error hx)
  | fail used log h hs hx => exact .fail used log h hs (bind_of_error hx)
  | @ok used log v r h hs hx =>
    have hq : At final r (p.past used log) := At.past (hs ▸ hp) log
    have hnext := hf v r h _ hx hq
    show Follows enough p (x >>= f) ⟨log ++ (next v r h).log, (next v r h).outcome.after h⟩
    generalize next v r h = reply at hnext
    cases hnext with
    | tooDeep hne hy => exact .tooDeep hne ((bind_of_ok hx).trans hy)
    | ok used' log' h' hr hy =>
      exact .ok (used ++ used') (log ++ log') _ (by rw [hs, hr, List.append_assoc])
        (((bind_of_ok hx).trans hy).trans (by rw [past_past]))
    | fail used' log' h' hr hy =>
      exact .fail (used ++ used') (log ++ log') _ (by rw [hs, hr, List.append_assoc])
        (((bind_of_ok hx).trans hy).trans (by rw [past_past]))

/-- Both read on after a value. -/
theorem andThen {x : Rule α} {f : α → Rule β} {reply : Reply a α s}
    {next : α → (r : List Token) → r.length + a.toNat ≤ s.length → Reply b β r} (hp : At final s p)
    (hx : Follows enough p x reply)
    (hf : ∀ v r h q, At final r q → Follows enough q (f v) (next v r h)) :
    Follows enough p (x >>= f) (reply.andThen next) :=
  hx.andThen_of hp fun v r h q _ hq => hf v r h q hq

/-- Both change the value. -/
theorem map {x : Rule α} {reply : Reply a α s} {f : α → β} (hx : Follows enough p x reply) :
    Follows enough p (x >>= fun v => pure (f v)) (reply.map f) := by
  cases hx with
  | tooDeep hne hx => exact .tooDeep hne (bind_of_error hx)
  | ok used log h hs hx => exact .ok used log h hs ((bind_of_ok hx).trans rfl)
  | fail used log h hs hx => exact .fail used log h hs (bind_of_error hx)

/-- The parser has gone past one token. -/
theorem past {x : Rule α} {f : α → Rule β} {v : α} {reply : Reply a β rest}
    (hx : x p = .ok v (p.past [t] [])) (hf : Follows enough (p.past [t] []) (f v) reply) :
    Follows enough p (x >>= f) (reply.past : Reply b β (t :: rest)) := by
  cases hf with
  | tooDeep hne hy => exact .tooDeep hne ((bind_of_ok hx).trans hy)
  | ok used log h hr hy =>
    exact .ok (t :: used) log _ (congrArg (t :: ·) hr)
      (((bind_of_ok hx).trans hy).trans (by rw [past_past]; rfl))
  | fail used log h hr hy =>
    exact .fail (t :: used) log _ (congrArg (t :: ·) hr)
      (((bind_of_ok hx).trans hy).trans (by rw [past_past]; rfl))

/-- The parser has only looked at tokens. -/
theorem stay {x : Rule α} {f : α → Rule β} {v : α} {reply : Reply a β s} (hx : x p = .ok v p)
    (hf : Follows enough p (f v) reply) : Follows enough p (x >>= f) reply :=
  hf.congr (bind_of_ok hx)

end Follows

namespace Tracks

theorem andThen_of {x : Rule α} {f : α → Rule β} {o : Outcome a α s}
    {next : α → (r : List Token) → r.length + a.toNat ≤ s.length → Outcome b β r}
    (hp : At final s p) (hx : Tracks enough p x o)
    (hf : ∀ v r h q, x p = .ok v q → At final r q → Tracks enough q (f v) (next v r h)) :
    Tracks enough p (x >>= f) (o.andThen next) := by
  have h : Follows enough p (x >>= f) ((Reply.quiet o).andThen fun v r h => .quiet (next v r h)) :=
    Follows.andThen_of hp hx hf
  cases o with
  | ok v r h' => exact h
  | fail e r h' => exact h

theorem andThen {x : Rule α} {f : α → Rule β} {o : Outcome a α s}
    {next : α → (r : List Token) → r.length + a.toNat ≤ s.length → Outcome b β r}
    (hp : At final s p) (hx : Tracks enough p x o)
    (hf : ∀ v r h q, At final r q → Tracks enough q (f v) (next v r h)) :
    Tracks enough p (x >>= f) (o.andThen next) :=
  hx.andThen_of hp fun v r h q _ hq => hf v r h q hq

theorem map {x : Rule α} {o : Outcome a α s} {f : α → β} (hx : Tracks enough p x o) :
    Tracks enough p (x >>= fun v => pure (f v)) (o.map f) :=
  Follows.map hx

theorem past {x : Rule α} {f : α → Rule β} {v : α} {o : Outcome a β rest}
    (hx : x p = .ok v (p.past [t] [])) (hf : Tracks enough (p.past [t] []) (f v) o) :
    Tracks enough p (x >>= f) (o.past : Outcome b β (t :: rest)) :=
  Follows.past hx hf

theorem done {v : α} : Tracks enough p (pure v) (.done v s) :=
  .ok [] [] _ rfl (by rw [past_nil]; rfl)

/-- A value that used one token. -/
theorem one {x : Rule α} {v : α} (hx : x p = .ok v (p.past [t] [])) :
    Tracks enough p x (.one v t rest : Outcome b α (t :: rest)) :=
  .ok [t] [] _ rfl hx

/-- An error that leaves the parser where it is. -/
theorem failed {x : Rule α} {e : SyntaxError} {h : s.length ≤ s.length} (hx : x p = .error (.fault e) p) :
    Tracks enough p x (.fail e s h : Outcome a α s) :=
  .fail [] [] h rfl (hx.trans (by rw [past_nil]))

theorem reject (hp : At final s p) (cause : SyntaxCause) :
    Tracks enough p (fail cause : Rule α) (Grammar.reject final cause s) :=
  failed (hp.fail cause)

end Tracks

/-! ## Choices -/

section

variable {A B : Rule β} {x : Rule Bool}

/-- The token that was asked for is there. -/
theorem Follows.take {reply : Reply a β rest} (hx : x p = .ok true (p.past [t] []))
    (hA : Follows enough (p.past [t] []) A reply) :
    Follows enough p (x >>= fun b => if b = true then A else B)
      (reply.past : Reply b β (t :: rest)) :=
  .past hx hA

/-- The token that was asked for is not there. -/
theorem Follows.refuse {reply : Reply a β s} (hx : x p = .ok false p)
    (hB : Follows enough p B reply) :
    Follows enough p (x >>= fun b => if b = true then A else B) reply :=
  .stay hx hB

theorem Tracks.take {o : Outcome a β rest} (hx : x p = .ok true (p.past [t] []))
    (hA : Tracks enough (p.past [t] []) A o) :
    Tracks enough p (x >>= fun b => if b = true then A else B) (o.past : Outcome b β (t :: rest)) :=
  Tracks.past hx hA

/-- The token that was asked for is there, and is all that is wanted. -/
theorem Tracks.found {kind : TokenKind} {v : β} (hp : At final (t :: rest) p) (ht : t.kind = kind) :
    Tracks enough p (accept kind >>= fun b => if b = true then pure v else B)
      (.one v t rest : Outcome b β (t :: rest)) :=
  Tracks.one (bind_of_ok (hp.accept_eq ht))

/-- The token that was asked for is there, and the value is made of it and a label. -/
theorem Tracks.foundToken {kind : TokenKind} {f : Unit → Token → β} (hp : At final (t :: rest) p)
    (ht : t.kind = kind) :
    Tracks enough p
      (accept kind >>= fun b =>
        if b = true then fresh >>= fun label => previous >>= fun t => pure (f label t) else B)
      (.one (f () t) t rest : Outcome b β (t :: rest)) :=
  Tracks.one ((bind_of_ok (hp.accept_eq ht)).trans (bind_of_ok hp.previous_tail))

end

namespace At

variable {symbols : List Symbol}

theorem accept_symbol (h : At final (t :: rest) p) {symbol : Symbol} (ht : t.isSymbol symbol = true) :
    accept (.symbol symbol) p = .ok true (p.past [t] []) :=
  h.accept_eq (of_decide_eq_true ht)

theorem accept_no_symbol (h : At final (t :: rest) p) {symbol : Symbol}
    (ht : ¬ t.isSymbol symbol = true) : accept (.symbol symbol) p = .ok false p :=
  h.accept_ne fun he => ht (decide_eq_true he)

theorem check_symbol (h : At final (t :: rest) p) {symbol : Symbol} (ht : t.isSymbol symbol = true) :
    Parser.check (.symbol symbol) p = .ok true p :=
  (h.check _).trans (congrArg (EStateM.Result.ok · p) ht)

theorem check_no_symbol (h : At final (t :: rest) p) {symbol : Symbol}
    (ht : ¬ t.isSymbol symbol = true) : Parser.check (.symbol symbol) p = .ok false p :=
  (h.check _).trans (congrArg (EStateM.Result.ok · p) (Bool.eq_false_iff.2 ht))

theorem checkAny (h : At final s p) :
    checkAny symbols p = .ok (s.head?.any fun t => symbols.any t.isSymbol) p := by
  induction symbols with
  | nil =>
    show EStateM.Result.ok false p = _
    cases s <;> rfl
  | cons symbol others ih =>
    rw [Parser.checkAny, List.anyM, bind_of_ok (h.check _)]
    cases s with
    | nil => exact ih
    | cons t rest =>
      show (match t.isSymbol symbol with | true => _ | false => Parser.checkAny others) p = _
      cases ht : t.isSymbol symbol with
      | true => simp [ht]; rfl
      | false => simpa [ht] using ih

theorem checkAny_eq (h : At final (t :: rest) p) (ht : symbols.any t.isSymbol = true) :
    Parser.checkAny symbols p = .ok true p :=
  h.checkAny.trans (congrArg (EStateM.Result.ok · p) ht)

theorem checkAny_ne (h : At final (t :: rest) p) (ht : ¬ symbols.any t.isSymbol = true) :
    Parser.checkAny symbols p = .ok false p :=
  h.checkAny.trans (congrArg (EStateM.Result.ok · p) (Bool.eq_false_iff.2 ht))

theorem acceptAny_nil (h : At final [] p) : acceptAny symbols p = .ok false p := by
  induction symbols with
  | nil => rfl
  | cons symbol others ih =>
    rw [acceptAny, List.anyM, bind_of_ok (h.accept_nil _)]
    exact ih

theorem acceptAny_eq (h : At final (t :: rest) p) (ht : symbols.any t.isSymbol = true) :
    acceptAny symbols p = .ok true (p.past [t] []) := by
  induction symbols with
  | nil => cases ht
  | cons symbol others ih =>
    rw [acceptAny, List.anyM]
    cases hsymbol : t.isSymbol symbol with
    | true =>
      rw [bind_of_ok (h.accept_symbol hsymbol)]
      rfl
    | false =>
      rw [bind_of_ok (h.accept_no_symbol (by simp [hsymbol]))]
      exact ih (by simpa [hsymbol] using ht)

theorem acceptAny_ne (h : At final (t :: rest) p) (ht : ¬ symbols.any t.isSymbol = true) :
    acceptAny symbols p = .ok false p := by
  induction symbols with
  | nil => rfl
  | cons symbol others ih =>
    rw [List.any_cons, Bool.or_eq_true, not_or] at ht
    rw [acceptAny, List.anyM, bind_of_ok (h.accept_no_symbol ht.1)]
    exact ih ht.2

end At

/-! ## Single tokens -/

theorem consume_tracks (hp : At final s p) (kind : TokenKind) (cause : SyntaxCause) :
    Tracks enough p (consume kind cause)
      (Grammar.expect final (fun t => decide (t.kind = kind)) cause s) := by
  rw [consume]
  cases s with
  | nil => exact .stay (hp.check kind) (Tracks.reject hp cause)
  | cons t rest =>
    refine .stay (hp.check kind) ?_
    rw [Grammar.expect]
    show Tracks enough p (if decide (t.kind = kind) = true then _ else _) _
    split
    · exact Tracks.one hp.advance
    · exact Tracks.reject hp cause

theorem consume_symbol (hp : At final s p) (symbol : Symbol) (cause : SyntaxCause) :
    Tracks enough p (consume (.symbol symbol) cause) (Grammar.expectSymbol final symbol cause s) :=
  consume_tracks hp (.symbol symbol) cause

theorem consume_name (hp : At final s p) (cause : SyntaxCause) :
    Tracks enough p (consume .identifier cause >>= fun t => pure t.toName)
      (Grammar.expectName final cause s) :=
  (consume_tracks hp .identifier cause).map

/-- Both read on behind a symbol. -/
theorem consume_symbol_then {symbol : Symbol} {cause : SyntaxCause} {f : Token → Rule β}
    {next : Token → (r : List Token) → r.length + true.toNat ≤ s.length → Outcome b β r}
    (hp : At final s p)
    (hf : ∀ t r h, t.kind = .symbol symbol → At final (t :: r) p →
      Tracks enough (p.past [t] []) (f t) (next t r h)) :
    Tracks enough p (consume (.symbol symbol) cause >>= f)
      ((Grammar.expectSymbol final symbol cause s).andThen next) := by
  cases s with
  | nil => exact (consume_symbol hp symbol cause).andThen hp nofun
  | cons t rest =>
    rw [Grammar.expectSymbol, Grammar.expect]
    split
    next ht =>
      have hx := hp.consume_eq (of_decide_eq_true ht) cause
      have hle : rest.length + true.toNat ≤ (t :: rest).length := Nat.le_refl _
      have hnext := hf t rest hle (of_decide_eq_true ht) hp
      show Tracks enough p _ ((next t rest hle).after hle)
      generalize next t rest hle = o at hnext
      cases o <;> exact Follows.past hx hnext
    next ht =>
      have hx : consume (.symbol symbol) cause p =
          .error (.fault (Grammar.errorAt final cause (t :: rest))) p := by
        rw [consume, bind_of_ok (hp.check_no_symbol ht)]
        exact hp.fail cause
      exact Tracks.failed (bind_of_error hx)

/-- Both read on behind a name. -/
theorem consume_name_then {cause : SyntaxCause} {f : Name → Rule β}
    {next : Name → (r : List Token) → r.length + true.toNat ≤ s.length → Outcome b β r}
    (hp : At final s p)
    (hf : ∀ name r h q, At final r q → Tracks enough q (f name) (next name r h)) :
    Tracks enough p (consume .identifier cause >>= fun t => f t.toName)
      ((Grammar.expectName final cause s).andThen next) := by
  have hname : Tracks enough p _ _ := consume_name hp cause
  have h := hname.andThen hp hf
  rwa [bind_assoc] at h

end Parser

end ClassScript
