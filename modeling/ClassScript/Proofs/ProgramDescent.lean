import ClassScript.Proofs.StmtDescent

/-!
# Programs of the parser and of the grammar

Recovery, statements that hold statements, and classes. A loop of the parser reads one item after the
other until a test holds; where the grammar has a recursive rule instead, each turn of the loop is one call
of that rule (`repeatUntil_follows`). For every list of tokens, and however deep calls may be nested beyond
`depthFor`, the parser gives what the grammar gives, and never crashes (`parseWithin_eq`).
-/

set_option autoImplicit false

namespace ClassScript

namespace Reply

variable {α β γ : Type} {a b c : Bool} {s r : List Token} {t : Token}

/-- Forgets that a token was used. -/
def lax (x : Reply a α s) : Reply false α s :=
  ⟨x.log, x.outcome.lax⟩

theorem past_andThen (x : Reply a α r) (f : α → (r : List Token) → Reply c β r) :
    ((x.andThen fun v r _ => f v r).past : Reply (b || c) β (t :: r)) =
      (x.past : Reply b α (t :: r)).andThen fun v r _ => f v r := by
  obtain ⟨log, outcome⟩ := x
  cases outcome with
  | fail e r h => rfl
  | ok v r h =>
    show Reply.mk _ _ = Reply.mk _ _
    congr 1
    show Outcome.past (Outcome.after (f v r).outcome h) = _
    generalize (f v r).outcome = o
    cases o <;> rfl

theorem map_past (f : α → β) (x : Reply a α r) :
    (x.past : Reply b α (t :: r)).map f = (x.map f).past := by
  obtain ⟨log, outcome⟩ := x
  cases outcome <;> rfl

theorem map_andThen (x : Reply a α s) (g : α → β) (f : β → (r : List Token) → Reply b γ r) :
    ((x.map g).andThen fun v r _ => f v r) = x.andThen fun v r _ => f (g v) r := by
  obtain ⟨log, outcome⟩ := x
  cases outcome <;> rfl

end Reply

/-- A declaration as a reply: it always has a value. -/
def Grammar.Declared.reply {s : List Token} (d : Grammar.Declared s) :
    Reply true (Option (Stmt Unit)) s :=
  ⟨d.errors, .ok d.statement d.rest d.fewer⟩

/-! ## The end of the source -/

theorem ne_eof_of_mem_beforeEnd {tokens : List Token} {t : Token} (h : t ∈ beforeEnd tokens) :
    t.kind ≠ .eof := by
  have hall := List.all_takeWhile (l := tokens) (p := fun t => decide (t.kind ≠ .eof))
  exact of_decide_eq_true (List.all_eq_true.1 hall t h)

/-- The first end of the source stands behind the tokens before it. -/
theorem split_at_end {tokens : List Token} {t : Token}
    (h : (tokens.find? fun t => t.kind = .eof) = some t) :
    t.kind = .eof ∧ ∃ junk, tokens = beforeEnd tokens ++ t :: junk := by
  obtain ⟨hkind, before, junk, rfl, hbefore⟩ := List.find?_eq_some_iff_append.1 h
  have hs : beforeEnd (before ++ t :: junk) = before := by
    rw [beforeEnd, List.takeWhile_append_of_pos (by simpa using hbefore),
      List.takeWhile_cons_of_neg (by simpa using hkind), List.append_nil]
  exact ⟨of_decide_eq_true hkind, junk, by rw [hs]⟩

theorem beforeEnd_of_find? {tokens : List Token}
    (h : (tokens.find? fun t => t.kind = .eof) = none) : beforeEnd tokens = tokens := by
  have hbefore : ∀ t ∈ tokens, t.kind ≠ .eof := by simpa using List.find?_eq_none.1 h
  have hall : (tokens ++ []).takeWhile (fun t => decide (t.kind ≠ TokenKind.eof)) =
      tokens ++ [].takeWhile _ :=
    List.takeWhile_append_of_pos (by simpa using hbefore)
  rwa [List.append_nil, List.takeWhile_nil, List.append_nil] at hall

namespace Parser

variable {final t : Token} {s rest : List Token} {p q : Parser} {enough : Prop} {α β : Type}

/-! ## Recovery -/

/-- Tokens are skipped up to the same place. -/
theorem skip_tracks (depth : Nat) {last : Token} {s r : List Token} {p : Parser} (hp : At final s p)
    (hlast : p.tokens[p.current - 1]? = some last) (hr : Grammar.resume last s = r)
    (hle : r.length + false.toNat ≤ s.length) :
    Tracks (s.length < depth) p (skip depth) (.ok () r hle) := by
  induction depth generalizing last s p with
  | zero => exact .zero
  | succ depth ih =>
    rw [skip]
    refine .stay hp.isAtEnd ?_
    cases s with
    | nil =>
      cases hr
      exact Tracks.done
    | cons t rest =>
      refine .stay (v := last) (tokenAt_of_get hlast) ?_
      by_cases hsemicolon : last.isSymbol .semicolon = true
      · rw [Grammar.resume, hsemicolon, Bool.true_or, if_pos rfl] at hr
        cases hr
        rw [if_pos hsemicolon]
        exact Tracks.done
      rw [if_neg hsemicolon]
      refine .stay hp.peek ?_
      by_cases hword : Grammar.startWords.any t.isSymbol = true
      · rw [Grammar.resume, hword, Bool.or_true, if_pos rfl] at hr
        cases hr
        rw [List.headD_cons, if_pos hword]
        exact Tracks.done
      · rw [Grammar.resume, if_neg (by simpa using ⟨by simpa using hsemicolon, by simpa using hword⟩)] at hr
        rw [List.headD_cons, if_neg hword]
        have hle' : r.length + false.toNat ≤ rest.length := by
          rw [← hr]
          exact Grammar.length_resume_le t rest
        refine Tracks.past (f := fun _ => skip depth) (o := .ok () r hle') hp.advance
          ((ih hp.tail hp.get_head hr hle').mono ?_)
        simp only [List.length_cons]
        omega

/-- At the end there is still a token before. -/
theorem At.advance_nil (hp : At final [] p) :
    ∃ t, p.tokens[p.current - 1]? = some t ∧ Parser.advance p = .ok t p := by
  have hlt : p.current - 1 < p.tokens.size := by
    have := hp.size_pos
    have := hp.inside
    omega
  have hget : p.tokens[p.current - 1]? = some p.tokens[p.current - 1] := Array.getElem?_eq_getElem hlt
  exact ⟨_, hget, (bind_of_ok hp.isAtEnd).trans (tokenAt_of_get hget)⟩

theorem synchronize_tracks (depth : Nat) (hp : At final s p)
    (hle : (Grammar.synchronize s).length + false.toNat ≤ s.length) :
    Tracks (s.length < depth) p (synchronize depth) (.ok () (Grammar.synchronize s) hle) := by
  cases s with
  | nil =>
    obtain ⟨last, hget, hx⟩ := hp.advance_nil
    exact .stay hx (skip_tracks depth hp hget rfl hle)
  | cons t rest =>
    have hle' : (Grammar.resume t rest).length + false.toNat ≤ rest.length :=
      Grammar.length_resume_le t rest
    refine Tracks.past (f := fun _ => skip depth) (o := .ok () (Grammar.resume t rest) hle') hp.advance
      ((skip_tracks depth hp.tail hp.get_head rfl hle').mono ?_)
    simp only [List.length_cons]
    omega

theorem past_logged (used : List Token) (log : List SyntaxError) (e : SyntaxError) :
    { p.past used log with errors := (p.past used log).errors ++ [e] } = p.past used (log ++ [e]) := by
  simp [past]

section

variable {ι : Type} {depth : Nat} {x : Labeled ι α} {p q : Parser ι}

theorem recover_ok {v : α} (hx : x p = .ok v q) : recover depth x p = .ok (some v) q := by
  have hmap : (some <$> x) p = .ok (some v) q := by
    show EStateM.map some x p = _
    rw [EStateM.map, hx]
  show EStateM.tryCatch (some <$> x) _ p = _
  unfold EStateM.tryCatch
  rw [hmap]

theorem recover_crash {c : Crash} (hx : x p = .error (.crash c) q) :
    recover depth x p = .error (.crash c) q := by
  have hmap : (some <$> x) p = .error (.crash c) q := by
    show EStateM.map some x p = _
    rw [EStateM.map, hx]
  show EStateM.tryCatch (some <$> x) _ p = _
  unfold EStateM.tryCatch
  rw [hmap]
  rfl

theorem recover_fault (depth : Nat) {e : SyntaxError} (hx : x p = .error (.fault e) q) :
    recover depth x p =
      (synchronize depth >>= fun _ => pure none) { q with errors := q.errors ++ [e] } := by
  have hmap : (some <$> x) p = .error (.fault e) q := by
    show EStateM.map some x p = _
    rw [EStateM.map, hx]
  show EStateM.tryCatch (some <$> x) _ p = _
  unfold EStateM.tryCatch
  rw [hmap]
  rfl

end

/-- A rule that recovers keeps the error and goes on where the grammar goes on. -/
theorem recover_follows (depth : Nat) {x : Rule (Stmt Unit)} {reply : Reply true (Stmt Unit) (t :: rest)}
    (hp : At final (t :: rest) p) (hx : Follows enough p x reply)
    (henough : enough → (t :: rest).length < depth) :
    Follows enough p (recover depth x) (Grammar.recover t rest reply).reply := by
  cases hx with
  | tooDeep hne hx => exact .tooDeep hne (recover_crash hx)
  | ok used log h hs hx => exact .ok used log _ hs (recover_ok hx)
  | @fail used log e r h hs hx =>
    have hq : At final r (p.past used (log ++ [e])) := At.past (hs ▸ hp) _
    have hle : (Grammar.synchronize r).length + false.toNat ≤ r.length :=
      Nat.le_trans (Grammar.length_synchronize_le r) (Nat.sub_le ..)
    have hsync := synchronize_tracks depth hq hle
    have hrecover := recover_fault depth hx
    rw [past_logged] at hrecover
    cases hsync with
    | tooDeep hne hy =>
      exact .tooDeep (fun he => hne (Nat.lt_of_le_of_lt h (henough he)))
        (hrecover.trans (bind_of_error hy))
    | ok used' _ h' hr hy =>
      refine .ok (used ++ used') _ _
        (hs.trans ((congrArg (used ++ ·) hr).trans (List.append_assoc ..).symm)) ?_
      rw [hrecover, bind_of_ok hy, past_past, List.append_nil]
      rfl

/-! ## Loops -/

/-- A loop that reads items until a test holds, and what closes it, beside a rule that reads an item and
then the rest. -/
theorem repeatUntil_follows {b : Bool} {step : Rule α} {test : Rule Bool} {ended : List Token → Bool}
    {whole : (s : List Token) → Reply b β s} (bound : Nat → Prop) (close : List α → Rule β)
    (item : (t : Token) → (rest : List Token) → Reply true α (t :: rest)) (add : α → β → β)
    (htest : ∀ s p, At final s p → test p = .ok (ended s) p) (hnil : ended [] = true)
    (hclose : ∀ s p, At final s p → ended s = true → Follows (bound s.length) p (close []) (whole s))
    (hcons : ∀ v found, close (v :: found) = close found >>= fun w => pure (add v w))
    (hstep : ∀ t rest p, At final (t :: rest) p → ended (t :: rest) = false →
      Follows (bound (rest.length + 1)) p step (item t rest))
    (hwhole : ∀ t rest p x enough, ended (t :: rest) = false →
      Follows enough p x ((item t rest).andThen fun v r _ => (whole r).map (add v)) →
      Follows enough p x (whole (t :: rest)))
    (hbound : ∀ m n, m ≤ n → bound n → bound m) (depth : Nat) {s : List Token} {p : Parser}
    (hp : At final s p) :
    Follows (bound s.length ∧ s.length < depth) p (repeatUntil test step depth >>= close) (whole s) := by
  induction depth generalizing s p with
  | zero => exact .tooDeep (fun h => Nat.not_lt_zero _ h.2) rfl
  | succ depth ih =>
    rw [repeatUntil, bind_assoc]
    refine .stay (htest s p hp) ?_
    cases hover : ended s with
    | true => exact ((hclose s p hp hover).mono And.left).congr rfl
    | false =>
      cases s with
      | nil => rw [hnil] at hover; cases hover
      | cons t rest =>
        refine hwhole t rest p _ _ hover ?_
        have hloop : ((if false = true then pure [] else step >>= fun v =>
            repeatUntil test step depth >>= fun found => pure (v :: found)) >>= close) =
            step >>= fun v => (repeatUntil test step depth >>= close) >>= fun w => pure (add v w) := by
          simp only [hcons, Bool.false_eq_true, if_false, bind_assoc, pure_bind]
        refine Follows.congr ?_ (congrFun hloop p)
        refine .andThen hp ((hstep t rest p hp hover).mono And.left) fun v r h q hq => ?_
        simp only [Bool.toNat_true, List.length_cons] at h
        refine (ih hq).map.mono fun ⟨hfar, hlt⟩ => ⟨hbound _ _ ?_ hfar, ?_⟩
        · simp only [List.length_cons]
          omega
        · simp only [List.length_cons] at hlt
          omega

theorem At.isBodyEnd (hp : At final s p) :
    Parser.isBodyEnd p = .ok (s.head?.all (·.isSymbol .rightBrace)) p := by
  rw [Parser.isBodyEnd, bind_of_ok (hp.check _)]
  cases s with
  | nil => exact hp.isAtEnd
  | cons t rest =>
    show (if t.isSymbol .rightBrace = true then pure true else Parser.isAtEnd) p =
      .ok (t.isSymbol .rightBrace) p
    cases t.isSymbol .rightBrace with
    | true => rfl
    | false => exact hp.isAtEnd

/-! ## Blocks and classes -/

theorem closeBlock_cons (first : Option (Stmt Unit)) (found : List (Option (Stmt Unit))) :
    closeBlock (first :: found) = closeBlock found >>= fun w => pure (first.toList ++ w) := by
  cases first <;> simp [closeBlock]

theorem closeBlock_follows (hp : At final s p) (hs : s.head?.all (·.isSymbol .rightBrace) = true) :
    Follows enough p (closeBlock []) (Grammar.body final s) := by
  cases s with
  | nil =>
    rw [Grammar.body]
    exact (consume_symbol hp _ _).map (f := fun _ => [])
  | cons t rest =>
    have ht : t.isSymbol .rightBrace = true := hs
    rw [Grammar.body, if_pos ht]
    exact Tracks.one (bind_of_ok (hp.consume_eq (of_decide_eq_true ht) _))

theorem body_cons (ht : ¬ t.isSymbol .rightBrace = true) :
    Grammar.body final (t :: rest) = (Grammar.declaration final t rest).reply.andThen
      fun first r _ => (Grammar.body final r).map (first.toList ++ ·) := by
  rw [Grammar.body, if_neg ht]
  rfl

/-- A member together with the others. -/
def Member.add : Member → Grammar.Members → Grammar.Members
  | .field f, ms => (f :: ms.1, ms.2)
  | .method m, ms => (ms.1, m :: ms.2)

/-- What the grammar makes of a member. -/
def memberReply (final t : Token) (rest : List Token) : Reply true Member (t :: rest) :=
  if t.isSymbol .varWord then (Reply.quiet (Grammar.varDeclaration final rest)).past.map .field
  else (Grammar.routine final .method (t :: rest)).map .method

theorem closeMembers_cons (first : Member) (found : List Member) :
    closeMembers (first :: found) = closeMembers found >>= fun w => pure (first.add w) := by
  cases first <;> simp [closeMembers, Member.split, Member.add]

theorem closeMembers_follows (hp : At final s p)
    (hs : s.head?.all (·.isSymbol .rightBrace) = true) :
    Follows enough p (closeMembers []) (Grammar.members final s) := by
  cases s with
  | nil =>
    rw [Grammar.members]
    exact (consume_symbol hp _ _).map (f := fun _ => ([], []))
  | cons t rest =>
    have ht : t.isSymbol .rightBrace = true := hs
    rw [Grammar.members, if_pos ht]
    exact Tracks.one (bind_of_ok (hp.consume_eq (of_decide_eq_true ht) _))

theorem members_cons (ht : ¬ t.isSymbol .rightBrace = true) :
    Grammar.members final (t :: rest) = (memberReply final t rest).andThen
      fun first r _ => (Grammar.members final r).map first.add := by
  rw [Grammar.members, if_neg ht, memberReply]
  split
  · rw [Reply.map_andThen (f := fun (first : Member) r => (Grammar.members final r).map first.add)]
    exact Reply.past_andThen (b := true) (Reply.quiet (Grammar.varDeclaration final rest))
      fun f r => (Grammar.members final r).map fun ms => (f :: ms.1, ms.2)
  · rw [Reply.map_andThen (f := fun (first : Member) r => (Grammar.members final r).map first.add)]
    rfl

/-! ## Statements -/

theorem elseBranch_follows {depth : Nat} (c : Expr Unit) (thenBranch : Stmt Unit) (hp : At final s p)
    (hstatement : ∀ rest q, At final rest q → Ready final rest →
      Follows (64 * rest.length + 21 < depth) q (statement depth) (Grammar.statement final rest)) :
    Follows (64 * s.length < depth) p
      (accept (.symbol .elseWord) >>= fun b =>
        if b = true then statement depth >>= fun e => pure (.ifElse c thenBranch e)
        else pure (.ifThen c thenBranch))
      (Grammar.elseBranch final c thenBranch s) := by
  cases s with
  | nil =>
    rw [Grammar.elseBranch]
    exact Follows.refuse (hp.accept_nil _) Tracks.done
  | cons t rest =>
    rw [Grammar.elseBranch]
    split
    next ht =>
      refine Follows.take (hp.accept_symbol ht) (Follows.map ?_)
      refine (hstatement rest _ hp.tail
        (hp.ready (isValue_symbol (of_decide_eq_true ht) (by decide)))).mono ?_
      simp only [List.length_cons]
      omega
    next ht => exact Follows.refuse (hp.accept_no_symbol ht) Tracks.done

mutual

theorem statement_follows (depth : Nat) {s : List Token} {p : Parser} (hp : At final s p)
    (hr : Ready final s) :
    Follows (64 * s.length + 21 < depth) p (statement depth) (Grammar.statement final s) := by
  match depth with
  | 0 => exact .zero
  | depth + 1 =>
    rw [statement]
    cases s with
    | nil =>
      rw [Grammar.statement]
      exact Follows.refuse (hp.accept_nil _) (Follows.refuse (hp.accept_nil _)
        (Follows.refuse (hp.accept_nil _) (Follows.refuse (hp.accept_nil _)
          (Follows.refuse (hp.accept_nil _) (Follows.refuse (hp.accept_nil _)
            ((expressionStatement_tracks depth hp hr).mono (by omega)))))))
    | cons t rest =>
      rw [Grammar.statement]
      simp only [List.length_cons]
      split
      next hk =>
        refine Follows.take (hp.accept_eq hk) (Follows.andThen_of hp.tail
          ((forClauses_tracks depth hp.tail).mono (by omega)) fun clauses r h q hx hq => ?_)
        simp only [Bool.toNat_true] at h
        exact (statement_follows depth hq
          (hq.ready_of_settled (forClauses_settles depth hx))).map.mono (by omega)
      next hk =>
        refine Follows.refuse (hp.accept_ne (by simp [hk])) (Follows.take (hp.accept_eq hk)
          (Follows.andThen_of hp.tail ((condition_tracks depth _ _ hp.tail).mono (by omega))
            fun c r h q hx hq => ?_))
        simp only [Bool.toNat_true] at h
        refine Follows.andThen hq ((statement_follows depth hq
          (hq.ready_of_settled (condition_settles depth _ _ hx))).mono (by omega))
          fun thenBranch r' h' q' hq' => ?_
        exact (elseBranch_follows c thenBranch hq' fun rest q hq hr =>
          statement_follows depth hq hr).mono (by omega)
      next hk =>
        refine Follows.refuse (hp.accept_ne (by simp [hk])) (Follows.refuse (hp.accept_ne (by simp [hk]))
          (Follows.take (hp.accept_eq hk) (Follows.andThen_of hp.tail
            ((condition_tracks depth _ _ hp.tail).mono (by omega)) fun c r h q hx hq => ?_)))
        simp only [Bool.toNat_true] at h
        exact (statement_follows depth hq
          (hq.ready_of_settled (condition_settles depth _ _ hx))).map.mono (by omega)
      next hk =>
        refine Follows.refuse (hp.accept_ne (by simp [hk])) (Follows.refuse (hp.accept_ne (by simp [hk]))
          (Follows.refuse (hp.accept_ne (by simp [hk])) (Tracks.take (hp.accept_eq hk) ?_)))
        exact (returnStatement_tracks depth hp (isValue_symbol hk (by decide))).mono (by omega)
      next hk =>
        refine Follows.refuse (hp.accept_ne (by simp [hk])) (Follows.refuse (hp.accept_ne (by simp [hk]))
          (Follows.refuse (hp.accept_ne (by simp [hk])) (Follows.refuse (hp.accept_ne (by simp [hk]))
            (Follows.take (hp.accept_eq hk) (Follows.map ?_)))))
        exact (body_follows depth hp.tail).mono (by omega)
      next hk =>
        refine Follows.refuse (hp.accept_ne (by simp [hk])) (Follows.refuse (hp.accept_ne (by simp [hk]))
          (Follows.refuse (hp.accept_ne (by simp [hk])) (Follows.refuse (hp.accept_ne (by simp [hk]))
            (Follows.refuse (hp.accept_ne (by simp [hk])) (Tracks.take (hp.accept_eq hk) ?_)))))
        exact (printStatement_tracks depth hp.tail
          (hp.ready (isValue_symbol hk (by decide)))).mono (by omega)
      next hfor hif hwhile hreturn hbrace hprint =>
        exact Follows.refuse (hp.accept_ne hfor) (Follows.refuse (hp.accept_ne hif)
          (Follows.refuse (hp.accept_ne hwhile) (Follows.refuse (hp.accept_ne hreturn)
            (Follows.refuse (hp.accept_ne hbrace) (Follows.refuse (hp.accept_ne hprint)
              ((expressionStatement_tracks depth hp hr).mono
                (by simp only [List.length_cons]; omega)))))))

theorem body_follows (depth : Nat) {s : List Token} {p : Parser} (hp : At final s p) :
    Follows (64 * s.length + 23 < depth) p (body depth) (Grammar.body final s) := by
  match depth with
  | 0 => exact .zero
  | depth + 1 =>
    refine (repeatUntil_follows (fun n => 64 * n + 22 < depth) closeBlock
      (fun t rest => (Grammar.declaration final t rest).reply) (fun first found => first.toList ++ found)
      (fun s p hp => hp.isBodyEnd) rfl (fun s p hp hs => closeBlock_follows hp hs) closeBlock_cons
      (fun t rest p hp _ => declaration_follows depth hp)
      (fun t rest p x enough ht hx => by rwa [body_cons (by simpa using ht)])
      (fun m n hmn hn => by omega) depth hp).mono fun _ => ⟨by omega, by omega⟩

theorem declaration_follows (depth : Nat) {t : Token} {rest : List Token} {p : Parser}
    (hp : At final (t :: rest) p) :
    Follows (64 * (rest.length + 1) + 22 < depth) p (declaration depth)
      (Grammar.declaration final t rest).reply := by
  match depth with
  | 0 => exact .zero
  | depth + 1 =>
    rw [declaration, Grammar.declaration]
    split
    next hk =>
      refine recover_follows depth hp (Follows.take (hp.accept_eq hk)
        ((classDeclaration_follows depth hp.tail).mono ?_)) ?_ <;> (try simp only [List.length_cons]) <;> omega
    next hk =>
      refine recover_follows depth hp (Follows.refuse (hp.accept_ne (by simp [hk]))
        (Follows.take (hp.accept_eq hk) ((routine_follows depth .function hp.tail).map.mono ?_))) ?_
      · omega
      · simp only [List.length_cons]
        omega
    next hk =>
      refine recover_follows depth hp (Follows.refuse (hp.accept_ne (by simp [hk]))
        (Follows.refuse (hp.accept_ne (by simp [hk])) (Tracks.take (hp.accept_eq hk)
          ((varDeclaration_tracks depth hp.tail).map.mono ?_)))) ?_
      · omega
      · simp only [List.length_cons]
        omega
    next hclass hfun hvar =>
      refine recover_follows depth hp (Follows.refuse (hp.accept_ne hclass)
        (Follows.refuse (hp.accept_ne hfun) (Follows.refuse (hp.accept_ne hvar)
          ((statement_follows depth hp Ready.cons).mono ?_)))) ?_
      · simp only [List.length_cons]
        omega
      · simp only [List.length_cons]
        omega

theorem routine_follows (depth : Nat) (kind : RoutineKind) {s : List Token} {p : Parser}
    (hp : At final s p) :
    Follows (64 * s.length + 1 < depth) p (routine depth kind) (Grammar.routine final kind s) := by
  match depth with
  | 0 => exact .zero
  | depth + 1 =>
    rw [routine, Grammar.routine]
    refine Follows.andThen hp ((header_tracks depth kind hp).mono (by omega)) fun found r h q hq => ?_
    simp only [Bool.toNat_true] at h
    exact (body_follows depth hq).map.mono (by omega)

theorem classDeclaration_follows (depth : Nat) {s : List Token} {p : Parser} (hp : At final s p) :
    Follows (64 * s.length + 1 < depth) p (classDeclaration depth)
      (Grammar.classDeclaration final s) := by
  match depth with
  | 0 => exact .zero
  | depth + 1 =>
    rw [classDeclaration, Grammar.classDeclaration]
    refine Follows.andThen hp (classHeader_tracks hp) fun found r h q hq => ?_
    simp only [Bool.toNat_true] at h
    have hmembers := repeatUntil_follows (fun n => 64 * n + 2 < depth) closeMembers (memberReply final)
      Member.add (fun s p hp => hp.isBodyEnd) rfl (fun s p hp hs => closeMembers_follows hp hs) closeMembers_cons
      (fun t rest p hp _ => member_follows depth hp)
      (fun t rest p x enough ht hx => by rwa [members_cons (by simpa using ht)])
      (fun m n hmn hn => by omega) depth hq
    have hclass : Follows (64 * s.length + 1 < depth + 1) _ _ _ :=
      (hmembers.map (f := fun ms => Stmt.classDecl ⟨found.1, found.2, ms.1, ms.2⟩)).mono
        fun _ => ⟨by omega, by omega⟩
    rwa [bind_assoc] at hclass

theorem member_follows (depth : Nat) {t : Token} {rest : List Token} {p : Parser}
    (hp : At final (t :: rest) p) :
    Follows (64 * (rest.length + 1) + 2 < depth) p (member depth) (memberReply final t rest) := by
  match depth with
  | 0 => exact .zero
  | depth + 1 =>
    rw [member, memberReply]
    split
    next ht =>
      rw [Reply.map_past]
      refine Follows.take (hp.accept_symbol ht) (Follows.map ?_)
      exact (varDeclaration_tracks depth hp.tail).mono (by omega)
    next ht =>
      exact Follows.refuse (hp.accept_no_symbol ht)
        ((routine_follows depth .method hp).map.mono (by simp only [List.length_cons]; omega))

end

/-! ## Programs -/

theorem Follows.lax {a : Bool} {x : Rule α} {reply : Reply a α s} (hx : Follows enough p x reply) :
    Follows enough p x reply.lax := by
  cases hx with
  | tooDeep hne hx => exact .tooDeep hne hx
  | ok used log h hs hx => exact .ok used log _ hs hx
  | fail used log h hs hx => exact .fail used log _ hs hx

/-- The statements of a program as a reply that keeps all errors. -/
def programReply (final : Token) (s : List Token) : Reply false (List (Stmt Unit)) s :=
  ⟨(Grammar.program final s).1, .ok (Grammar.program final s).2 [] (Nat.zero_le _)⟩

theorem programReply_cons :
    programReply final (t :: rest) = ((Grammar.declaration final t rest).reply.andThen
      fun first r _ => (programReply final r).map (first.toList ++ ·)).lax := by
  simp only [programReply, Grammar.program]
  rfl

theorem program_follows (depth : Nat) (hp : At final s p) :
    Follows (64 * s.length + 22 < depth) p (program depth) (programReply final s) := by
  refine (repeatUntil_follows (fun n => 64 * n + 22 < depth) (fun found => pure (found.filterMap id))
    (fun t rest => (Grammar.declaration final t rest).reply) (fun first found => first.toList ++ found)
    (fun s p hp => hp.isAtEnd) rfl ?_ ?_ (fun t rest p hp _ => declaration_follows depth hp)
    (fun t rest p x enough _ hx => by rw [programReply_cons]; exact hx.lax)
    (fun m n hmn hn => by omega) depth hp).mono fun _ => ⟨by omega, by omega⟩
  · intro s p hp hs
    cases List.isEmpty_iff.1 hs
    rw [programReply]
    simp only [Grammar.program]
    exact Tracks.done
  · intro first found
    cases first <;> simp

/-! ## The parser -/

/-- Wherever a token stands, the tokens up to the next end of the source are left. -/
theorem at_next (hlt : p.current < p.tokens.size)
    (hfinal : finalToken? (p.tokens.toList.drop p.current) = some final) :
    At final (beforeEnd (p.tokens.toList.drop p.current)) p := by
  have hlast : (p.tokens.toList.drop p.current).getLast? = p.tokens.toList.getLast? := by
    rw [List.getLast?_drop, if_neg (by simpa using hlt)]
  rw [finalToken?, hlast] at hfinal
  refine ⟨Nat.le_of_lt hlt, fun t ht => ne_eof_of_mem_beforeEnd ht, ?_⟩
  cases hfind : (p.tokens.toList.drop p.current).find? fun t => t.kind = .eof with
  | some t =>
    rw [hfind] at hfinal
    cases hfinal
    obtain ⟨hkind, junk, hsplit⟩ := split_at_end hfind
    exact ⟨_, .eof hkind, hsplit⟩
  | none =>
    rw [hfind, Option.none_or] at hfinal
    exact ⟨[], .missing hfinal, by rw [beforeEnd_of_find? hfind, List.append_nil]⟩

theorem exists_finalToken (t : Token) (rest : List Token) :
    ∃ final, finalToken? (t :: rest) = some final := by
  rw [← Option.isSome_iff_exists, finalToken?, Option.isSome_or]
  simp

/-- The parser gives what the grammar gives, unless too few nested calls are allowed. -/
theorem parseWithin_reads (depth : Nat) (tokens : List Token) :
    parseWithin depth tokens = .ok (Grammar.read tokens) ∨
      (depth < depthFor tokens ∧ parseWithin depth tokens = .error .tooDeep) := by
  cases tokens with
  | nil => exact .inl rfl
  | cons t rest =>
    obtain ⟨final, hfinal⟩ := exists_finalToken t rest
    have hlength : (beforeEnd (t :: rest)).length ≤ (t :: rest).length :=
      (List.takeWhile_sublist _).length_le
    have hprogram := program_follows depth
      (at_next (p := .new (t :: rest) ()) (Nat.zero_lt_succ _) hfinal)
    rw [parseWithin, parseFrom, Grammar.read, hfinal, List.isEmpty_cons, if_neg Bool.false_ne_true]
    change Follows (64 * (beforeEnd (t :: rest)).length + 22 < depth) _ _
      (programReply final (beforeEnd (t :: rest))) at hprogram
    generalize hreply : programReply final (beforeEnd (t :: rest)) = reply at hprogram
    cases hprogram with
    | tooDeep hne hx =>
      refine .inr ⟨?_, by rw [hx]; rfl⟩
      rw [depthFor]
      omega
    | ok _ _ hle hs hx =>
      refine .inl ?_
      rw [hx]
      cases hreply
      dsimp only
      rcases Grammar.program final (beforeEnd (t :: rest)) with ⟨_ | ⟨e, errors⟩, statements⟩ <;> rfl
    | fail _ _ hle hs hx => cases congrArg Reply.outcome hreply

/-- If enough nested calls are allowed, the parser gives what the grammar gives. -/
theorem parseWithin_eq_read {tokens : List Token} {depth : Nat} (h : depthFor tokens ≤ depth) :
    parseWithin depth tokens = .ok (Grammar.read tokens) :=
  (parseWithin_reads depth tokens).resolve_right fun hdeep => Nat.not_lt.2 h hdeep.1

end Parser

/-- The parser never crashes and gives what the grammar gives. -/
theorem parse_eq_read (tokens : List Token) : Parser.parse tokens = .ok (Grammar.read tokens) :=
  Parser.parseWithin_eq_read (Nat.le_refl _)

theorem parseTokens_eq_read (tokens : List Token) : parseTokens tokens = Grammar.read tokens := by
  rw [parseTokens, parse_eq_read]

end ClassScript
