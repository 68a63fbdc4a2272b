import ClassScript.Proofs.ErrorOrder
import ClassScript.Token.Scanner

/-!
# Recovery makes progress

Whenever a loop of the parser goes on and the item it reads does not break off, the parser has gone past at
least one token. So the parser gives an answer for all tokens, and its errors come in the order of the
tokens at which they point, except that several may point at the end of the source
(`recovery_progresses`).
-/

set_option autoImplicit false

namespace ClassScript

namespace Parser

variable {final t : Token} {s rest tokens : List Token} {p q : Parser} {enough : Prop} {α : Type}

/-! ## Progress -/

/-- A strict rule goes past a token. -/
theorem Follows.progress {x : Rule α} {reply : Reply true α s} {v : α} (hx : Follows enough p x reply)
    (h : x p = .ok v q) : p.current < q.current := by
  cases hx with
  | tooDeep _ hx => cases hx.symm.trans h
  | fail _ _ _ _ hx => cases hx.symm.trans h
  | ok used log hle hs hx =>
    cases hx.symm.trans h
    rw [hs, List.length_append, Bool.toNat_true] at hle
    show p.current < p.current + used.length
    omega

/-- Before the end there is a next token. -/
theorem at_of_isAtEnd (h : isAtEnd p = .ok false q) : ∃ final t rest, At final (t :: rest) p := by
  have hlt : p.current < p.tokens.size := by
    refine Nat.lt_of_not_le fun hle => ?_
    rw [isAtEnd, get_bind, if_pos hle] at h
    cases h
  have hdrop : p.tokens.toList.drop p.current =
      p.tokens[p.current] :: p.tokens.toList.drop (p.current + 1) := by
    rw [List.drop_eq_getElem_cons (by simpa using hlt), Array.getElem_toList]
  obtain ⟨final, hfinal⟩ : ∃ final, finalToken? (p.tokens.toList.drop p.current) = some final := by
    rw [hdrop]
    exact exists_finalToken _ _
  have hp := at_next hlt hfinal
  cases hs : beforeEnd (p.tokens.toList.drop p.current) with
  | nil =>
    rw [hs] at hp
    cases hp.isAtEnd.symm.trans h
  | cons t rest => exact ⟨final, t, rest, hs ▸ hp⟩

theorem isAtEnd_of_isBodyEnd (h : isBodyEnd p = .ok false q) : isAtEnd p = .ok false q := by
  obtain ⟨b, r, hcheck, h⟩ := ok_of_bind h
  obtain ⟨rfl, -⟩ := check_ok hcheck
  cases b with
  | true => cases h
  | false => exact h

theorem declaration_progress {depth : Nat} {first : Option (Stmt Unit)} (hmore : isAtEnd p = .ok false p)
    (h : declaration depth p = .ok first q) : p.current < q.current := by
  obtain ⟨final, t, rest, hp⟩ := at_of_isAtEnd hmore
  exact (declaration_follows depth hp).progress h

theorem member_progress {depth : Nat} {first : Member} (hmore : isBodyEnd p = .ok false p)
    (h : member depth p = .ok first q) : p.current < q.current := by
  obtain ⟨final, t, rest, hp⟩ := at_of_isAtEnd (isAtEnd_of_isBodyEnd hmore)
  exact (member_follows depth hp).progress h

end Parser

/-! ## Places -/

/-- The index of the token at which an error points. -/
def SyntaxError.place (tokens : List Token) (e : SyntaxError) : Nat :=
  (beforeEnd tokens).length - e.left

variable {final : Token} {tokens : List Token}

/-- Tokens with an end of the source are those before the first one, that one, and others. -/
theorem exists_end (hlast : tokens.getLast? = some final) (hfinal : final.kind = .eof) :
    ∃ first junk, finalToken? tokens = some first ∧ first.kind = .eof ∧
      tokens = beforeEnd tokens ++ first :: junk := by
  cases hfind : tokens.find? fun t => t.kind = .eof with
  | none =>
    have hne := List.find?_eq_none.1 hfind final (List.mem_of_getLast? hlast)
    exact absurd (decide_eq_true hfinal) hne
  | some first =>
    obtain ⟨hkind, junk, hsplit⟩ := split_at_end hfind
    exact ⟨first, junk, by rw [finalToken?, hfind]; rfl, hkind, hsplit⟩

/-- The token that an error names is the one at its place. -/
theorem SyntaxError.Names.place {first : Token} {junk : List Token} {e : SyntaxError}
    (h : e.Names first (beforeEnd tokens)) (htokens : tokens = beforeEnd tokens ++ first :: junk) :
    tokens[e.place tokens]? = some e.token := by
  rw [h.token, ← List.head?_drop, SyntaxError.place]
  generalize hs : beforeEnd tokens = s at htokens
  rw [htokens, List.drop_append_of_le_length (Nat.sub_le ..), List.head?_append]
  cases s.drop (s.length - e.left) <;> rfl

/-- A place that is further on is behind, or both are the end of the source. -/
theorem SyntaxError.Names.further {first : Token} {e e' : SyntaxError} (hfirst : first.kind = .eof)
    (h : e.Names first (beforeEnd tokens)) (hf : Further e.left e'.left) :
    e.place tokens < e'.place tokens ∨ (e.place tokens = e'.place tokens ∧ e.token.kind = .eof) := by
  have hinside := h.inside
  unfold SyntaxError.place
  obtain hlt | ⟨he, he'⟩ := hf
  · exact .inl (by omega)
  · refine .inr ⟨by rw [he, he'], ?_⟩
    rw [h.token, he, Nat.sub_zero, List.drop_length]
    exact hfirst

/-- For tokens that end in the end of the source, the parser gives an answer however deep calls may be
nested beyond some depth. If it is errors, then each names the token at its place, and each place is behind
the ones before or both are the end of the source. Every turn of the loops over the declarations of a
program or a block and over the members of a class goes past at least one token. -/
theorem recovery_progresses (hlast : tokens.getLast? = some final) (hfinal : final.kind = .eof) :
    (∃ result, (∀ depth, Parser.depthFor tokens ≤ depth →
        Parser.parseWithin depth tokens = .ok result) ∧
      ∀ errors, result = .error errors →
        (∀ e ∈ errors, tokens[e.place tokens]? = some e.token) ∧
        errors.Pairwise fun e e' => e.place tokens < e'.place tokens ∨
          (e.place tokens = e'.place tokens ∧ e.token.kind = .eof)) ∧
    (∀ depth p first q, Parser.isAtEnd p = .ok false p ∨ Parser.isBodyEnd p = .ok false p →
      Parser.declaration depth p = .ok first q → p.current < q.current) ∧
    (∀ depth p first q, Parser.isBodyEnd p = .ok false p →
      Parser.member depth p = .ok first q → p.current < q.current) := by
  refine ⟨⟨Grammar.read tokens, fun depth h => Parser.parseWithin_eq_read h, ?_⟩, ?_, ?_⟩
  · intro errors herrors
    obtain ⟨first, junk, hfirst, hkind, htokens⟩ := exists_end hlast hfinal
    obtain ⟨hnames, hordered⟩ := Grammar.program_errors first (beforeEnd tokens)
    have hread : (Grammar.program first (beforeEnd tokens)).1 = errors := by
      rw [Grammar.read, hfirst] at herrors
      dsimp only at herrors
      generalize Grammar.program first (beforeEnd tokens) = found at herrors
      obtain ⟨_ | ⟨e, others⟩, statements⟩ := found
      · cases herrors
      · cases herrors
        rfl
    rw [hread] at hnames hordered
    refine ⟨fun e he => (hnames e he).place htokens, hordered.imp_of_mem fun he _ hf => ?_⟩
    exact (hnames _ he).further hkind hf
  · rintro depth p first q (hmore | hmore) h
    · exact Parser.declaration_progress hmore h
    · exact Parser.declaration_progress (Parser.isAtEnd_of_isBodyEnd hmore) h
  · exact fun depth p first q hmore h => Parser.member_progress hmore h

/-- A block and a function in it that are never closed, with faulty statements in both. -/
def brokenBlocks : List Token :=
  scannedTokens (scan "\x7b var = 1; 1 = 2; fun f() \x7b print ; a + ;")

/-- The errors in the function come behind those in the block, and both blocks lack their brace at the
end. -/
theorem recovery_progresses_brokenBlocks :
    ∃ errors, Parser.parse brokenBlocks = .ok (.error errors) ∧
      (∀ e ∈ errors, brokenBlocks[e.place brokenBlocks]? = some e.token) ∧
      errors.map (SyntaxError.place brokenBlocks) = [2, 6, 15, 18, 19, 19] := by
  have hlast : brokenBlocks.getLast? = some ⟨.eof, "", 1⟩ := by decide +kernel
  have hplaces : (match Parser.parse brokenBlocks with
      | .ok (.error errors) => errors.map (SyntaxError.place brokenBlocks)
      | _ => []) = [2, 6, 15, 18, 19, 19] := by decide +kernel
  obtain ⟨⟨result, hparse, herrors⟩, -, -⟩ := recovery_progresses hlast rfl
  rw [Parser.parse, hparse _ (Nat.le_refl _)] at hplaces ⊢
  cases result with
  | ok statements => cases hplaces
  | error errors => exact ⟨errors, rfl, (herrors errors rfl).1, hplaces⟩

end ClassScript
