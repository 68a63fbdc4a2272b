import ClassScript.Proofs.ErrorOrder
import ClassScript.Proofs.ParserAgreement
import ClassScript.Token.Scanner

/-!
# The end of the source

The parser looks at no token behind the first end of the source, and it looks at the last token where it
would look at the end of the source if there is none. So it never looks where there is no token, and its
answer is the same with and without an end of the source, up to the token at which an error points
(`parse_robust`).
-/

set_option autoImplicit false

namespace ClassScript

variable {final : Token} {tokens : List Token}

/-- The tokens up to the first end of the source, and that one. -/
def throughEnd (tokens : List Token) : List Token :=
  tokens.take ((beforeEnd tokens).length + 1)

/-! ## Tokens behind the end -/

theorem beforeEnd_throughEnd (tokens : List Token) :
    beforeEnd (throughEnd tokens) = beforeEnd tokens ∧
      finalToken? (throughEnd tokens) = finalToken? tokens := by
  cases hfind : tokens.find? fun t => t.kind = .eof with
  | none =>
    have hall : throughEnd tokens = tokens := by
      rw [throughEnd, beforeEnd_of_find? hfind, List.take_of_length_le (Nat.le_succ _)]
    rw [hall]
    exact ⟨rfl, rfl⟩
  | some first =>
    obtain ⟨hkind, junk, hsplit⟩ := split_at_end hfind
    have hbefore : ∀ t ∈ beforeEnd tokens, t.kind ≠ .eof := fun t => ne_eof_of_mem_beforeEnd
    have hcut : throughEnd tokens = beforeEnd tokens ++ [first] := by
      rw [throughEnd]
      generalize beforeEnd tokens = before at hsplit
      rw [hsplit, List.append_cons, List.take_append_of_le_length (by simp), List.take_of_length_le (by simp)]
    rw [hcut, beforeEnd_append hkind hbefore, finalToken?_append hkind hbefore, finalToken?, hfind]
    exact ⟨rfl, rfl⟩

theorem read_throughEnd (tokens : List Token) :
    Grammar.read (throughEnd tokens) = Grammar.read tokens := by
  rw [Grammar.read, Grammar.read, (beforeEnd_throughEnd tokens).1, (beforeEnd_throughEnd tokens).2]

/-! ## A missing end -/

/-- What the parser says, without the places: the program, or the cause of every error. -/
def withoutPlaces (result : Except (List SyntaxError) (List (Stmt Unit))) :
    Except (List SyntaxCause) (List (Stmt Unit)) :=
  result.mapError (·.map SyntaxError.cause)

theorem read_append (hbefore : ∀ t ∈ tokens, t.kind ≠ .eof) (hfinal : final.kind = .eof) :
    withoutPlaces (Grammar.read (tokens ++ [final])) = withoutPlaces (Grammar.read tokens) := by
  have hfind : (tokens.find? fun t => t.kind = .eof) = none :=
    List.find?_eq_none.2 fun t ht => by simpa using hbefore t ht
  rw [Grammar.read, Grammar.read, finalToken?_append hfinal hbefore, beforeEnd_append hfinal hbefore,
    beforeEnd_of_find? hfind, finalToken?, hfind, Option.none_or]
  cases hlast : tokens.getLast? with
  | none =>
    cases List.getLast?_eq_none_iff.1 hlast
    simp only [Grammar.program]
  | some last =>
    obtain ⟨hmarks, hstatements⟩ := Grammar.program_marks final last tokens
    dsimp only
    generalize Grammar.program final tokens = found at hmarks hstatements
    generalize Grammar.program last tokens = found' at hmarks hstatements
    obtain ⟨errors, statements⟩ := found
    obtain ⟨errors', statements'⟩ := found'
    cases hstatements
    have hcauses := congrArg (List.map Prod.fst) hmarks
    simp only [List.map_map] at hcauses
    cases errors with
    | nil =>
      cases errors' with
      | nil => rfl
      | cons e' others' => cases hmarks
    | cons e others =>
      cases errors' with
      | nil => cases hmarks
      | cons e' others' => exact congrArg Except.error hcauses

/-- Whatever the tokens, the parser never looks where there is no token, and its answer is the one for the
tokens up to the first end of the source. If there is no end of the source, then with one behind the tokens
it gives the same statements or errors of the same causes in the same order. -/
theorem parse_robust (tokens : List Token) :
    (∀ depth, Parser.parseWithin depth tokens ≠ .error .outOfRange) ∧
    (∃ result, Parser.parse tokens = .ok result ∧ Parser.parse (throughEnd tokens) = .ok result) ∧
    ((∀ t ∈ tokens, t.kind ≠ .eof) → ∀ final : Token, final.kind = .eof →
      ∃ result result', Parser.parse tokens = .ok result ∧
        Parser.parse (tokens ++ [final]) = .ok result' ∧
        withoutPlaces result = withoutPlaces result') := by
  refine ⟨fun depth h => ?_, ⟨Grammar.read tokens, parse_eq_read tokens, ?_⟩, ?_⟩
  · obtain hok | ⟨-, hdeep⟩ := Parser.parseWithin_reads depth tokens
    · cases hok.symm.trans h
    · cases hdeep.symm.trans h
  · rw [parse_eq_read, read_throughEnd]
  · intro hbefore final hfinal
    exact ⟨_, _, parse_eq_read tokens, parse_eq_read (tokens ++ [final]),
      (read_append hbefore hfinal).symm⟩

/-- A block that breaks off behind an operator. -/
def brokenOff : List Token :=
  beforeEnd (scannedTokens (scan "\x7b print 1 +"))

/-- With and without an end of the source the operand and the brace are missing. -/
theorem parse_robust_brokenOff :
    (∀ t ∈ brokenOff, t.kind ≠ .eof) ∧ ∃ result result', Parser.parse brokenOff = .ok result ∧
      Parser.parse (brokenOff ++ [⟨.eof, "", 1⟩]) = .ok result' ∧
      withoutPlaces result = withoutPlaces result' ∧
      withoutPlaces result = .error [.expression, .blockClose] := by
  have hbefore : ∀ t ∈ brokenOff, t.kind ≠ .eof := fun t => ne_eof_of_mem_beforeEnd
  have hcauses : (match Parser.parse brokenOff with
      | .ok (.error errors) => errors.map SyntaxError.cause
      | _ => []) = [.expression, .blockClose] := by decide +kernel
  obtain ⟨-, -, hend⟩ := parse_robust brokenOff
  obtain ⟨result, result', h, h', hsame⟩ := hend hbefore ⟨.eof, "", 1⟩ rfl
  refine ⟨hbefore, result, result', h, h', hsame, ?_⟩
  rw [h] at hcauses
  cases result with
  | ok statements => cases hcauses
  | error errors => exact congrArg Except.error hcauses

end ClassScript
