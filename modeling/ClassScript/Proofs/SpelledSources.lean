import ClassScript.Proofs.ProgramDescent
import ClassScript.Proofs.ScannedPieces
import ClassScript.Session

/-!
# Sources given by their characters

The scanner moves through the bytes of a source, and the parser through an array of tokens. What a
source is parsed to is also what the lexer and the parser on lists make of its characters
(`parse_spelled`). Sources that are written down are evaluated in this way: a string literal is
`String.ofList` of its characters by definition, but its bytes have to be computed.
-/

set_option autoImplicit false

namespace ClassScript

theorem append_spelled {s t : String} {l m : List Char} (hs : s = String.ofList l)
    (ht : t = String.ofList m) : s ++ t = String.ofList (l ++ m) := by
  rw [hs, ht, String.ofList_append]

theorem scan_spelled {source : String} {chars : List Char} (h : source = String.ofList chars) :
    scan source = Lexer.items 1 (Lexer.lexemes chars) := by
  rw [h, scan_eq, String.toList_ofList]

/-- What a source of these characters is parsed to. -/
theorem parse_spelled {source : String} {chars : List Char} (h : source = String.ofList chars) :
    parse source =
      let items := Lexer.items 1 (Lexer.lexemes chars)
      let faults := (scanFaults items).map .lexical
      match Grammar.read (scannedTokens items), faults with
      | .ok program, [] => .ok program
      | .ok _, faults => .error faults
      | .error errors, faults => .error (faults ++ errors.map .grammar) := by
  unfold parse
  rw [scan_spelled h]
  dsimp only
  rewrite [parseTokens_eq_read]
  rfl

end ClassScript
