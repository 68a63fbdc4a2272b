import ClassScript.Proofs.ScannedPieces

/-!
# A scan loses nothing

The pieces of the tokens and the faults that a scanner yields tile the source: they follow each other,
and between them stand blanks and comments alone (`Scanner.Tiling`). The bytes of a piece tell its token
or its fault (`Scanner.Visit.Faithful`). `Scanner.run_lossless` says so of every source, and that no cut
fails; so none is made inside a character.
-/

set_option autoImplicit false

namespace ClassScript

namespace Scanner

/-! ## What stands between two bytes -/

/-- The byte of the source there is this ASCII character. -/
def ByteAt (source : String) (i : Nat) (c : Char) : Prop :=
  source.toByteArray[i]? = some c.toUInt8

/-- The line on which the part of the source before a byte ends. -/
def lineAt (source : String) (stop : Nat) : Nat :=
  1 + (source.toByteArray.data.toList.take stop).count '\n'.toUInt8

/-- Between the two bytes there are only blanks and comments. A comment ends before a newline or with
the source. -/
inductive Gap (source : String) : Nat → Nat → Prop where
  | nil {start : Nat} : Gap source start start
  | blank {start stop : Nat} {c : Char} : c ∈ [' ', '\t', '\r', '\n'] → ByteAt source start c →
      Gap source (start + 1) stop → Gap source start stop
  | comment {start mid stop : Nat} : ByteAt source start '/' → ByteAt source (start + 1) '/' →
      start + 2 ≤ mid → (∀ i, start + 2 ≤ i → i < mid → ¬ ByteAt source i '\n') →
      (mid = source.toByteArray.size ∨ ByteAt source mid '\n') →
      Gap source mid stop → Gap source start stop

/-- The bytes of the piece tell the item. -/
def Visit.Faithful (source : String) (v : Visit) : Prop :=
  match v.item with
  | .ok token =>
    token.kind ≠ .eof ∧ slice? source v.start v.stop = some token.lexeme ∧
      (∀ value, token.kind = .string value →
        slice? source (v.start + 1) (v.stop - 1) = some value) ∧
      token.line = lineAt source v.stop
  | .error ⟨.unexpected c, line⟩ =>
    Lexer.Unexpected c ∧ slice? source v.start v.stop = some (String.ofList [c]) ∧
      line = lineAt source v.stop
  | .error ⟨.unterminatedString, line⟩ =>
    ByteAt source v.start '"' ∧ (∀ i, v.start < i → ¬ ByteAt source i '"') ∧
      v.stop = source.toByteArray.size ∧ line = lineAt source v.stop

/-- The pieces follow each other from a byte to the end of the source. -/
inductive Tiling (source : String) : Nat → List Visit → Prop where
  | nil {start : Nat} : Gap source start source.toByteArray.size → Tiling source start []
  | cons {start : Nat} {v : Visit} {rest : List Visit} : Gap source start v.start →
      v.start < v.stop → v.Faithful source → Tiling source v.stop rest →
      Tiling source start (v :: rest)

section

variable {source : String} {start stop mid : Nat} {pieces : List Visit}

theorem Gap.le (h : Gap source start stop) : start ≤ stop := by
  induction h with
  | nil => exact Nat.le_refl _
  | blank _ _ _ ih => exact Nat.le_trans (Nat.le_succ _) ih
  | comment _ _ hmid _ _ _ ih => exact Nat.le_trans (Nat.le_trans (Nat.le_add_right _ 2) hmid) ih

theorem Gap.trans (h : Gap source start mid) (h' : Gap source mid stop) :
    Gap source start stop := by
  induction h with
  | nil => exact h'
  | blank hc hbyte _ ih => exact .blank hc hbyte (ih h')
  | comment hslash hslash' hmid hline hend _ ih =>
    exact .comment hslash hslash' hmid hline hend (ih h')

theorem Tiling.skip (h : Gap source start stop) (hp : Tiling source stop pieces) :
    Tiling source start pieces := by
  cases hp with
  | nil hgap => exact .nil (h.trans hgap)
  | cons hgap hlt hfaithful hrest => exact .cons (h.trans hgap) hlt hfaithful hrest

theorem Tiling.le_start (h : Tiling source start pieces) : ∀ v ∈ pieces, start ≤ v.start := by
  induction h with
  | nil => exact fun v hv => (List.not_mem_nil hv).elim
  | cons hgap hlt _ _ ih =>
    refine List.forall_mem_cons.2 ⟨hgap.le, fun v hv => ?_⟩
    exact Nat.le_trans hgap.le (Nat.le_trans (Nat.le_of_lt hlt) (ih v hv))

/-- The pieces are in order and have no byte in common. -/
theorem Tiling.pairwise (h : Tiling source start pieces) :
    pieces.Pairwise fun v w => v.stop ≤ w.start := by
  induction h with
  | nil => exact .nil
  | cons _ _ _ hrest ih => exact .cons hrest.le_start ih

end

/-! ## Bytes of pieces -/

section

variable {before text after : List Char} {c : Char} {i : Nat}

theorem getElem?_ofList (before after : List Char) (i : Nat) :
    (String.ofList (before ++ after)).toByteArray[(encoded before).length + i]? =
      (encoded after)[i]? := by
  rw [toByteArray_ofList, encoded_append]
  exact getElem?_toByteArray _ _ _

theorem byteAt_ofList (hc : isAscii c = true) (before after : List Char) :
    ByteAt (String.ofList (before ++ c :: after)) (encoded before).length c := by
  have hbyte := getElem?_ofList before (c :: after) 0
  rw [encoded_cons, utf8EncodeChar_toUInt8 hc] at hbyte
  exact hbyte

/-- A byte of a text is found in the source where the text is. -/
theorem mem_of_byteAt (hc : isAscii c = true)
    (h : ByteAt (String.ofList (before ++ (text ++ after))) i c) (hle : (encoded before).length ≤ i)
    (hlt : i < (encoded (before ++ text)).length) : c ∈ text := by
  obtain ⟨k, rfl⟩ := Nat.exists_eq_add_of_le hle
  rw [encoded_append, List.length_append] at hlt
  rw [ByteAt, getElem?_ofList, encoded_append,
    List.getElem?_append_left (Nat.lt_of_add_lt_add_left hlt)] at h
  exact (toUInt8_mem_encoded hc).1 (List.mem_of_getElem? h)

theorem lineAt_ofList (before after : List Char) :
    lineAt (String.ofList (before ++ after)) (encoded before).length = 1 + Lexer.newlines before := by
  rw [lineAt, toByteArray_ofList, encoded_append, List.data_toByteArray, List.toList_toArray,
    List.take_left, count_encoded rfl]
  rfl

theorem length_encoded_snoc (hc : isAscii c = true) (before : List Char) :
    (encoded (before ++ [c])).length = (encoded before).length + 1 := by
  rw [encoded_append, encoded_cons, utf8EncodeChar_toUInt8 hc, List.length_append]
  rfl

theorem isAscii_of_isBlank (h : Lexer.isBlank c = true) : isAscii c = true := by
  cases hc : isAscii c with
  | true => rfl
  | false => exact (not_isBlank hc).symm.trans h

theorem isBlank_iff : Lexer.isBlank c = true ↔ c ∈ [' ', '\t', '\r', '\n'] := by
  simp [Lexer.isBlank]

/-- Blanks and comments are gaps. -/
theorem gap_of_cut {l : Lexer.Lexeme} (h : l.Cut after)
    (hl : l.item = .blank ∨ l.item = .comment) (before : List Char) :
    Gap (String.ofList (before ++ (l.text ++ after))) (encoded before).length
      (encoded (before ++ l.text)).length := by
  cases h with
  | @blank c _ hblank =>
    have hc := isAscii_of_isBlank hblank
    rw [length_encoded_snoc hc]
    exact .blank (isBlank_iff.1 hblank) (byteAt_ofList hc before after) .nil
  | @comment body _ hbody hafter =>
    have hfirst : (encoded (before ++ ['/'])).length = (encoded before).length + 1 :=
      length_encoded_snoc rfl before
    have hsecond : (encoded (before ++ ['/', '/'])).length = (encoded before).length + 2 := by
      rw [List.append_cons, length_encoded_snoc rfl, hfirst]
    have htext : before ++ ['/', '/'] ++ body = before ++ '/' :: '/' :: body := by simp
    refine .comment (byteAt_ofList rfl before ('/' :: body ++ after)) ?_ ?_ ?_ ?_ .nil
    · have hbyte := byteAt_ofList (c := '/') rfl (before ++ ['/']) (body ++ after)
      rw [hfirst, List.append_assoc] at hbyte
      exact hbyte
    · rw [← hsecond, ← htext, encoded_append _ body, List.length_append]
      exact Nat.le_add_right ..
    · intro i hle hlt hbyte
      rw [← hsecond] at hle
      rw [← htext] at hlt
      rw [show before ++ ('/' :: '/' :: body ++ after) = before ++ ['/', '/'] ++ (body ++ after) by
        simp] at hbyte
      exact hbody (mem_of_byteAt rfl hbyte hle hlt)
    · cases after with
      | nil =>
        refine .inl ?_
        rw [← length_encoded, List.append_nil]
      | cons c tail =>
        obtain rfl := hafter c rfl
        refine .inr ?_
        rw [← List.append_assoc]
        exact byteAt_ofList rfl _ tail
  | _ => exact hl.elim nofun nofun

theorem slice?_text (before text after : List Char) :
    slice? (String.ofList (before ++ (text ++ after))) (encoded before).length
      (encoded (before ++ text)).length = some (String.ofList text) := by
  rw [← List.append_assoc]
  exact slice?_ofList before text after

theorem lineAt_text (before text after : List Char) :
    lineAt (String.ofList (before ++ (text ++ after))) (encoded (before ++ text)).length =
      1 + Lexer.newlines (before ++ text) := by
  rw [← List.append_assoc]
  exact lineAt_ofList (before ++ text) after

/-- A token is what the bytes of its piece say. -/
theorem token_faithful {l : Lexer.Lexeme} {kind : TokenKind} (h : l.Cut after)
    (hl : l.item = .token kind) (before : List Char) :
    (Visit.mk (.ok ⟨kind, String.ofList l.text, 1 + Lexer.newlines (before ++ l.text)⟩)
      (encoded before).length (encoded (before ++ l.text)).length).Faithful
        (String.ofList (before ++ (l.text ++ after))) := by
  cases h with
  | @token kind text _ hkind hstring =>
    cases hl
    refine ⟨hkind, slice?_text before text after, fun value hvalue => ?_,
      (lineAt_text before text after).symm⟩
    have htext : text = '"' :: (value.toList ++ ['"']) := hstring value hvalue
    have hcut := slice?_text (before ++ ['"']) value.toList ('"' :: after)
    have hsource : before ++ ['"'] ++ (value.toList ++ '"' :: after) = before ++ (text ++ after) := by
      simp [htext]
    have hstart : (encoded (before ++ ['"'])).length = (encoded before).length + 1 :=
      length_encoded_snoc rfl before
    have hstop : (encoded (before ++ ['"'] ++ value.toList)).length =
        (encoded (before ++ text)).length - 1 := by
      have hend := length_encoded_snoc (c := '"') rfl (before ++ ['"'] ++ value.toList)
      rw [show before ++ ['"'] ++ value.toList ++ ['"'] = before ++ text by simp [htext]] at hend
      rw [hend, Nat.add_sub_cancel]
    rw [hsource, hstart, hstop, String.ofList_toList] at hcut
    exact hcut
  | _ => cases hl

/-- A fault is what the bytes of its piece say. -/
theorem fault_faithful {l : Lexer.Lexeme} {cause : LexCause} (h : l.Cut after)
    (hl : l.item = .fault cause) (before : List Char) :
    (Visit.mk (.error ⟨cause, 1 + Lexer.newlines (before ++ l.text)⟩)
      (encoded before).length (encoded (before ++ l.text)).length).Faithful
        (String.ofList (before ++ (l.text ++ after))) := by
  cases h with
  | @unexpected c _ hc =>
    cases hl
    exact ⟨hc, slice?_text before [c] after, (lineAt_text before [c] after).symm⟩
  | @unterminated body hbody =>
    cases hl
    have hline := lineAt_text before ('"' :: body) []
    rw [List.append_nil] at hline ⊢
    refine ⟨byteAt_ofList rfl before body, fun i hi hbyte => ?_, (length_encoded _), hline.symm⟩
    obtain ⟨hlt, -⟩ := getElem?_eq_some_iff.1 hbyte
    have hle : (encoded (before ++ ['"'])).length ≤ i := by
      rw [length_encoded_snoc rfl]
      exact hi
    have htext : before ++ '"' :: body = before ++ ['"'] ++ body := List.append_cons ..
    rw [htext, ← List.append_nil body] at hbyte
    rw [← length_encoded, htext] at hlt
    exact hbody (mem_of_byteAt rfl hbyte hle hlt)
  | _ => cases hl

end

/-! ## The whole scan -/

theorem length_encoded_lt {text : List Char} (h : text ≠ []) (before : List Char) :
    (encoded before).length < (encoded (before ++ text)).length := by
  obtain ⟨c, rest, rfl⟩ := List.exists_cons_of_ne_nil h
  obtain ⟨n, bytes, he, -⟩ := utf8EncodeChar_lead c
  rw [encoded_append, encoded_cons, he, List.length_append]
  exact Nat.lt_add_of_pos_right (Nat.succ_pos _)

/-- What the scanner yields after a text tiles what follows it, up to the end of the source. The
induction is on the pieces that follow. -/
theorem visits_tile (start : Nat) (before after : List Char) :
    ∃ pieces last, visits start (encoded before).length (1 + Lexer.newlines before)
        (Lexer.lexemes after) = pieces ++ [last] ∧
      Tiling (String.ofList (before ++ after)) (encoded before).length pieces ∧
      last.item = .ok ⟨.eof, "", 1 + Lexer.newlines (before ++ after)⟩ := by
  induction after using Lexer.lexemes.induct generalizing start before with
  | case1 =>
    rw [Lexer.lexemes, List.append_nil]
    refine ⟨[], _, rfl, .nil ?_, rfl⟩
    rw [← length_encoded]
    exact .nil
  | case2 c rest ih =>
    have htext := Lexer.first_text c rest
    have hne := Lexer.first_text_ne_nil c rest
    have hcut := Lexer.first_cut c rest
    rw [Lexer.lexemes, ← htext]
    generalize (Lexer.first c rest).1 = l at *
    generalize (Lexer.first c rest).2 = after at *
    obtain ⟨pieces, last, hpieces, htiling, hlast⟩ :=
      ih (encoded before).length (before ++ l.text)
    have hstop : (encoded before).length + (encoded l.text).length =
        (encoded (before ++ l.text)).length := by rw [encoded_append, List.length_append]
    have hline : 1 + Lexer.newlines before + Lexer.newlines l.text =
        1 + Lexer.newlines (before ++ l.text) := by
      simp [Lexer.newlines, Nat.add_assoc]
    rw [List.append_assoc] at htiling hlast
    rw [visits, hstop, hline, hpieces]
    cases hitem : l.item with
    | blank => exact ⟨pieces, last, rfl, htiling.skip (gap_of_cut hcut (.inl hitem) before), hlast⟩
    | comment => exact ⟨pieces, last, rfl, htiling.skip (gap_of_cut hcut (.inr hitem) before), hlast⟩
    | token kind =>
      exact ⟨_ :: pieces, last, rfl,
        .cons .nil (length_encoded_lt hne before) (token_faithful hcut hitem before) htiling, hlast⟩
    | fault cause =>
      exact ⟨_ :: pieces, last, rfl,
        .cons .nil (length_encoded_lt hne before) (fault_faithful hcut hitem before) htiling, hlast⟩

/-- A scan of a source never fails. The pieces of the items before the last one are not empty and tile
the source, and their bytes tell the items. The last item is the end of the source, and after it the
scanner yields nothing more. -/
theorem run_lossless (source : String) :
    ∃ pieces last done, (new source).run = some (pieces ++ [last], done) ∧
      scan source = (pieces ++ [last]).map Visit.item ∧
      Tiling source 0 pieces ∧ pieces.Pairwise (fun v w => v.stop ≤ w.start) ∧
      last.item = .ok ⟨.eof, "", lineAt source source.toByteArray.size⟩ ∧
      done.next = some (none, done) := by
  obtain ⟨done, hrun, hdone⟩ := run_eq (new_at source)
  obtain ⟨pieces, last, hpieces, htiling, hlast⟩ := visits_tile 0 [] source.toList
  have hline := lineAt_ofList source.toList []
  rw [length_encoded, List.append_nil, String.ofList_toList] at hline
  rw [List.nil_append, String.ofList_toList] at htiling
  rw [List.nil_append, ← hline] at hlast
  have hvisits : visits (new source).start (new source).pos (new source).line
      (Lexer.lexemes source.toList) = pieces ++ [last] := hpieces
  rw [hvisits] at hrun
  refine ⟨pieces, last, done, hrun, ?_, htiling, htiling.pairwise, hlast, next_over hdone⟩
  unfold scan
  rw [hrun]
  rfl

example : (new "a\u00e9 // b\n\"").run.map (fun (visits, _) => visits.map fun v => (v.start, v.stop)) =
    some [(0, 1), (1, 3), (9, 10), (9, 11)] := by
  decide +kernel

end Scanner

end ClassScript
