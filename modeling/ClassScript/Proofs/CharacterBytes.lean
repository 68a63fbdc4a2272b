import ClassScript.Token.Scanner

/-!
# Bytes of characters

An ASCII character is one byte, and no byte of any other character is one of an ASCII character
(`utf8EncodeChar_ascii`, `isAscii_of_mem`). The bytes of a character after the first one, and no first
bytes, go on with a character (`utf8EncodeChar_lead`). So what is cut out of a source along characters
is cut along their bytes (`slice?_ofList`), and a byte-wise search stops where a search along
characters does (`takeWhile_encoded`).
-/

set_option autoImplicit false

namespace ClassScript

/-- The bytes of a text. -/
def encoded (text : List Char) : List UInt8 :=
  text.flatMap String.utf8EncodeChar

@[simp] theorem encoded_nil : encoded [] = [] := rfl

@[simp] theorem encoded_cons (c : Char) (text : List Char) :
    encoded (c :: text) = String.utf8EncodeChar c ++ encoded text := rfl

@[simp] theorem encoded_append (s t : List Char) : encoded (s ++ t) = encoded s ++ encoded t :=
  List.flatMap_append

theorem toByteArray_ofList (text : List Char) :
    (String.ofList text).toByteArray = (encoded text).toByteArray := by
  rw [String.toByteArray_ofList]
  rfl

/-- A character of one byte. -/
def isAscii (c : Char) : Bool :=
  c.toNat < 0x80

/-! ## One character -/

theorem isContinuation_iff (b : UInt8) :
    Scanner.isContinuation b = true ↔ 0x80 ≤ b.toNat ∧ b.toNat < 0xC0 := by
  have hall : ∀ n < 256, Scanner.isContinuation (UInt8.ofNat n) = true ↔ 0x80 ≤ n ∧ n < 0xC0 := by
    decide +kernel
  have hb := hall b.toNat b.toNat_lt
  rwa [UInt8.ofNat_toNat] at hb

/-- A first byte goes on with no character. -/
theorem not_isContinuation {n : Nat} (h : n < 0x80 ∨ 0xC0 ≤ n ∧ n < 0x100) :
    Scanner.isContinuation (UInt8.ofNat n) = false := by
  rw [← Bool.not_eq_true, isContinuation_iff, UInt8.toNat_ofNat']
  omega

theorem isContinuation_ofNat (n : Nat) :
    Scanner.isContinuation (UInt8.ofNat (n % 0x40 + 0x80)) = true := by
  rw [isContinuation_iff, UInt8.toNat_ofNat']
  omega

/-- A character has a first byte, which goes on with none, and bytes that go on with it. It is ASCII if
its first byte is. -/
theorem utf8EncodeChar_lead (c : Char) : ∃ n rest,
    String.utf8EncodeChar c = UInt8.ofNat n :: rest ∧ Scanner.isContinuation (UInt8.ofNat n) = false ∧
      (∀ x ∈ rest, Scanner.isContinuation x = true) ∧
      (isAscii c = true ∧ n = c.toNat ∧ rest = [] ∨ isAscii c = false ∧ 0xC0 ≤ n ∧ n < 0x100) := by
  have hval : c.val.toNat = c.toNat := rfl
  unfold String.utf8EncodeChar
  dsimp only
  rw [hval]
  split
  next h =>
    refine ⟨c.toNat, [], rfl, not_isContinuation (.inl (by omega)), List.forall_mem_nil _,
      .inl ⟨?_, rfl, rfl⟩⟩
    simp only [isAscii, decide_eq_true_eq]
    omega
  next h =>
    have hascii : isAscii c = false := by
      simp only [isAscii, decide_eq_false_iff_not]
      omega
    split
    · refine ⟨_, _, rfl, not_isContinuation (.inr (by omega)), ?_, .inr ⟨hascii, by omega⟩⟩
      exact List.forall_mem_singleton.2 (isContinuation_ofNat _)
    · split
      · refine ⟨_, _, rfl, not_isContinuation (.inr (by omega)), ?_, .inr ⟨hascii, by omega⟩⟩
        exact List.forall_mem_cons.2 ⟨isContinuation_ofNat _,
          List.forall_mem_singleton.2 (isContinuation_ofNat _)⟩
      · refine ⟨_, _, rfl, not_isContinuation (.inr (by omega)), ?_, .inr ⟨hascii, by omega⟩⟩
        exact List.forall_mem_cons.2 ⟨isContinuation_ofNat _, List.forall_mem_cons.2
          ⟨isContinuation_ofNat _, List.forall_mem_singleton.2 (isContinuation_ofNat _)⟩⟩

theorem not_isDigit {c : Char} (h : isAscii c = false) : c.isDigit = false := by
  simp only [isAscii, decide_eq_false_iff_not, Char.toNat] at h
  simp only [Char.isDigit, Bool.and_eq_false_iff, decide_eq_false_iff_not, UInt32.le_iff_toNat_le,
    ge_iff_le]
  right
  show ¬ c.val.toNat ≤ 57
  omega

theorem not_isAlpha {c : Char} (h : isAscii c = false) : c.isAlpha = false := by
  simp only [isAscii, decide_eq_false_iff_not, Char.toNat] at h
  have hupper : c.isUpper = false := decide_eq_false fun h => by
    have hle : c.val.toNat ≤ 90 := h.2
    omega
  have hlower : c.isLower = false := Bool.and_eq_false_iff.2 <| .inr <| decide_eq_false fun h => by
    have hle : c.val.toNat ≤ 122 := h
    omega
  exact Bool.or_eq_false_iff.2 ⟨hupper, hlower⟩

/-- A character that is not ASCII is none of the characters that mean something. -/
theorem ne_of_isAscii {c d : Char} (h : isAscii c = false) (hd : isAscii d = true) : c ≠ d := by
  rintro rfl
  rw [h] at hd
  cases hd

theorem not_isBlank {c : Char} (h : isAscii c = false) : Lexer.isBlank c = false := by
  simp [Lexer.isBlank, ne_of_isAscii h (d := ' ') rfl, ne_of_isAscii h (d := '\t') rfl,
    ne_of_isAscii h (d := '\r') rfl, ne_of_isAscii h (d := '\n') rfl]

theorem not_isWordStart {c : Char} (h : isAscii c = false) : Lexer.isWordStart c = false := by
  have hne : c ≠ '_' := ne_of_isAscii h rfl
  simp [Lexer.isWordStart, not_isAlpha h, hne]

theorem not_isWordPart {c : Char} (h : isAscii c = false) : Lexer.isWordPart c = false := by
  have hne : c ≠ '_' := ne_of_isAscii h rfl
  simp [Lexer.isWordPart, Char.isAlphanum, not_isAlpha h, not_isDigit h, hne]

/-- A byte as a character of its own. -/
theorem toNat_ofUInt8 (b : UInt8) : (Char.ofUInt8 b).toNat = b.toNat := by
  show (UInt8.toUInt32 b).toNat = b.toNat
  exact UInt8.toNat_toUInt32 b

theorem ofUInt8_ofNat {c : Char} (h : isAscii c = true) : Char.ofUInt8 (UInt8.ofNat c.toNat) = c := by
  have hlt : c.toNat < 0x80 := by simpa [isAscii] using h
  apply Char.toNat_inj.1
  rw [toNat_ofUInt8, UInt8.toNat_ofNat']
  omega

/-- No byte of a character that is not ASCII is one of an ASCII character. -/
theorem isAscii_of_mem {c : Char} (h : isAscii c = false) {b : UInt8}
    (hb : b ∈ String.utf8EncodeChar c) : isAscii (Char.ofUInt8 b) = false := by
  obtain ⟨n, rest, he, -, hrest, hc⟩ := utf8EncodeChar_lead c
  rcases hc with ⟨hascii, -⟩ | ⟨-, hn⟩
  · rw [h] at hascii
    cases hascii
  · simp only [isAscii, decide_eq_false_iff_not, toNat_ofUInt8]
    rw [he] at hb
    rcases List.mem_cons.1 hb with rfl | hb
    · rw [UInt8.toNat_ofNat']
      omega
    · exact Nat.not_lt_of_le ((isContinuation_iff b).1 (hrest b hb)).1

theorem utf8EncodeChar_ascii {c : Char} (h : isAscii c = true) :
    ∃ b, String.utf8EncodeChar c = [b] ∧ Char.ofUInt8 b = c := by
  obtain ⟨n, rest, he, -, -, hc⟩ := utf8EncodeChar_lead c
  rcases hc with ⟨-, rfl, rfl⟩ | ⟨hascii, -⟩
  · exact ⟨_, he, ofUInt8_ofNat h⟩
  · rw [h] at hascii
    cases hascii

theorem toUInt8_ofUInt8 (b : UInt8) : (Char.ofUInt8 b).toUInt8 = b :=
  UInt8.toUInt8_toUInt32 b

/-- The byte of an ASCII character. -/
theorem utf8EncodeChar_toUInt8 {c : Char} (h : isAscii c = true) :
    String.utf8EncodeChar c = [c.toUInt8] := by
  obtain ⟨b, he, rfl⟩ := utf8EncodeChar_ascii h
  rw [he, toUInt8_ofUInt8]

/-! ## Searches -/

/-- The property says the same of all characters that are not ASCII. -/
def Plain (p : Char → Bool) : Prop :=
  ∃ k, ∀ c, isAscii c = false → p c = k

/-- Such a property holds of a character as it does of each of its bytes. -/
theorem Plain.byte {p : Char → Bool} (hp : Plain p) {c : Char} {b : UInt8}
    (hb : b ∈ String.utf8EncodeChar c) : p (Char.ofUInt8 b) = p c := by
  obtain ⟨k, hk⟩ := hp
  cases h : isAscii c with
  | true =>
    obtain ⟨b', he, hc⟩ := utf8EncodeChar_ascii h
    rw [he] at hb
    rw [List.mem_singleton.1 hb, hc]
  | false => rw [hk c h, hk _ (isAscii_of_mem h hb)]

theorem takeWhile_encoded {p : Char → Bool} (hp : Plain p) (text : List Char) :
    (encoded text).takeWhile (fun b => p (Char.ofUInt8 b)) = encoded (text.takeWhile p) := by
  induction text with
  | nil => rfl
  | cons c rest ih =>
    rw [encoded_cons, List.takeWhile_cons]
    cases h : p c with
    | true =>
      rw [List.takeWhile_append_of_pos fun b hb => (hp.byte hb).trans h, ih]
      rfl
    | false =>
      obtain ⟨n, bytes, he, -⟩ := utf8EncodeChar_lead c
      have hfirst := hp.byte (he ▸ List.mem_cons_self .. : UInt8.ofNat n ∈ String.utf8EncodeChar c)
      rw [he, List.cons_append, List.takeWhile_cons, hfirst, h]
      rfl

/-- No text starts with a byte that goes on with a character. -/
theorem takeWhile_isContinuation (text : List Char) :
    (encoded text).takeWhile Scanner.isContinuation = [] := by
  cases text with
  | nil => rfl
  | cons c rest =>
    obtain ⟨n, bytes, he, hn, -⟩ := utf8EncodeChar_lead c
    rw [encoded_cons, he, List.cons_append, List.takeWhile_cons, hn]
    rfl

theorem countP_encoded {p : Char → Bool} (hp : ∀ c, isAscii c = false → p c = false)
    (text : List Char) : (encoded text).countP (fun b => p (Char.ofUInt8 b)) = text.countP p := by
  induction text with
  | nil => rfl
  | cons c rest ih =>
    rw [encoded_cons, List.countP_append, ih, List.countP_cons, Nat.add_comm]
    congr 1
    cases h : isAscii c with
    | true =>
      obtain ⟨b, he, hb⟩ := utf8EncodeChar_ascii h
      rw [he, List.countP_singleton, hb]
    | false =>
      rw [hp c h, List.countP_eq_zero.2 fun b hb => Bool.not_eq_true _ ▸ hp _ (isAscii_of_mem h hb)]
      rfl

theorem count_encoded {c : Char} (hc : isAscii c = true) (text : List Char) :
    (encoded text).count c.toUInt8 = text.count c := by
  have hp : ∀ d, isAscii d = false → decide (d = c) = false := fun d hd =>
    decide_eq_false (ne_of_isAscii hd hc)
  have hbyte (b : UInt8) : (b == c.toUInt8) = decide (Char.ofUInt8 b = c) := by
    obtain ⟨b', -, rfl⟩ := utf8EncodeChar_ascii hc
    rw [Bool.eq_iff_iff, beq_iff_eq, decide_eq_true_iff, toUInt8_ofUInt8]
    refine ⟨congrArg Char.ofUInt8, fun h => ?_⟩
    rw [← toUInt8_ofUInt8 b, h, toUInt8_ofUInt8]
  rw [List.count, List.countP_congr fun b _ => by rw [hbyte b]]
  exact countP_encoded hp text

/-- The byte of an ASCII character is found where the character is. -/
theorem toUInt8_mem_encoded {c : Char} (hc : isAscii c = true) {text : List Char} :
    c.toUInt8 ∈ encoded text ↔ c ∈ text := by
  rw [← List.count_pos_iff, ← List.count_pos_iff, count_encoded hc]

/-- The first character that is read byte by byte: the first one of the text if it is ASCII, and
otherwise none that is ASCII. -/
theorem head?_encoded (text : List Char) : (encoded text).head?.map Char.ofUInt8 = text.head? ∨
    ∃ d c, (encoded text).head?.map Char.ofUInt8 = some d ∧ text.head? = some c ∧
      isAscii d = false ∧ isAscii c = false := by
  cases text with
  | nil => exact .inl rfl
  | cons c rest =>
    rw [encoded_cons]
    cases h : isAscii c with
    | true =>
      obtain ⟨b, he, hb⟩ := utf8EncodeChar_ascii h
      rw [he]
      exact .inl (congrArg some hb)
    | false =>
      obtain ⟨n, bytes, he, -⟩ := utf8EncodeChar_lead c
      have hfirst := isAscii_of_mem h
        (he ▸ List.mem_cons_self .. : UInt8.ofNat n ∈ String.utf8EncodeChar c)
      rw [he]
      exact .inr ⟨_, c, rfl, rfl, hfirst, h⟩

/-! ## Slices -/

theorem length_encoded (text : List Char) :
    (encoded text).length = (String.ofList text).toByteArray.size := by
  rw [toByteArray_ofList, List.size_toByteArray]

/-- The end of a part of a source is a boundary between characters. -/
theorem isValid_ofList (before after : List Char) :
    String.Pos.Raw.IsValid (String.ofList (before ++ after)) ⟨(encoded before).length⟩ := by
  rw [length_encoded, String.ofList_append]
  exact String.Pos.Raw.isValid_rawEndPos.append_right (String.ofList after)

theorem extract_toByteArray (before bytes after : List UInt8) :
    (before ++ bytes ++ after).toByteArray.extract before.length (before.length + bytes.length) =
      bytes.toByteArray := by
  ext1
  simp

theorem slice?_ofList (before text after : List Char) :
    slice? (String.ofList (before ++ text ++ after)) (encoded before).length
      (encoded (before ++ text)).length = some (String.ofList text) := by
  have hstart := List.append_assoc before text after ▸ isValid_ofList before (text ++ after)
  have hle : (encoded before).length ≤ (encoded (before ++ text)).length := by
    rw [encoded_append, List.length_append]
    exact Nat.le_add_right _ _
  unfold slice?
  rw [dif_pos ⟨hstart, isValid_ofList (before ++ text) after, hle⟩]
  refine congrArg some (String.toByteArray_inj.1 ?_)
  rw [String.toByteArray_extract, String.offset_pos, String.offset_pos, toByteArray_ofList,
    toByteArray_ofList, encoded_append, encoded_append, List.length_append]
  exact extract_toByteArray _ _ _

end ClassScript
