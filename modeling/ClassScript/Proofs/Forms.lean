import ClassScript.Proofs.QuotedTexts

/-!
# Forms

A printed program is made of forms: words, quoted texts, and forms between parentheses, with a word glued to
either side where a function is declared. The text of a form shows where it ends, whatever stands behind it
(`chars_append_inj`): so the lines of a program tell its forms (`lines_inj`).
-/

set_option autoImplicit false

namespace ClassScript

/-- A part of a printed program. -/
inductive Form where
  | word (text : String)
  | quoted (value : String)
  | group (front : String) (items : List Form) (back : String)

namespace Form

/-- The characters that words are made of. -/
def isWordChar (c : Char) : Bool :=
  c ≠ ' ' ∧ c ≠ '(' ∧ c ≠ ')' ∧ c ≠ '"' ∧ c ≠ '\n'

/-- The text is made of the characters of words. -/
def Wordly (text : String) : Prop :=
  ∀ c ∈ text.toList, isWordChar c = true

instance (text : String) : Decidable (Wordly text) :=
  decidable_of_iff (text.toList.all isWordChar = true) List.all_eq_true

mutual

/-- The text of a form. -/
def chars : Form → List Char
  | .word text => text.toList
  | .quoted value => (Text.quoted value).toList
  | .group front items back => front.toList ++ '(' :: (itemChars items ++ ')' :: back.toList)
termination_by structural f => f

/-- The text of forms with spaces between them. -/
def itemChars : List Form → List Char
  | [] => []
  | f :: rest => f.chars ++ moreChars rest
termination_by structural fs => fs

/-- The text of forms with a space in front of each. -/
def moreChars : List Form → List Char
  | [] => []
  | f :: rest => ' ' :: (f.chars ++ moreChars rest)
termination_by structural fs => fs

end

mutual

/-- Words are words. -/
def Proper : Form → Prop
  | .word text => text ≠ "" ∧ Wordly text
  | .quoted _ => True
  | .group front items back => Wordly front ∧ ProperAll items ∧ Wordly back
termination_by structural f => f

/-- Words in the forms are words. -/
def ProperAll : List Form → Prop
  | [] => True
  | f :: rest => f.Proper ∧ ProperAll rest
termination_by structural fs => fs

end

variable {f g : Form} {fs gs : List Form} {s t : String} {u v : List Char}

/-! ## Where forms end -/

/-- What may stand behind a form. -/
def Stop (u : List Char) : Prop :=
  ∀ c ∈ u.head?, c = ' ' ∨ c = ')' ∨ c = '\n'

theorem Stop.nil : Stop [] :=
  fun _ h => nomatch h

theorem Stop.more (fs : List Form) (u : List Char) : Stop (moreChars fs ++ ')' :: u) := by
  cases fs with
  | nil =>
    rintro _ ⟨⟩
    exact .inr (.inl rfl)
  | cons f rest =>
    rintro _ ⟨⟩
    exact .inl rfl

theorem Stop.not_wordChar (h : Stop u) : ∀ c ∈ u.head?, isWordChar c = false := by
  intro c hc
  obtain rfl | rfl | rfl := h c hc <;> rfl

theorem Stop.not_open (h : Stop u) : u ≠ '(' :: v := by
  rintro rfl
  obtain h | h | h := h '(' rfl <;> cases h

/-- The word with which a form starts, and what stands behind it. -/
def start : Form → List Char → List Char × List Char
  | .word text, u => (text.toList, u)
  | .quoted value, u => ([], (Text.quoted value).toList ++ u)
  | .group front items back, u =>
    (front.toList, '(' :: (itemChars items ++ ')' :: (back.toList ++ u)))

theorem chars_start (f : Form) (u : List Char) : f.chars ++ u = (f.start u).1 ++ (f.start u).2 := by
  cases f <;> simp [chars, start]

theorem start_wordly (hf : f.Proper) : ∀ c ∈ (f.start u).1, isWordChar c = true := by
  cases f with
  | word text => exact hf.2
  | quoted value => exact fun _ h => (List.not_mem_nil h).elim
  | group front items back => exact hf.1

theorem start_stops (f : Form) (hu : Stop u) : ∀ c ∈ ((f.start u).2).head?, isWordChar c = false := by
  cases f with
  | word text => exact hu.not_wordChar
  | quoted value =>
    rw [start, Text.quoted_toList]
    rintro _ ⟨⟩
    rfl
  | group front items back =>
    rintro _ ⟨⟩
    rfl

theorem start_inj (hf : f.Proper) (hg : g.Proper) (hu : Stop u) (hv : Stop v)
    (h : f.chars ++ u = g.chars ++ v) : f.start u = g.start v := by
  rw [chars_start, chars_start] at h
  obtain ⟨hfront, hrest⟩ := Text.front_inj (start_wordly hf) (start_wordly hg) (start_stops f hu)
    (start_stops g hv) h
  exact Prod.ext hfront hrest

/-- No form starts with a closing parenthesis. -/
theorem chars_ne_close (hf : f.Proper) (u v : List Char) : f.chars ++ u ≠ ')' :: v := by
  intro h
  cases f with
  | word text =>
    cases hs : text.toList with
    | nil => exact hf.1 (String.toList_eq_nil_iff.1 hs)
    | cons c rest =>
      rw [chars, hs] at h
      obtain ⟨rfl, -⟩ := List.cons.inj h
      cases hf.2 ')' (hs ▸ List.mem_cons_self ..)
  | quoted value =>
    rw [chars, Text.quoted_toList] at h
    cases (List.cons.inj h).1
  | group front items back =>
    rw [chars, List.append_assoc] at h
    cases hs : front.toList with
    | nil =>
      rw [hs] at h
      cases (List.cons.inj h).1
    | cons c rest =>
      rw [hs] at h
      obtain ⟨rfl, -⟩ := List.cons.inj h
      cases hf.1 ')' (hs ▸ List.mem_cons_self ..)

theorem chars_ne_nil (hf : f.Proper) : f.chars ≠ [] := by
  cases f with
  | word text => exact fun h => hf.1 (String.toList_eq_nil_iff.1 h)
  | quoted value =>
    rw [chars, Text.quoted_toList]
    exact nofun
  | group front items back =>
    rw [chars]
    simp

/-! ## Unique readability -/

mutual

theorem chars_append_inj {f g : Form} {u v : List Char} (hf : f.Proper) (hg : g.Proper) (hu : Stop u)
    (hv : Stop v) (h : f.chars ++ u = g.chars ++ v) : f = g ∧ u = v := by
  -- What a form starts with tells which kind of form it is: a word has something in front of what stops it, a
  -- quoted text goes on with a quote and a group with a parenthesis.
  have hstart := start_inj hf hg hu hv h
  match f, g with
  | .word text, .word text' =>
    cases String.toList_inj.1 (congrArg Prod.fst hstart)
    exact ⟨rfl, congrArg Prod.snd hstart⟩
  | .quoted value, .quoted value' =>
    obtain ⟨rfl, hrest⟩ := Text.quoted_append_inj (congrArg Prod.snd hstart)
    exact ⟨rfl, hrest⟩
  | .group front items back, .group front' items' back' =>
    cases String.toList_inj.1 (congrArg Prod.fst hstart)
    obtain ⟨rfl, hrest⟩ := itemChars_append_inj hf.2.1 hg.2.1 (List.cons.inj (congrArg Prod.snd hstart)).2
    obtain ⟨hback, hbehind⟩ := Text.front_inj hf.2.2 hg.2.2 hu.not_wordChar hv.not_wordChar hrest
    cases String.toList_inj.1 hback
    exact ⟨rfl, hbehind⟩
  | .word text, .quoted value =>
    exact absurd (String.toList_eq_nil_iff.1 (congrArg Prod.fst hstart)) hf.1
  | .quoted value, .word text =>
    exact absurd (String.toList_eq_nil_iff.1 (congrArg Prod.fst hstart).symm) hg.1
  | .word text, .group front items back => exact (hu.not_open (congrArg Prod.snd hstart)).elim
  | .group front items back, .word text => exact (hv.not_open (congrArg Prod.snd hstart).symm).elim
  | .quoted value, .group front items back =>
    have hquote := congrArg Prod.snd hstart
    rw [start, Text.quoted_toList] at hquote
    cases (List.cons.inj hquote).1
  | .group front items back, .quoted value =>
    have hquote := congrArg Prod.snd hstart
    rw [start, start, Text.quoted_toList] at hquote
    cases (List.cons.inj hquote).1

theorem itemChars_append_inj {fs gs : List Form} {u v : List Char} (hf : ProperAll fs)
    (hg : ProperAll gs) (h : itemChars fs ++ ')' :: u = itemChars gs ++ ')' :: v) :
    fs = gs ∧ u = v := by
  match fs, gs with
  | [], [] => exact ⟨rfl, (List.cons.inj h).2⟩
  | [], g :: gs =>
    rw [itemChars, itemChars, List.append_assoc] at h
    exact absurd h.symm (chars_ne_close hg.1 _ _)
  | f :: fs, [] =>
    rw [itemChars, itemChars, List.append_assoc] at h
    exact absurd h (chars_ne_close hf.1 _ _)
  | f :: fs, g :: gs =>
    rw [itemChars, itemChars, List.append_assoc, List.append_assoc] at h
    obtain ⟨rfl, hmore⟩ := chars_append_inj hf.1 hg.1 (.more fs u) (.more gs v) h
    obtain ⟨rfl, hrest⟩ := moreChars_append_inj hf.2 hg.2 hmore
    exact ⟨rfl, hrest⟩

theorem moreChars_append_inj {fs gs : List Form} {u v : List Char} (hf : ProperAll fs)
    (hg : ProperAll gs) (h : moreChars fs ++ ')' :: u = moreChars gs ++ ')' :: v) :
    fs = gs ∧ u = v := by
  match fs, gs with
  | [], [] => exact ⟨rfl, (List.cons.inj h).2⟩
  | [], g :: gs => cases (List.cons.inj h).1
  | f :: fs, [] => cases (List.cons.inj h).1
  | f :: fs, g :: gs =>
    rw [moreChars, moreChars, List.cons_append, List.cons_append, List.append_assoc,
      List.append_assoc] at h
    obtain ⟨rfl, hmore⟩ := chars_append_inj hf.1 hg.1 (.more fs u) (.more gs v) (List.cons.inj h).2
    obtain ⟨rfl, hrest⟩ := moreChars_append_inj hf.2 hg.2 hmore
    exact ⟨rfl, hrest⟩

end

/-! ## Lines -/

/-- The text of forms with a newline in front of each. -/
def moreLines (fs : List Form) : List Char :=
  fs.flatMap fun f => '\n' :: f.chars

/-- The text of forms with newlines between them. -/
def lines : List Form → List Char
  | [] => []
  | f :: rest => f.chars ++ moreLines rest

theorem Stop.moreLines (fs : List Form) : Stop (moreLines fs) := by
  cases fs with
  | nil => exact .nil
  | cons f rest =>
    rintro _ ⟨⟩
    exact .inr (.inr rfl)

theorem moreLines_inj (hf : ProperAll fs) (hg : ProperAll gs) (h : moreLines fs = moreLines gs) :
    fs = gs := by
  induction fs generalizing gs with
  | nil =>
    cases gs with
    | nil => rfl
    | cons g gs => cases h
  | cons f fs ih =>
    cases gs with
    | nil => cases h
    | cons g gs =>
      obtain ⟨rfl, hmore⟩ := chars_append_inj hf.1 hg.1 (.moreLines fs) (.moreLines gs)
        (List.cons.inj h).2
      rw [ih hf.2 hg.2 hmore]

theorem lines_inj (hf : ProperAll fs) (hg : ProperAll gs) (h : lines fs = lines gs) : fs = gs := by
  cases fs with
  | nil =>
    cases gs with
    | nil => rfl
    | cons g gs => exact absurd (List.append_eq_nil_iff.1 h.symm).1 (chars_ne_nil hg.1)
  | cons f fs =>
    cases gs with
    | nil => exact absurd (List.append_eq_nil_iff.1 h).1 (chars_ne_nil hf.1)
    | cons g gs =>
      obtain ⟨rfl, hmore⟩ := chars_append_inj hf.1 hg.1 (.moreLines fs) (.moreLines gs) h
      rw [moreLines_inj hf.2 hg.2 hmore]

end Form

end ClassScript
