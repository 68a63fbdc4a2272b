import ClassScript.Text.Quoted

/-!
# Quoted texts can be read back

The escapes of characters form a prefix code, and none of them starts with a quote. So a quoted text shows
where it ends, whatever stands behind it, and tells what was quoted (`quoted_append_inj`).
-/

set_option autoImplicit false

namespace ClassScript.Text

variable {c d : Char} {a b u v : List Char}

/-! ## Fronts -/

/-- Characters with a property in front of a text that does not start with such a character are the
longest such front. -/
theorem front_inj {p : Char → Bool} (ha : ∀ c ∈ a, p c = true) (hb : ∀ c ∈ b, p c = true)
    (hu : ∀ c ∈ u.head?, p c = false) (hv : ∀ c ∈ v.head?, p c = false) (h : a ++ u = b ++ v) :
    a = b ∧ u = v := by
  induction a generalizing b with
  | nil =>
    cases b with
    | nil => exact ⟨rfl, h⟩
    | cons d b =>
      have hd := hb d (List.mem_cons_self ..)
      rw [hu d (by rw [← List.nil_append u, h]; rfl)] at hd
      cases hd
  | cons c a ih =>
    cases b with
    | nil =>
      have hc := ha c (List.mem_cons_self ..)
      rw [hv c (by rw [← List.nil_append v, ← h]; rfl)] at hc
      cases hc
    | cons d b =>
      obtain ⟨rfl, htail⟩ := List.cons.inj h
      obtain ⟨rfl, hrest⟩ := ih (fun c hc => ha c (List.mem_cons_of_mem _ hc))
        (fun c hc => hb c (List.mem_cons_of_mem _ hc)) htail
      exact ⟨rfl, hrest⟩

/-! ## Hexadecimal digits -/

theorem digitChar_inj_sixteen :
    ∀ m < 16, ∀ n < 16, Nat.digitChar m = Nat.digitChar n → m = n := by
  decide

theorem toDigits_inj_sixteen {m n : Nat} (h : Nat.toDigits 16 m = Nat.toDigits 16 n) : m = n := by
  induction m using Nat.strongRecOn generalizing n with
  | ind m ih =>
    have hpos (k : Nat) : 0 < (Nat.toDigits 16 k).length := Nat.length_toDigits_pos
    have hm := hpos (m / 16)
    have hn := hpos (n / 16)
    have hlength := congrArg List.length h
    rw [@Nat.toDigits_eq_if 16 m (by decide), @Nat.toDigits_eq_if 16 n (by decide)] at h hlength
    split at h <;> split at h
    next hm hn => exact digitChar_inj_sixteen m hm n hn (List.singleton_inj.1 h)
    next hm hn =>
      rw [if_pos hm, if_neg hn, List.length_singleton, List.length_append] at hlength
      simp only [List.length_singleton] at hlength
      omega
    next hm hn =>
      rw [if_neg hm, if_pos hn, List.length_singleton, List.length_append] at hlength
      simp only [List.length_singleton] at hlength
      omega
    next hm hn =>
      obtain ⟨hfront, hlast⟩ := List.append_inj' h rfl
      have hdiv := ih (m / 16) (by omega) hfront
      have hmod := digitChar_inj_sixteen (m % 16) (by omega) (n % 16) (by omega)
        (List.singleton_inj.1 hlast)
      omega

theorem brace_notMem_toDigits (n : Nat) : '\x7d' ∉ Nat.toDigits 16 n := by
  induction n using Nat.strongRecOn with
  | ind n ih =>
    rw [@Nat.toDigits_eq_if 16 n (by decide)]
    have hne (k : Nat) : '\x7d' ≠ Nat.digitChar k := (Nat.digitChar_ne '\x7d' rfl).symm
    split
    · exact fun h => hne n (List.mem_singleton.1 h)
    next h =>
      intro hmem
      obtain hfront | hlast := List.mem_append.1 hmem
      · exact ih (n / 16) (by omega) hfront
      · exact hne (n % 16) (List.mem_singleton.1 hlast)

/-! ## Escapes -/

/-- The characters with an escape of two characters, and the second one of it. -/
def shortEscapes : List (Char × Char) :=
  [('\x00', '0'), ('\t', 't'), ('\r', 'r'), ('\n', 'n'), ('\\', '\\'), ('"', '"')]

/-- How a character may stand between quotes. -/
inductive Escaped : Char → List Char → Prop
  | short {c x : Char} : (c, x) ∈ shortEscapes → Escaped c ['\\', x]
  | codePoint {c : Char} :
    Escaped c ('\\' :: 'u' :: '\x7b' :: (Nat.toDigits 16 c.toNat ++ ['\x7d']))
  | plain {c : Char} : c ≠ '\\' → c ≠ '"' → Escaped c [c]

theorem escape_escaped (c : Char) : Escaped c (escape c).toList := by
  have hplain (hslash : c ≠ '\\') (hquote : c ≠ '"') : Escaped c c.toString.toList := by
    rw [Char.toString, String.toList_singleton]
    exact .plain hslash hquote
  unfold escape
  split
  · exact .short (by decide)
  · exact .short (by decide)
  · exact .short (by decide)
  · exact .short (by decide)
  · exact .short (by decide)
  · exact .short (by decide)
  next hslash hquote =>
    split
    · exact hplain hslash hquote
    split
    · unfold codePointEscape
      simp only [String.toList_append, String.toList_ofList, List.append_assoc]
      exact .codePoint
    · exact hplain hslash hquote

/-- No escape starts like another one. -/
theorem Escaped.append_inj (hc : Escaped c a) (hd : Escaped d b) (h : a ++ u = b ++ v) :
    c = d ∧ u = v := by
  have hu : ∀ p ∈ shortEscapes, p.2 ≠ 'u' := by decide
  have hshort : ∀ p ∈ shortEscapes, ∀ q ∈ shortEscapes, p.2 = q.2 → p.1 = q.1 := by decide
  cases hc with
  | @short x hx =>
    cases hd with
    | @short y hy =>
      simp only [List.cons_append, List.nil_append, List.cons.injEq, true_and] at h
      exact ⟨hshort _ hx _ hy h.1, h.2⟩
    | codePoint =>
      simp only [List.cons_append, List.nil_append, List.cons.injEq, true_and] at h
      exact absurd h.1 (hu _ hx)
    | plain hslash _ => exact absurd (List.cons.inj h).1.symm hslash
  | codePoint =>
    cases hd with
    | @short y hy =>
      simp only [List.cons_append, List.nil_append, List.cons.injEq, true_and] at h
      exact absurd h.1.symm (hu _ hy)
    | codePoint =>
      simp only [List.cons_append, List.append_assoc, List.nil_append, List.cons.injEq, true_and] at h
      have hdigits (n : Nat) : ∀ x ∈ Nat.toDigits 16 n, decide (x ≠ '\x7d') = true :=
        fun x hx => decide_eq_true fun he => brace_notMem_toDigits n (he ▸ hx)
      obtain ⟨heq, hrest⟩ := front_inj (hdigits _) (hdigits _) (by rintro _ ⟨⟩; rfl)
        (by rintro _ ⟨⟩; rfl) h
      exact ⟨Char.ext (UInt32.toNat_inj.1 (toDigits_inj_sixteen heq)), (List.cons.inj hrest).2⟩
    | plain hslash _ => exact absurd (List.cons.inj h).1.symm hslash
  | plain hslash hquote =>
    cases hd with
    | short => exact absurd (List.cons.inj h).1 hslash
    | codePoint => exact absurd (List.cons.inj h).1 hslash
    | plain => exact List.cons.inj h

theorem Escaped.head (hc : Escaped c a) : ∃ x rest, a = x :: rest ∧ x ≠ '"' := by
  cases hc with
  | short => exact ⟨_, _, rfl, by decide⟩
  | codePoint => exact ⟨_, _, rfl, by decide⟩
  | plain _ hquote => exact ⟨_, _, rfl, hquote⟩

/-! ## Quoted texts -/

/-- The escapes of characters. -/
def escapes (s : List Char) : List Char :=
  s.flatMap fun c => (escape c).toList

theorem escapes_append_inj {s t : List Char} (h : escapes s ++ '"' :: u = escapes t ++ '"' :: v) :
    s = t ∧ u = v := by
  have hquote (d : Char) (s : List Char) (w x : List Char) :
      '"' :: w ≠ (escape d).toList ++ escapes s ++ x := fun h => by
    obtain ⟨y, rest, hy, hne⟩ := (escape_escaped d).head
    rw [hy] at h
    exact hne (List.cons.inj h).1.symm
  induction s generalizing t with
  | nil =>
    cases t with
    | nil => exact ⟨rfl, (List.cons.inj h).2⟩
    | cons d t => exact absurd h (hquote d t _ _)
  | cons c s ih =>
    cases t with
    | nil => exact absurd h.symm (hquote c s _ _)
    | cons d t =>
      rw [escapes, escapes, List.flatMap_cons, List.flatMap_cons, List.append_assoc,
        List.append_assoc] at h
      obtain ⟨rfl, htail⟩ := (escape_escaped c).append_inj (escape_escaped d) h
      obtain ⟨rfl, hrest⟩ := ih htail
      exact ⟨rfl, hrest⟩

theorem quoted_toList (s : String) : (quoted s).toList = '"' :: (escapes s.toList ++ ['"']) := by
  simp only [quoted, String.toList_append, String.toList_join, List.flatMap_map]
  rfl

/-- Quoted texts are equal if they stand in front of the same text, and then the rest is the same. -/
theorem quoted_append_inj {s t : String} (h : (quoted s).toList ++ u = (quoted t).toList ++ v) :
    s = t ∧ u = v := by
  simp only [quoted_toList, List.cons_append, List.append_assoc, List.nil_append, List.cons.injEq,
    true_and] at h
  obtain ⟨hs, hrest⟩ := escapes_append_inj h
  exact ⟨String.toList_inj.1 hs, hrest⟩

end ClassScript.Text
