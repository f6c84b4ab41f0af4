import AttrChain.Descriptor.Reader

/-!
What the characters of names are not: no blanks, no quotes, no brackets, and none of the signs that
separate the parts of a descriptor.
-/

namespace AttrChain

open AttrChain.Text

theorem mem_of_inRanges {ranges : List (Nat × Nat)} {n : Nat} (h : inRanges ranges n = true) :
    n ∈ ranges.flatMap fun r => List.range' r.1 (r.2 + 1 - r.1) := by
  induction ranges with
  | nil => cases h
  | cons r rest ih =>
    obtain ⟨lo, hi⟩ := r
    rw [List.flatMap_cons, List.mem_append]
    rw [inRanges] at h
    split at h
    · cases h
    · next hlo =>
      rcases Bool.or_eq_true_iff.mp h with hhi | h
      · left
        have hle : n ≤ hi := of_decide_eq_true hhi
        rw [List.mem_range'_1]
        omega
      · exact .inr (ih h)

/-- The characters that separate or enclose something. -/
def signs : List Char :=
  ['\x22', '\x27', '\x60', '(', ')', '[', ']', '\x7b', '\x7d', ';', '|', ' ', ',']

def blankCodes : List Nat := blankRanges.flatMap fun r => List.range' r.1 (r.2 + 1 - r.1)

theorem not_of_isBlank {p : Char → Bool} (hall : ∀ n ∈ blankCodes, p (Char.ofNat n) = false)
    {c : Char} (h : isBlank c = true) : p c = false := by
  have hnot : p (Char.ofNat c.toNat) = false := hall c.toNat (mem_of_inRanges h)
  rwa [Char.ofNat_toNat] at hnot

/-- A class of characters that no blank code point is in has no blanks. -/
theorem not_isBlank_of {p : Char → Bool} (hall : ∀ n ∈ blankCodes, p (Char.ofNat n) = false)
    {c : Char} (h : p c = true) : isBlank c = false := by
  cases hblank : isBlank c with
  | false => rfl
  | true => exact absurd h (ne_true_of_eq_false (not_of_isBlank hall hblank))

theorem of_isDigit {p : Char → Bool} (hall : ∀ n ∈ List.range' 48 10, p (Char.ofNat n) = true)
    {c : Char} (h : c.isDigit = true) : p c = true := by
  obtain ⟨hle, hge⟩ := Char.isDigit_iff_toNat.mp h
  have hc : p (Char.ofNat c.toNat) = true :=
    hall c.toNat (List.mem_range'_1.mpr ⟨hle, Nat.lt_succ_of_le hge⟩)
  rwa [Char.ofNat_toNat] at hc

theorem ne_of_class {p : Char → Bool} {c d : Char} (hc : p c = true) (hd : p d = false) : c ≠ d := by
  rintro rfl
  exact absurd hc (ne_true_of_eq_false hd)

theorem not_isBlank_of_isDigit {c : Char} (h : c.isDigit = true) : isBlank c = false :=
  not_isBlank_of (by decide) h

theorem not_isBlank_of_isWordChar {c : Char} (h : isWordChar c = true) : isBlank c = false :=
  not_isBlank_of (by decide +kernel) h

theorem not_isWordChar_of_mem_signs {c : Char} (h : c ∈ signs) : isWordChar c = false := by
  have hall : signs.all (fun d => !isWordChar d) = true := by decide
  simpa using List.all_eq_true.mp hall c h

/-- What a character of names is not: a blank, or one of the signs. -/
structure Plain (c : Char) : Prop where
  blank : isBlank c = false
  sign : c ∉ signs

namespace Plain

variable {c : Char}

theorem of_isWordChar (h : isWordChar c = true) : Plain c := by
  refine ⟨not_isBlank_of_isWordChar h, ?_⟩
  intro hsign
  exact absurd h (ne_true_of_eq_false (not_isWordChar_of_mem_signs hsign))

theorem of_isDigit (h : c.isDigit = true) : Plain c :=
  of_isWordChar (AttrChain.of_isDigit (by decide) h)

theorem of_isEventChar (h : isEventChar c = true) : Plain c := by
  simp only [isEventChar, Bool.or_eq_true, beq_iff_eq] at h
  rcases h with ((h | rfl) | rfl) | rfl
  · exact of_isWordChar h
  all_goals exact ⟨by decide, by decide⟩

theorem of_isCallStart (h : isCallStart c = true) : Plain c := by
  simp only [isCallStart, Bool.or_eq_true, beq_iff_eq] at h
  rcases h with h | rfl
  · exact of_isWordChar h
  · exact ⟨by decide, by decide⟩

theorem of_isCallChar (h : isCallChar c = true) : Plain c := by
  simp only [isCallChar, Bool.or_eq_true, beq_iff_eq] at h
  rcases h with (h | rfl) | rfl
  · exact of_isCallStart h
  all_goals exact ⟨by decide, by decide⟩

theorem ne (h : Plain c) {d : Char} (hd : d ∈ signs) : c ≠ d := by
  rintro rfl
  exact h.sign hd

theorem isQuote (h : Plain c) : isQuote c = false := by
  simp only [AttrChain.isQuote, Bool.or_eq_false_iff, beq_eq_false_iff_ne]
  exact ⟨⟨h.ne (by decide), h.ne (by decide)⟩, h.ne (by decide)⟩

theorem isOpening (h : Plain c) : isOpening c = false := by
  simp only [AttrChain.isOpening, Bool.or_eq_false_iff, beq_eq_false_iff_ne]
  exact ⟨⟨h.ne (by decide), h.ne (by decide)⟩, h.ne (by decide)⟩

theorem isClosing (h : Plain c) : isClosing c = false := by
  simp only [AttrChain.isClosing, Bool.or_eq_false_iff, beq_eq_false_iff_ne]
  exact ⟨⟨h.ne (by decide), h.ne (by decide)⟩, h.ne (by decide)⟩

end Plain

theorem takeWhile_dropWhile_append {p : Char → Bool} {cs rest : List Char}
    (hcs : ∀ c ∈ cs, p c = true) (hrest : ∀ c ∈ rest.head?, p c = false) :
    (cs ++ rest).takeWhile p = cs ∧ (cs ++ rest).dropWhile p = rest := by
  have hstop : rest.takeWhile p = [] ∧ rest.dropWhile p = rest := by
    cases rest with
    | nil => exact ⟨rfl, rfl⟩
    | cons c rest =>
      have hc : p c = false := hrest c rfl
      simp [hc]
  rw [List.takeWhile_append_of_pos hcs, List.dropWhile_append_of_pos hcs, hstop.1, hstop.2]
  exact ⟨List.append_nil cs, rfl⟩

theorem forall_mem_intercalate {P : Char → Prop} {sep : List Char} {texts : List (List Char)}
    (hsep : ∀ c ∈ sep, P c) (h : ∀ t ∈ texts, ∀ c ∈ t, P c) :
    ∀ c ∈ sep.intercalate texts, P c := by
  induction texts with
  | nil => exact fun _ hc => nomatch hc
  | cons t texts ih =>
    obtain ⟨ht, htexts⟩ := List.forall_mem_cons.mp h
    cases texts with
    | nil =>
      rw [List.intercalate_singleton]
      exact ht
    | cons u texts =>
      rw [List.intercalate_cons_cons, List.append_assoc]
      exact List.forall_mem_append.mpr ⟨ht, List.forall_mem_append.mpr ⟨hsep, ih htexts⟩⟩

theorem length_le_intercalate (sep : List Char) {texts : List (List Char)}
    (h : ∀ t ∈ texts, t ≠ []) : texts.length ≤ (sep.intercalate texts).length := by
  induction texts with
  | nil => exact Nat.zero_le _
  | cons t texts ih =>
    obtain ⟨ht, htexts⟩ := List.forall_mem_cons.mp h
    have hpos : 0 < t.length := List.length_pos_iff.mpr ht
    have hlen := ih htexts
    cases texts with
    | nil =>
      rw [List.intercalate_singleton]
      exact hpos
    | cons u texts =>
      rw [List.intercalate_cons_cons]
      simp only [List.length_append, List.length_cons] at hlen ⊢
      omega

theorem intercalate_ne_nil (sep : List Char) {texts : List (List Char)} (h : ∀ t ∈ texts, t ≠ [])
    (hne : texts ≠ []) : sep.intercalate texts ≠ [] := by
  have hlength := length_le_intercalate sep h
  have hpos := List.length_pos_iff.mpr hne
  exact List.length_pos_iff.mp (Nat.lt_of_lt_of_le hpos hlength)

theorem intercalate_cons_cons_append (sep t u : List Char) (texts : List (List Char))
    (cs : List Char) :
    sep.intercalate (t :: u :: texts) ++ cs =
      t ++ (sep ++ (sep.intercalate (u :: texts) ++ cs)) := by
  rw [List.intercalate_cons_cons, List.append_assoc, List.append_assoc]

theorem length_intercalate_cons_cons (sep t u : List Char) (texts : List (List Char)) :
    (sep.intercalate (t :: u :: texts)).length =
      t.length + sep.length + (sep.intercalate (u :: texts)).length := by
  rw [List.intercalate_cons_cons, List.length_append, List.length_append]

theorem length_le_intercalate_succ (c : Char) (texts : List (List Char)) :
    texts.length ≤ ([c].intercalate texts).length + 1 := by
  induction texts with
  | nil => exact Nat.zero_le _
  | cons t texts ih =>
    cases texts with
    | nil => exact Nat.le_add_left 1 _
    | cons u texts =>
      rw [List.intercalate_cons_cons]
      simp only [List.length_append, List.length_cons, List.length_nil] at ih ⊢
      omega

end AttrChain
