import AttrChain.Text.Blank

/-!
Cutting texts: trimming blanks, splitting at a character, and the words between blanks.
-/

namespace AttrChain.Text

def trim (cs : List Char) : List Char :=
  ((cs.dropWhile isBlank).reverse.dropWhile isBlank).reverse

/-- The pieces between the characters that satisfy `p`; there is always at least one. -/
def splitBy (p : Char → Bool) : List Char → List (List Char)
  | [] => [[]]
  | c :: rest =>
    if p c then [] :: splitBy p rest
    else match splitBy p rest with
      | [] => [[c]]
      | piece :: more => (c :: piece) :: more

def splitOn (sep : Char) (cs : List Char) : List (List Char) := splitBy (· == sep) cs

def words (cs : List Char) : List (List Char) := (splitBy isBlank cs).filter (!·.isEmpty)

def afterStart : List Char → List Char → Option (List Char)
  | [], cs => some cs
  | _ :: _, [] => none
  | s :: start, c :: cs => if s = c then afterStart start cs else none

def strip (p : Char → Bool) (cs : List Char) : List Char :=
  ((cs.dropWhile p).reverse.dropWhile p).reverse

def trimmed (s : String) : String := String.ofList (trim s.toList)

def wordsOf (s : String) : List String := (words s.toList).map String.ofList

def joinWith (sep : String) : List String → String
  | [] => ""
  | [s] => s
  | s :: rest => s ++ sep ++ joinWith sep rest

theorem splitBy_ne_nil (p : Char → Bool) (cs : List Char) : splitBy p cs ≠ [] := by
  cases cs with
  | nil => simp [splitBy]
  | cons c rest =>
    rw [splitBy]
    split
    · simp
    · split <;> simp

section Pieces

variable {p : Char → Bool} {sep c : Char} {cs piece : List Char} {pieces : List (List Char)}

theorem splitBy_of_forall (h : ∀ c ∈ cs, p c = false) : splitBy p cs = [cs] := by
  induction cs with
  | nil => rfl
  | cons c cs ih =>
    obtain ⟨hc, hcs⟩ := List.forall_mem_cons.mp h
    rw [splitBy, if_neg (ne_true_of_eq_false hc), ih hcs]

theorem splitBy_append (hsep : p sep = true) (h : ∀ c ∈ cs, p c = false) (ds : List Char) :
    splitBy p (cs ++ sep :: ds) = cs :: splitBy p ds := by
  induction cs with
  | nil => rw [List.nil_append, splitBy, if_pos hsep]
  | cons c cs ih =>
    obtain ⟨hc, hcs⟩ := List.forall_mem_cons.mp h
    rw [List.cons_append, splitBy, if_neg (ne_true_of_eq_false hc), ih hcs]

theorem splitBy_intercalate (hsep : p sep = true) (hne : pieces ≠ [])
    (h : ∀ piece ∈ pieces, ∀ c ∈ piece, p c = false) :
    splitBy p ([sep].intercalate pieces) = pieces := by
  induction pieces with
  | nil => exact absurd rfl hne
  | cons piece pieces ih =>
    obtain ⟨hpiece, hpieces⟩ := List.forall_mem_cons.mp h
    cases pieces with
    | nil => rw [List.intercalate_singleton, splitBy_of_forall hpiece]
    | cons next pieces =>
      rw [List.intercalate_cons_cons, List.append_assoc, List.singleton_append,
        splitBy_append hsep hpiece, ih (List.cons_ne_nil _ _) hpieces]

theorem mem_of_mem_splitBy (h : piece ∈ splitBy p cs) (hc : c ∈ piece) : p c = false ∧ c ∈ cs := by
  induction cs generalizing piece with
  | nil =>
    rw [List.mem_singleton.mp h] at hc
    cases hc
  | cons d rest ih =>
    rw [splitBy] at h
    split at h
    · rcases List.mem_cons.mp h with rfl | h
      · cases hc
      · exact (ih h hc).imp_right (List.mem_cons_of_mem d)
    · next hd =>
      split at h
      · next hnil => exact absurd hnil (splitBy_ne_nil p rest)
      · next first more hsplit =>
        have hlater : ∀ later ∈ first :: more, c ∈ later → p c = false ∧ c ∈ d :: rest :=
          fun later hlater hmem =>
            (ih (hsplit ▸ hlater) hmem).imp_right (List.mem_cons_of_mem d)
        rcases List.mem_cons.mp h with rfl | h
        · rcases List.mem_cons.mp hc with rfl | hc
          · exact ⟨eq_false_of_ne_true hd, List.mem_cons_self⟩
          · exact hlater first List.mem_cons_self hc
        · exact hlater piece (List.mem_cons_of_mem _ h) hc

theorem beq_sep_eq_false (h : sep ∉ cs) : ∀ c ∈ cs, (c == sep) = false := by
  intro c hc
  rw [beq_eq_false_iff_ne]
  rintro rfl
  exact h hc

theorem splitOn_of_not_mem (h : sep ∉ cs) : splitOn sep cs = [cs] :=
  splitBy_of_forall (p := (· == sep)) (beq_sep_eq_false h)

theorem splitOn_append (h : sep ∉ cs) (ds : List Char) :
    splitOn sep (cs ++ sep :: ds) = cs :: splitOn sep ds :=
  splitBy_append (p := (· == sep)) (beq_self_eq_true sep) (beq_sep_eq_false h) ds

theorem splitOn_intercalate (hne : pieces ≠ []) (h : ∀ piece ∈ pieces, sep ∉ piece) :
    splitOn sep ([sep].intercalate pieces) = pieces :=
  splitBy_intercalate (p := (· == sep)) (beq_self_eq_true sep) hne fun piece hpiece =>
    beq_sep_eq_false (h piece hpiece)

theorem words_intercalate (h : ∀ piece ∈ pieces, piece ≠ [] ∧ ∀ c ∈ piece, isBlank c = false) :
    words ([' '].intercalate pieces) = pieces := by
  cases pieces with
  | nil => rfl
  | cons piece pieces =>
    have hsplit := splitBy_intercalate isBlank_space (List.cons_ne_nil piece pieces)
      fun t ht => (h t ht).2
    rw [words, hsplit, List.filter_eq_self]
    intro t ht
    simp [(h t ht).1]

theorem of_mem_words (h : piece ∈ words cs) :
    piece ≠ [] ∧ ∀ c ∈ piece, isBlank c = false ∧ c ∈ cs := by
  obtain ⟨hmem, hne⟩ := List.mem_filter.mp h
  exact ⟨by simpa using hne, fun c hc => mem_of_mem_splitBy hmem hc⟩

end Pieces

section Ends

variable {p : Char → Bool} {c : Char} {cs : List Char}

theorem dropWhile_of_head (h : ∀ c ∈ cs.head?, p c = false) : cs.dropWhile p = cs := by
  cases cs with
  | nil => rfl
  | cons c cs =>
    rw [List.dropWhile_cons_of_neg]
    rw [h c rfl]
    exact Bool.false_ne_true

theorem head_dropWhile : ∀ c ∈ (cs.dropWhile p).head?, p c = false := by
  intro c hc
  have hnot := List.head?_dropWhile_not p cs
  rw [hc] at hnot
  exact hnot

theorem strip_eq_self (hfirst : ∀ c ∈ cs.head?, p c = false)
    (hlast : ∀ c ∈ cs.getLast?, p c = false) : strip p cs = cs := by
  rw [strip, dropWhile_of_head hfirst, dropWhile_of_head, List.reverse_reverse]
  rw [List.head?_reverse]
  exact hlast

theorem head_strip (p : Char → Bool) (cs : List Char) : ∀ c ∈ (strip p cs).head?, p c = false := by
  intro c hc
  have hsuffix := List.dropWhile_suffix (l := (cs.dropWhile p).reverse) p
  have hpre : strip p cs <+: cs.dropWhile p := by
    rw [← List.reverse_suffix, strip, List.reverse_reverse]
    exact hsuffix
  obtain ⟨more, hmore⟩ := hpre
  have hfirst : c ∈ (cs.dropWhile p).head? := by
    rw [← hmore, List.head?_append, hc]
    rfl
  exact head_dropWhile c hfirst

theorem last_strip (p : Char → Bool) (cs : List Char) :
    ∀ c ∈ (strip p cs).getLast?, p c = false := by
  rw [strip, List.getLast?_reverse]
  exact head_dropWhile

theorem mem_of_mem_strip (h : c ∈ strip p cs) : c ∈ cs := by
  have hlast := List.mem_reverse.mp h
  have hmem := (List.dropWhile_sublist _).subset hlast
  exact (List.dropWhile_sublist _).subset (List.mem_reverse.mp hmem)

theorem trim_eq_self (hfirst : ∀ c ∈ cs.head?, isBlank c = false)
    (hlast : ∀ c ∈ cs.getLast?, isBlank c = false) : trim cs = cs := strip_eq_self hfirst hlast

theorem head_trim (cs : List Char) : ∀ c ∈ (trim cs).head?, isBlank c = false :=
  head_strip isBlank cs

theorem last_trim (cs : List Char) : ∀ c ∈ (trim cs).getLast?, isBlank c = false :=
  last_strip isBlank cs

theorem mem_of_mem_trim (h : c ∈ trim cs) : c ∈ cs := mem_of_mem_strip h

theorem trim_trim (cs : List Char) : trim (trim cs) = trim cs :=
  trim_eq_self (head_trim cs) (last_trim cs)

theorem trim_of_forall (h : ∀ c ∈ cs, isBlank c = false) : trim cs = cs :=
  trim_eq_self (fun c hc => h c (List.mem_of_head? hc)) fun c hc => h c (List.mem_of_getLast? hc)

end Ends

end AttrChain.Text
