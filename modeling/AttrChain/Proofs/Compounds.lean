import AttrChain.Proofs.Layouts
import Mathlib.Data.List.TakeWhile

/-!
Reading compounds. A compound is read as what its tests say, one after the other, and what is read
is laid out as one. A test that is not closed is refused if no attribute test in front of it is
closed, and else it is read as if it were.
-/

namespace AttrChain

open AttrChain.Text

namespace AttrTest

variable {t : AttrTest}

theorem read_of_cut {cs name : List Char} {value : Option (List Char)}
    (h : cutEquals cs = (name, value)) :
    AttrTest.read cs =
      ⟨String.ofList (trim name),
        value.map fun v => String.ofList (strip isValueQuote (trim v))⟩ := by
  rw [AttrTest.read, h]
  rfl

theorem Spelled.takeWhile_dropWhile_body (h : t.Spelled) (rest : List Char)
    (hrest : ∀ c ∈ rest.head?, (c != ']') = false) :
    (t.body ++ rest).takeWhile (· != ']') = t.body ∧
      (t.body ++ rest).dropWhile (· != ']') = rest :=
  takeWhile_dropWhile_append h.ne_close hrest

theorem Spelled.read_body (h : t.Spelled) : AttrTest.read t.body = t.unquoted := by
  have hname : trim t.name.toList = t.name.toList :=
    trim_of_forall fun c hc => (isTestChar_iff.mp (h.nameChars c hc).1).1.1
  have hvalue : ∀ v ∈ t.value, trim v.toList = v.toList := fun v hv =>
    trim_of_forall fun c hc => (isTestChar_iff.mp (h.valueChars v hv c hc)).1.1
  rw [read_of_cut h.cutEquals_body, hname, String.ofList_toList, unquoted, Option.map_map]
  cases hv : t.value with
  | none => rfl
  | some v => rw [Option.map_some, Option.map_some, Function.comp_apply, hvalue v hv]

/-- What stands between brackets without a blank, a comma or a closing bracket is a test if a name
is read from it. -/
theorem exists_spelled {cs : List Char} (hcs : ∀ c ∈ cs, isTestChar c = true)
    (hname : (AttrTest.read cs).name ≠ "") : ∃ t : AttrTest, t.Spelled ∧ t.body = cs := by
  obtain ⟨name, value, hcut⟩ : ∃ name value, cutEquals cs = (name, value) := ⟨_, _, rfl⟩
  obtain ⟨hequals, rfl⟩ := cutEquals_eq_iff.mp hcut
  have hnameChars : ∀ c ∈ name, isTestChar c = true := fun c hc =>
    hcs c (List.mem_append_left _ hc)
  have htrim : trim name = name :=
    trim_of_forall fun c hc => (isTestChar_iff.mp (hnameChars c hc)).1.1
  have hread : (AttrTest.read (name ++ (value.map ('=' :: ·)).getD [])).name =
      String.ofList name := by
    rw [read_of_cut hcut, htrim]
  refine ⟨⟨String.ofList name, value.map String.ofList⟩, ⟨hread ▸ hname, ?_, ?_⟩, ?_⟩
  · rw [String.toList_ofList]
    intro c hc
    refine ⟨hnameChars c hc, ?_⟩
    rintro rfl
    exact hequals hc
  · intro v hv
    obtain ⟨cs, rfl, rfl⟩ := Option.map_eq_some_iff.mp hv
    rw [String.toList_ofList]
    intro c hc
    exact hcs c (List.mem_append_right _ (List.mem_cons_of_mem _ hc))
  · rw [body, String.toList_ofList]
    cases value with
    | none => rfl
    | some v => simp

end AttrTest

namespace Simple

variable {t : Simple} {rest text : List Char} {c : Compound} {full : String} {fuel : Nat}

/-- One test is read, whatever follows it; attribute tests need a closing bracket somewhere. -/
theorem readTests_written (hrest : ∀ c ∈ rest.head?, isSelectorChar c = false)
    (hclose : t.isAttr = true → ']' ∈ text) :
    Compound.readTests full text (fuel + 1) (t.written ++ rest) c =
      Compound.readTests full text fuel rest (t.addTo c) := by
  cases t with
  | id name h =>
    obtain ⟨htake, hdrop⟩ := takeWhile_dropWhile_append h.2 hrest
    simp only [written, List.cons_append, Compound.readTests, htake, hdrop, String.ofList_toList]
    rw [if_neg (by simpa using h.ne_nil)]
    rfl
  | ofClass name h =>
    obtain ⟨htake, hdrop⟩ := takeWhile_dropWhile_append h.2 hrest
    simp only [written, List.cons_append, Compound.readTests, htake, hdrop, String.ofList_toList]
    rw [if_neg (by simpa using h.ne_nil)]
    rfl
  | attr test h =>
    obtain ⟨htake, hdrop⟩ := h.takeWhile_dropWhile_body (']' :: rest) (by rintro c ⟨⟩; rfl)
    have htext : text.contains ']' = true := List.contains_iff_mem.mpr (hclose rfl)
    have hname : test.unquoted.name.isEmpty = false := by
      simpa [String.isEmpty_iff, AttrTest.unquoted] using h.name
    simp only [written, AttrTest.written, List.cons_append, List.append_assoc, List.nil_append,
      Compound.readTests, htake, hdrop, htext, h.read_body, hname]
    rfl

/-- A test that is not closed is read as if it were, where the text has a closing bracket. -/
theorem readTests_unclosed {test : AttrTest} (h : test.Spelled) (hclose : ']' ∈ text) :
    Compound.readTests full text (fuel + 1) ('[' :: test.body) c =
      .ok ((Simple.attr test h).addTo c) := by
  obtain ⟨htake, hdrop⟩ := h.takeWhile_dropWhile_body [] (by rintro c ⟨⟩)
  rw [List.append_nil] at htake hdrop
  have htext : text.contains ']' = true := List.contains_iff_mem.mpr hclose
  have hname : test.unquoted.name.isEmpty = false := by
    simpa [String.isEmpty_iff, AttrTest.unquoted] using h.name
  simp only [Compound.readTests, htake, hdrop, htext, h.read_body, hname]
  cases fuel <;> rfl

theorem readTests_all {tests : List Simple} (hrest : ∀ c ∈ rest.head?, c ∈ testSigns)
    (hclose : ∀ t ∈ tests, t.isAttr = true → ']' ∈ text) :
    Compound.readTests full text (tests.length + fuel) (tests.flatMap written ++ rest) c =
      Compound.readTests full text fuel rest (tests.foldl addTo c) := by
  induction tests generalizing c with
  | nil => rw [List.length_nil, Nat.zero_add, List.flatMap_nil, List.nil_append, List.foldl_nil]
  | cons t tests ih =>
    obtain ⟨ht, htests⟩ := List.forall_mem_cons.mp hclose
    rw [List.length_cons, Nat.add_right_comm, List.flatMap_cons, List.append_assoc,
      readTests_written _ ht, ih htests, List.foldl_cons]
    exact fun c hc => not_isSelectorChar_of_mem_testSigns (head_texts hrest c hc)

end Simple

namespace Layout

variable {l : Layout} {text : List Char} {c : Compound} {full : String} {fuel : Nat}

theorem readTests_testing (hclose : l.ClosesTest → ']' ∈ text)
    (hfuel : l.closed.tests.length ≤ fuel) (h : l.unclosed = none ∨ ']' ∈ text) :
    Compound.readTests full text fuel l.testing c = .ok (l.closed.tests.foldl Simple.addTo c) := by
  have hall : ∀ t ∈ l.tests, t.isAttr = true → ']' ∈ text := fun t ht hattr =>
    hclose ⟨t, ht, hattr⟩
  obtain ⟨lead, tests, unclosed⟩ := l
  cases unclosed with
  | none =>
    rw [closed, Option.toList_none, List.map_nil, List.append_nil] at hfuel ⊢
    obtain ⟨k, rfl⟩ := Nat.exists_eq_add_of_le hfuel
    rw [testing, Simple.readTests_all (head_ending _) hall]
    cases k <;> rfl
  | some t =>
    have hmem : ']' ∈ text := h.resolve_left (Option.some_ne_none t)
    rw [closed, Option.toList_some, List.map_singleton] at hfuel ⊢
    rw [List.length_append, List.length_singleton] at hfuel
    obtain ⟨k, rfl⟩ := Nat.exists_eq_add_of_le hfuel
    rw [testing, Nat.add_assoc, Nat.add_comm 1 k, List.foldl_append,
      Simple.readTests_all (head_ending _) hall]
    exact Simple.readTests_unclosed t.2 hmem

theorem readTests_refused (hfuel : l.closed.tests.length ≤ fuel) (h : l.unclosed ≠ none)
    (hno : ¬ l.ClosesTest) (htext : ']' ∉ text) :
    Compound.readTests full text fuel l.testing c = .error (.unterminated full) := by
  have hall : ∀ t ∈ l.tests, t.isAttr = true → ']' ∈ text := fun t ht hattr =>
    absurd ⟨t, ht, hattr⟩ hno
  obtain ⟨lead, tests, unclosed⟩ := l
  cases unclosed with
  | none => exact absurd rfl h
  | some t =>
    rw [closed, Option.toList_some, List.map_singleton] at hfuel
    rw [List.length_append, List.length_singleton] at hfuel
    obtain ⟨k, rfl⟩ := Nat.exists_eq_add_of_le hfuel
    have hcontains : text.contains ']' = false := by
      rw [← Bool.not_eq_true, List.contains_iff_mem]
      exact htext
    rw [testing, Nat.add_assoc, Nat.add_comm 1 k,
      Simple.readTests_all (head_ending _) hall]
    simp only [ending, Option.map_some, Option.getD_some, Compound.readTests, hcontains]
    rfl

end Layout

namespace Compound

variable {full : String} {text : List Char} {l : Layout}

theorem read_of_no_star (h : ∀ c ∈ text.head?, c ≠ '*') : Compound.read full text =
    readTests full text text.length (text.dropWhile isSelectorChar)
      { any with
        tag := if (text.takeWhile isSelectorChar).isEmpty then none
          else some (String.ofList (text.takeWhile isSelectorChar)) } := by
  unfold Compound.read
  split
  · exact absurd rfl (h '*' rfl)
  · rfl

/-- Behind its lead, a compound is read test by test. -/
theorem read_eq_readTests (full : String) (l : Layout) : Compound.read full l.written =
    readTests full l.written l.written.length l.testing ⟨l.lead.tag?, none, [], []⟩ := by
  have hend : ∀ c ∈ l.testing.head?, isSelectorChar c = false := fun c hc =>
    not_isSelectorChar_of_mem_testSigns (l.head_testing c hc)
  rw [Layout.written]
  cases l.lead with
  | star => rfl
  | nothing =>
    obtain ⟨htake, hdrop⟩ := takeWhile_dropWhile_append (List.forall_mem_nil _) hend
    have hstar : ∀ c ∈ ([] ++ l.testing).head?, c ≠ '*' := by
      rintro c hc rfl
      exact absurd (l.head_testing _ hc) (by decide)
    rw [Lead.written, read_of_no_star hstar, htake, hdrop]
    rfl
  | tag name h =>
    obtain ⟨htake, hdrop⟩ := takeWhile_dropWhile_append h.2 hend
    have hstar : ∀ c ∈ (name.toList ++ l.testing).head?, c ≠ '*' := by
      rintro c hc rfl
      obtain ⟨d, cs, hname⟩ := List.exists_cons_of_ne_nil h.ne_nil
      rw [hname] at hc
      cases hc
      exact absurd (h.2 '*' (hname ▸ List.mem_cons_self)) (by decide)
    rw [Lead.written, read_of_no_star hstar, htake, hdrop, String.ofList_toList,
      if_neg (by simpa using h.ne_nil)]
    rfl

theorem length_closed_le_written (l : Layout) : l.closed.tests.length ≤ l.written.length := by
  rw [Layout.written, List.length_append]
  exact Nat.le_add_left_of_le l.length_closed_le

/-- A compound is read as what its tests say, if its last test is closed or another one is. -/
theorem read_written (full : String) (h : l.unclosed = none ∨ l.ClosesTest) :
    Compound.read full l.written = .ok l.compound := by
  rw [read_eq_readTests]
  exact Layout.readTests_testing Layout.close_mem_written_iff.mpr (length_closed_le_written l)
    (h.imp_right Layout.close_mem_written_iff.mpr)

/-- Without any test that is closed, one that is not is refused. -/
theorem read_refused (full : String) (h : l.unclosed ≠ none) (hno : ¬ l.ClosesTest) :
    Compound.read full l.written = .error (.unterminated full) := by
  rw [read_eq_readTests]
  exact Layout.readTests_refused (length_closed_le_written l) h hno
    fun hmem => hno (Layout.close_mem_written_iff.mp hmem)

end Compound

namespace Layout

variable {text cs : List Char} {c c' : Compound} {full : String} {fuel : Nat}

theorem exists_testing_cons (t : Simple) (h : ∃ l : Layout, l.testing = cs) :
    ∃ l : Layout, l.testing = t.written ++ cs := by
  obtain ⟨l, rfl⟩ := h
  refine ⟨{ l with tests := t :: l.tests }, ?_⟩
  rw [testing, List.flatMap_cons, List.append_assoc]
  rfl

theorem exists_testing_named {rest : List Char} {sign : Char}
    (build : (name : String) → IsSelectorName name → Simple)
    (hbuild : ∀ name h, (build name h).written = sign :: name.toList)
    (hname : ¬ (rest.takeWhile isSelectorChar).isEmpty = true)
    (h : ∃ l : Layout, l.testing = rest.dropWhile isSelectorChar) :
    ∃ l : Layout, l.testing = sign :: rest := by
  have hnamed : IsSelectorName (String.ofList (rest.takeWhile isSelectorChar)) :=
    isSelectorName_ofList (by simpa using hname) fun c hc => List.mem_takeWhile_imp hc
  obtain ⟨l, hl⟩ := exists_testing_cons (build _ hnamed) h
  refine ⟨l, ?_⟩
  rw [hl, hbuild, String.toList_ofList, List.cons_append, List.takeWhile_append_dropWhile]

theorem exists_testing_attr {rest : List Char} (hrest : ∀ c ∈ rest, isBlank c = false ∧ c ≠ ',')
    (hname : ¬ (AttrTest.read (rest.takeWhile (· != ']'))).name.isEmpty = true)
    (h : ∃ l : Layout, l.testing = (rest.dropWhile (· != ']')).drop 1) :
    ∃ l : Layout, l.testing = '[' :: rest := by
  have hsplit := List.takeWhile_append_dropWhile (p := (· != ']')) (l := rest)
  have hchars : ∀ c ∈ rest.takeWhile (· != ']'), isTestChar c = true := by
    intro c hc
    have hclose := List.mem_takeWhile_imp (p := (· != ']')) hc
    exact isTestChar_iff.mpr ⟨hrest c ((List.takeWhile_prefix _).mem hc), bne_iff_ne.mp hclose⟩
  obtain ⟨t, ht, hbody⟩ :=
    AttrTest.exists_spelled hchars (by simpa [String.isEmpty_iff] using hname)
  rw [← hbody] at hsplit
  cases hdrop : rest.dropWhile (· != ']') with
  | nil =>
    rw [hdrop, List.append_nil] at hsplit
    refine ⟨⟨.nothing, [], some ⟨t, ht⟩⟩, ?_⟩
    rw [← hsplit]
    rfl
  | cons d behind =>
    have hclose : d = ']' := by
      have hd : d ∈ (rest.dropWhile (· != ']')).head? := by
        rw [hdrop]
        rfl
      simpa using head_dropWhile d hd
    rw [hdrop, List.drop_one, List.tail_cons] at h
    rw [hdrop, hclose] at hsplit
    obtain ⟨l, hl⟩ := exists_testing_cons (.attr t ht) h
    refine ⟨l, ?_⟩
    rw [hl, ← hsplit, Simple.written, AttrTest.written]
    simp

theorem exists_testing (hcs : ∀ c ∈ cs, isBlank c = false ∧ c ≠ ',') (hfuel : cs.length ≤ fuel)
    (h : Compound.readTests full text fuel cs c = .ok c') : ∃ l : Layout, l.testing = cs := by
  induction fuel generalizing cs c with
  | zero =>
    rw [List.eq_nil_of_length_eq_zero (Nat.le_zero.mp hfuel)]
    exact ⟨⟨.nothing, [], none⟩, rfl⟩
  | succ fuel ih =>
    cases cs with
    | nil => exact ⟨⟨.nothing, [], none⟩, rfl⟩
    | cons sign rest =>
      obtain ⟨-, hrest⟩ := List.forall_mem_cons.mp hcs
      have hlater {more : List Char} {c : Compound} (hmore : more <:+ rest)
          (h : Compound.readTests full text fuel more c = .ok c') :
          ∃ l : Layout, l.testing = more :=
        ih (fun c hc => hrest c (hmore.mem hc))
          (Nat.le_trans hmore.length_le (Nat.le_of_succ_le_succ hfuel)) h
      unfold Compound.readTests at h
      dsimp only at h
      split at h
      · split at h
        · cases h
        · next hname =>
          exact exists_testing_named .id (fun _ _ => rfl) hname
            (hlater (List.dropWhile_suffix _) h)
      · split at h
        · cases h
        · next hname =>
          exact exists_testing_named .ofClass (fun _ _ => rfl) hname
            (hlater (List.dropWhile_suffix _) h)
      · split at h
        · cases h
        · split at h
          · cases h
          · next hname =>
            refine exists_testing_attr hrest hname (hlater ?_ h)
            exact (List.drop_suffix 1 _).trans (List.dropWhile_suffix _)
      · cases h

end Layout

theorem Compound.exists_layout {full : String} {text : List Char} {c : Compound}
    (htext : ∀ c ∈ text, isBlank c = false ∧ c ≠ ',') (h : Compound.read full text = .ok c) :
    ∃ l : Layout, l.written = text := by
  by_cases hstar : '*' ∈ text.head?
  · obtain ⟨rest, rfl⟩ : ∃ rest, text = '*' :: rest := by
      cases text with
      | nil => cases hstar
      | cons d rest =>
        cases hstar
        exact ⟨rest, rfl⟩
    obtain ⟨-, hrest⟩ := List.forall_mem_cons.mp htext
    obtain ⟨l, rfl⟩ := Layout.exists_testing hrest (Nat.le_succ _) h
    exact ⟨{ l with lead := .star }, rfl⟩
  · rw [read_of_no_star (by rintro d hd rfl; exact hstar hd)] at h
    have hsuffix : text.dropWhile isSelectorChar <:+ text := List.dropWhile_suffix _
    obtain ⟨l, hl⟩ := Layout.exists_testing (fun c hc => htext c (hsuffix.mem hc))
      hsuffix.length_le h
    have hsplit := List.takeWhile_append_dropWhile (p := isSelectorChar) (l := text)
    by_cases hname : text.takeWhile isSelectorChar = []
    · refine ⟨{ l with lead := .nothing }, ?_⟩
      rw [hname, List.nil_append, ← hl] at hsplit
      exact hsplit
    · have hnamed := isSelectorName_ofList hname fun c hc => List.mem_takeWhile_imp hc
      refine ⟨{ l with lead := .tag _ hnamed }, ?_⟩
      rw [← hl] at hsplit
      rw [Layout.written, Lead.written, String.toList_ofList]
      exact hsplit

end AttrChain
