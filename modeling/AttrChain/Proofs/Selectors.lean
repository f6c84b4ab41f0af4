import AttrChain.Proofs.Compounds
import AttrChain.Proofs.Results

/-!
Which texts are selectors, and selectors read back. A selector that can be written is read back from
its text, and whatever is read can be written. A text is a selector if each word of each alternative
is laid out as a compound, with its last test closed or another one.
-/

namespace AttrChain

open AttrChain.Text

section Reading

variable {full : String} {text word : List Char}

theorem Complex.read_eq_ok_iff {c : Complex} : Complex.read full text = .ok c ↔
    c.parts ≠ [] ∧ (words text).mapM (Compound.read full) = .ok c.parts := by
  obtain ⟨found⟩ := c
  unfold Complex.read
  cases (words text).mapM (Compound.read full) with
  | error why =>
    constructor
    · intro h
      cases h
    · rintro ⟨-, h⟩
      cases h
  | ok parts =>
    cases parts with
    | nil =>
      constructor
      · intro h
        cases h
      · rintro ⟨hne, h⟩
        cases h
        exact absurd rfl hne
    | cons part parts =>
      constructor
      · intro h
        cases h
        exact ⟨List.cons_ne_nil _ _, rfl⟩
      · rintro ⟨-, h⟩
        cases h
        rfl

theorem Selector.read_eq_ok_iff {text : String} {s : Selector} : Selector.read text = .ok s ↔
    (splitOn ',' text.toList).mapM (Complex.read text) = .ok s.alternatives := by
  obtain ⟨alternatives⟩ := s
  unfold Selector.read
  cases (splitOn ',' text.toList).mapM (Complex.read text) with
  | error why => exact iff_of_false (fun h => nomatch h) fun h => nomatch h
  | ok found =>
    constructor
    · intro h
      cases h
      rfl
    · intro h
      cases h
      rfl

theorem chars_of_mem_words {alternative : List Char} (h : alternative ∈ splitOn ',' text)
    (hword : word ∈ words alternative) : ∀ c ∈ word, isBlank c = false ∧ c ≠ ',' := by
  intro c hc
  obtain ⟨hblank, hmem⟩ := (of_mem_words hword).2 c hc
  exact ⟨hblank, beq_eq_false_iff_ne.mp (mem_of_mem_splitBy h hmem).1⟩

theorem Complex.exists_read_iff : (∃ c, Complex.read full text = .ok c) ↔
    words text ≠ [] ∧ ∀ word ∈ words text, ∃ c, Compound.read full word = .ok c := by
  rw [← exists_mapM_eq_ok_iff]
  simp only [Complex.read_eq_ok_iff]
  constructor
  · rintro ⟨c, hne, hparts⟩
    refine ⟨?_, c.parts, hparts⟩
    intro hnone
    rw [hnone] at hparts
    exact hne (Except.ok.inj hparts).symm
  · rintro ⟨hne, parts, hparts⟩
    refine ⟨⟨parts⟩, ?_, hparts⟩
    rintro rfl
    exact hne (List.forall₂_nil_right_iff.mp (mapM_eq_ok_iff.mp hparts))

theorem Selector.exists_read_iff {text : String} : (∃ s, Selector.read text = .ok s) ↔
    ∀ alternative ∈ splitOn ',' text.toList, words alternative ≠ [] ∧
      ∀ word ∈ words alternative, ∃ c, Compound.read text word = .ok c := by
  simp only [← Complex.exists_read_iff]
  rw [← exists_mapM_eq_ok_iff]
  simp only [Selector.read_eq_ok_iff]
  exact ⟨fun ⟨s, h⟩ => ⟨s.alternatives, h⟩, fun ⟨alternatives, h⟩ => ⟨⟨alternatives⟩, h⟩⟩

end Reading

namespace Compound

variable {full : String} {word : List Char} {c : Compound} {l : Layout}

theorem exists_read_iff (hword : ∀ c ∈ word, isBlank c = false ∧ c ≠ ',') :
    (∃ c, Compound.read full word = .ok c) ↔
      ∃ l : Layout, (∀ other : Layout, other.written = word ↔ other = l) ∧
        (l.unclosed = none ∨ l.ClosesTest) := by
  constructor
  · rintro ⟨c, hc⟩
    obtain ⟨l, rfl⟩ := exists_layout hword hc
    refine ⟨l, fun other => Layout.written_injective.eq_iff, ?_⟩
    by_cases hclosed : l.unclosed = none
    · exact .inl hclosed
    · by_cases hcloses : l.ClosesTest
      · exact .inr hcloses
      · rw [read_refused full hclosed hcloses] at hc
        cases hc
  · rintro ⟨l, hl, hadmitted⟩
    rw [← (hl l).mpr rfl]
    exact ⟨_, read_written full hadmitted⟩

end Compound

namespace AttrTest

variable {t : AttrTest}

theorem Spelled.writable_unquoted (h : t.Spelled) : t.unquoted.Writable := by
  have hstrip : ∀ v ∈ t.unquoted.value, ∃ w ∈ t.value, v.toList = strip isValueQuote w.toList := by
    intro v hv
    obtain ⟨w, hw, rfl⟩ := Option.map_eq_some_iff.mp hv
    exact ⟨w, hw, String.toList_ofList⟩
  refine ⟨⟨h.name, h.nameChars, ?_⟩, ?_, ?_⟩
  · intro v hv c hc
    obtain ⟨w, hw, heq⟩ := hstrip v hv
    rw [heq] at hc
    exact h.valueChars w hw c (mem_of_mem_strip hc)
  · intro v hv
    obtain ⟨w, -, heq⟩ := hstrip v hv
    rw [heq]
    exact head_strip _ _
  · intro v hv
    obtain ⟨w, -, heq⟩ := hstrip v hv
    rw [heq]
    exact last_strip _ _

theorem Writable.unquoted_eq (h : t.Writable) : t.unquoted = t := by
  obtain ⟨name, value⟩ := t
  cases value with
  | none => rfl
  | some v =>
    have hstrip : strip isValueQuote v.toList = v.toList :=
      strip_eq_self (h.first v rfl) (h.last v rfl)
    rw [unquoted, Option.map_some, hstrip, String.ofList_toList]

end AttrTest

namespace Compound

variable {c : Compound}

theorem writable_addTo (h : c.Writable) (t : Simple) : (t.addTo c).Writable := by
  obtain ⟨tag, id, classes, attrs⟩ := h
  cases t with
  | id name hname =>
    refine ⟨tag, ?_, classes, attrs⟩
    rintro _ ⟨⟩
    exact hname
  | ofClass name hname =>
    exact ⟨tag, id, List.forall_mem_append.mpr ⟨classes, List.forall_mem_singleton.mpr hname⟩,
      attrs⟩
  | attr test htest =>
    exact ⟨tag, id, classes, List.forall_mem_append.mpr
      ⟨attrs, List.forall_mem_singleton.mpr htest.writable_unquoted⟩⟩

theorem writable_compound (l : Layout) : l.compound.Writable := by
  have hfold : ∀ (tests : List Simple) (c : Compound), c.Writable →
      (tests.foldl Simple.addTo c).Writable := by
    intro tests
    induction tests with
    | nil => exact fun _ h => h
    | cons t tests ih => exact fun c h => ih _ (writable_addTo h t)
  apply hfold
  refine ⟨?_, nofun, nofun, nofun⟩
  cases l.lead with
  | nothing => exact nofun
  | star => exact nofun
  | tag name hname =>
    rintro _ ⟨⟩
    exact hname

section Rows

variable {α : Type} {P : α → Prop} {build : (a : α) → P a → Simple} {l : List α}

theorem flatMap_written_pmap (text : α → List Char) (hbuild : ∀ a h, (build a h).written = text a)
    (h : ∀ a ∈ l, P a) : (l.pmap build h).flatMap Simple.written = l.flatMap text := by
  induction l with
  | nil => rfl
  | cons a l ih => rw [List.pmap_cons, List.flatMap_cons, List.flatMap_cons, hbuild, ih]

/-- A row of tests of one kind puts its parts behind those that a compound has of that kind. -/
theorem foldl_addTo_pmap (put : Compound → List α → Compound) (hnil : ∀ c, put c [] = c)
    (happend : ∀ c more later, put (put c more) later = put c (more ++ later))
    (hbuild : ∀ a h c, (build a h).addTo c = put c [a]) (h : ∀ a ∈ l, P a) :
    (l.pmap build h).foldl Simple.addTo c = put c l := by
  induction l generalizing c with
  | nil => exact (hnil c).symm
  | cons a l ih =>
    rw [List.pmap_cons, List.foldl_cons, hbuild, ih, happend, List.singleton_append]

end Rows

def leadOf : (tag : Option String) → (∀ name ∈ tag, IsSelectorName name) → Lead
  | some name, h => .tag name (h name rfl)
  | none, _ => .star

def Writable.tests (h : c.Writable) : List Simple :=
  c.id.toList.pmap (P := IsSelectorName) Simple.id
      (fun name hname => h.id name (Option.mem_toList.mp hname)) ++
    c.classes.pmap (P := IsSelectorName) Simple.ofClass h.classes ++
    c.attrs.pmap (P := AttrTest.Writable) (fun t ht => Simple.attr t ht.toSpelled) h.attrs

def Writable.layout (h : c.Writable) : Layout := ⟨leadOf c.tag h.tag, h.tests, none⟩

theorem tag_leadOf {tag : Option String} (h : ∀ name ∈ tag, IsSelectorName name) :
    (leadOf tag h).tag? = tag := by
  cases tag <;> rfl

theorem written_leadOf {tag : Option String} (h : ∀ name ∈ tag, IsSelectorName name) :
    (leadOf tag h).written = (tag.map String.toList).getD ['*'] := by
  cases tag <;> rfl

theorem Writable.written_layout (h : c.Writable) : h.layout.written = c.written := by
  have hid : c.id.toList.flatMap (fun name => '#' :: name.toList) =
      (c.id.map fun id => '#' :: id.toList).getD [] := by
    cases c.id with
    | none => rfl
    | some name => exact List.append_nil _
  have htests : h.tests.flatMap Simple.written = (c.id.map fun id => '#' :: id.toList).getD [] ++
      c.classes.flatMap (fun name => '.' :: name.toList) ++ c.attrs.flatMap AttrTest.written := by
    rw [tests, List.flatMap_append, List.flatMap_append,
      flatMap_written_pmap (fun name => '#' :: name.toList) (fun _ _ => rfl),
      flatMap_written_pmap (fun name => '.' :: name.toList) (fun _ _ => rfl),
      flatMap_written_pmap AttrTest.written (fun _ _ => rfl), hid]
  have hending : h.layout.ending = [] := rfl
  have hlead : h.layout.lead.written = (c.tag.map String.toList).getD ['*'] := written_leadOf h.tag
  rw [Layout.written, Layout.testing, hending, List.append_nil, hlead, layout, htests, written]
  simp only [List.append_assoc]

theorem Writable.compound_layout (h : c.Writable) : h.layout.compound = c := by
  have hattr (t : AttrTest) (ht : t.Writable) (c : Compound) :
      (Simple.attr t ht.toSpelled).addTo c = { c with attrs := c.attrs ++ [t] } := by
    rw [Simple.addTo, ht.unquoted_eq]
  rw [Layout.compound, Layout.closed, layout, tests, tag_leadOf, Option.toList_none, List.map_nil,
    List.append_nil, List.foldl_append, List.foldl_append,
    foldl_addTo_pmap (fun c more => { c with attrs := c.attrs ++ more })
      (fun c => by rw [List.append_nil]) (fun c more later => by rw [List.append_assoc]) hattr,
    foldl_addTo_pmap (fun c more => { c with classes := c.classes ++ more })
      (fun c => by rw [List.append_nil]) (fun c more later => by rw [List.append_assoc])
      (fun _ _ _ => rfl)]
  obtain ⟨tag, id, classes, attrs⟩ := c
  cases id <;> rfl

theorem Writable.read_written_self (h : c.Writable) (full : String) :
    Compound.read full c.written = .ok c := by
  have hread := read_written full (l := h.layout) (.inl rfl)
  rwa [h.written_layout, h.compound_layout] at hread

theorem Writable.chars_written (h : c.Writable) :
    ∀ d ∈ c.written, isBlank d = false ∧ d ≠ ',' := by
  rw [← h.written_layout]
  exact h.layout.chars_written

theorem Writable.written_ne_nil (h : c.Writable) : c.written ≠ [] := by
  intro hnil
  obtain ⟨tag, id, classes, attrs⟩ := c
  cases tag with
  | none => cases hnil
  | some name =>
    rw [written, List.append_assoc, List.append_assoc] at hnil
    exact (h.tag name rfl).ne_nil (List.append_eq_nil_iff.mp hnil).1

end Compound

namespace Complex

variable {c : Complex}

theorem Writable.words_written (h : c.Writable) :
    words c.written = c.parts.map Compound.written := by
  refine words_intercalate (List.forall_mem_map.mpr fun part hpart => ?_)
  have hwritable := h.each part hpart
  exact ⟨hwritable.written_ne_nil, fun c hc => (hwritable.chars_written c hc).1⟩

theorem Writable.read_written_self (h : c.Writable) (full : String) :
    Complex.read full c.written = .ok c := by
  refine Complex.read_eq_ok_iff.mpr ⟨h.parts, ?_⟩
  rw [h.words_written]
  exact mapM_eq_pure fun part hpart => (h.each part hpart).read_written_self full

theorem Writable.comma_not_mem (h : c.Writable) : ',' ∉ c.written := by
  have hall : ∀ d ∈ c.written, d ≠ ',' :=
    forall_mem_intercalate (List.forall_mem_singleton.mpr (by decide))
      (List.forall_mem_map.mpr fun part hpart d hd => ((h.each part hpart).chars_written d hd).2)
  exact fun hmem => hall _ hmem rfl

end Complex

namespace Compound

theorem writable_of_read {full : String} {word : List Char} {c : Compound}
    (hword : ∀ c ∈ word, isBlank c = false ∧ c ≠ ',') (h : Compound.read full word = .ok c) :
    c.Writable := by
  obtain ⟨l, rfl⟩ := exists_layout hword h
  by_cases hadmitted : l.unclosed = none ∨ l.ClosesTest
  · rw [read_written full hadmitted] at h
    cases h
    exact writable_compound l
  · obtain ⟨hclosed, hcloses⟩ := not_or.mp hadmitted
    rw [read_refused full hclosed hcloses] at h
    cases h

end Compound

namespace Selector

variable {s : Selector} {text : String}

theorem Writable.read_written_self (h : s.Writable) : Selector.read s.written = .ok s := by
  rw [Selector.read_eq_ok_iff, written, String.toList_ofList,
    splitOn_intercalate (by simpa using h.alternatives)
      (List.forall_mem_map.mpr fun a ha => (h.each a ha).comma_not_mem)]
  exact mapM_eq_pure fun a ha => (h.each a ha).read_written_self _

theorem writable_of_read (h : Selector.read text = .ok s) : s.Writable := by
  have hread := Selector.read_eq_ok_iff.mp h
  constructor
  · intro hnone
    rw [hnone] at hread
    exact splitBy_ne_nil _ _ (List.forall₂_nil_right_iff.mp (mapM_eq_ok_iff.mp hread))
  · intro alternative halternative
    obtain ⟨piece, hpiece, hpart⟩ := of_mapM_ok hread alternative halternative
    obtain ⟨hne, hparts⟩ := Complex.read_eq_ok_iff.mp hpart
    refine ⟨hne, fun part hpart => ?_⟩
    obtain ⟨word, hword, hread⟩ := of_mapM_ok hparts part hpart
    exact Compound.writable_of_read (chars_of_mem_words hpiece hword) hread

/-- Writing and reading: a selector is read back from its text exactly if it can be written, and
what is read from any text can be written. -/
theorem reads_back_iff (s : Selector) :
    (Selector.read s.written = .ok s ↔ s.Writable) ∧
      (s.Writable ↔ ∃ text, Selector.read text = .ok s) :=
  ⟨⟨writable_of_read, Writable.read_written_self⟩,
    fun h => ⟨s.written, h.read_written_self⟩, fun ⟨_, h⟩ => writable_of_read h⟩

/-- Two alternatives with names of several scripts, and a value that looks like tests itself. -/
def assorted : Selector where
  alternatives := [
    ⟨[⟨some "λi", some "größe", ["b-1", "_"], []⟩,
      ⟨none, none, [], [⟨"[data", some "=[#a.b'c"⟩, ⟨"href", none⟩]⟩]⟩,
    ⟨[⟨none, none, [], []⟩]⟩]

example : assorted.written = "λi#größe.b-1._ *[[data==[#a.b'c][href],*" := by decide +kernel

theorem assorted_read_back : Selector.read assorted.written = .ok assorted :=
  (reads_back_iff assorted).1.mpr (by decide +kernel)

/-- Accepted are the texts whose alternatives have words, each laid out as a compound with all of
its tests closed or with the last one open behind one that is closed. Without a closed test in front
of it an open one is refused, and with one it is read as if it were closed. -/
theorem unclosed_only_behind_closed (text : String) :
    ((∃ s, Selector.read text = .ok s) ↔ ∀ alternative ∈ splitOn ',' text.toList,
      words alternative ≠ [] ∧ ∀ word ∈ words alternative,
        ∃ l : Layout, (∀ other : Layout, other.written = word ↔ other = l) ∧
          (l.unclosed = none ∨ l.ClosesTest)) ∧
    (∀ alternative ∈ splitOn ',' text.toList, ∀ l : Layout, l.written ∈ words alternative →
      l.unclosed ≠ none → ¬ l.ClosesTest → ∃ fault, Selector.read text = .error fault) ∧
    ∀ l : Layout, l.unclosed ≠ none →
      (Compound.read text l.written = .error (.unterminated text) ↔ ¬ l.ClosesTest) ∧
      (l.ClosesTest → Compound.read text l.written = .ok l.compound ∧
        Compound.read text l.closed.written = .ok l.compound) := by
  have haccepted : (∃ s, Selector.read text = .ok s) ↔ ∀ alternative ∈ splitOn ',' text.toList,
      words alternative ≠ [] ∧ ∀ word ∈ words alternative,
        ∃ l : Layout, (∀ other : Layout, other.written = word ↔ other = l) ∧
          (l.unclosed = none ∨ l.ClosesTest) := by
    rw [exists_read_iff]
    refine forall₂_congr fun alternative halternative => and_congr_right' ?_
    exact forall₂_congr fun word hword =>
      Compound.exists_read_iff (chars_of_mem_words halternative hword)
  refine ⟨haccepted, ?_, ?_⟩
  · intro alternative halternative l hword hclosed hcloses
    cases hread : Selector.read text with
    | error fault => exact ⟨fault, rfl⟩
    | ok s =>
      obtain ⟨l', hunique, hadmitted⟩ :=
        (haccepted.mp ⟨s, hread⟩ alternative halternative).2 _ hword
      obtain rfl := (hunique l).mp rfl
      exact absurd hadmitted (not_or.mpr ⟨hclosed, hcloses⟩)
  · intro l hclosed
    refine ⟨⟨?_, Compound.read_refused text hclosed⟩, fun hcloses => ⟨?_, ?_⟩⟩
    · intro hread hcloses
      rw [Compound.read_written text (.inr hcloses)] at hread
      cases hread
    · exact Compound.read_written text (.inr hcloses)
    · rw [← l.compound_closed]
      exact Compound.read_written text (.inl rfl)

def openLink : Layout :=
  ⟨.tag "a" (by decide +kernel), [], some ⟨⟨"href", none⟩, by decide +kernel⟩⟩

theorem openLink_refused : ∃ fault, Selector.read "a[href" = .error fault :=
  (unclosed_only_behind_closed "a[href").2.1 "a[href".toList (by decide +kernel) openLink
    (by decide +kernel) (Option.some_ne_none _) (by decide +kernel)

def halfOpen : Layout :=
  ⟨.nothing, [.attr ⟨"a", none⟩ (by decide +kernel)], some ⟨⟨"b", none⟩, by decide +kernel⟩⟩

/-- The second test is not closed and read all the same. -/
theorem halfOpen_read : halfOpen.written = "[a][b".toList ∧ halfOpen.unclosed ≠ none ∧
    Selector.read "[a][b" = .ok ⟨[⟨[⟨none, none, [], [⟨"a", none⟩, ⟨"b", none⟩]⟩]⟩]⟩ :=
  ⟨by decide +kernel, Option.some_ne_none _, by decide +kernel⟩

end Selector

end AttrChain
