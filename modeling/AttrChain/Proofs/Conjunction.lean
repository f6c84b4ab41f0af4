import AttrChain.Proofs.Selectors

/-!
What compounds mean. A compound matches an element if its tag fits and each test written in it
matches the element on its own, except that of several identifiers only the last one counts.
-/

namespace AttrChain

open AttrChain.Text

namespace Lead

def Fits (lead : Lead) (e : Element) : Prop := ∀ tag ∈ lead.tag?, foldCase tag = foldCase e.tag

end Lead

namespace Simple

def isId : Simple → Bool
  | id _ _ => true
  | _ => false

def holds (e : Element) : Simple → Bool
  | id name _ => e.id == some name
  | ofClass name _ => e.hasClass name
  | attr test _ => test.unquoted.passes e

/-- Whether the test matches an element as a selector of its own. -/
def Selects (t : Simple) (e : Element) : Prop :=
  ∃ s, Selector.read (String.ofList t.written) = .ok s ∧ s.matchesPath [e] = true

/-- Whether the test counts with others behind it: an identifier does if it is the last one. -/
def Counts (t : Simple) (after : List Simple) : Prop :=
  t.isId = true → ∀ u ∈ after, u.isId = false

end Simple

namespace Compound

variable {c : Compound} {e : Element}

theorem passes_iff : c.passes e = true ↔ (∀ tag ∈ c.tag, foldCase tag = foldCase e.tag) ∧
    (∀ id ∈ c.id, e.id = some id) ∧ (∀ name ∈ c.classes, e.hasClass name = true) ∧
      ∀ t ∈ c.attrs, t.passes e = true := by
  simp [passes, Option.all_eq_true, and_assoc]

theorem passes_iff_id : c.passes e = true ↔
    { c with id := none }.passes e = true ∧ ∀ id ∈ c.id, e.id = some id := by
  rw [passes_iff, passes_iff]
  constructor
  · rintro ⟨htag, hid, hrest⟩
    refine ⟨⟨htag, ?_, hrest⟩, hid⟩
    rintro _ ⟨⟩
  · rintro ⟨⟨htag, -, hrest⟩, hid⟩
    exact ⟨htag, hid, hrest⟩

theorem passes_addTo {t : Simple} (h : t.isId = false) :
    (t.addTo c).passes e = true ↔ c.passes e = true ∧ t.holds e = true := by
  cases t with
  | id => cases h
  | ofClass name =>
    simp only [passes_iff, Simple.addTo, Simple.holds, List.forall_mem_append,
      List.forall_mem_singleton]
    constructor
    · rintro ⟨htag, hid, ⟨hclasses, hheld⟩, hattrs⟩
      exact ⟨⟨htag, hid, hclasses, hattrs⟩, hheld⟩
    · rintro ⟨⟨htag, hid, hclasses, hattrs⟩, hheld⟩
      exact ⟨htag, hid, ⟨hclasses, hheld⟩, hattrs⟩
  | attr test =>
    simp only [passes_iff, Simple.addTo, Simple.holds, List.forall_mem_append,
      List.forall_mem_singleton, and_assoc]

end Compound

namespace Simple

variable {t u : Simple} {tests : List Simple} {c : Compound} {e : Element}

theorem addTo_of_isId (h : t.isId = true) :
    { t.addTo c with id := none } = { c with id := none } ∧
      ((∀ id ∈ (t.addTo c).id, e.id = some id) ↔ t.holds e = true) := by
  cases t with
  | id name => simp [addTo, holds]
  | ofClass => cases h
  | attr => cases h

theorem addTo_of_not_isId (h : t.isId = false) :
    { t.addTo c with id := none } = t.addTo { c with id := none } ∧ (t.addTo c).id = c.id := by
  cases t with
  | id => cases h
  | ofClass => exact ⟨rfl, rfl⟩
  | attr => exact ⟨rfl, rfl⟩

theorem forall_suffix_cons {P : Simple → List Simple → Prop} :
    (∀ t after, t :: after <:+ u :: tests → P t after) ↔
      P u tests ∧ ∀ t after, t :: after <:+ tests → P t after := by
  simp only [List.suffix_cons_iff, List.cons.injEq]
  constructor
  · intro h
    exact ⟨h u tests (.inl ⟨rfl, rfl⟩), fun t after hsuffix => h t after (.inr hsuffix)⟩
  · rintro ⟨hu, htests⟩ t after (⟨rfl, rfl⟩ | hsuffix)
    · exact hu
    · exact htests t after hsuffix

/-- A compound with tests added to it asks for what it asked for, though for its identifier only if
none is added, and for the tests that count. -/
theorem passes_foldl : (tests.foldl addTo c).passes e = true ↔
    { c with id := none }.passes e = true ∧
      ((∀ u ∈ tests, u.isId = false) → ∀ id ∈ c.id, e.id = some id) ∧
      ∀ (t : Simple) (after), t :: after <:+ tests → t.Counts after → t.holds e = true := by
  induction tests generalizing c with
  | nil =>
    have hnone (t : Simple) (after) (h : t :: after <:+ []) : t.Counts after → t.holds e = true :=
      absurd (List.suffix_nil.mp h) (List.cons_ne_nil _ _)
    rw [List.foldl_nil, Compound.passes_iff_id]
    exact ⟨fun ⟨hpass, hid⟩ => ⟨hpass, fun _ => hid, hnone⟩,
      fun ⟨hpass, hid, _⟩ => ⟨hpass, hid (List.forall_mem_nil _)⟩⟩
  | cons t tests ih =>
    rw [List.foldl_cons, ih, forall_suffix_cons, List.forall_mem_cons]
    -- an identifier takes the place of the one of `c`, another test leaves it to the later ones
    cases hid : t.isId with
    | true =>
      obtain ⟨hwithout, hholds⟩ := addTo_of_isId (c := c) (e := e) hid
      rw [hwithout, hholds, Counts]
      simp only [hid, Bool.true_eq_false, false_and, false_implies, true_implies, true_and]
    | false =>
      obtain ⟨hwithout, hsame⟩ := addTo_of_not_isId (c := c) hid
      rw [hwithout, hsame, Compound.passes_addTo hid, Counts]
      simp only [hid, Bool.false_eq_true, false_implies, true_implies, true_and]
      exact ⟨fun ⟨⟨hpass, ht⟩, hrest⟩ => ⟨hpass, hrest.1, ht, hrest.2⟩,
        fun ⟨hpass, hclear, ht, hrest⟩ => ⟨⟨hpass, ht⟩, hclear, hrest⟩⟩

/-- Behind each test one counts that is the same, or an identifier as well. -/
theorem exists_counting (h : t ∈ tests) : ∃ u after, u :: after <:+ tests ∧ u.Counts after ∧
    (t = u ∨ t.isId = true ∧ u.isId = true) := by
  induction tests generalizing t with
  | nil => cases h
  | cons v tests ih =>
    have hlater {t : Simple} (ht : t ∈ tests) : ∃ u after, u :: after <:+ v :: tests ∧
        u.Counts after ∧ (t = u ∨ t.isId = true ∧ u.isId = true) := by
      obtain ⟨u, after, hsuffix, hu⟩ := ih ht
      exact ⟨u, after, hsuffix.trans (List.suffix_cons v tests), hu⟩
    rcases List.mem_cons.mp h with rfl | ht
    · by_cases hcounts : t.Counts tests
      · exact ⟨t, tests, List.suffix_rfl, hcounts, .inl rfl⟩
      · obtain ⟨hid, w, hw, hwid⟩ : t.isId = true ∧ ∃ w ∈ tests, w.isId = true := by
          simpa [Counts] using hcounts
        obtain ⟨u, after, hsuffix, hu, hsame⟩ := hlater hw
        refine ⟨u, after, hsuffix, hu, .inr ⟨hid, ?_⟩⟩
        rcases hsame with rfl | ⟨-, huid⟩
        · exact hwid
        · exact huid
    · exact hlater ht

theorem eq_of_holds (ht : t.isId = true) (hu : u.isId = true) (hholds : t.holds e = true)
    (hholds' : u.holds e = true) : t = u := by
  cases t with
  | ofClass => cases ht
  | attr => cases ht
  | id name =>
    cases u with
    | ofClass => cases hu
    | attr => cases hu
    | id other =>
      have hname : e.id = some name := beq_iff_eq.mp hholds
      have hother : e.id = some other := beq_iff_eq.mp hholds'
      obtain rfl : name = other := Option.some.inj (hname.symm.trans hother)
      rfl

end Simple

namespace Layout

variable {l : Layout} {e : Element}

theorem read_alone (hclosed : l.unclosed = none) (hne : l.written ≠ []) :
    Selector.read (String.ofList l.written) = .ok ⟨[⟨[l.compound]⟩]⟩ := by
  have hword : words l.written = [l.written] := by
    have hwords : words ([' '].intercalate [l.written]) = [l.written] :=
      words_intercalate (List.forall_mem_singleton.mpr
        ⟨hne, fun c hc => (l.chars_written c hc).1⟩)
    rwa [List.intercalate_singleton] at hwords
  have hcomma : ',' ∉ l.written := fun hmem => (l.chars_written _ hmem).2 rfl
  rw [Selector.read_eq_ok_iff, String.toList_ofList, splitOn_of_not_mem hcomma, mapM_eq_ok_iff]
  refine .cons (Complex.read_eq_ok_iff.mpr ⟨List.cons_ne_nil _ _, ?_⟩) .nil
  rw [hword, mapM_eq_ok_iff]
  exact .cons (Compound.read_written _ (.inl hclosed)) .nil

theorem matchesPath_alone (c : Compound) (e : Element) (ancestors : List Element) :
    (Selector.mk [⟨[c]⟩]).matchesPath (e :: ancestors) = c.passes e := by
  simp [Selector.matchesPath, Complex.matchesPath, Compound.climb]

theorem passes_compound (hclosed : l.unclosed = none) :
    l.compound.passes e = true ↔ l.lead.Fits e ∧
      ∀ (t : Simple) (after), t :: after <:+ l.tests → t.Counts after → t.holds e = true := by
  have htests : l.closed.tests = l.tests := by
    rw [closed, hclosed, Option.toList_none, List.map_nil, List.append_nil]
  have hlead : (Compound.mk l.lead.tag? none [] []).passes e = true ↔ l.lead.Fits e := by
    rw [Compound.passes_iff]
    constructor
    · rintro ⟨htag, -⟩
      exact htag
    · intro htag
      refine ⟨htag, ?_, List.forall_mem_nil _, List.forall_mem_nil _⟩
      rintro _ ⟨⟩
  rw [compound, htests, Simple.passes_foldl, hlead]
  refine and_congr_right fun _ => and_iff_right ?_
  rintro - _ ⟨⟩

end Layout

theorem Simple.exists_read (t : Simple) : ∃ s, Selector.read (String.ofList t.written) = .ok s ∧
    ∀ e ancestors, s.matchesPath (e :: ancestors) = t.holds e := by
  have hwritten : t.written = (Layout.mk .nothing [t] none).written := by
    simp [Layout.written, Layout.testing, Layout.ending, Lead.written]
  have hread := Layout.read_alone (l := ⟨.nothing, [t], none⟩) rfl (hwritten ▸ t.written_ne_nil)
  rw [← hwritten] at hread
  refine ⟨_, hread, fun e ancestors => ?_⟩
  rw [Layout.matchesPath_alone, Bool.eq_iff_iff, Layout.passes_compound rfl,
    Simple.forall_suffix_cons]
  constructor
  · rintro ⟨-, h, -⟩
    exact h fun _ => List.forall_mem_nil _
  · intro h
    refine ⟨?_, fun _ => h, ?_⟩
    · rintro _ ⟨⟩
    · intro u after hsuffix
      exact absurd (List.suffix_nil.mp hsuffix) (List.cons_ne_nil _ _)

theorem Simple.selects_iff {t : Simple} {e : Element} : t.Selects e ↔ t.holds e = true := by
  obtain ⟨s, hread, hmatches⟩ := t.exists_read
  rw [← hmatches e []]
  constructor
  · rintro ⟨s', hs', hmatch⟩
    cases hread.symm.trans hs'
    exact hmatch
  · exact fun hmatch => ⟨s, hread, hmatch⟩

/-- A compound matches an element if its tag fits and its tests each match on their own, but for
identifiers that another one follows. All of its tests match on their own if moreover only one
identifier is written in it, as often as it may be. -/
theorem Layout.conjunction_but_earlier_ids (l : Layout) (hclosed : l.unclosed = none)
    (hne : l.written ≠ []) : ∃ s, Selector.read (String.ofList l.written) = .ok s ∧ ∀ e : Element,
      (s.matchesPath [e] = true ↔ l.lead.Fits e ∧
        ∀ (t : Simple) (after), t :: after <:+ l.tests → t.Counts after → t.Selects e) ∧
      ((l.lead.Fits e ∧ ∀ t ∈ l.tests, t.Selects e) ↔ s.matchesPath [e] = true ∧
        ∀ t ∈ l.tests, ∀ u ∈ l.tests, t.isId = true → u.isId = true → t = u) := by
  refine ⟨_, read_alone hclosed hne, fun e => ?_⟩
  have hmatches := passes_compound (e := e) hclosed
  simp only [matchesPath_alone, Simple.selects_iff]
  refine ⟨hmatches, ?_, ?_⟩
  · rintro ⟨hfits, hall⟩
    refine ⟨hmatches.mpr ⟨hfits, fun t after hsuffix _ => ?_⟩, ?_⟩
    · exact hall t (hsuffix.mem List.mem_cons_self)
    · intro t ht u hu hid hid'
      exact Simple.eq_of_holds hid hid' (hall t ht) (hall u hu)
  · rintro ⟨hpass, hsame⟩
    obtain ⟨hfits, hcounting⟩ := hmatches.mp hpass
    refine ⟨hfits, fun t ht => ?_⟩
    obtain ⟨u, after, hsuffix, hcounts, htu⟩ := Simple.exists_counting ht
    have hu := hcounting u after hsuffix hcounts
    rcases htu with rfl | ⟨hid, hid'⟩
    · exact hu
    · rw [hsame t ht u (hsuffix.mem List.mem_cons_self) hid hid']
      exact hu

def twiceNamed : Layout :=
  ⟨.tag "li" (by decide +kernel),
    [.id "top" (by decide +kernel), .ofClass "on" (by decide +kernel),
      .id "top" (by decide +kernel), .attr ⟨"k", some "'1'"⟩ (by decide +kernel)], none⟩

theorem twiceNamed_conjunction : ∃ s, Selector.read "li#top.on#top[k='1']" = .ok s ∧
    ∀ e : Element, (s.matchesPath [e] = true ↔
      twiceNamed.lead.Fits e ∧ ∀ t ∈ twiceNamed.tests, t.Selects e) := by
  obtain ⟨s, hread, h⟩ := twiceNamed.conjunction_but_earlier_ids rfl (by decide +kernel)
  have hwritten : String.ofList twiceNamed.written = "li#top.on#top[k='1']" := by decide +kernel
  rw [hwritten] at hread
  refine ⟨s, hread, fun e => ?_⟩
  rw [(h e).2]
  refine iff_self_and.mpr fun _ => ?_
  simp [twiceNamed, Simple.isId]

def twoNames : Layout :=
  ⟨.nothing, [.id "top" (by decide +kernel), .id "end" (by decide +kernel)], none⟩

/-- The selector matches an element with the second identifier, which the first one does not. -/
theorem twoNames_matched : twoNames.written = "#top#end".toList ∧
    ∃ s e, Selector.read "#top#end" = .ok s ∧ s.matchesPath [e] = true ∧
      ∃ t ∈ twoNames.tests, ¬ t.Selects e := by
  refine ⟨by decide +kernel, ⟨[⟨[⟨none, some "end", [], []⟩]⟩]⟩,
    ⟨"p", some "end", fun _ => false, fun _ => none⟩, by decide +kernel, by decide +kernel,
    .id "top" (by decide +kernel), List.mem_cons_self, ?_⟩
  rw [Simple.selects_iff]
  decide

end AttrChain
