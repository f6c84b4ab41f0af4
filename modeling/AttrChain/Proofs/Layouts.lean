import AttrChain.Proofs.Characters
import AttrChain.Selector.Printer
import Mathlib.Data.Option.Basic

/-!
How compounds are laid out: a tag, a star or nothing, then tests one behind the other, and at the
end perhaps an attribute test that is not closed. A compound is laid out in one way only.
-/

namespace AttrChain

open AttrChain.Text

section Names

variable {c : Char} {name : String}

theorem isTestChar_iff : isTestChar c = true ↔ (isBlank c = false ∧ c ≠ ',') ∧ c ≠ ']' := by
  simp [isTestChar, and_assoc]

/-- The characters that tests of compounds start with. -/
def testSigns : List Char := ['#', '.', '[']

theorem not_isSelectorChar_of_mem_testSigns (h : c ∈ testSigns) : isSelectorChar c = false := by
  have hall : testSigns.all (fun d => !isSelectorChar d) = true := by decide
  simpa using List.all_eq_true.mp hall c h

theorem isTestChar_of_isSelectorChar (h : isSelectorChar c = true) : isTestChar c = true :=
  isTestChar_iff.mpr
    ⟨⟨not_isBlank_of (by decide +kernel) h, ne_of_class h (by decide)⟩, ne_of_class h (by decide)⟩

theorem IsSelectorName.chars (h : IsSelectorName name) :
    ∀ c ∈ name.toList, isTestChar c = true :=
  fun c hc => isTestChar_of_isSelectorChar (h.2 c hc)

theorem IsSelectorName.ne_nil (h : IsSelectorName name) : name.toList ≠ [] :=
  fun hnil => h.1 (String.toList_inj.mp hnil)

theorem isSelectorName_ofList {cs : List Char} (hne : cs ≠ [])
    (h : ∀ c ∈ cs, isSelectorChar c = true) : IsSelectorName (String.ofList cs) := by
  refine ⟨?_, by rwa [String.toList_ofList]⟩
  intro hempty
  exact hne (by rw [← String.toList_ofList (l := cs), hempty]; rfl)

end Names

section Bodies

variable {body name : List Char} {value : Option (List Char)}

theorem cutEquals_eq_iff : cutEquals body = (name, value) ↔
    '=' ∉ name ∧ body = name ++ (value.map ('=' :: ·)).getD [] := by
  induction body generalizing name with
  | nil =>
    rw [cutEquals, Prod.mk.injEq]
    constructor
    · rintro ⟨rfl, rfl⟩
      exact ⟨List.not_mem_nil, rfl⟩
    · rintro ⟨-, h⟩
      obtain ⟨hname, hvalue⟩ := List.append_eq_nil_iff.mp h.symm
      cases value with
      | none => exact ⟨hname.symm, rfl⟩
      | some v => cases hvalue
  | cons c rest ih =>
    rw [cutEquals]
    by_cases hc : c = '='
    · subst hc
      rw [if_pos rfl, Prod.mk.injEq]
      constructor
      · rintro ⟨rfl, rfl⟩
        exact ⟨List.not_mem_nil, rfl⟩
      · rintro ⟨hname, h⟩
        cases name with
        | cons d name =>
          cases h
          exact absurd List.mem_cons_self hname
        | nil =>
          cases value with
          | none => cases h
          | some v =>
            cases h
            exact ⟨rfl, rfl⟩
    · rw [if_neg hc]
      obtain ⟨first, second, hcut⟩ : ∃ first second, cutEquals rest = (first, second) := ⟨_, _, rfl⟩
      rw [hcut, Prod.mk.injEq]
      constructor
      · rintro ⟨rfl, rfl⟩
        obtain ⟨hname, rfl⟩ := ih.mp hcut
        exact ⟨List.not_mem_cons_of_ne_of_not_mem (Ne.symm hc) hname, rfl⟩
      · rintro ⟨hname, h⟩
        cases name with
        | nil =>
          cases value with
          | none => cases h
          | some v =>
            cases h
            exact absurd rfl hc
        | cons d name =>
          cases h
          have hrest := ih.mpr ⟨List.not_mem_of_not_mem_cons hname, rfl⟩
          rw [hcut] at hrest
          cases hrest
          exact ⟨rfl, rfl⟩

end Bodies

namespace AttrTest

variable {t : AttrTest}

theorem Spelled.body_chars (h : t.Spelled) : ∀ c ∈ t.body, isTestChar c = true := by
  intro c hc
  rcases List.mem_append.mp hc with hname | hvalue
  · exact (h.nameChars c hname).1
  · cases hv : t.value with
    | none =>
      rw [hv] at hvalue
      cases hvalue
    | some v =>
      rw [hv] at hvalue
      rcases List.mem_cons.mp hvalue with rfl | hc
      · decide
      · exact h.valueChars v hv c hc

theorem Spelled.ne_close (h : t.Spelled) : ∀ c ∈ t.body, (c != ']') = true := fun c hc =>
  bne_iff_ne.mpr (isTestChar_iff.mp (h.body_chars c hc)).2

theorem Spelled.close_not_mem (h : t.Spelled) : ']' ∉ t.body :=
  fun hmem => absurd (h.ne_close _ hmem) (by decide)

theorem Spelled.cutEquals_body (h : t.Spelled) :
    cutEquals t.body = (t.name.toList, t.value.map String.toList) := by
  refine cutEquals_eq_iff.mpr ⟨fun hmem => (h.nameChars _ hmem).2 rfl, ?_⟩
  rw [body, Option.map_map]
  rfl

end AttrTest

/-- What stands in front of the tests of a compound. -/
inductive Lead where
  | nothing
  | star
  | tag (name : String) (named : IsSelectorName name)

namespace Lead

def written : Lead → List Char
  | nothing => []
  | star => ['*']
  | tag name _ => name.toList

def tag? : Lead → Option String
  | tag name _ => some name
  | _ => none

end Lead

inductive Simple where
  | id (name : String) (named : IsSelectorName name)
  | ofClass (name : String) (named : IsSelectorName name)
  | attr (test : AttrTest) (spelled : test.Spelled)

namespace Simple

def written : Simple → List Char
  | id name _ => '#' :: name.toList
  | ofClass name _ => '.' :: name.toList
  | attr test _ => test.written

/-- The compound with one more test. Of identifiers it keeps the last one. -/
def addTo (c : Compound) : Simple → Compound
  | id name _ => { c with id := some name }
  | ofClass name _ => { c with classes := c.classes ++ [name] }
  | attr test _ => { c with attrs := c.attrs ++ [test.unquoted] }

def isAttr : Simple → Bool
  | attr _ _ => true
  | _ => false

end Simple

/-- A way to lay out a compound: what it starts with, its tests, and an attribute test at the end
that is not closed. -/
structure Layout where
  lead : Lead
  tests : List Simple
  unclosed : Option { t : AttrTest // t.Spelled }

namespace Layout

def ending (l : Layout) : List Char := (l.unclosed.map fun t => '[' :: t.1.body).getD []

def testing (l : Layout) : List Char := l.tests.flatMap Simple.written ++ l.ending

def written (l : Layout) : List Char := l.lead.written ++ l.testing

def closed (l : Layout) : Layout where
  lead := l.lead
  tests := l.tests ++ l.unclosed.toList.map fun t => .attr t.1 t.2
  unclosed := none

def compound (l : Layout) : Compound :=
  l.closed.tests.foldl Simple.addTo ⟨l.lead.tag?, none, [], []⟩

def ClosesTest (l : Layout) : Prop := ∃ t ∈ l.tests, t.isAttr = true

instance (l : Layout) : Decidable l.ClosesTest :=
  inferInstanceAs (Decidable (∃ t ∈ l.tests, t.isAttr = true))

end Layout

namespace Simple

variable {t : Simple} {rest : List Char}

theorem head_written (t : Simple) : ∀ c ∈ t.written.head?, c ∈ testSigns := by
  cases t <;> (rintro c ⟨⟩; decide)

theorem written_ne_nil (t : Simple) : t.written ≠ [] := by
  cases t <;> exact List.cons_ne_nil _ _

/-- Behind a name there is no more of it where tests follow. -/
theorem head_texts {tests : List Simple} (hrest : ∀ c ∈ rest.head?, c ∈ testSigns) :
    ∀ c ∈ (tests.flatMap written ++ rest).head?, c ∈ testSigns := by
  cases tests with
  | nil => exact hrest
  | cons t tests =>
    intro c hc
    obtain ⟨d, cs, hcs⟩ := List.exists_cons_of_ne_nil t.written_ne_nil
    rw [List.flatMap_cons, hcs] at hc
    exact t.head_written c (by rw [hcs]; exact hc)

theorem close_mem_written_iff : ']' ∈ t.written ↔ t.isAttr = true := by
  have hnamed {name : String} (h : IsSelectorName name) : ']' ∉ name.toList :=
    fun hmem => (isTestChar_iff.mp (h.chars _ hmem)).2 rfl
  cases t with
  | id name h => simp [written, isAttr, hnamed h]
  | ofClass name h => simp [written, isAttr, hnamed h]
  | attr => simp [written, isAttr, AttrTest.written]

theorem chars_written (t : Simple) : ∀ c ∈ t.written, isBlank c = false ∧ c ≠ ',' := by
  cases t with
  | id name h =>
    exact List.forall_mem_cons.mpr ⟨by decide, fun c hc => (isTestChar_iff.mp (h.chars c hc)).1⟩
  | ofClass name h =>
    exact List.forall_mem_cons.mpr ⟨by decide, fun c hc => (isTestChar_iff.mp (h.chars c hc)).1⟩
  | attr t h =>
    have hbody : ∀ c ∈ t.body, isBlank c = false ∧ c ≠ ',' := fun c hc =>
      (isTestChar_iff.mp (h.body_chars c hc)).1
    exact List.forall_mem_cons.mpr
      ⟨by decide, List.forall_mem_append.mpr ⟨hbody, List.forall_mem_singleton.mpr (by decide)⟩⟩

end Simple

namespace Layout

variable {l : Layout}

theorem compound_closed (l : Layout) : l.closed.compound = l.compound := by
  have htests : l.closed.closed.tests = l.closed.tests := List.append_nil _
  rw [compound, htests]
  rfl

theorem head_ending (l : Layout) : ∀ c ∈ l.ending.head?, c ∈ testSigns := by
  rw [ending]
  cases l.unclosed with
  | none => rintro c ⟨⟩
  | some t => rintro c ⟨⟩; decide

theorem head_testing (l : Layout) : ∀ c ∈ l.testing.head?, c ∈ testSigns :=
  Simple.head_texts l.head_ending

theorem length_closed_le (l : Layout) : l.closed.tests.length ≤ l.testing.length := by
  have htests : l.tests.length ≤ (l.tests.flatMap Simple.written).length := by
    induction l.tests with
    | nil => exact Nat.zero_le _
    | cons t tests ih =>
      have hpos := List.length_pos_iff.mpr t.written_ne_nil
      rw [List.flatMap_cons, List.length_append, List.length_cons]
      omega
  rw [closed, testing, ending, List.length_append, List.length_append]
  cases l.unclosed with
  | none => exact htests
  | some t => exact Nat.add_le_add htests (Nat.succ_le_succ (Nat.zero_le _))

theorem close_mem_written_iff : ']' ∈ l.written ↔ l.ClosesTest := by
  have hlead : ']' ∉ l.lead.written := by
    cases l.lead with
    | nothing => exact List.not_mem_nil
    | star => decide
    | tag name h => exact fun hmem => (isTestChar_iff.mp (h.chars _ hmem)).2 rfl
  have hending : ']' ∉ l.ending := by
    rw [ending]
    cases l.unclosed with
    | none => exact List.not_mem_nil
    | some t => exact List.not_mem_cons_of_ne_of_not_mem (by decide) t.2.close_not_mem
  rw [written, testing, List.mem_append, List.mem_append, or_iff_right hlead, or_iff_left hending,
    List.mem_flatMap]
  simp only [Simple.close_mem_written_iff]
  rfl

theorem chars_written (l : Layout) : ∀ c ∈ l.written, isBlank c = false ∧ c ≠ ',' := by
  have hlead : ∀ c ∈ l.lead.written, isBlank c = false ∧ c ≠ ',' := by
    cases l.lead with
    | nothing => exact fun _ hc => nomatch hc
    | star => exact List.forall_mem_singleton.mpr (by decide)
    | tag name h => exact fun c hc => (isTestChar_iff.mp (h.chars c hc)).1
  have htests : ∀ c ∈ l.tests.flatMap Simple.written, isBlank c = false ∧ c ≠ ',' := by
    intro c hc
    obtain ⟨t, -, hc⟩ := List.mem_flatMap.mp hc
    exact t.chars_written c hc
  have hending : ∀ c ∈ l.ending, isBlank c = false ∧ c ≠ ',' := by
    rw [ending]
    cases l.unclosed with
    | none => exact fun _ hc => nomatch hc
    | some t =>
      exact List.forall_mem_cons.mpr
        ⟨by decide, fun c hc => (isTestChar_iff.mp (t.2.body_chars c hc)).1⟩
  exact List.forall_mem_append.mpr ⟨hlead, List.forall_mem_append.mpr ⟨htests, hending⟩⟩

end Layout

section Reading

variable {p : Char → Bool} {cs ds rest more : List Char} {name other : String}

/-- Behind two runs of one class, both ended, texts that are equal go on alike. -/
theorem append_inj_of_class (hcs : ∀ c ∈ cs, p c = true) (hds : ∀ c ∈ ds, p c = true)
    (hrest : ∀ c ∈ rest.head?, p c = false) (hmore : ∀ c ∈ more.head?, p c = false)
    (h : cs ++ rest = ds ++ more) : cs = ds ∧ rest = more := by
  obtain ⟨htake, hdrop⟩ := takeWhile_dropWhile_append hcs hrest
  obtain ⟨htake', hdrop'⟩ := takeWhile_dropWhile_append hds hmore
  exact ⟨by rw [← htake, h, htake'], by rw [← hdrop, h, hdrop']⟩

theorem name_append_inj (hname : IsSelectorName name) (hother : IsSelectorName other)
    (hrest : ∀ c ∈ rest.head?, c ∈ testSigns) (hmore : ∀ c ∈ more.head?, c ∈ testSigns)
    (h : name.toList ++ rest = other.toList ++ more) : name = other ∧ rest = more := by
  obtain ⟨hnames, hends⟩ := append_inj_of_class hname.2 hother.2
    (fun c hc => not_isSelectorChar_of_mem_testSigns (hrest c hc))
    (fun c hc => not_isSelectorChar_of_mem_testSigns (hmore c hc)) h
  exact ⟨String.toList_inj.mp hnames, hends⟩

end Reading

namespace AttrTest

theorem Spelled.body_inj {t u : AttrTest} (ht : t.Spelled) (hu : u.Spelled) (h : t.body = u.body) :
    t = u := by
  have hcut := ht.cutEquals_body.symm.trans ((congrArg cutEquals h).trans hu.cutEquals_body)
  obtain ⟨hname, hvalue⟩ := Prod.mk.inj hcut
  obtain ⟨name, value⟩ := t
  obtain rfl : name = u.name := String.toList_inj.mp hname
  obtain rfl : value = u.value :=
    Option.map_injective (fun _ _ => String.toList_inj.mp) hvalue
  rfl

end AttrTest

namespace Simple

theorem written_append_inj {t u : Simple} {rest more : List Char}
    (hrest : ∀ c ∈ rest.head?, c ∈ testSigns) (hmore : ∀ c ∈ more.head?, c ∈ testSigns)
    (h : t.written ++ rest = u.written ++ more) : t = u ∧ rest = more := by
  -- the first signs are equal, so the tests are of one kind
  have hsign : t.written.head? = u.written.head? := by
    obtain ⟨c, cs, ht⟩ := List.exists_cons_of_ne_nil t.written_ne_nil
    obtain ⟨d, ds, hu⟩ := List.exists_cons_of_ne_nil u.written_ne_nil
    rw [ht, hu] at h ⊢
    exact congrArg some (List.cons.inj h).1
  cases t with
  | id name ht =>
    cases u with
    | id other hu =>
      obtain ⟨rfl, hends⟩ := name_append_inj ht hu hrest hmore (List.cons.inj h).2
      exact ⟨rfl, hends⟩
    | ofClass => cases hsign
    | attr => cases hsign
  | ofClass name ht =>
    cases u with
    | id => cases hsign
    | ofClass other hu =>
      obtain ⟨rfl, hends⟩ := name_append_inj ht hu hrest hmore (List.cons.inj h).2
      exact ⟨rfl, hends⟩
    | attr => cases hsign
  | attr test ht =>
    cases u with
    | id => cases hsign
    | ofClass => cases hsign
    | attr other hu =>
      have hclose {cs : List Char} : ∀ c ∈ (']' :: cs).head?, (c != ']') = false := by
        rintro c ⟨⟩
        rfl
      simp only [written, AttrTest.written, List.cons_append, List.append_assoc, List.nil_append,
        List.cons.injEq, true_and] at h
      obtain ⟨hbodies, hends⟩ := append_inj_of_class ht.ne_close hu.ne_close hclose hclose h
      obtain rfl := ht.body_inj hu hbodies
      exact ⟨rfl, (List.cons.inj hends).2⟩

end Simple

namespace Layout

variable {tests tests' : List Simple} {unclosed unclosed' : Option { t : AttrTest // t.Spelled }}

/-- A test that is not closed is no row of tests with a closed one in it. -/
theorem ending_ne_written (l : Layout) (t : Simple) (rest : List Char) :
    l.ending ≠ t.written ++ rest := by
  intro h
  rw [ending] at h
  cases hu : l.unclosed with
  | none =>
    rw [hu] at h
    exact t.written_ne_nil (List.append_eq_nil_iff.mp h.symm).1
  | some u =>
    rw [hu] at h
    have hno : ']' ∉ '[' :: u.1.body :=
      List.not_mem_cons_of_ne_of_not_mem (by decide) u.2.close_not_mem
    cases t with
    | id => cases h
    | ofClass => cases h
    | attr test ht =>
      have hmem : ']' ∈ (Simple.attr test ht).written ++ rest :=
        List.mem_append_left _ (Simple.close_mem_written_iff.mpr rfl)
      rw [← h] at hmem
      exact hno hmem

theorem testing_inj {lead lead' : Lead}
    (h : testing ⟨lead, tests, unclosed⟩ = testing ⟨lead', tests', unclosed'⟩) :
    tests = tests' ∧ unclosed = unclosed' := by
  induction tests generalizing tests' with
  | nil =>
    cases tests' with
    | nil =>
      refine ⟨rfl, ?_⟩
      cases unclosed with
      | none =>
        cases unclosed' with
        | none => rfl
        | some u => cases h
      | some t =>
        cases unclosed' with
        | none => cases h
        | some u => exact congrArg some (Subtype.ext (t.2.body_inj u.2 (List.cons.inj h).2))
    | cons u tests' =>
      rw [testing, testing, List.flatMap_nil, List.nil_append, List.flatMap_cons,
        List.append_assoc] at h
      exact absurd h (ending_ne_written _ u _)
  | cons t tests ih =>
    cases tests' with
    | nil =>
      rw [testing, testing, List.flatMap_nil, List.nil_append, List.flatMap_cons,
        List.append_assoc] at h
      exact absurd h.symm (ending_ne_written _ t _)
    | cons u tests' =>
      rw [testing, testing, List.flatMap_cons, List.flatMap_cons, List.append_assoc,
        List.append_assoc] at h
      obtain ⟨rfl, hends⟩ := Simple.written_append_inj (head_testing ⟨lead, tests, unclosed⟩)
        (head_testing ⟨lead', tests', unclosed'⟩) h
      obtain ⟨rfl, rfl⟩ := ih hends
      exact ⟨rfl, rfl⟩

/-- The first character tells the leads apart: a star, a character of a name, or the first one of a
test. -/
theorem lead_append_inj {lead lead' : Lead} {rest more : List Char}
    (hrest : ∀ c ∈ rest.head?, c ∈ testSigns) (hmore : ∀ c ∈ more.head?, c ∈ testSigns)
    (h : lead.written ++ rest = lead'.written ++ more) : lead = lead' ∧ rest = more := by
  have hstar {cs : List Char} (hcs : ∀ c ∈ cs.head?, c ∈ testSigns) {ds : List Char}
      (h : cs = '*' :: ds) : False := absurd (hcs '*' (by rw [h]; rfl)) (by decide)
  have hnamed {name : String} (hname : IsSelectorName name) {cs ds : List Char}
      (hcs : ∀ c ∈ cs.head?, isSelectorChar c = false) (h : cs = name.toList ++ ds) : False := by
    obtain ⟨d, name', hd⟩ := List.exists_cons_of_ne_nil hname.ne_nil
    have hfirst : isSelectorChar d = true := hname.2 d (hd ▸ List.mem_cons_self)
    have hnot := hcs d (by rw [h, hd]; rfl)
    exact absurd hfirst (ne_true_of_eq_false hnot)
  have hclass {cs : List Char} (hcs : ∀ c ∈ cs.head?, c ∈ testSigns) :
      ∀ c ∈ cs.head?, isSelectorChar c = false := fun c hc =>
    not_isSelectorChar_of_mem_testSigns (hcs c hc)
  have hstarred {cs : List Char} : ∀ c ∈ ('*' :: cs).head?, isSelectorChar c = false := by
    rintro c ⟨⟩
    decide
  cases lead with
  | nothing =>
    cases lead' with
    | nothing => exact ⟨rfl, h⟩
    | star => exact (hstar hrest h).elim
    | tag name hname => exact (hnamed hname (hclass hrest) h).elim
  | star =>
    cases lead' with
    | nothing => exact (hstar hmore h.symm).elim
    | star => exact ⟨rfl, (List.cons.inj h).2⟩
    | tag name hname => exact (hnamed hname hstarred h).elim
  | tag name hname =>
    cases lead' with
    | nothing => exact (hnamed hname (hclass hmore) h.symm).elim
    | star => exact (hnamed hname hstarred h.symm).elim
    | tag other hother =>
      obtain ⟨rfl, hends⟩ := name_append_inj hname hother hrest hmore h
      exact ⟨rfl, hends⟩

/-- A compound is laid out in one way: what stands in front, each test and whether the last one is
closed can be told from the text. -/
theorem written_injective : Function.Injective written := by
  rintro ⟨lead, tests, unclosed⟩ ⟨lead', tests', unclosed'⟩ h
  obtain ⟨rfl, htesting⟩ := lead_append_inj (head_testing _) (head_testing _) h
  obtain ⟨rfl, rfl⟩ := testing_inj htesting
  rfl

end Layout

end AttrChain
