import AttrChain.Proofs.Items
import Mathlib.Data.List.Basic

/-!
Which texts are events. A text is read as an event if and only if it is spelled as one: a mark or
none, a name, and perhaps any text in parentheses behind the name. It is spelled so in one way only,
and what is read has a text of its own that is read as the same.
-/

namespace AttrChain

open AttrChain.Text

inductive Mark where
  | plain
  | once
  | stored
  deriving DecidableEq

namespace Mark

def chars : Mark → List Char
  | plain => []
  | once => ['^']
  | stored => ['@']

def cut : List Char → Mark × List Char
  | '^' :: rest => (once, rest)
  | '@' :: rest => (stored, rest)
  | cs => (plain, cs)

theorem chars_cut (cs : List Char) : (cut cs).1.chars ++ (cut cs).2 = cs := by
  unfold cut
  split <;> rfl

theorem cut_chars (m : Mark) {cs : List Char} (h : ∀ c ∈ cs.head?, isWordChar c = true) :
    cut (m.chars ++ cs) = (m, cs) := by
  cases m with
  | once => rfl
  | stored => rfl
  | plain =>
    cases cs with
    | nil => rfl
    | cons c rest =>
      have hc : isWordChar c = true := h c rfl
      rw [chars, List.nil_append, cut]
      all_goals
        rintro _ heq
        cases heq
        exact absurd hc (by decide)

end Mark

/-- A way to spell an event: a mark, a name, and perhaps any text in parentheses. -/
structure Spelling where
  mark : Mark
  name : String
  inner : Option (List Char)
  named : IsName isWordChar isEventChar name

namespace Spelling

def body (s : Spelling) : List Char := s.name.toList ++ (s.inner.map inParens).getD []

def text (s : Spelling) : List Char := s.mark.chars ++ s.body

/-- The selector: what is in the parentheses, without the blanks around it, if that is anything. -/
def selector (s : Spelling) : Option String :=
  (s.inner.map trim).bind fun cs => if cs = [] then none else some (String.ofList cs)

def trigger (s : Spelling) : Trigger where
  event := s.name
  selector := s.selector
  once := s.mark = .once
  stored := s.mark = .stored

end Spelling

section Bodies

variable {cs rest : List Char} {inner : Option (List Char)}

theorem inParens?_eq_some_iff {args : List Char} : inParens? cs = some args ↔ cs = inParens args := by
  constructor
  · intro h
    unfold inParens? at h
    split at h
    · next rest =>
      split at h
      · next hlast =>
        cases h
        rw [inParens, List.cons_append, List.dropLast_append_getLast? _ (beq_iff_eq.mp hlast)]
      · cases h
    · cases h
  · rintro rfl
    rw [inParens, List.cons_append, inParens?, List.getLast?_concat, if_pos (by rfl),
      List.dropLast_concat]

theorem argsText?_eq_some_iff : argsText? cs = some inner ↔ cs = (inner.map inParens).getD [] := by
  constructor
  · intro h
    unfold argsText? at h
    split at h
    · next hnil =>
      cases h
      exact List.isEmpty_iff.mp hnil
    · obtain ⟨args, hargs, rfl⟩ := Option.map_eq_some_iff.mp h
      exact inParens?_eq_some_iff.mp hargs
  · rintro rfl
    cases inner with
    | none => rfl
    | some args => exact argsText?_inParens args

def body? (cs : List Char) : Option (List Char × Option (List Char)) :=
  (readName? isWordChar isEventChar cs).bind fun p => (argsText? p.2).map fun inner => (p.1, inner)

theorem body?_eq_some_iff {word : List Char} : body? cs = some (word, inner) ↔
    IsName isWordChar isEventChar (String.ofList word) ∧
      cs = word ++ (inner.map inParens).getD [] := by
  unfold body?
  constructor
  · intro h
    obtain ⟨⟨name, rest⟩, hname, h⟩ := Option.bind_eq_some_iff.mp h
    obtain ⟨args, hargs, heq⟩ := Option.map_eq_some_iff.mp h
    cases heq
    refine ⟨isName_of_readName? hname, ?_⟩
    rw [← argsText?_eq_some_iff.mp hargs]
    unfold readName? at hname
    split at hname
    · split at hname
      · cases hname
        rw [List.cons_append, List.takeWhile_append_dropWhile]
      · cases hname
    · cases hname
  · rintro ⟨hname, rfl⟩
    have hend : ∀ c ∈ ((inner.map inParens).getD []).head?, isEventChar c = false := by
      cases inner with
      | none =>
        rintro c ⟨⟩
      | some args =>
        rintro c ⟨⟩
        decide
    have hread := readName?_append hname hend
    rw [String.toList_ofList] at hread
    rw [hread, Option.bind_some, argsText?_eq_some_iff.mpr rfl]
    rfl

end Bodies

namespace Spelling

variable {s : Spelling}

theorem head_body (s : Spelling) : ∀ c ∈ s.body.head?, isWordChar c = true := by
  obtain ⟨c, cs, hname, hc, -⟩ := s.named
  rw [body, hname]
  rintro d ⟨⟩
  exact hc

theorem cut_text (s : Spelling) : Mark.cut s.text = (s.mark, s.body) :=
  s.mark.cut_chars s.head_body

theorem body?_body (s : Spelling) : body? s.body = some (s.name.toList, s.inner) := by
  refine body?_eq_some_iff.mpr ⟨?_, rfl⟩
  rw [String.ofList_toList]
  exact s.named

/-- A text is spelled in one way: the mark, the name and the parentheses can be told apart. -/
theorem text_injective : Function.Injective text := by
  intro s s' heq
  have hcut := s.cut_text.symm.trans ((congrArg Mark.cut heq).trans s'.cut_text)
  obtain ⟨hmark, hbody⟩ := Prod.mk.inj hcut
  have hparts := s.body?_body.symm.trans ((congrArg body? hbody).trans s'.body?_body)
  obtain ⟨hname, hinner⟩ := Prod.mk.inj (Option.some.inj hparts)
  obtain ⟨mark, name, inner, hnamed⟩ := s
  obtain rfl : mark = s'.mark := hmark
  obtain rfl : name = s'.name := String.toList_inj.mp hname
  obtain rfl : inner = s'.inner := hinner
  rfl

/-- The spelling without the blanks around what is in the parentheses, and without parentheses
where nothing else is in them. -/
def tidy (s : Spelling) : Spelling := { s with inner := s.selector.map String.toList }

theorem selector_tidy (s : Spelling) : s.tidy.selector = s.selector := by
  have hselector : s.tidy.selector = (s.selector.map fun text => trim text.toList).bind
      fun cs => if cs = [] then none else some (String.ofList cs) := by
    rw [selector, tidy, Option.map_map]
    rfl
  rw [hselector, selector]
  cases s.inner with
  | none => rfl
  | some cs =>
    rw [Option.map_some, Option.bind_some]
    by_cases hblank : trim cs = []
    · rw [if_pos hblank]
      rfl
    · rw [if_neg hblank, Option.map_some, Option.bind_some, String.toList_ofList, trim_trim,
        if_neg hblank]

theorem trigger_tidy (s : Spelling) : s.tidy.trigger = s.trigger := by
  rw [trigger, selector_tidy]
  rfl

theorem written_trigger (s : Spelling) : s.trigger.written = s.tidy.text := by
  have hmark : s.trigger.mark = s.mark.chars := by
    unfold Trigger.mark trigger
    cases s.mark <;> rfl
  rw [Trigger.written, hmark, List.append_assoc, text, body, tidy, Option.map_map]
  rfl

end Spelling

namespace Trigger

theorem read_eq (cs : List Char) : Trigger.read cs =
    (body? (Mark.cut cs).2).elim (.error (.badEvent (String.ofList cs))) fun parts => .ok
      { event := String.ofList parts.1
        selector := ((parts.2.map trim).filter (!·.isEmpty)).map String.ofList
        once := (Mark.cut cs).1 = .once
        stored := (Mark.cut cs).1 = .stored } := by
  unfold Trigger.read
  split
  next once stored text heq =>
  have hcut : once = decide ((Mark.cut cs).1 = .once) ∧
      stored = decide ((Mark.cut cs).1 = .stored) ∧ text = (Mark.cut cs).2 := by
    split at heq
    · cases heq
      exact ⟨rfl, rfl, rfl⟩
    · cases heq
      exact ⟨rfl, rfl, rfl⟩
    · next honce hstored =>
      cases heq
      rw [Mark.cut.eq_3 _ honce hstored]
      exact ⟨rfl, rfl, rfl⟩
  obtain ⟨rfl, rfl, rfl⟩ := hcut
  unfold body?
  cases readName? isWordChar isEventChar (Mark.cut cs).2 with
  | none => rfl
  | some p =>
    simp only [Option.bind_eq_bind, Option.bind_some]
    cases argsText? p.2 <;> rfl

theorem read_text (s : Spelling) : Trigger.read s.text = .ok s.trigger := by
  have hselector : ((s.inner.map trim).filter (!·.isEmpty)).map String.ofList = s.selector := by
    rw [Spelling.selector]
    cases s.inner with
    | none => rfl
    | some cs => by_cases hblank : trim cs = [] <;> simp [hblank, Option.filter]
  rw [read_eq, s.cut_text, s.body?_body, Option.elim_some, hselector, String.ofList_toList]
  rfl

theorem spelled_or_fault (cs : List Char) : (∃ s : Spelling, s.text = cs) ∨
    Trigger.read cs = .error (.badEvent (String.ofList cs)) := by
  rw [read_eq]
  cases hbody : body? (Mark.cut cs).2 with
  | none => exact .inr rfl
  | some parts =>
    obtain ⟨hname, hrest⟩ := body?_eq_some_iff.mp hbody
    refine .inl ⟨⟨(Mark.cut cs).1, String.ofList parts.1, parts.2, hname⟩, ?_⟩
    rw [Spelling.text, Spelling.body, String.toList_ofList, ← hrest, Mark.chars_cut]

theorem spelled_of_read {cs : List Char} {t : Trigger} (h : Trigger.read cs = .ok t) :
    ∃ s : Spelling, s.text = cs := by
  apply (spelled_or_fault cs).resolve_right
  intro hfault
  rw [h] at hfault
  cases hfault

def Writable.spelling {t : Trigger} (h : t.Writable) : Spelling where
  mark := if t.once then .once else if t.stored then .stored else .plain
  name := t.event
  inner := t.selector.map String.toList
  named := h.event

theorem Writable.text_spelling {t : Trigger} (h : t.Writable) : h.spelling.text = t.written := by
  have hmark : h.spelling.mark.chars = t.mark := by
    unfold Writable.spelling Trigger.mark
    cases t.once <;> cases t.stored <;> rfl
  rw [Spelling.text, hmark, Spelling.body, Trigger.written, List.append_assoc, spelling,
    Option.map_map]
  rfl

theorem Writable.trigger_spelling {t : Trigger} (h : t.Writable) : h.spelling.trigger = t := by
  have hselector : h.spelling.selector = t.selector := by
    rw [Spelling.selector, spelling]
    cases hselector : t.selector with
    | none => rfl
    | some s =>
      obtain ⟨hne, htrim, -⟩ := h.selector s hselector
      rw [Option.map_some, Option.map_some, Option.bind_some, trim_toList htrim,
        if_neg (toList_ne_nil hne), String.ofList_toList]
  obtain ⟨event, selector, once, stored⟩ := t
  have hboth := h.mark
  rw [Spelling.trigger, hselector]
  cases once with
  | false => cases stored <;> rfl
  | true =>
    cases stored with
    | false => rfl
    | true => exact absurd ⟨rfl, rfl⟩ hboth

theorem Writable.read_written {t : Trigger} (h : t.Writable) : Trigger.read t.written = .ok t := by
  rw [← h.text_spelling, read_text, h.trigger_spelling]

/-- The events that are read are exactly those that are spelled as one, in the one way in which they
are: the mark, the name and the parentheses say what is read. Any other text is a fault that names
the text. What is read is never marked twice, and its own text is read as the same. -/
theorem read_spelled (cs : List Char) :
    ((∃ t, Trigger.read cs = .ok t) ↔ ∃ s : Spelling, s.text = cs) ∧
    (∀ s : Spelling, s.text = cs →
      Trigger.read cs = .ok s.trigger ∧ ∀ other : Spelling, other.text = cs → other = s) ∧
    ((∀ s : Spelling, s.text ≠ cs) → Trigger.read cs = .error (.badEvent (String.ofList cs))) ∧
    ∀ t, Trigger.read cs = .ok t →
      ¬(t.once = true ∧ t.stored = true) ∧ Trigger.read t.written = .ok t := by
  have hspelled : ∀ s : Spelling, s.text = cs → Trigger.read cs = .ok s.trigger := by
    rintro s rfl
    exact read_text s
  refine ⟨⟨?_, ?_⟩, ?_, fun h => (spelled_or_fault cs).resolve_left fun ⟨s, hs⟩ => h s hs, ?_⟩
  · rintro ⟨t, ht⟩
    exact spelled_of_read ht
  · rintro ⟨s, hs⟩
    exact ⟨s.trigger, hspelled s hs⟩
  · intro s hs
    exact ⟨hspelled s hs, fun other hother => Spelling.text_injective (hother.trans hs.symm)⟩
  · intro t ht
    obtain ⟨s, hs⟩ := spelled_of_read ht
    obtain rfl : s.trigger = t := Except.ok.inj ((hspelled s hs).symm.trans ht)
    constructor
    · rintro ⟨honce, hstored⟩
      have honce : s.mark = .once := of_decide_eq_true honce
      have hstored : s.mark = .stored := of_decide_eq_true hstored
      rw [honce] at hstored
      cases hstored
    · rw [s.written_trigger, read_text, s.trigger_tidy]

def looseSelector : Spelling where
  mark := .once
  name := "click"
  inner := some " .item (a)\n".toList
  named := by decide +kernel

theorem looseSelector_read :
    Trigger.read "^click( .item (a)\n)".toList = .ok ⟨"click", some ".item (a)", true, false⟩ ∧
      Trigger.read "^click(.item (a))".toList = .ok ⟨"click", some ".item (a)", true, false⟩ := by
  have htext : looseSelector.text = "^click( .item (a)\n)".toList := by decide +kernel
  have htrigger : looseSelector.trigger = ⟨"click", some ".item (a)", true, false⟩ := by
    decide +kernel
  obtain ⟨-, hspelled, -, hkept⟩ := read_spelled "^click( .item (a)\n)".toList
  have hread := (hspelled looseSelector htext).1
  have hwritten : looseSelector.trigger.written = "^click(.item (a))".toList := by decide +kernel
  have hagain := (hkept _ hread).2
  rw [hwritten] at hagain
  rw [htrigger] at hread hagain
  exact ⟨hread, hagain⟩

end Trigger

end AttrChain
