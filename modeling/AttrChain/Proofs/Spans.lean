import AttrChain.Proofs.Characters
import AttrChain.Proofs.Segments
import AttrChain.Text.Apostrophes

/-!
Texts in which every quote is closed and every bracket has its partner. A scan that watches quotes
goes through such a text and is back where it was; inside of a watched bracket it makes no cut. The
blanks of such a text may be made plain without a look at what surrounds it.
-/

namespace AttrChain

open AttrChain.Text

def brackets : List (Char × Char) := [('(', ')'), ('[', ']'), ('\x7b', '\x7d')]

theorem of_mem_brackets {p : Char → Char → Prop} {o c : Char} (hround : p '(' ')')
    (hsquare : p '[' ']') (hcurly : p '\x7b' '\x7d') (h : (o, c) ∈ brackets) : p o c := by
  simp only [brackets, List.mem_cons, Prod.mk.injEq, List.not_mem_nil, or_false] at h
  rcases h with ⟨rfl, rfl⟩ | ⟨rfl, rfl⟩ | ⟨rfl, rfl⟩
  · exact hround
  · exact hsquare
  · exact hcurly

/-- A text of single quotes around any text, brackets around texts of this kind, and characters that
are `allowed` and neither quotes nor brackets. -/
inductive Sealed (allowed : Char → Prop) : List Char → Prop where
  | nil : Sealed allowed []
  | char {c : Char} {cs : List Char} : allowed c → isQuote c = false → isOpening c = false →
      isClosing c = false → Sealed allowed cs → Sealed allowed (c :: cs)
  | quoted (s : String) {cs : List Char} : Sealed allowed cs →
      Sealed allowed (Apostrophes.encode s ++ cs)
  | span {o c : Char} {inner cs : List Char} : (o, c) ∈ brackets → Sealed allowed inner →
      Sealed allowed cs → Sealed allowed (o :: inner ++ c :: cs)

namespace Sealed

variable {allowed other : Char → Prop} {cs ds : List Char}

theorem append (hcs : Sealed allowed cs) (hds : Sealed allowed ds) : Sealed allowed (cs ++ ds) := by
  induction hcs with
  | nil => exact hds
  | char ha hq ho hc _ ih => exact .char ha hq ho hc ih
  | quoted s _ ih =>
    rw [List.append_assoc]
    exact .quoted s ih
  | span hb hinner _ _ ih =>
    rw [List.append_assoc]
    exact .span hb hinner ih

theorem mono (h : Sealed allowed cs) (himp : ∀ c, allowed c → other c) : Sealed other cs := by
  induction h with
  | nil => exact .nil
  | char ha hq ho hc _ ih => exact .char (himp _ ha) hq ho hc ih
  | quoted s _ ih => exact .quoted s ih
  | span hb _ _ ihinner ih => exact .span hb ihinner ih

theorem encode (s : String) : Sealed allowed (Apostrophes.encode s) := by
  have h : Sealed allowed (Apostrophes.encode s ++ []) := quoted s nil
  rwa [List.append_nil] at h

theorem enclosed {o c : Char} (hb : (o, c) ∈ brackets) (h : Sealed allowed cs) :
    Sealed allowed (o :: cs ++ [c]) := .span hb h .nil

theorem of_chars (h : ∀ c ∈ cs, allowed c ∧ isQuote c = false ∧ isOpening c = false ∧
    isClosing c = false) : Sealed allowed cs := by
  induction cs with
  | nil => exact .nil
  | cons c cs ih =>
    obtain ⟨ha, hq, ho, hc⟩ := h c List.mem_cons_self
    exact .char ha hq ho hc (ih fun d hd => h d (List.mem_cons_of_mem _ hd))

theorem intercalate {sep : List Char} {texts : List (List Char)} (hsep : Sealed allowed sep)
    (h : ∀ t ∈ texts, Sealed allowed t) : Sealed allowed (sep.intercalate texts) := by
  induction texts with
  | nil => exact .nil
  | cons t texts ih =>
    have ht : Sealed allowed t := h t List.mem_cons_self
    cases texts with
    | nil => rwa [List.intercalate_singleton]
    | cons u texts =>
      rw [List.intercalate_cons_cons]
      exact (ht.append hsep).append (ih fun v hv => h v (List.mem_cons_of_mem _ hv))

end Sealed

namespace Nesting

def inside (ns : List Nesting) : Bool := ns.any fun n => 0 < n.depth

def watches (o : Char) (ns : List Nesting) : Bool := ns.any fun n => n.opening == o

def deepen (o : Char) : List Nesting → List Nesting
  | [] => []
  | n :: rest =>
    if o = n.opening then { n with depth := n.depth + 1 } :: rest else n :: deepen o rest

def Known (ns : List Nesting) : Prop := ∀ n ∈ ns, (n.opening, n.closing) ∈ brackets

variable {ns : List Nesting} {n : Nesting} {o c : Char}

theorem isOpening_of_mem (h : (o, c) ∈ brackets) : isOpening o = true ∧ isClosing o = false :=
  of_mem_brackets (p := fun o _ => isOpening o = true ∧ isClosing o = false)
    (by decide) (by decide) (by decide) h

theorem isClosing_of_mem (h : (o, c) ∈ brackets) : isClosing c = true ∧ isOpening c = false :=
  of_mem_brackets (p := fun _ c => isClosing c = true ∧ isOpening c = false)
    (by decide) (by decide) (by decide) h

/-- Two kinds of brackets share neither their openings nor their closings. -/
theorem partner_unique {o' c' : Char} (h : (o, c) ∈ brackets) (h' : (o', c') ∈ brackets) :
    o = o' ↔ c = c' := by
  simp only [brackets, List.mem_cons, Prod.mk.injEq, List.not_mem_nil, or_false] at h h'
  rcases h with ⟨rfl, rfl⟩ | ⟨rfl, rfl⟩ | ⟨rfl, rfl⟩ <;>
    rcases h' with ⟨rfl, rfl⟩ | ⟨rfl, rfl⟩ | ⟨rfl, rfl⟩ <;> decide

theorem Known.tail (h : Known (n :: ns)) : Known ns := fun m hm => h m (List.mem_cons_of_mem _ hm)

theorem step_plain (h : Known ns) (ho : isOpening c = false) (hc : isClosing c = false) :
    Nesting.step c ns = (inside ns, ns) := by
  induction ns with
  | nil => rfl
  | cons n rest ih =>
    have hn : (n.opening, n.closing) ∈ brackets := h n List.mem_cons_self
    have hopen : n.opening ≠ c := ne_of_class (isOpening_of_mem hn).1 ho
    have hclose : n.closing ≠ c := ne_of_class (isClosing_of_mem hn).1 hc
    rw [Nesting.step, if_neg (Ne.symm hopen), if_neg fun heq => hclose heq.1.symm, ih h.tail]
    rfl

theorem step_open (h : Known ns) (hb : (o, c) ∈ brackets) :
    Nesting.step o ns = (watches o ns || inside ns, deepen o ns) := by
  induction ns with
  | nil => rfl
  | cons n rest ih =>
    have hn : (n.opening, n.closing) ∈ brackets := h n List.mem_cons_self
    by_cases hopen : o = n.opening
    · rw [Nesting.step, if_pos hopen, deepen, if_pos hopen]
      simp [watches, hopen]
    · have hclose : n.closing ≠ o := ne_of_class (isClosing_of_mem hn).1 (isOpening_of_mem hb).2
      rw [Nesting.step, if_neg hopen, if_neg fun heq => hclose heq.1.symm, deepen, if_neg hopen, ih h.tail]
      simp only [watches, inside, List.any_cons, beq_false_of_ne (Ne.symm hopen), Bool.false_or,
        Prod.mk.injEq, and_true]
      exact Bool.or_left_comm _ _ _

/-- The partner of a bracket takes the scan back to where the bracket stood. -/
theorem step_close (h : Known ns) (hb : (o, c) ∈ brackets) :
    Nesting.step c (deepen o ns) = (watches o ns || inside ns, ns) := by
  induction ns with
  | nil => rfl
  | cons n rest ih =>
    have hn : (n.opening, n.closing) ∈ brackets := h n List.mem_cons_self
    have hother : c ≠ n.opening :=
      Ne.symm (ne_of_class (isOpening_of_mem hn).1 (isClosing_of_mem hb).2)
    by_cases hopen : o = n.opening
    · have hclose : c = n.closing := (partner_unique hb hn).mp hopen
      rw [deepen, if_pos hopen, Nesting.step, if_neg hother, if_pos ⟨hclose, Nat.succ_pos _⟩]
      simp [watches, hopen]
    · have hclose : ¬ (c = n.closing ∧ 0 < n.depth) := by
        rintro ⟨hc, -⟩
        exact hopen ((partner_unique hb hn).mpr hc)
      rw [deepen, if_neg hopen, Nesting.step, if_neg hother, if_neg hclose, ih h.tail]
      simp only [watches, inside, List.any_cons, beq_false_of_ne (Ne.symm hopen), Bool.false_or,
        Prod.mk.injEq, and_true]
      exact Bool.or_left_comm _ _ _

theorem Known.deepen (h : Known ns) (o : Char) : Known (deepen o ns) := by
  induction ns with
  | nil => exact h
  | cons n rest ih =>
    intro m hm
    rw [Nesting.deepen] at hm
    split at hm
    · rcases List.mem_cons.mp hm with rfl | hm
      · exact h n List.mem_cons_self
      · exact h m (List.mem_cons_of_mem _ hm)
    · rcases List.mem_cons.mp hm with rfl | hm
      · exact h m List.mem_cons_self
      · exact ih h.tail m hm

theorem inside_deepen (h : (watches o ns || inside ns) = true) : inside (deepen o ns) = true := by
  induction ns with
  | nil => cases h
  | cons n rest ih =>
    rw [deepen]
    by_cases hopen : o = n.opening
    · rw [if_pos hopen]
      simp [inside]
    · rw [if_neg hopen]
      simp only [watches, inside, List.any_cons, Bool.or_eq_true, decide_eq_true_eq,
        beq_iff_eq, Ne.symm hopen, false_or] at h ih ⊢
      rcases h with h | h | h
      · exact .inr (ih (.inl h))
      · exact .inl h
      · exact .inr (ih (.inr h))

end Nesting
namespace Guarding

open Nesting

/-- A scan that watches quotes and known brackets, and is not inside of a quote. -/
structure Ready (g : Guarding) : Prop where
  watching : g.watchQuotes = true
  unquoted : g.quote = none
  calm : g.escaped = false
  known : Known g.nestings

variable {g : Guarding} {c o : Char}

theorem start_ready {guards : List Guard} (h : Guard.quote ∈ guards) : Ready (start guards) := by
  refine ⟨List.contains_iff_mem.mpr h, rfl, rfl, ?_⟩
  intro n hn
  obtain ⟨pair, hpair, rfl⟩ := List.mem_map.mp hn
  obtain ⟨guard, -, hguard⟩ := List.mem_filterMap.mp hpair
  cases guard <;> cases hguard <;> decide

def within (g : Guarding) (ns : List Nesting) : Guarding := { g with nestings := ns }

theorem Ready.within (h : Ready g) {ns : List Nesting} (hns : Known ns) : Ready (g.within ns) :=
  ⟨h.watching, h.unquoted, h.calm, hns⟩

theorem step_of_not_isQuote (h : Ready g) (hq : isQuote c = false) :
    g.step c = ((Nesting.step c g.nestings).1, g.within (Nesting.step c g.nestings).2) := by
  unfold step
  rw [h.unquoted]
  dsimp only
  rw [hq, Bool.and_false, if_neg Bool.false_ne_true]
  unfold Guarding.within
  rw [← h.unquoted]

theorem step_plain (h : Ready g) (hq : isQuote c = false) (ho : isOpening c = false)
    (hc : isClosing c = false) : g.step c = (inside g.nestings, g) := by
  rw [step_of_not_isQuote h hq, Nesting.step_plain h.known ho hc]
  rfl

theorem not_isQuote_of_bracket (hb : (o, c) ∈ brackets) : isQuote o = false ∧ isQuote c = false :=
  of_mem_brackets (p := fun o c => isQuote o = false ∧ isQuote c = false)
    (by decide) (by decide) (by decide) hb

theorem step_open (h : Ready g) (hb : (o, c) ∈ brackets) :
    g.step o = (watches o g.nestings || inside g.nestings, g.within (deepen o g.nestings)) := by
  rw [step_of_not_isQuote h (not_isQuote_of_bracket hb).1, Nesting.step_open h.known hb]

theorem step_close (h : Ready g) (hb : (o, c) ∈ brackets) :
    (g.within (deepen o g.nestings)).step c = (watches o g.nestings || inside g.nestings, g) := by
  rw [step_of_not_isQuote (h.within (h.known.deepen o)) (not_isQuote_of_bracket hb).2]
  unfold Guarding.within
  rw [Nesting.step_close h.known hb]

end Guarding

namespace Splitter

open Guarding Nesting

/-- Whether the scan at `g` goes through `cs` without a cut and is then back at `g`. -/
structure Passes (s : Splitter) (g : Guarding) (cs : List Char) : Prop where
  keeps : s.Keeps g cs
  back : g.after cs = g

variable {s : Splitter} {g h : Guarding} {cs ds : List Char} {allowed : Char → Prop}

theorem Passes.nil : s.Passes g [] := ⟨trivial, rfl⟩

theorem Passes.append (hcs : s.Passes g cs) (hds : s.Passes g ds) : s.Passes g (cs ++ ds) := by
  constructor
  · refine keeps_append hcs.keeps ?_
    rw [hcs.back]
    exact hds.keeps
  · rw [after_append, hcs.back, hds.back]

theorem Passes.cons {c : Char} {guarded : Bool} (hstep : g.step c = (guarded, g))
    (hkeep : guarded = true ∨ c ≠ s.separator) (hcs : s.Passes g cs) : s.Passes g (c :: cs) := by
  constructor
  · refine ⟨?_, ?_⟩
    · rw [hstep]
      exact hkeep
    · rw [hstep]
      exact hcs.keeps
  · rw [after_cons, hstep]
    exact hcs.back

/-- A character that takes the scan to `h`, a text from `h` to `h`, and a character back. -/
theorem Passes.around {o c : Char} {inner : List Char} (hopen : g.step o = (true, h))
    (hinner : s.Passes h inner) (hclose : h.step c = (true, g)) :
    s.Passes g (o :: inner ++ [c]) := by
  constructor
  · refine keeps_append ⟨?_, ?_⟩ ⟨?_, trivial⟩
    · rw [hopen]
      exact .inl rfl
    · rw [hopen]
      exact hinner.keeps
    · rw [after_cons, hopen, hinner.back, hclose]
      exact .inl rfl
  · rw [after_append, after_cons g, hopen, hinner.back, after_cons, hclose]
    rfl

/-- Between quotes an encoded character neither cuts nor closes. -/
theorem passes_encodeChar (hquote : g.quote = some '\x27') (hcalm : g.escaped = false) (c : Char) :
    s.Passes g (Apostrophes.encodeChar c) := by
  obtain ⟨watch, quote, escaped, nestings⟩ := g
  subst hquote hcalm
  unfold Apostrophes.encodeChar
  split
  · exact ⟨⟨.inl rfl, .inl rfl, trivial⟩, rfl⟩
  · next hplain =>
    obtain ⟨hclose, hback⟩ := not_or.mp hplain
    have hstep : (Guarding.mk watch (some '\x27') false nestings).step c =
        (true, ⟨watch, some '\x27', false, nestings⟩) := by
      simp [Guarding.step, hclose, hback]
    exact .cons hstep (.inl rfl) .nil

theorem passes_encode (hg : g.Ready) (text : String) : s.Passes g (Apostrophes.encode text) := by
  have hopen : g.step '\x27' = (true, { g with quote := some '\x27' }) := by
    simp [Guarding.step, hg.unquoted, hg.watching, isQuote]
  have hclose : Guarding.step '\x27' { g with quote := some '\x27' } = (true, g) := by
    have hback : { g with quote := none, escaped := false } = g := by
      rw [← hg.unquoted, ← hg.calm]
    simp [Guarding.step, hg.calm, hback]
  have hquoted : ({ g with quote := some '\x27' } : Guarding).escaped = false := hg.calm
  refine .around hopen ?_ hclose
  induction text.toList with
  | nil => exact .nil
  | cons c cs ih =>
    rw [List.flatMap_cons]
    exact Passes.append (passes_encodeChar rfl hquoted c) ih

theorem passes_of_inside (hcs : Sealed allowed cs) (hg : g.Ready)
    (hinside : inside g.nestings = true) : s.Passes g cs := by
  induction hcs generalizing g with
  | nil => exact .nil
  | char _ hq ho hc _ ih =>
    exact .cons (step_plain hg hq ho hc) (.inl hinside) (ih hg hinside)
  | quoted text _ ih => exact (passes_encode hg text).append (ih hg hinside)
  | @span o c inner rest hb _ _ ihinner ih =>
    have hguarded : (watches o g.nestings || inside g.nestings) = true := by simp [hinside]
    have hopen := step_open hg hb
    have hclose := step_close hg hb
    rw [hguarded] at hopen hclose
    have hspan := Passes.around hopen
      (ihinner (hg.within (hg.known.deepen o)) (inside_deepen hguarded)) hclose
    have hall := hspan.append (ih hg hinside)
    rwa [List.append_assoc] at hall

/-- A watched bracket and its partner, with a sealed text between them, is no place for a cut. -/
theorem passes_span {o c : Char} (hb : (o, c) ∈ brackets) (hg : g.Ready)
    (hw : watches o g.nestings = true) (hcs : Sealed allowed cs) :
    s.Passes g (o :: cs ++ [c]) := by
  have hguarded : (watches o g.nestings || inside g.nestings) = true := by simp [hw]
  have hopen := step_open hg hb
  have hclose := step_close hg hb
  rw [hguarded] at hopen hclose
  exact .around hopen
    (passes_of_inside hcs (hg.within (hg.known.deepen o)) (inside_deepen hguarded)) hclose

theorem passes_of_flat (hg : g.Ready) (h : ∀ c ∈ cs, isQuote c = false ∧ isOpening c = false ∧
    isClosing c = false) (hsep : s.separator ∉ cs) : s.Passes g cs := by
  induction cs with
  | nil => exact .nil
  | cons c cs ih =>
    obtain ⟨⟨hquote, hopen, hclose⟩, hcs⟩ := List.forall_mem_cons.mp h
    obtain ⟨hne, hnot⟩ := not_or.mp (mt List.mem_cons.mpr hsep)
    exact .cons (step_plain hg hquote hopen hclose) (.inr (Ne.symm hne)) (ih hcs hnot)

theorem scan_append_separator (hcut : g.step s.separator = (false, g)) (hcs : s.Passes g cs)
    (max : Nat) (ds : List Char) :
    s.scan (max + 1) g (cs ++ s.separator :: ds) = cs :: s.scan max g ds := by
  have hunguarded : (g.step s.separator).1 = false := by rw [hcut]
  rw [scan_append_of_keeps hcs.keeps, hcs.back, scan_cons_of_cut hunguarded, hcut]
  simp

theorem scan_intercalate (hcut : g.step s.separator = (false, g)) {texts : List (List Char)}
    (htexts : ∀ t ∈ texts, s.Passes g t) (hne : texts ≠ []) {max : Nat}
    (hmax : texts.length ≤ max + 1) :
    s.scan max g ([s.separator].intercalate texts) = texts := by
  induction texts generalizing max with
  | nil => exact absurd rfl hne
  | cons t texts ih =>
    have ht : s.Passes g t := htexts t List.mem_cons_self
    cases texts with
    | nil =>
      rw [List.intercalate_singleton]
      exact scan_of_keeps ht.keeps max
    | cons u texts =>
      rw [List.length_cons, List.length_cons] at hmax
      obtain ⟨max, rfl⟩ : ∃ n, max = n + 1 := ⟨max - 1, by omega⟩
      have hrest := ih (fun v hv => htexts v (List.mem_cons_of_mem _ hv)) (by simp)
        (by simp only [List.length_cons]; omega : (u :: texts).length ≤ max + 1)
      rw [List.intercalate_cons_cons, List.append_assoc, List.singleton_append,
        scan_append_separator hcut ht, hrest]

end Splitter
/-- Whether `c` is left as it is where blanks are made plain. -/
def Spaced (c : Char) : Prop := isBlank c = true → c = ' '

theorem spaced_of_not_isBlank {c : Char} (h : isBlank c = false) : Spaced c :=
  fun hblank => absurd hblank (ne_true_of_eq_false h)

theorem Sealed.of_plain {cs : List Char} (h : ∀ c ∈ cs, Plain c) : Sealed Spaced cs :=
  .of_chars fun c hc => ⟨spaced_of_not_isBlank (h c hc).blank, (h c hc).isQuote, (h c hc).isOpening, (h c hc).isClosing⟩

theorem spaceBlanksFrom_encode (text rest : List Char) :
    spaceBlanksFrom (some '\x27') false
        (text.flatMap Apostrophes.encodeChar ++ '\x27' :: rest) =
      text.flatMap Apostrophes.encodeChar ++ '\x27' :: spaceBlanksFrom none false rest := by
  induction text with
  | nil => rfl
  | cons c text ih =>
    rw [List.flatMap_cons, List.append_assoc, List.append_assoc, ← ih]
    unfold Apostrophes.encodeChar
    split
    · simp [spaceBlanksFrom]
    · next hplain =>
      obtain ⟨hclose, hback⟩ := not_or.mp hplain
      simp [spaceBlanksFrom, hclose, hback]

theorem spaceBlanksFrom_plain {c : Char} (hs : Spaced c) (hq : isQuote c = false)
    (cs : List Char) : spaceBlanksFrom none false (c :: cs) = c :: spaceBlanksFrom none false cs := by
  have hc : (if isBlank c then ' ' else c) = c := by
    split
    · next hb => exact (hs hb).symm
    · rfl
  rw [spaceBlanksFrom, hc, hq, if_neg Bool.false_ne_true]

theorem not_isBlank_of_bracket {o c : Char} (hb : (o, c) ∈ brackets) :
    isBlank o = false ∧ isBlank c = false :=
  of_mem_brackets (p := fun o c => isBlank o = false ∧ isBlank c = false)
    (by decide) (by decide) (by decide) hb

theorem Sealed.spaceBlanksFrom_append {cs : List Char} (h : Sealed Spaced cs) (rest : List Char) :
    spaceBlanksFrom none false (cs ++ rest) = cs ++ spaceBlanksFrom none false rest := by
  induction h generalizing rest with
  | nil => rfl
  | char hs hq _ _ _ ih => rw [List.cons_append, spaceBlanksFrom_plain hs hq, ih]; rfl
  | quoted text _ ih =>
    have hopen (cs : List Char) : spaceBlanksFrom none false ('\x27' :: cs) =
        '\x27' :: spaceBlanksFrom (some '\x27') false cs := rfl
    unfold Apostrophes.encode
    simp only [List.cons_append, List.append_assoc, List.nil_append]
    rw [hopen, spaceBlanksFrom_encode, ih]
  | span hb _ _ ihinner ih =>
    obtain ⟨hblanko, hblankc⟩ := not_isBlank_of_bracket hb
    obtain ⟨hqo, hqc⟩ := Guarding.not_isQuote_of_bracket hb
    simp only [List.cons_append, List.append_assoc]
    rw [spaceBlanksFrom_plain (spaced_of_not_isBlank hblanko) hqo, ihinner,
      spaceBlanksFrom_plain (spaced_of_not_isBlank hblankc) hqc, ih]

theorem Sealed.spaceBlanks_eq {cs : List Char} (h : Sealed Spaced cs) : spaceBlanks cs = cs := by
  have hall := h.spaceBlanksFrom_append []
  rwa [List.append_nil, spaceBlanksFrom, List.append_nil] at hall

end AttrChain
