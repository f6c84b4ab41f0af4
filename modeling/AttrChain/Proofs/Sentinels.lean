import AttrChain.Proofs.Readings

/-!
Where marks for live arguments may stand. Among the arguments only the last may be one; the first
mark in front of others is complained about. No mark stands for an item of a list or for a value of
a map, however deep: the whole text is refused then.
-/

namespace AttrChain.Literal

open AttrChain.Text

/-- One argument as it is given: a value by its literal, or live values by their mark. -/
inductive Given where
  | value (v : Value)
  | mark (count : Nat)

namespace Given

def text : Given → List Char
  | value v => v.literal
  | mark count => flowMark count

def value? : Given → Option Value
  | value v => some v
  | mark _ => none

def mark? : Given → Option Nat
  | value _ => none
  | mark count => some count

def Allowed : Given → Prop
  | value v => v.IsLiteral
  | mark count => count ≤ 9

def argument : Given → Argument
  | value v => .value v
  | mark count => .flow count (String.ofList (flowMark count))

theorem spells {g : Given} (h : g.Allowed) : Spells g.text g.argument := by
  cases g with
  | value v => exact spells_literal h
  | mark count => exact spells_flowMark h

end Given

structure Slot where
  before : List Char
  given : Given
  after : List Char
  before_blank : ∀ c ∈ before, isBlank c = true
  after_blank : ∀ c ∈ after, isBlank c = true
  allowed : given.Allowed

def Slot.text (s : Slot) : List Char := s.before ++ s.given.text ++ s.after

/-- What may close an argument list: nothing, or a comma with blanks. -/
inductive Closing : List Char → Prop where
  | nothing : Closing []
  | comma {blanks : List Char} : (∀ c ∈ blanks, isBlank c = true) → Closing (',' :: blanks)

def listed (slots : List Slot) (closing : List Char) : List Char :=
  [','].intercalate (slots.map Slot.text) ++ closing

section Slots

variable {s : Slot} {slots : List Slot} {closing rest : List Char} {fuel : Nat}

theorem Ended.blanks {blanks : List Char} (h : ∀ c ∈ blanks, isBlank c = true) (hrest : Ended rest) :
    Ended (blanks ++ rest) := by
  cases blanks with
  | nil => exact hrest
  | cons c blanks => exact ended_blank (h c List.mem_cons_self) _

theorem Closing.ended (h : Closing closing) : Ended closing := by
  cases h with
  | nothing => exact ended_nil
  | comma _ => exact ended_cons (.inl rfl) _

theorem skipBlank_append {blanks : List Char} (h : ∀ c ∈ blanks, isBlank c = true)
    (cs : List Char) : skipBlank (blanks ++ cs) = skipBlank cs :=
  List.dropWhile_append_of_pos h

theorem skipBlank_blanks {blanks : List Char} (h : ∀ c ∈ blanks, isBlank c = true) :
    skipBlank blanks = [] := by
  rw [← List.append_nil blanks, skipBlank_append h]
  rfl

theorem Slot.reads (s : Slot) (hrest : Ended rest) : ∃ c ds,
    skipBlank (s.text ++ rest) = c :: ds ∧
    readArgument (c :: ds) = .ok (s.given.argument, s.after ++ rest) := by
  have hspells := Given.spells s.allowed
  obtain ⟨c, ds, htext, hblank⟩ := hspells.start
  have hread := hspells.back (s.after ++ rest) (.blanks s.after_blank hrest)
  rw [htext] at hread
  refine ⟨c, ds ++ (s.after ++ rest), ?_, hread⟩
  rw [Slot.text, List.append_assoc, List.append_assoc, skipBlank_append s.before_blank, htext]
  exact skipBlank_of_not_isBlank hblank

theorem listed_cons (s t : Slot) (slots : List Slot) (closing : List Char) :
    listed (s :: t :: slots) closing = s.text ++ ',' :: listed (t :: slots) closing := by
  rw [listed, listed, List.map_cons, List.map_cons, List.intercalate_cons_cons]
  simp only [List.append_assoc, List.cons_append, List.nil_append]

theorem readArguments_blanks {blanks : List Char} (h : ∀ c ∈ blanks, isBlank c = true) :
    readArguments fuel blanks = .ok [] := by
  cases fuel with
  | zero => rfl
  | succ fuel => exact readArguments_blank fuel (skipBlank_blanks h)

/-- All slots are read, and nothing is made of what closes the list. -/
theorem readArguments_listed (hne : slots ≠ []) (hclosing : Closing closing)
    (hfuel : slots.length ≤ fuel) :
    readArguments fuel (listed slots closing) = .ok (slots.map fun s => s.given.argument) := by
  induction slots generalizing fuel with
  | nil => exact absurd rfl hne
  | cons s slots ih =>
    rw [List.length_cons] at hfuel
    obtain ⟨fuel, rfl⟩ : ∃ n, fuel = n + 1 := ⟨fuel - 1, by omega⟩
    cases slots with
    | nil =>
      -- behind a closing comma there is one more turn, which finds blanks only
      obtain ⟨c, ds, hskip, hread⟩ := s.reads hclosing.ended
      have hrest := skipBlank_append s.after_blank closing
      rw [listed, List.map_singleton, List.intercalate_singleton]
      cases hclosing with
      | nothing => exact readArguments_end fuel hskip hread hrest
      | comma hblanks =>
        rw [readArguments_comma fuel hskip hread hrest, readArguments_blanks hblanks]
        rfl
    | cons t slots =>
      have hmore := ih (List.cons_ne_nil t slots) (by omega : (t :: slots).length ≤ fuel)
      obtain ⟨c, ds, hskip, hread⟩ := s.reads (ended_cons (.inl rfl) (listed (t :: slots) closing))
      have hrest := skipBlank_append s.after_blank (',' :: listed (t :: slots) closing)
      rw [listed_cons, readArguments_comma fuel hskip hread hrest, hmore]
      rfl

theorem Slot.text_ne_nil (s : Slot) : s.text ≠ [] := by
  obtain ⟨c, ds, htext, -⟩ := (Given.spells s.allowed).start
  rw [Slot.text, htext]
  simp

theorem length_le_listed (slots : List Slot) (closing : List Char) :
    slots.length ≤ (listed slots closing).length := by
  have hne : ∀ t ∈ slots.map Slot.text, t ≠ [] := by
    intro t ht
    obtain ⟨s, -, rfl⟩ := List.mem_map.mp ht
    exact s.text_ne_nil
  have hle := length_le_intercalate [','] hne
  rw [List.length_map] at hle
  rw [listed, List.length_append]
  omega

end Slots

/-- Texts behind which comes an argument, or, where `due`, an item of a list or a value of a map, at
any depth, with literals before it. -/
inductive Ahead : Bool → List Char → Prop where
  | argument {args : List Value} : (∀ v ∈ args, v.IsLiteral) →
      Ahead false (args.flatMap fun v => v.literal ++ commaSpace)
  | item {due : Bool} {cs : List Char} {items : List Value} : Ahead due cs →
      (∀ v ∈ items, v.IsLiteral) →
      Ahead true (cs ++ '[' :: items.flatMap fun v => v.literal ++ commaSpace)
  | entry {due : Bool} {cs : List Char} {entries : List (String × Value)} (key : String) :
      Ahead due cs → (∀ e ∈ entries, e.2.IsLiteral) →
      Ahead true (cs ++ '\x7b' :: (entries.flatMap fun e => entryText e ++ commaSpace) ++
        (Apostrophes.encode key ++ [':', ' ']))

section Scans

variable {opened : List Char} {due : Bool}

theorem foldl_literal {v : Value} (h : v.IsLiteral) :
    v.literal.foldl Place.step ⟨opened, .outside due⟩ = ⟨opened, .outside false⟩ := by
  have hread := readsBack h _ [] (Nat.le_refl _) ended_nil
  rw [List.append_nil] at hread
  exact ((passing _).value hread opened due).foldl_eq

theorem foldl_key (key : String) :
    (Apostrophes.encode key ++ [':', ' ']).foldl Place.step ⟨'\x7b' :: opened, .outside false⟩ =
      ⟨'\x7b' :: opened, .outside true⟩ := by
  have hread := readKey_encode key []
  rw [List.append_nil] at hread
  rw [List.foldl_append, (Passes.of_readKey hread).foldl_eq]
  rfl

theorem foldl_flatMap_fixed {α : Type} {text : α → List Char} {xs : List α} {p : Place}
    (h : ∀ x ∈ xs, (text x).foldl Place.step p = p) :
    (xs.flatMap text).foldl Place.step p = p := by
  induction xs with
  | nil => rfl
  | cons x xs ih =>
    obtain ⟨hx, hxs⟩ := List.forall_mem_cons.mp h
    rw [List.flatMap_cons, List.foldl_append, hx]
    exact ih hxs

theorem foldl_values {values : List Value} (h : ∀ v ∈ values, v.IsLiteral)
    (hcomma : commaSpace.foldl Place.step ⟨opened, .outside false⟩ = ⟨opened, .outside due⟩) :
    (values.flatMap fun v => v.literal ++ commaSpace).foldl Place.step ⟨opened, .outside due⟩ =
      ⟨opened, .outside due⟩ := by
  apply foldl_flatMap_fixed
  intro v hv
  rw [List.foldl_append, foldl_literal (h v hv), hcomma]

theorem foldl_entries {entries : List (String × Value)} (h : ∀ e ∈ entries, e.2.IsLiteral) :
    (entries.flatMap fun e => entryText e ++ commaSpace).foldl Place.step
      ⟨'\x7b' :: opened, .outside false⟩ = ⟨'\x7b' :: opened, .outside false⟩ := by
  apply foldl_flatMap_fixed
  intro e he
  have htext : entryText e = Apostrophes.encode e.1 ++ [':', ' '] ++ e.2.literal := by
    rw [entryText, List.append_assoc]
    rfl
  rw [List.foldl_append, htext, List.foldl_append, foldl_key, foldl_literal (h e he)]
  rfl

theorem Ahead.behind {cs : List Char} (h : Ahead due cs) :
    ∃ opened, Place.behind cs = ⟨opened, .outside due⟩ := by
  induction h with
  | argument hargs => exact ⟨[], foldl_values hargs rfl⟩
  | item _ hitems ih =>
    obtain ⟨opened, hbehind⟩ := ih
    refine ⟨'[' :: opened, ?_⟩
    rw [Place.behind] at hbehind ⊢
    rw [List.foldl_append, hbehind]
    exact foldl_values hitems rfl
  | @entry due cs entries key _ hentries ih =>
    obtain ⟨opened, hbehind⟩ := ih
    have hinside : Place.behind (cs ++ '\x7b' :: entries.flatMap fun e => entryText e ++ commaSpace) =
        ⟨'\x7b' :: opened, .outside false⟩ := by
      rw [Place.behind] at hbehind ⊢
      rw [List.foldl_append, hbehind]
      exact foldl_entries hentries
    refine ⟨'\x7b' :: opened, ?_⟩
    rw [Place.behind] at hinside ⊢
    rw [List.foldl_append, hinside, foldl_key]

end Scans

theorem collect_given {given : List Given} (hne : given ≠ []) :
    collect (given.map Given.argument) =
      match given.dropLast.findSome? Given.mark? with
      | some count => .error (.misplacedSentinel (String.ofList (flowMark count)))
      | none => .ok ⟨given.filterMap Given.value?, given.getLast?.bind Given.mark?⟩ := by
  induction given with
  | nil => exact absurd rfl hne
  | cons g given ih =>
    cases given with
    | nil => cases g <;> rfl
    | cons h given =>
      cases g with
      | mark count => rfl
      | value v =>
        have hargs : (Given.value v :: h :: given).filterMap Given.value? =
            v :: (h :: given).filterMap Given.value? := List.filterMap_cons_some rfl
        have hmarks : (Given.value v :: h :: given).dropLast.findSome? Given.mark? =
            (h :: given).dropLast.findSome? Given.mark? := rfl
        rw [List.map_cons, Given.argument, collect, ih (List.cons_ne_nil h given), hargs, hmarks,
          List.getLast?_cons_cons]
        cases (h :: given).dropLast.findSome? Given.mark? <;> rfl

end AttrChain.Literal

namespace AttrChain.Arguments

open AttrChain.Text AttrChain.Literal

theorem read_of_due {pre post : List Char} (h : (Place.behind pre).Due) :
    ∃ why, Arguments.read (pre ++ '_' :: post) =
      .error (.badArguments (String.ofList (pre ++ '_' :: post)) why) := by
  rw [Arguments.read]
  cases hread : readArguments ((pre ++ '_' :: post).length + 1) (pre ++ '_' :: post) with
  -- a reader that got through has passed the underscore as well
  | ok args => exact absurd h (Passes.of_readArguments hread (Nat.lt_succ_self _)).not_due
  | error why => exact ⟨why, rfl⟩

section Listed

variable {slots : List Slot} {closing : List Char}

theorem read_listed (hne : slots ≠ []) (hclosing : Closing closing) :
    Arguments.read (listed slots closing) =
      match slots.dropLast.findSome? fun s => s.given.mark? with
      | some count => .error (.misplacedSentinel (String.ofList (flowMark count)))
      | none => .ok ⟨slots.filterMap fun s => s.given.value?,
          slots.getLast?.bind fun s => s.given.mark?⟩ := by
  have hread := readArguments_listed hne hclosing
    (Nat.le_succ_of_le (length_le_listed slots closing))
  have hgiven : slots.map Slot.given ≠ [] := by simpa using hne
  have hcollect := collect_given hgiven
  rw [List.map_map, ← List.map_dropLast, List.findSome?_map, List.filterMap_map,
    List.getLast?_map] at hcollect
  rw [Option.bind_map] at hcollect
  rw [Arguments.read, hread]
  exact hcollect

end Listed

/-- Arguments are accepted exactly if no mark stands in front of others: they are the literals in
order and what the last mark asks for, else the first mark in front of others is complained about.
Where an item of a list or a value of a map is due, at any depth, a mark makes the text invalid; and
one is due behind every text that ends where such an item or value has to come. -/
theorem marks_only_last :
    (∀ (slots : List Slot) (closing : List Char), slots ≠ [] → Closing closing →
      ((∃ a, Arguments.read (listed slots closing) = .ok a) ↔
        ∀ s ∈ slots.dropLast, s.given.mark? = none) ∧
      Arguments.read (listed slots closing) =
        match slots.dropLast.findSome? fun s => s.given.mark? with
        | some count => .error (.misplacedSentinel (String.ofList (flowMark count)))
        | none => .ok ⟨slots.filterMap fun s => s.given.value?,
            slots.getLast?.bind fun s => s.given.mark?⟩) ∧
    (∀ (before after : List Char) (count : Nat), (Place.behind before).Due →
      ∃ why, Arguments.read (before ++ flowMark count ++ after) =
        .error (.badArguments (String.ofList (before ++ flowMark count ++ after)) why)) ∧
    ∀ before : List Char, Ahead true before → (Place.behind before).Due := by
  refine ⟨?_, ?_, ?_⟩
  · intro slots closing hne hclosing
    have hread := read_listed hne hclosing
    refine ⟨?_, hread⟩
    rw [hread, ← List.findSome?_eq_none_iff]
    cases slots.dropLast.findSome? fun s => s.given.mark? with
    | some count => simp
    | none => simp
  · intro before after count hdue
    obtain ⟨ds, hmark⟩ := flowMark_eq_cons count
    rw [hmark, List.append_assoc, List.cons_append]
    exact read_of_due hdue
  · intro before hahead
    obtain ⟨opened, hbehind⟩ := hahead.behind
    rw [hbehind]
    rfl

/-- A mark behind two literals with blanks around them, and one for the value of a map in a list. -/
theorem third_mark_read :
    Arguments.read "true, 'a' ,_2 ,".toList = .ok ⟨[.bool true, .text "a"], some 2⟩ ∧
    (∃ why, Arguments.read "[1, \x7ba: _2\x7d]".toList =
      .error (.badArguments "[1, \x7ba: _2\x7d]" why)) ∧
    (Place.behind "[true, \x7b'a': ".toList).Due := by
  have hblank : ∀ c ∈ [' '], isBlank c = true := List.forall_mem_singleton.mpr isBlank_space
  have hnone : ∀ c ∈ ([] : List Char), isBlank c = true := List.forall_mem_nil _
  let first : Slot := ⟨[], .value (.bool true), [], hnone, hnone, .bool true⟩
  let second : Slot := ⟨[' '], .value (.text "a"), [' '], hblank, hblank, .text "a"⟩
  let third : Slot := ⟨[], .mark 2, [' '], hnone, hblank, (by decide : 2 ≤ 9)⟩
  have hlisted : listed [first, second, third] [','] = "true, 'a' ,_2 ,".toList := rfl
  have hread := (marks_only_last.1 [first, second, third] [','] (List.cons_ne_nil _ _)
    (.comma hnone)).2
  rw [hlisted] at hread
  have hitem : Ahead true "[true, ".toList :=
    .item (.argument (List.forall_mem_nil _)) (List.forall_mem_singleton.mpr (.bool true))
  have hvalue : Ahead true "[true, \x7b'a': ".toList :=
    .entry "a" hitem (List.forall_mem_nil _)
  exact ⟨hread, marks_only_last.2.1 "[1, \x7ba: ".toList "\x7d]".toList 2 (by decide),
    marks_only_last.2.2 _ hvalue⟩

end AttrChain.Arguments
