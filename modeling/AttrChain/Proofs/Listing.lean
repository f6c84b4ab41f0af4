import Mathlib.Data.List.Lex
import AttrChain.Kit.Control
import AttrChain.Proofs.Registration

/-!
The list of the names of a table: it holds the paths that lead to instructions, each once, in the
order of their parts. That is not always the order of their texts.
-/

namespace AttrChain

variable {ι : Type}

namespace Table

/-- The path leads from the table to the entry, from table to table. -/
inductive Leads : Table ι → List String → Entry ι → Prop where
  | here {t : Table ι} {name : String} {entry : Entry ι} (h : (name, entry) ∈ t.entries) :
      Leads t [name] entry
  | through {t : Table ι} {name : String} {entries : List (String × Entry ι)} {path : List String}
      {entry : Entry ι} (h : (name, .table entries) ∈ t.entries)
      (hrest : Leads ⟨entries⟩ path entry) : Leads t (name :: path) entry

section Leading

variable {allowed : String → Prop} {t : Table ι} {name : String} {path : List String}
variable {entry other : Entry ι}

theorem Leads.ne_nil (h : t.Leads path entry) : path ≠ [] := by
  cases h <;> exact List.cons_ne_nil _ _

theorem leads_singleton : t.Leads [name] entry ↔ (name, entry) ∈ t.entries := by
  refine ⟨fun h => ?_, .here⟩
  cases h with
  | here h => exact h
  | through h hrest => exact absurd rfl hrest.ne_nil

theorem leads_cons (hne : path ≠ []) :
    t.Leads (name :: path) entry ↔
      ∃ entries, (name, .table entries) ∈ t.entries ∧ (Table.mk entries).Leads path entry := by
  refine ⟨fun h => ?_, fun ⟨entries, h, hrest⟩ => .through h hrest⟩
  cases h with
  | here h => exact absurd rfl hne
  | through h hrest => exact ⟨_, h, hrest⟩

theorem Leads.parts_allowed (h : t.Leads path entry) (ht : t.Sound allowed) :
    ∀ part ∈ path, allowed part := by
  induction h with
  | here h => simpa using ht.named _ h
  | through h hrest ih =>
    exact List.forall_mem_cons.mpr ⟨ht.named _ h, ih (ht.inner _ _ h)⟩

theorem Sound.entry_unique (ht : t.Sound allowed) (h : (name, entry) ∈ t.entries)
    (hother : (name, other) ∈ t.entries) : entry = other := by
  rw [← Dict.get?_eq_some_iff ht.ascending] at h hother
  exact Option.some.inj (h.symm.trans hother)

theorem find?_eq_some_iff (ht : t.Sound allowed) {i : Instruction ι} :
    find? path t.entries = some i ↔ t.Leads path (.leaf i) := by
  induction ht generalizing path with
  | intro ascending named inner ih =>
    rename_i t
    cases path with
    | nil => exact iff_of_false nofun fun h => h.ne_nil rfl
    | cons name rest =>
      by_cases hrest : rest = []
      · subst hrest
        rw [leads_singleton, ← Dict.get?_eq_some_iff ascending, find?_singleton]
        cases Dict.get? name t.entries with
        | none => simp
        | some entry => cases entry <;> simp
      · simp only [leads_cons hrest, ← Dict.get?_eq_some_iff ascending, find?_cons name hrest]
        cases hentry : Dict.get? name t.entries with
        | none => simp
        | some entry =>
          cases entry with
          | leaf i => simp
          | table entries => simpa using ih name entries (Dict.mem_of_get? hentry)

theorem get?_eq_some_iff (ht : t.Sound allowed) {path : String} {i : Instruction ι} :
    t.get? path = some i ↔ t.Leads (pathOf path) (.leaf i) := find?_eq_some_iff ht

theorem Leads.unique (h : t.Leads path entry) (hother : t.Leads path other) (ht : t.Sound allowed) :
    entry = other := by
  induction h with
  | here h => exact ht.entry_unique h (leads_singleton.mp hother)
  | through h hrest ih =>
    obtain ⟨entries, hmem, hother⟩ := (leads_cons hrest.ne_nil).mp hother
    cases ht.entry_unique h hmem
    exact ih hother (ht.inner _ _ h)

theorem Leads.append_iff (h : t.Leads path entry) (ht : t.Sound allowed) {more : List String}
    (hmore : more ≠ []) :
    t.Leads (path ++ more) other ↔
      ∃ entries, entry = .table entries ∧ (Table.mk entries).Leads more other := by
  induction h with
  | here h =>
    rw [List.singleton_append, leads_cons hmore]
    constructor
    · rintro ⟨entries, hmem, hleads⟩
      exact ⟨entries, ht.entry_unique h hmem, hleads⟩
    · rintro ⟨entries, rfl, hleads⟩
      exact ⟨entries, h, hleads⟩
  | through h hrest ih =>
    rw [List.cons_append, leads_cons (List.append_ne_nil_of_right_ne_nil _ hmore)]
    rw [← ih (ht.inner _ _ h)]
    constructor
    · rintro ⟨entries, hmem, hleads⟩
      cases ht.entry_unique h hmem
      exact hleads
    · exact fun hleads => ⟨_, h, hleads⟩

end Leading

section Listing

variable {allowed : String → Prop} {t : Table ι} {path : String}

theorem names_eq_flatMap (t : Table ι) :
    t.names = t.entries.flatMap fun entry => namesOfEntry entry.1 entry.2 := by
  obtain ⟨entries⟩ := t
  rw [Table.names]
  induction entries with
  | nil => rfl
  | cons entry rest ih =>
    rw [namesOfEntries, ih]
    rfl

theorem mem_namesOfEntry {name : String} {entry : Entry ι} :
    path ∈ namesOfEntry name entry ↔
      (∃ i, entry = .leaf i ∧ path = name) ∨
      ∃ entries rest, entry = .table entries ∧ rest ∈ (Table.mk entries).names ∧
        path = name ++ "." ++ rest := by
  cases entry with
  | leaf i => simp [namesOfEntry]
  | table entries => simp [namesOfEntry, Table.names, eq_comm]

theorem mem_names_iff_leads (ht : t.Sound allowed) :
    path ∈ t.names ↔ ∃ parts i, t.Leads parts (.leaf i) ∧ Text.joinWith "." parts = path := by
  constructor
  · induction ht generalizing path with
    | intro ascending named inner ih =>
      rw [names_eq_flatMap, List.mem_flatMap]
      rintro ⟨⟨name, entry⟩, hmem, hpath⟩
      rcases mem_namesOfEntry.mp hpath with ⟨i, rfl, rfl⟩ | ⟨entries, rest, rfl, hrest, rfl⟩
      · exact ⟨[path], i, .here hmem, rfl⟩
      · obtain ⟨parts, i, hleads, rfl⟩ := ih name entries hmem hrest
        exact ⟨name :: parts, i, .through hmem hleads, joinWith_cons name hleads.ne_nil⟩
  · rintro ⟨parts, i, hleads, rfl⟩
    generalize hentry : Entry.leaf i = entry at hleads
    induction hleads with
    | here h =>
      subst hentry
      rw [names_eq_flatMap, List.mem_flatMap]
      exact ⟨_, h, mem_namesOfEntry.mpr (.inl ⟨i, rfl, rfl⟩)⟩
    | through h hrest ih =>
      rw [names_eq_flatMap, List.mem_flatMap, joinWith_cons _ hrest.ne_nil]
      exact ⟨_, h, mem_namesOfEntry.mpr (.inr ⟨_, _, rfl, ih (ht.inner _ _ h) hentry, rfl⟩)⟩

theorem mem_names_iff (ht : t.Sound Plain) : path ∈ t.names ↔ (t.get? path).isSome := by
  rw [mem_names_iff_leads ht, Option.isSome_iff_exists]
  simp only [get?_eq_some_iff ht]
  constructor
  · rintro ⟨parts, i, hleads, rfl⟩
    refine ⟨i, ?_⟩
    rwa [pathOf_joinWith hleads.ne_nil (hleads.parts_allowed ht)]
  · rintro ⟨i, hleads⟩
    exact ⟨pathOf path, i, hleads, joinWith_pathOf path⟩

/-- One path comes before another: by their first parts that differ, or as the beginning of it. -/
def PathLT (a b : String) : Prop := List.Lex (· < ·) (pathOf a) (pathOf b)

theorem pathLT_irrefl (a : String) : ¬PathLT a a :=
  List.lex_irrefl String.lt_irrefl _

theorem pathLT_asymm {a b : String} (h : PathLT a b) : ¬PathLT b a :=
  List.lex_asymm String.lt_asymm h

theorem firstPart_of_mem_namesOfEntry {name : String} {entry : Entry ι} (hname : Plain name)
    (h : path ∈ namesOfEntry name entry) : ∃ rest, pathOf path = name :: rest := by
  rcases mem_namesOfEntry.mp h with ⟨i, -, rfl⟩ | ⟨entries, rest, -, -, rfl⟩
  · exact ⟨[], pathOf_plain hname⟩
  · exact ⟨pathOf rest, pathOf_below hname rest⟩

theorem names_pathLT (ht : t.Sound Plain) : t.names.Pairwise PathLT := by
  induction ht with
  | intro ascending named inner ih =>
    rw [names_eq_flatMap, List.pairwise_flatMap]
    constructor
    · rintro ⟨name, entry⟩ hmem
      have hname : Plain name := named _ hmem
      cases entry with
      | leaf i => exact List.pairwise_singleton _ _
      | table entries =>
        rw [namesOfEntry, List.pairwise_map]
        refine (ih name entries hmem).imp fun {a b} hab => ?_
        rw [PathLT, pathOf_below hname, pathOf_below hname]
        exact .cons hab
    · refine ascending.imp_of_mem fun {a b} ha hb hab x hx y hy => ?_
      obtain ⟨restx, hpathx⟩ := firstPart_of_mem_namesOfEntry (named a ha) hx
      obtain ⟨resty, hpathy⟩ := firstPart_of_mem_namesOfEntry (named b hb) hy
      rw [PathLT, hpathx, hpathy]
      exact .rel hab

theorem names_nodup (ht : t.Sound Plain) : t.names.Nodup := by
  apply (names_pathLT ht).imp
  rintro a b hab rfl
  exact pathLT_irrefl a hab

end Listing

/-- At every depth of a table of names without dots, what is listed is what is found: a path stands
in the list once if it leads to an instruction, and not at all otherwise. A path that stops at a
table leads to none, nor does one that goes on behind an instruction. -/
theorem listed_once_iff_found {t : Table ι} (h : t.Made Plain) :
    (∀ path, t.names.count path = if (t.get? path).isSome then 1 else 0) ∧
    (∀ path i, t.get? path = some i ↔ t.Leads (pathOf path) (.leaf i)) ∧
    (∀ path entries, t.Leads (pathOf path) (.table entries) → t.get? path = none) ∧
    ∀ path i more, t.Leads (pathOf path) (.leaf i) → t.get? (path ++ "." ++ more) = none := by
  have ht := h.sound
  refine ⟨fun path => ?_, fun path i => get?_eq_some_iff ht, fun path entries hleads => ?_,
    fun path i more hleads => ?_⟩
  · rw [(names_nodup ht).count]
    simp only [mem_names_iff ht]
  · rw [Option.eq_none_iff_forall_ne_some]
    intro i hfound
    cases hleads.unique ((get?_eq_some_iff ht).mp hfound) ht
  · rw [Option.eq_none_iff_forall_ne_some]
    intro other hfound
    rw [get?_eq_some_iff ht, pathOf_append, hleads.append_iff ht (pathOf_ne_nil more)] at hfound
    obtain ⟨entries, heq, -⟩ := hfound
    cases heq

theorem control_made : Control.table.Made Plain := .ofList (by decide)

def library : Table Control :=
  ((Edit.nest "base" Control.table).apply (empty.set "echo" (.plain .pass none))).2

theorem library_listed :
    library.Made Plain ∧ library.names.count "base.push" = 1 ∧ library.get? "base" = none ∧
      library.get? ("echo" ++ "." ++ "push") = none := by
  have hmade : library.Made Plain :=
    .nest (.set .empty (by decide) (.plain Control.pass none)) (by decide) control_made
  obtain ⟨hcount, -, htable, hpast⟩ := listed_once_iff_found hmade
  refine ⟨hmade, (hcount "base.push").trans (if_pos (by decide +kernel)),
    htable "base" Control.table.entries ?_, hpast "echo" (.plain .pass none) "push" ?_⟩
  · exact .here (Dict.mem_of_get? rfl)
  · exact .here (Dict.mem_of_get? rfl)

section Order

/-- The order of characters in which the dot comes first. -/
def DotFirst (a b : Char) : Prop := b ≠ '.' ∧ (a = '.' ∨ a < b)

theorem pathOf_dot (cs : List Char) :
    pathOf (String.ofList ('.' :: cs)) = "" :: pathOf (String.ofList cs) := by
  rw [pathOf, pathOf, String.toList_ofList, String.toList_ofList, Text.splitOn, Text.splitBy,
    if_pos (beq_self_eq_true '.')]
  rfl

theorem pathOf_char {c : Char} (hc : c ≠ '.') (cs : List Char) :
    ∃ piece rest, pathOf (String.ofList cs) = String.ofList piece :: rest ∧
      pathOf (String.ofList (c :: cs)) = String.ofList (c :: piece) :: rest := by
  obtain ⟨piece, rest, hcs⟩ := List.exists_cons_of_ne_nil (Text.splitBy_ne_nil (· == '.') cs)
  refine ⟨piece, rest.map String.ofList, ?_, ?_⟩
  · rw [pathOf, String.toList_ofList, Text.splitOn, hcs, List.map_cons]
  · rw [pathOf, String.toList_ofList, Text.splitOn, Text.splitBy, if_neg (by simpa using hc), hcs,
      List.map_cons]

theorem ofList_cons_lt_iff {c d : Char} {cs ds : List Char} :
    String.ofList (c :: cs) < String.ofList (d :: ds) ↔
      c < d ∨ c = d ∧ String.ofList cs < String.ofList ds := by
  simp only [String.lt_iff, String.toList_ofList, List.cons_lt_cons_iff]

theorem empty_lt_ofList (c : Char) (cs : List Char) : "" < String.ofList (c :: cs) := by
  have hchars : ([] : List Char) < c :: cs := .nil
  simpa only [String.lt_iff, String.toList_ofList, String.toList_empty] using hchars

theorem not_pathLT_empty (path : String) : ¬PathLT path "" := by
  obtain ⟨part, rest, hpath⟩ := List.exists_cons_of_ne_nil (pathOf_ne_nil path)
  rw [PathLT, pathOf_plain (by decide : Plain ""), hpath, List.cons_lex_cons_iff]
  rintro (hlt | ⟨-, hlex⟩)
  · exact List.not_lex_nil (String.lt_iff.mp hlt)
  · exact List.not_lex_nil hlex

theorem empty_pathLT (c : Char) (cs : List Char) : PathLT "" (String.ofList (c :: cs)) := by
  rw [PathLT, pathOf_plain (by decide : Plain "")]
  by_cases hc : c = '.'
  · obtain ⟨part, rest, hcs⟩ := List.exists_cons_of_ne_nil (pathOf_ne_nil (String.ofList cs))
    rw [hc, pathOf_dot, hcs]
    exact .cons .nil
  · obtain ⟨piece, rest, -, hcs⟩ := pathOf_char hc cs
    rw [hcs]
    exact .rel (empty_lt_ofList c piece)

theorem pathLT_cons_iff (c d : Char) (cs ds : List Char) :
    PathLT (String.ofList (c :: cs)) (String.ofList (d :: ds)) ↔
      DotFirst c d ∨ c = d ∧ PathLT (String.ofList cs) (String.ofList ds) := by
  unfold PathLT
  by_cases hc : c = '.'
  · by_cases hd : d = '.'
    · have hdot : ¬DotFirst '.' '.' := fun h => h.1 rfl
      rw [hc, hd, pathOf_dot, pathOf_dot, List.cons_lex_cons_iff]
      simp only [String.lt_irrefl, hdot, false_or, true_and]
    · obtain ⟨piece, rest, -, hds⟩ := pathOf_char hd ds
      rw [hc, pathOf_dot, hds]
      exact iff_of_true (.rel (empty_lt_ofList d piece)) (.inl ⟨hd, .inl rfl⟩)
  · obtain ⟨piece, rest, hcs, hccs⟩ := pathOf_char hc cs
    by_cases hd : d = '.'
    · rw [hd, pathOf_dot, hccs, List.cons_lex_cons_iff]
      have hlt := empty_lt_ofList c piece
      refine iff_of_false ?_ ?_
      · rintro (hless | ⟨heq, -⟩)
        · exact String.lt_asymm hlt hless
        · exact String.lt_irrefl _ (heq ▸ hlt)
      · rintro (⟨hne, -⟩ | ⟨heq, -⟩)
        · exact hne rfl
        · exact hc heq
    · obtain ⟨piece', rest', hds, hdds⟩ := pathOf_char hd ds
      rw [hccs, hdds, hcs, hds, List.cons_lex_cons_iff, List.cons_lex_cons_iff, ofList_cons_lt_iff,
        String.ofList_inj, String.ofList_inj, List.cons.injEq]
      simp only [DotFirst, hc, hd, ne_eq, not_false_eq_true, false_or, true_and]
      rw [or_assoc, and_assoc, ← and_or_left]

/-- The order of paths is that of their texts if the dot is taken for the first character. -/
theorem pathLT_iff (a b : String) : PathLT a b ↔ List.Lex DotFirst a.toList b.toList := by
  have hchars : ∀ as bs : List Char,
      PathLT (String.ofList as) (String.ofList bs) ↔ List.Lex DotFirst as bs := by
    intro as
    induction as with
    | nil =>
      intro bs
      cases bs with
      | nil => exact iff_of_false (not_pathLT_empty _) List.not_lex_nil
      | cons d ds => exact iff_of_true (empty_pathLT d ds) .nil
    | cons c cs ih =>
      intro bs
      cases bs with
      | nil => exact iff_of_false (not_pathLT_empty _) List.not_lex_nil
      | cons d ds => rw [pathLT_cons_iff, List.cons_lex_cons_iff, ih ds]
  have htexts := hchars a.toList b.toList
  rwa [String.ofList_toList, String.ofList_toList] at htexts

theorem lt_or_dot_of_lex {as bs : List Char} (h : List.Lex DotFirst as bs) :
    as < bs ∨ ∃ u v c w, as = u ++ '.' :: v ∧ bs = u ++ c :: w ∧ c < '.' := by
  induction h with
  | nil => exact .inl .nil
  | @rel a l b l' h =>
    obtain ⟨hne, rfl | hlt⟩ := h
    · rcases Std.lt_trichotomy b '.' with hlt | heq | hgt
      · exact .inr ⟨[], l, b, l', rfl, rfl, hlt⟩
      · exact absurd heq hne
      · exact .inl (.rel hgt)
    · exact .inl (.rel hlt)
  | @cons a l l' h ih =>
    rcases ih with hlt | ⟨u, v, c, w, rfl, rfl, hc⟩
    · exact .inl (.cons hlt)
    · exact .inr ⟨a :: u, v, c, w, rfl, rfl, hc⟩

/-- Names in their order are out of the order of texts only where one goes on with a dot and the
other one with a smaller character. -/
theorem lt_or_dot_of_pathLT {a b : String} (h : PathLT a b) :
    a < b ∨ ∃ u v w c, a = u ++ "." ++ v ∧ b = u ++ String.singleton c ++ w ∧ c < '.' := by
  rcases lt_or_dot_of_lex ((pathLT_iff a b).mp h) with hlt | ⟨u, v, c, w, ha, hb, hc⟩
  · exact .inl (String.lt_iff.mpr hlt)
  · refine .inr ⟨String.ofList u, String.ofList v, String.ofList w, c, ?_, ?_, hc⟩
    · rw [← String.toList_inj, toList_below, String.toList_ofList, String.toList_ofList, ha]
    · rw [← String.toList_inj, hb]
      simp [String.toList_append]

theorem pathLT_and_lt_of_dot (u v w : String) {c : Char} (h : c < '.') :
    PathLT (u ++ "." ++ v) (u ++ String.singleton c ++ w) ∧
      u ++ String.singleton c ++ w < u ++ "." ++ v := by
  have htext : (u ++ String.singleton c ++ w).toList = u.toList ++ c :: w.toList := by
    simp [String.toList_append]
  rw [pathLT_iff, String.lt_iff, htext, toList_below]
  refine ⟨.append_left _ (.rel ⟨?_, .inl rfl⟩) _, List.append_left_lt (.rel h)⟩
  rintro rfl
  exact Char.lt_irrefl _ h

end Order

/-- The names are listed in the order of their parts, at every depth: by the first part that
differs. This is the order of their texts exactly if no two of them go on behind the same beginning
with a dot and with a character below the dot. -/
theorem names_ascending_iff {t : Table ι} (h : t.Made Plain) :
    t.names.Pairwise PathLT ∧
    (t.names.Pairwise (· < ·) ↔
      ∀ u v w c, u ++ "." ++ v ∈ t.names → u ++ String.singleton c ++ w ∈ t.names → ¬c < '.') := by
  have hpaths := names_pathLT h.sound
  refine ⟨hpaths, fun hasc u v w c hdot hlow hc => ?_, fun hnone => ?_⟩
  · obtain ⟨hpath, hlt⟩ := pathLT_and_lt_of_dot u v w hc
    obtain ⟨front, back, hsplit⟩ := List.append_of_mem hdot
    rw [hsplit] at hpaths hasc hlow
    rcases List.mem_append.mp hlow with hfront | hback
    · have hbefore := (List.pairwise_append.mp hpaths).2.2 _ hfront _ List.mem_cons_self
      exact pathLT_asymm hpath hbefore
    · rcases List.mem_cons.mp hback with heq | hback
      · exact String.lt_irrefl _ (heq ▸ hlt)
      · have hbehind := (List.pairwise_cons.mp (List.pairwise_append.mp hasc).2.1).1 _ hback
        exact String.lt_asymm hlt hbehind
  · refine hpaths.imp_of_mem fun {a b} ha hb hab => ?_
    rcases lt_or_dot_of_pathLT hab with hlt | ⟨u, v, w, c, rfl, rfl, hc⟩
    · exact hlt
    · exact absurd hc (hnone u v w c ha hb)

/-- Beside the forms, a name that goes on with a character below the dot. -/
def hyphenated : Table Unit := forms.set "form-reset" (.plain () none)

theorem hyphenated_listed :
    hyphenated.Made Plain ∧ hyphenated.names.Pairwise PathLT ∧
      ¬hyphenated.names.Pairwise (· < ·) := by
  have hforms : forms.Made Plain :=
    .nest .empty (by decide) (.set .empty (by decide) (.plain () none))
  have hmade : hyphenated.Made Plain := hforms.set (by decide) (.plain () none)
  obtain ⟨hpaths, htexts⟩ := names_ascending_iff hmade
  refine ⟨hmade, hpaths, fun hasc => ?_⟩
  have hdot : "form" ++ "." ++ "reset" ∈ hyphenated.names := by decide +kernel
  have hhyphen : "form" ++ String.singleton '-' ++ "reset" ∈ hyphenated.names := by decide +kernel
  exact htexts.mp hasc "form" "reset" "reset" '-' hdot hhyphen (by decide)

/-- The list has a name in front of a smaller one. -/
theorem hyphenated_out_of_order :
    hyphenated.names = ["form.reset", "form-reset"] ∧ "form-reset" < "form.reset" := by
  decide +kernel

end Table

end AttrChain
