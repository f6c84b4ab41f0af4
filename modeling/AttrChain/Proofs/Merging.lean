import AttrChain.Proofs.Registration

/-!
Merging one table into another: the entries in front of the first name that both have are put in,
and a merge that fails takes none of them back.
-/

namespace AttrChain

variable {ι : Type}

namespace Table

section Merging

variable {t other : Table ι} {name : String}

def addAll (t : Table ι) (entries : List (String × Entry ι)) : Table ι :=
  ⟨entries.foldl (fun dict entry => Dict.insert entry.1 entry.2 dict) t.entries⟩

theorem get?_addAll (t : Table ι) {entries : List (String × Entry ι)}
    (h : entries.Pairwise fun a b => a.1 < b.1) (name : String) :
    Dict.get? name (t.addAll entries).entries =
      (Dict.get? name entries).or (Dict.get? name t.entries) := by
  induction entries generalizing t with
  | nil => rfl
  | cons entry rest ih =>
    obtain ⟨hfirst, hrest⟩ := List.pairwise_cons.mp h
    have hstep := ih ⟨Dict.insert entry.1 entry.2 t.entries⟩ hrest
    rw [addAll] at hstep ⊢
    rw [List.foldl_cons, hstep, Dict.get?_insert, Dict.get?]
    by_cases heq : name = entry.1
    · have hnone : Dict.get? name rest = none := by
        rw [Dict.get?_eq_none]
        intro hmem
        obtain ⟨later, hlater, hname⟩ := List.mem_map.mp hmem
        exact String.lt_irrefl _ (heq ▸ hname ▸ hfirst later hlater)
      rw [if_pos heq, if_pos heq, hnone, Option.none_or, Option.some_or]
    · rw [if_neg heq, if_neg heq]

theorem mergeEntries_split (t : Table ι) {entries : List (String × Entry ι)}
    (h : entries.Pairwise fun a b => a.1 < b.1) :
    ∃ before after, entries = before ++ after ∧
      (∀ entry ∈ before, t.hasEntry entry.1 = false) ∧
      (∀ entry ∈ after.head?, t.hasEntry entry.1 = true) ∧
      t.mergeEntries entries =
        (after.head?.map fun entry => .duplicateInstruction entry.1, t.addAll before) := by
  induction entries generalizing t with
  | nil => exact ⟨[], [], rfl, by simp, by simp, rfl⟩
  | cons entry rest ih =>
    obtain ⟨name, entry⟩ := entry
    obtain ⟨hfirst, hrest⟩ := List.pairwise_cons.mp h
    rw [mergeEntries]
    cases hadd : t.addEntry name entry with
    | error e =>
      obtain ⟨htaken, rfl⟩ := addEntry_eq_error_iff.mp hadd
      exact ⟨[], (name, entry) :: rest, rfl, by simp, by simpa using htaken, rfl⟩
    | ok s =>
      obtain ⟨hfree, rfl⟩ := addEntry_eq_ok_iff.mp hadd
      obtain ⟨before, after, rfl, hbefore, hafter, hrun⟩ := ih _ hrest
      -- the entry that was put in is none of those that follow
      have hsame : ∀ later ∈ before ++ after,
          (Table.mk (Dict.insert name entry t.entries)).hasEntry later.1 = t.hasEntry later.1 := by
        intro later hlater
        have hne : later.1 ≠ name := fun heq => String.lt_irrefl _ (heq ▸ hfirst later hlater)
        rw [hasEntry, hasEntry, Dict.get?_insert_of_ne hne]
      refine ⟨(name, entry) :: before, after, rfl, ?_, fun later hlater => ?_, hrun⟩
      · refine List.forall_mem_cons.mpr ⟨hfree, fun later hlater => ?_⟩
        rw [← hsame later (List.mem_append_left _ hlater)]
        exact hbefore later hlater
      · have hmem := List.mem_append_right before (List.mem_of_mem_head? hlater)
        rw [← hsame later hmem]
        exact hafter later hlater

def Shared (t other : Table ι) (name : String) : Prop := t.hasEntry name ∧ other.hasEntry name

/-- The entries of the other table in front of the first one of which the name is taken, and those
from there on. -/
structure Cut (t other : Table ι) (before after : List (String × Entry ι)) : Prop where
  ascending : other.entries.Pairwise fun a b => a.1 < b.1
  entries : other.entries = before ++ after
  free : ∀ entry ∈ before, t.hasEntry entry.1 = false
  taken : ∀ entry ∈ after.head?, t.hasEntry entry.1 = true

section Cutting

variable {before after : List (String × Entry ι)}

theorem Cut.mem_after (c : Cut t other before after) (h : t.Shared other name) :
    ∃ entry ∈ after, entry.1 = name := by
  obtain ⟨entry, hmem, rfl⟩ := List.mem_map.mp (hasEntry_iff.mp h.2)
  rw [c.entries] at hmem
  rcases List.mem_append.mp hmem with hbefore | hafter
  · exact absurd h.1 (by simp [c.free entry hbefore])
  · exact ⟨entry, hafter, rfl⟩

theorem Cut.shared_head {first : String × Entry ι} {rest : List (String × Entry ι)}
    (c : Cut t other before (first :: rest)) : t.Shared other first.1 := by
  refine ⟨c.taken first rfl, hasEntry_iff.mpr (List.mem_map_of_mem ?_)⟩
  rw [c.entries]
  exact List.mem_append_right _ List.mem_cons_self

theorem Cut.head_le {first entry : String × Entry ι} {rest : List (String × Entry ι)}
    (c : Cut t other before (first :: rest)) (h : entry ∈ first :: rest) : first.1 ≤ entry.1 := by
  have hasc := c.ascending
  rw [c.entries] at hasc
  rcases List.mem_cons.mp h with rfl | hrest
  · exact String.le_refl _
  · have hlt := (List.pairwise_cons.mp (List.pairwise_append.mp hasc).2.1).1 entry hrest
    exact String.not_lt.mp (String.lt_asymm hlt)

theorem Cut.after_eq_nil_iff (c : Cut t other before after) :
    after = [] ↔ ∀ name, ¬t.Shared other name := by
  cases after with
  | nil =>
    refine iff_of_true rfl fun name hshared => ?_
    obtain ⟨entry, hmem, -⟩ := c.mem_after hshared
    cases hmem
  | cons first rest => exact iff_of_false nofun fun hnone => hnone _ c.shared_head

/-- The cut lies in front of the smallest name that both tables have. -/
theorem Cut.head_iff (c : Cut t other before after) :
    after.head?.map (·.1) = some name ↔
      t.Shared other name ∧ ∀ n, t.Shared other n → name ≤ n := by
  cases after with
  | nil =>
    exact iff_of_false nofun fun hleast => c.after_eq_nil_iff.mp rfl name hleast.1
  | cons first rest =>
    rw [List.head?_cons, Option.map_some, Option.some.injEq]
    constructor
    · rintro rfl
      refine ⟨c.shared_head, fun n hn => ?_⟩
      obtain ⟨entry, hmem, rfl⟩ := c.mem_after hn
      exact c.head_le hmem
    · rintro ⟨hshared, hleast⟩
      obtain ⟨entry, hmem, rfl⟩ := c.mem_after hshared
      exact String.le_antisymm (c.head_le hmem) (hleast _ c.shared_head)

theorem Cut.mem_before_iff (c : Cut t other before after) :
    name ∈ before.map (·.1) ↔ other.hasEntry name ∧ ∀ n, t.Shared other n → name < n := by
  have hasc := c.ascending
  rw [c.entries] at hasc
  constructor
  · intro hname
    obtain ⟨entry, hmem, rfl⟩ := List.mem_map.mp hname
    refine ⟨hasEntry_iff.mpr (List.mem_map_of_mem ?_), fun n hn => ?_⟩
    · rw [c.entries]
      exact List.mem_append_left _ hmem
    · obtain ⟨later, hlater, rfl⟩ := c.mem_after hn
      exact (List.pairwise_append.mp hasc).2.2 entry hmem later hlater
  · rintro ⟨hother, hbelow⟩
    rw [hasEntry_iff, c.entries, List.map_append, List.mem_append] at hother
    refine hother.resolve_right fun hafter => ?_
    obtain ⟨entry, hmem, rfl⟩ := List.mem_map.mp hafter
    cases after with
    | nil => cases hmem
    | cons first rest => exact c.head_le hmem (hbelow _ c.shared_head)

theorem Cut.get?_before (c : Cut t other before after) (h : ∀ n, t.Shared other n → name < n) :
    Dict.get? name before = Dict.get? name other.entries := by
  cases hbefore : Dict.get? name before with
  | some entry => rw [c.entries, Dict.get?_append, hbefore, Option.some_or]
  | none =>
    have hother : ¬other.hasEntry name := fun hother =>
      Dict.get?_eq_none.mp hbefore (c.mem_before_iff.mpr ⟨hother, h⟩)
    exact (get?_of_not_hasEntry (Bool.eq_false_iff.mpr hother)).symm

theorem Cut.get?_before_eq_none (c : Cut t other before after)
    (h : ∃ n, t.Shared other n ∧ n ≤ name) : Dict.get? name before = none := by
  rw [Dict.get?_eq_none, c.mem_before_iff]
  rintro ⟨-, hbelow⟩
  obtain ⟨n, hn, hle⟩ := h
  exact String.not_lt.mpr hle (hbelow n hn)

theorem Cut.get?_addAll (c : Cut t other before after) (name : String) :
    Dict.get? name (t.addAll before).entries =
      (Dict.get? name before).or (Dict.get? name t.entries) := by
  have hasc := c.ascending
  rw [c.entries] at hasc
  exact Table.get?_addAll t (List.pairwise_append.mp hasc).1 name

theorem Cut.addAll_eq_self_iff (c : Cut t other before after) :
    t.addAll before = t ↔ ∀ n, other.hasEntry n → ∃ name, t.Shared other name ∧ name ≤ n := by
  constructor
  · intro hsame n hn
    have hbefore : n ∉ before.map (·.1) := by
      intro hmem
      obtain ⟨entry, hentry, rfl⟩ := List.mem_map.mp hmem
      have hsome := Dict.isSome_get?.mpr hmem
      have hget := c.get?_addAll entry.1
      rw [hsame, get?_of_not_hasEntry (c.free entry hentry), Option.or_none] at hget
      rw [← hget] at hsome
      cases hsome
    rw [c.mem_before_iff, not_and] at hbefore
    obtain ⟨name, hname⟩ := Classical.not_forall.mp (hbefore hn)
    obtain ⟨hshared, hnot⟩ := Classical.not_imp.mp hname
    exact ⟨name, hshared, String.not_lt.mp hnot⟩
  · intro hall
    have hempty : before = [] := by
      rw [List.eq_nil_iff_forall_not_mem]
      intro entry hentry
      obtain ⟨hother, hbelow⟩ := c.mem_before_iff.mp (List.mem_map_of_mem hentry)
      obtain ⟨name, hshared, hle⟩ := hall _ hother
      exact hle (hbelow name hshared)
    rw [hempty]
    rfl

end Cutting

theorem merge_cut (t : Table ι) (h : other.entries.Pairwise fun a b => a.1 < b.1) :
    ∃ before after, Cut t other before after ∧
      t.merge other =
        (after.head?.map fun entry => .duplicateInstruction entry.1, t.addAll before) := by
  obtain ⟨before, after, hsplit, hfree, htaken, hrun⟩ := mergeEntries_split t h
  exact ⟨before, after, ⟨h, hsplit, hfree, htaken⟩, hrun⟩

end Merging

/-- A merge fails exactly if a name occurs in both tables, and tells the smallest one. It puts in
the entries of the other table with names below all of those, which are all of its entries if it
does not fail. Paths whose first part the table had before lead where they led; those that start
with an entry that is put in lead where they lead in the other table; all others lead nowhere. So
a merge that fails leaves the table as it was only if the other table has no smaller name than the
one it tells. -/
theorem merge_up_to_first_taken (t : Table ι) {other : Table ι} (h : other.Made fun _ => True) :
    let result := (t.merge other).1
    let s := (t.merge other).2
    (∀ e, result = some e ↔ ∃ name, e = .duplicateInstruction name ∧
      t.Shared other name ∧ ∀ n, t.Shared other n → name ≤ n) ∧
    (result = none ↔ ∀ name, ¬t.Shared other name) ∧
    (∀ path, t.hasEntry (firstPart path) → s.get? path = t.get? path) ∧
    (∀ path, ¬t.hasEntry (firstPart path) →
      (∀ name, t.Shared other name → firstPart path < name) → s.get? path = other.get? path) ∧
    (∀ path, ¬t.hasEntry (firstPart path) →
      (∃ name, t.Shared other name ∧ name ≤ firstPart path) → s.get? path = none) ∧
    (s = t ↔ ∀ n, other.hasEntry n → ∃ name, t.Shared other name ∧ name ≤ n) := by
  intro result s
  obtain ⟨before, after, c, hrun⟩ := merge_cut t h.sound.ascending
  obtain ⟨hresult, hs⟩ := Prod.mk.inj (show (result, s) = _ from hrun)
  have hget : ∀ path, Dict.get? (firstPart path) s.entries =
      (Dict.get? (firstPart path) before).or (Dict.get? (firstPart path) t.entries) := by
    intro path
    rw [hs]
    exact c.get?_addAll _
  have herror : ∀ e, result = some e ↔ ∃ name, e = .duplicateInstruction name ∧
      t.Shared other name ∧ ∀ n, t.Shared other n → name ≤ n := by
    intro e
    simp only [← c.head_iff, hresult]
    cases after.head? <;> simp [eq_comm]
  refine ⟨herror, ?_, fun path hpath => ?_, fun path hpath hbelow => ?_,
    fun path hpath hnot => ?_, ?_⟩
  · rw [hresult, Option.map_eq_none_iff, List.head?_eq_none_iff]
    exact c.after_eq_nil_iff
  · refine get?_congr ?_
    have hnone : Dict.get? (firstPart path) before = none := by
      rw [Dict.get?_eq_none]
      intro hmem
      obtain ⟨entry, hentry, heq⟩ := List.mem_map.mp hmem
      rw [← heq, c.free entry hentry] at hpath
      cases hpath
    rw [hget, hnone, Option.none_or]
  · refine get?_congr ?_
    rw [hget, c.get?_before hbelow, get?_of_not_hasEntry (Bool.eq_false_iff.mpr hpath),
      Option.or_none]
  · refine get?_eq_none_of_first ?_
    rw [hget, c.get?_before_eq_none hnot, Option.none_or]
    exact get?_of_not_hasEntry (Bool.eq_false_iff.mpr hpath)
  · rw [hs]
    exact c.addAll_eq_self_iff

def focusing : Table Unit := resetting.set "focus" (.plain () none)

theorem focusing_merged :
    (focusing.Made fun _ => True) ∧ resetting.Shared focusing "reset" ∧
      (∀ n, resetting.Shared focusing n → "reset" ≤ n) ∧
      (resetting.merge focusing).2.get? "reset" = some (.plain () none) := by
  have hmade : focusing.Made fun _ => True := (Made.empty.set trivial _).set trivial _
  obtain ⟨herror, -, hkept, -⟩ := merge_up_to_first_taken resetting hmade
  obtain ⟨name, heq, hshared, hleast⟩ := (herror (.duplicateInstruction "reset")).mp rfl
  cases heq
  exact ⟨hmade, hshared, hleast, (hkept "reset" (by decide +kernel)).trans (by decide +kernel)⟩

/-- A merge that fails leaves an instruction behind. -/
theorem focusing_merged_in_part :
    (resetting.merge focusing).1 = some (.duplicateInstruction "reset") ∧
      resetting.get? "focus" = none ∧
      (resetting.merge focusing).2.get? "focus" = some (.plain () none) := by
  decide +kernel

end Table

end AttrChain
