import AttrChain.Proofs.Paths

/-!
Calls that change tables. They keep the names in ascending order at every depth, and what a call
adds under a name without a dot is found there; under a name with a dot nothing is ever found.
-/

namespace AttrChain

variable {ι : Type}

namespace Table

/-- A call that changes a table. -/
inductive Edit (ι : Type) where
  | set (name : String) (i : Instruction ι)
  | register (name : String) (i : Instruction ι)
  | nest (name : String) (inner : Table ι)
  | merge (other : Table ι)

/-- The error and the table that are left when a call gives a table or fails. -/
def settle (t : Table ι) : Except Error (Table ι) → Option Error × Table ι
  | .ok s => (none, s)
  | .error e => (some e, t)

/-- The error that a call returns, if it fails, and the table that it leaves. -/
def Edit.apply (t : Table ι) : Edit ι → Option Error × Table ι
  | set name i => (none, t.set name i)
  | register name i => t.settle (t.register name i)
  | nest name inner => t.settle (t.nest name inner)
  | merge other => t.merge other

section Adding

variable {t s : Table ι} {name : String} {entry : Entry ι}

theorem addEntry_eq_ok_iff :
    t.addEntry name entry = .ok s ↔
      t.hasEntry name = false ∧ s = ⟨Dict.insert name entry t.entries⟩ := by
  rw [addEntry]
  cases t.hasEntry name <;> simp [eq_comm]

theorem addEntry_eq_error_iff {e : Error} :
    t.addEntry name entry = .error e ↔ t.hasEntry name = true ∧ e = .duplicateInstruction name := by
  rw [addEntry]
  cases t.hasEntry name <;> simp [eq_comm]

theorem hasEntry_iff : t.hasEntry name = true ↔ name ∈ t.entries.map (·.1) := Dict.isSome_get?

theorem get?_of_not_hasEntry (h : t.hasEntry name = false) : Dict.get? name t.entries = none := by
  rwa [hasEntry, Option.isSome_eq_false_iff, Option.isNone_iff_eq_none] at h

theorem settle_addEntry {e : Error} :
    (t.settle (t.addEntry name entry)).1 = some e ↔
      t.hasEntry name = true ∧ e = .duplicateInstruction name := by
  rw [← addEntry_eq_error_iff]
  cases t.addEntry name entry <;> simp [settle]

theorem settle_of_error {r : Except Error (Table ι)} {e : Error} (h : (t.settle r).1 = some e) :
    (t.settle r).2 = t := by
  cases r with
  | ok s => cases h
  | error why => rfl

end Adding

/-- Tables made by calls from the table without entries, all of them with names that are
allowed. -/
inductive Made (allowed : String → Prop) : Table ι → Prop where
  | empty : Made allowed Table.empty
  | set {t : Table ι} {name : String} (h : Made allowed t) (hname : allowed name)
      (i : Instruction ι) : Made allowed ((Edit.set name i).apply t).2
  | register {t : Table ι} {name : String} (h : Made allowed t) (hname : allowed name)
      (i : Instruction ι) : Made allowed ((Edit.register name i).apply t).2
  | nest {t inner : Table ι} {name : String} (h : Made allowed t) (hname : allowed name)
      (hinner : Made allowed inner) : Made allowed ((Edit.nest name inner).apply t).2
  | merge {t other : Table ι} (h : Made allowed t) (hother : Made allowed other) :
      Made allowed ((Edit.merge other).apply t).2

/-- At every depth the names ascend and are allowed. -/
inductive Sound (allowed : String → Prop) : Table ι → Prop where
  | intro {t : Table ι} (ascending : t.entries.Pairwise fun a b => a.1 < b.1)
      (named : ∀ entry ∈ t.entries, allowed entry.1)
      (inner : ∀ name entries, (name, .table entries) ∈ t.entries → Sound allowed ⟨entries⟩) :
      Sound allowed t

section Soundness

variable {allowed : String → Prop} {t s : Table ι} {name : String} {entry : Entry ι}

theorem Sound.ascending (h : t.Sound allowed) : t.entries.Pairwise fun a b => a.1 < b.1 := by
  cases h with
  | intro ascending named inner => exact ascending

theorem Sound.named (h : t.Sound allowed) : ∀ entry ∈ t.entries, allowed entry.1 := by
  cases h with
  | intro ascending named inner => exact named

theorem Sound.inner (h : t.Sound allowed) :
    ∀ name entries, (name, .table entries) ∈ t.entries → (Table.mk entries).Sound allowed := by
  cases h with
  | intro ascending named inner => exact inner

theorem Sound.insert (h : t.Sound allowed) (hname : allowed name)
    (hentry : ∀ entries, entry = .table entries → (Table.mk entries).Sound allowed) :
    (Table.mk (Dict.insert name entry t.entries)).Sound allowed := by
  refine .intro (Dict.ascending_insert _ _ h.ascending) (fun e he => ?_) fun n entries he => ?_
  · rcases Dict.mem_insert he with rfl | hmem
    · exact hname
    · exact h.named e hmem
  · rcases Dict.mem_insert he with heq | hmem
    · exact hentry entries (Prod.mk.inj heq).2.symm
    · exact h.inner n entries hmem

theorem Sound.addEntry (h : t.Sound allowed) (hname : allowed name)
    (hentry : ∀ entries, entry = .table entries → (Table.mk entries).Sound allowed)
    (hadd : t.addEntry name entry = .ok s) : s.Sound allowed := by
  obtain ⟨-, rfl⟩ := addEntry_eq_ok_iff.mp hadd
  exact h.insert hname hentry

theorem Sound.settle {r : Except Error (Table ι)} (h : t.Sound allowed)
    (hr : ∀ s, r = .ok s → s.Sound allowed) : (t.settle r).2.Sound allowed := by
  cases r with
  | ok s => exact hr s rfl
  | error e => exact h

theorem Sound.mergeEntries {entries : List (String × Entry ι)} (h : t.Sound allowed)
    (named : ∀ entry ∈ entries, allowed entry.1)
    (inner : ∀ name es, (name, .table es) ∈ entries → (Table.mk es).Sound allowed) :
    (t.mergeEntries entries).2.Sound allowed := by
  induction entries generalizing t with
  | nil => exact h
  | cons entry rest ih =>
    obtain ⟨name, entry⟩ := entry
    obtain ⟨hname, hrest⟩ := List.forall_mem_cons.mp named
    rw [Table.mergeEntries]
    cases hadd : t.addEntry name entry with
    | error e => exact h
    | ok s =>
      have hs : s.Sound allowed := h.addEntry hname
        (fun es heq => inner name es (heq ▸ List.mem_cons_self)) hadd
      exact ih hs hrest fun n es hmem => inner n es (List.mem_cons_of_mem _ hmem)

theorem Made.sound (h : t.Made allowed) : t.Sound allowed := by
  induction h with
  | empty => exact .intro .nil (by simp [Table.empty]) (by simp [Table.empty])
  | set h hname i ih =>
    refine ih.insert hname fun entries heq => ?_
    cases heq
  | register h hname i ih =>
    refine ih.settle fun s hs => ih.addEntry hname (fun entries heq => ?_) hs
    cases heq
  | nest h hname hinner ih ihinner =>
    refine ih.settle fun s hs => ih.addEntry hname (fun entries heq => ?_) hs
    cases heq
    exact ihinner
  | merge h hother ih ihother => exact ih.mergeEntries ihother.named ihother.inner

theorem Made.ofList {instructions : List (String × Instruction ι)}
    (h : ∀ entry ∈ instructions, allowed entry.1) : (Table.ofList instructions).Made allowed := by
  have hfold : ∀ t : Table ι, t.Made allowed →
      (instructions.foldl (fun t entry => t.set entry.1 entry.2) t).Made allowed := by
    induction instructions with
    | nil => exact fun t ht => ht
    | cons entry rest ih =>
      obtain ⟨hname, hrest⟩ := List.forall_mem_cons.mp h
      exact fun t ht => ih hrest _ (ht.set hname entry.2)
  exact hfold _ .empty

end Soundness

section Resolution

variable {t s : Table ι} {name : String} {entry : Entry ι}

/-- An entry with a dot in its name is out of reach: no path has such a part. -/
theorem get?_insert_dotted (h : ¬Plain name) (path : String) :
    (Table.mk (Dict.insert name entry t.entries)).get? path = t.get? path := by
  refine get?_congr (Dict.get?_insert_of_ne ?_ _ _)
  rintro rfl
  exact h (plain_firstPart path)

theorem get?_insert_of_ne {path : String} (h : firstPart path ≠ name) :
    (Table.mk (Dict.insert name entry t.entries)).get? path = t.get? path :=
  get?_congr (Dict.get?_insert_of_ne h _ _)

theorem get?_insert_leaf (hname : Plain name) (hfree : t.hasEntry name = false)
    (i : Instruction ι) (path : String) :
    (Table.mk (Dict.insert name (.leaf i) t.entries)).get? path =
      if path = name then some i else t.get? path := by
  by_cases hfirst : firstPart path = name
  · rcases path_cases path with hpath | ⟨first, rest, hpath, rfl⟩
    · obtain rfl : path = name := (firstPart_plain hpath).symm.trans hfirst
      rw [get?_plain _ hname, Dict.get?_insert_self, if_pos rfl]
    · obtain rfl : first = name := (firstPart_below hpath rest).symm.trans hfirst
      -- nothing is below an instruction, and nothing was below the name before
      have hne : first ++ "." ++ rest ≠ first := fun heq => hname (heq ▸ by simp)
      rw [if_neg hne, get?_below _ hname, get?_below _ hname, Dict.get?_insert_self,
        get?_of_not_hasEntry hfree]
  · have hne : path ≠ name := by
      rintro rfl
      exact hfirst (firstPart_plain hname)
    rw [if_neg hne]
    exact get?_insert_of_ne hfirst

theorem get?_registered {i : Instruction ι} (h : t.register name i = .ok s) (path : String) :
    s.get? path = if path = name ∧ Plain name then some i else t.get? path := by
  obtain ⟨hfree, rfl⟩ := addEntry_eq_ok_iff.mp h
  by_cases hname : Plain name
  · simp only [hname, and_true, get?_insert_leaf hname hfree]
  · rw [if_neg fun hand => hname hand.2]
    exact get?_insert_dotted hname path

theorem get?_nested {inner : Table ι} (h : t.nest name inner = .ok s) (path : String) :
    s.get? (name ++ "." ++ path) =
      if Plain name then inner.get? path else t.get? (name ++ "." ++ path) := by
  obtain ⟨-, rfl⟩ := addEntry_eq_ok_iff.mp h
  split
  next hname => rw [get?_below _ hname, Dict.get?_insert_self]
  next hname => exact get?_insert_dotted hname _

end Resolution

/-- The names of one part are resolved once they are added, and those with a dot never are. An
instruction that is registered is found under a name without a dot, a table that is nested by the
paths below such a name, and all other paths lead where they led before. Under a name with a dot
the call goes well just the same, but no path leads anywhere else than before, neither the name nor
a path below it. A call fails exactly if there is an entry of that name, and changes nothing
then. -/
theorem plain_names_resolved (t : Table ι) (name : String) :
    (∀ i s, t.register name i = .ok s →
      ∀ path, s.get? path = if path = name ∧ Plain name then some i else t.get? path) ∧
    (∀ inner s, t.nest name inner = .ok s →
      (∀ path, s.get? (name ++ "." ++ path) =
        if Plain name then inner.get? path else t.get? (name ++ "." ++ path)) ∧
      ∀ path, firstPart path ≠ name → s.get? path = t.get? path) ∧
    ∀ edit : Edit ι, (∃ i, edit = .register name i) ∨ (∃ inner, edit = .nest name inner) →
      (∀ e, (edit.apply t).1 = some e ↔ t.hasEntry name ∧ e = .duplicateInstruction name) ∧
      ∀ e, (edit.apply t).1 = some e → (edit.apply t).2 = t := by
  refine ⟨fun i s h => get?_registered h, fun inner s h => ⟨get?_nested h, fun path hpath => ?_⟩, ?_⟩
  · obtain ⟨-, rfl⟩ := addEntry_eq_ok_iff.mp h
    exact get?_insert_of_ne hpath
  · rintro edit (⟨i, rfl⟩ | ⟨inner, rfl⟩)
    · exact ⟨fun e => settle_addEntry, fun e => settle_of_error⟩
    · exact ⟨fun e => settle_addEntry, fun e => settle_of_error⟩

def resetting : Table Unit := empty.set "reset" (.plain () none)

def forms : Table Unit := ((Edit.nest "form" resetting).apply empty).2

theorem forms_resolved :
    empty.nest "form" resetting = .ok forms ∧
      forms.get? ("form" ++ "." ++ "reset") = resetting.get? "reset" := by
  have hnest : empty.nest "form" resetting = .ok forms := rfl
  obtain ⟨-, hresolved, -⟩ := plain_names_resolved (empty : Table Unit) "form"
  exact ⟨hnest, ((hresolved resetting forms hnest).1 "reset").trans (if_pos (by decide))⟩

/-- A name with a dot is registered and not found, also where its path is taken already. -/
theorem dotted_registered_unresolved :
    let registered (t : Table Unit) := (Edit.register "form.reset" .prune).apply t
    (registered empty).1 = none ∧ (registered empty).2.get? "form.reset" = none ∧
      forms.get? "form.reset" = some (.plain () none) ∧ (registered forms).1 = none ∧
      (registered forms).2.get? "form.reset" = some (.plain () none) := by
  decide +kernel

end Table

end AttrChain
