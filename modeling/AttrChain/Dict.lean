/-!
Entries under text keys, kept in ascending order of their keys. Texts are ordered by code points.
-/

namespace AttrChain.Dict

variable {α : Type}

def get? (key : String) : List (String × α) → Option α
  | [] => none
  | (k, v) :: rest => if key = k then some v else get? key rest

def insert (key : String) (value : α) : List (String × α) → List (String × α)
  | [] => [(key, value)]
  | (k, v) :: rest =>
    if key = k then (key, value) :: rest
    else if key < k then (key, value) :: (k, v) :: rest
    else (k, v) :: insert key value rest

def erase (key : String) (entries : List (String × α)) : List (String × α) :=
  entries.filter fun entry => entry.1 ≠ key

/-- The entries in order; of two with one key the later counts. -/
def ofList (entries : List (String × α)) : List (String × α) :=
  entries.foldl (fun dict entry => insert entry.1 entry.2 dict) []

@[simp] theorem get?_nil (key : String) : get? key ([] : List (String × α)) = none := rfl

theorem get?_insert (key other : String) (value : α) (entries : List (String × α)) :
    get? other (insert key value entries) =
      if other = key then some value else get? other entries := by
  induction entries with
  | nil => simp [insert, get?]
  | cons entry rest ih =>
    obtain ⟨k, v⟩ := entry
    simp only [insert]
    by_cases h : key = k
    · subst h
      by_cases ho : other = key <;> simp [get?, ho]
    · rw [if_neg h]
      by_cases hlt : key < k
      · rw [if_pos hlt, get?]
      · rw [if_neg hlt, get?, get?, ih]
        by_cases ho : other = k
        · subst ho
          simp [Ne.symm h]
        · simp [ho]

@[simp] theorem get?_insert_self (key : String) (value : α) (entries : List (String × α)) :
    get? key (insert key value entries) = some value := by
  rw [get?_insert, if_pos rfl]

theorem get?_insert_of_ne {key other : String} (h : other ≠ key) (value : α)
    (entries : List (String × α)) : get? other (insert key value entries) = get? other entries := by
  rw [get?_insert, if_neg h]

theorem insert_insert (key : String) (value : α) (entries : List (String × α)) :
    insert key value (insert key value entries) = insert key value entries := by
  induction entries with
  | nil => rw [insert, insert, if_pos rfl]
  | cons entry rest ih =>
    obtain ⟨k, v⟩ := entry
    by_cases h : key = k
    · rw [insert, if_pos h, insert, if_pos rfl]
    · by_cases hlt : key < k
      · rw [insert, if_neg h, if_pos hlt, insert, if_pos rfl]
      · rw [insert, if_neg h, if_neg hlt, insert, if_neg h, if_neg hlt, ih]

theorem erase_erase (key : String) (entries : List (String × α)) :
    erase key (erase key entries) = erase key entries := by
  rw [erase, erase, List.filter_filter]
  simp only [Bool.and_self]

theorem get?_erase (key other : String) (entries : List (String × α)) :
    get? other (erase key entries) = if other = key then none else get? other entries := by
  induction entries with
  | nil => rw [erase, List.filter_nil, get?_nil, ite_self]
  | cons entry rest ih =>
    obtain ⟨k, v⟩ := entry
    rw [erase] at ih
    by_cases hk : k = key
    · rw [erase, List.filter_cons_of_neg (by simpa using hk), ih, get?, hk]
      by_cases ho : other = key <;> simp [ho]
    · rw [erase, List.filter_cons_of_pos (by simpa using hk), get?, get?, ih]
      by_cases ho : other = k
      · rw [if_pos ho, if_pos ho, if_neg (ho ▸ hk)]
      · rw [if_neg ho, if_neg ho]

theorem insert_above {key : String} {entries : List (String × α)}
    (h : ∀ entry ∈ entries, entry.1 < key) (value : α) :
    insert key value entries = entries ++ [(key, value)] := by
  induction entries with
  | nil => rfl
  | cons entry rest ih =>
    obtain ⟨hlt, hrest⟩ := List.forall_mem_cons.mp h
    have hne : key ≠ entry.1 := by
      rintro rfl
      exact String.lt_irrefl _ hlt
    rw [insert, if_neg hne, if_neg (String.lt_asymm hlt), ih hrest]
    rfl

theorem foldl_insert_of_ascending {done entries : List (String × α)}
    (h : (done ++ entries).Pairwise fun a b => a.1 < b.1) :
    entries.foldl (fun dict entry => insert entry.1 entry.2 dict) done = done ++ entries := by
  induction entries generalizing done with
  | nil => exact (List.append_nil done).symm
  | cons entry rest ih =>
    have hlt : ∀ e ∈ done, e.1 < entry.1 := fun e he =>
      (List.pairwise_append.mp h).2.2 e he entry List.mem_cons_self
    rw [List.append_cons] at h
    rw [List.foldl_cons, insert_above hlt, ih h, List.append_assoc, List.singleton_append]

theorem ofList_of_ascending {entries : List (String × α)}
    (h : entries.Pairwise fun a b => a.1 < b.1) : ofList entries = entries :=
  foldl_insert_of_ascending h

theorem mem_of_get? {key : String} {value : α} {entries : List (String × α)}
    (h : get? key entries = some value) : (key, value) ∈ entries := by
  induction entries with
  | nil => cases h
  | cons entry rest ih =>
    obtain ⟨k, v⟩ := entry
    rw [get?] at h
    by_cases hkey : key = k
    · rw [if_pos hkey, Option.some.injEq] at h
      rw [hkey, h]
      exact List.mem_cons_self
    · rw [if_neg hkey] at h
      exact List.mem_cons_of_mem _ (ih h)

theorem isSome_get? {key : String} {entries : List (String × α)} :
    (get? key entries).isSome ↔ key ∈ entries.map (·.1) := by
  induction entries with
  | nil => simp
  | cons entry rest ih =>
    rw [get?, List.map_cons, List.mem_cons, ← ih]
    by_cases hkey : key = entry.1 <;> simp [hkey]

theorem get?_eq_none {key : String} {entries : List (String × α)} :
    get? key entries = none ↔ key ∉ entries.map (·.1) := by
  rw [← isSome_get?, Bool.not_eq_true, Option.isSome_eq_false_iff, Option.isNone_iff_eq_none]

theorem get?_append (key : String) (first second : List (String × α)) :
    get? key (first ++ second) = (get? key first).or (get? key second) := by
  induction first with
  | nil => rfl
  | cons entry rest ih =>
    rw [List.cons_append, get?, get?, ih]
    by_cases hkey : key = entry.1 <;> simp [hkey]

theorem get?_eq_some_iff {key : String} {value : α} {entries : List (String × α)}
    (h : entries.Pairwise fun a b => a.1 < b.1) :
    get? key entries = some value ↔ (key, value) ∈ entries := by
  refine ⟨mem_of_get?, fun hmem => ?_⟩
  obtain ⟨before, after, rfl⟩ := List.append_of_mem hmem
  have hbefore : get? key before = none := by
    rw [get?_eq_none]
    intro hkey
    obtain ⟨entry, hentry, heq⟩ := List.mem_map.mp hkey
    have hlt := (List.pairwise_append.mp h).2.2 entry hentry _ List.mem_cons_self
    exact String.lt_irrefl _ (heq ▸ hlt)
  rw [get?_append, hbefore, Option.none_or, get?, if_pos rfl]

theorem mem_insert {key : String} {value : α} {entries : List (String × α)} {entry : String × α}
    (h : entry ∈ insert key value entries) : entry = (key, value) ∨ entry ∈ entries := by
  induction entries with
  | nil => exact .inl (List.mem_singleton.mp h)
  | cons first rest ih =>
    obtain ⟨k, v⟩ := first
    rw [insert] at h
    split at h
    · exact (List.mem_cons.mp h).imp_right (List.mem_cons_of_mem _)
    · split at h
      · exact List.mem_cons.mp h
      · rcases List.mem_cons.mp h with rfl | hrest
        · exact .inr List.mem_cons_self
        · exact (ih hrest).imp_right (List.mem_cons_of_mem _)

theorem ascending_insert (key : String) (value : α) {entries : List (String × α)}
    (h : entries.Pairwise fun a b => a.1 < b.1) :
    (insert key value entries).Pairwise fun a b => a.1 < b.1 := by
  induction entries with
  | nil => exact List.pairwise_singleton _ _
  | cons first rest ih =>
    obtain ⟨k, v⟩ := first
    obtain ⟨hfirst, hrest⟩ := List.pairwise_cons.mp h
    rw [insert]
    by_cases hkey : key = k
    · rw [if_pos hkey, hkey]
      exact List.pairwise_cons.mpr ⟨hfirst, hrest⟩
    · rw [if_neg hkey]
      by_cases hlt : key < k
      · rw [if_pos hlt]
        refine List.pairwise_cons.mpr ⟨List.forall_mem_cons.mpr ⟨hlt, fun e he => ?_⟩, h⟩
        exact String.lt_trans hlt (hfirst e he)
      · rw [if_neg hlt]
        have hgt : k < key := Std.lt_of_le_of_ne (String.not_lt.mp hlt) (Ne.symm hkey)
        refine List.pairwise_cons.mpr ⟨fun e he => ?_, ih hrest⟩
        rcases mem_insert he with rfl | hmem
        · exact hgt
        · exact hfirst e hmem

end AttrChain.Dict
