import AttrChain.Instruction.Table

/-!
Paths through tables: dotted names, their parts, and what they lead to. A path is one part, or a
part with a path below it, and it is looked up in the same way.
-/

namespace AttrChain

variable {ι : Type}

namespace Table

/-- A name of one part. -/
def Plain (name : String) : Prop := '.' ∉ name.toList

instance (name : String) : Decidable (Plain name) := inferInstanceAs (Decidable ('.' ∉ name.toList))

def firstPart (path : String) : String := (pathOf path).headD ""

section Parts

variable {name : String}

theorem toList_below (name path : String) :
    (name ++ "." ++ path).toList = name.toList ++ '.' :: path.toList := by
  simp [String.toList_append]

theorem pathOf_plain (h : Plain name) : pathOf name = [name] := by
  rw [pathOf, Text.splitOn_of_not_mem h, List.map_singleton, String.ofList_toList]

theorem pathOf_below (h : Plain name) (path : String) :
    pathOf (name ++ "." ++ path) = name :: pathOf path := by
  rw [pathOf, toList_below, Text.splitOn_append h, List.map_cons, String.ofList_toList, pathOf]

theorem pathOf_ne_nil (path : String) : pathOf path ≠ [] := by
  rw [pathOf, Ne, List.map_eq_nil_iff]
  exact Text.splitBy_ne_nil _ _

theorem firstPart_plain (h : Plain name) : firstPart name = name := by
  rw [firstPart, pathOf_plain h, List.headD_cons]

theorem firstPart_below (h : Plain name) (path : String) :
    firstPart (name ++ "." ++ path) = name := by
  rw [firstPart, pathOf_below h, List.headD_cons]

theorem path_cases (path : String) :
    Plain path ∨ ∃ name rest, Plain name ∧ path = name ++ "." ++ rest := by
  by_cases h : Plain path
  · exact .inl h
  · obtain ⟨front, back, hsplit, hfront⟩ := List.eq_append_cons_of_mem (Classical.not_not.mp h)
    refine .inr ⟨String.ofList front, String.ofList back, ?_, ?_⟩
    · rwa [Plain, String.toList_ofList]
    · rw [← String.toList_inj, toList_below, String.toList_ofList, String.toList_ofList, hsplit]

theorem plain_firstPart (path : String) : Plain (firstPart path) := by
  rcases path_cases path with h | ⟨name, rest, h, rfl⟩
  · rwa [firstPart_plain h]
  · rwa [firstPart_below h]

/-- What holds of names of one part, and below such a name if it holds of the rest, holds of all
paths. -/
@[elab_as_elim]
theorem path_induction {P : String → Prop} (plain : ∀ name, Plain name → P name)
    (below : ∀ name rest, Plain name → P rest → P (name ++ "." ++ rest)) (path : String) :
    P path := by
  induction hparts : pathOf path generalizing path with
  | nil => exact absurd hparts (pathOf_ne_nil path)
  | cons part parts ih =>
    rcases path_cases path with h | ⟨name, rest, h, rfl⟩
    · exact plain path h
    · rw [pathOf_below h] at hparts
      exact below name rest h (ih rest (List.cons.inj hparts).2)

theorem pathOf_append (first second : String) :
    pathOf (first ++ "." ++ second) = pathOf first ++ pathOf second := by
  induction first using path_induction with
  | plain name h => rw [pathOf_below h, pathOf_plain h, List.singleton_append]
  | below name rest h ih =>
    have hassoc : name ++ "." ++ rest ++ "." ++ second = name ++ "." ++ (rest ++ "." ++ second) := by
      simp only [String.append_assoc]
    rw [hassoc, pathOf_below h, ih, pathOf_below h, List.cons_append]

theorem joinWith_cons (name : String) {path : List String} (h : path ≠ []) :
    Text.joinWith "." (name :: path) = name ++ "." ++ Text.joinWith "." path := by
  obtain ⟨part, rest, rfl⟩ := List.exists_cons_of_ne_nil h
  rfl

theorem pathOf_joinWith {path : List String} (hne : path ≠ []) (h : ∀ part ∈ path, Plain part) :
    pathOf (Text.joinWith "." path) = path := by
  induction path with
  | nil => exact absurd rfl hne
  | cons name rest ih =>
    obtain ⟨hname, hrest⟩ := List.forall_mem_cons.mp h
    by_cases hempty : rest = []
    · subst hempty
      exact pathOf_plain hname
    · rw [joinWith_cons name hempty, pathOf_below hname, ih hempty hrest]

theorem joinWith_pathOf (path : String) : Text.joinWith "." (pathOf path) = path := by
  induction path using path_induction with
  | plain name h => rw [pathOf_plain h, Text.joinWith]
  | below name rest h ih => rw [pathOf_below h, joinWith_cons name (pathOf_ne_nil rest), ih]

end Parts

section Lookup

variable {t s : Table ι} {name : String}

theorem find?_singleton (name : String) (entries : List (String × Entry ι)) :
    find? [name] entries = match Dict.get? name entries with
      | some (.leaf i) => some i
      | _ => none := by
  cases hentry : Dict.get? name entries with
  | none => simp [find?, hentry]
  | some entry => cases entry <;> simp [find?, hentry]

theorem find?_cons (name : String) {path : List String} (h : path ≠ [])
    (entries : List (String × Entry ι)) :
    find? (name :: path) entries = match Dict.get? name entries with
      | some (.table inner) => find? path inner
      | _ => none := by
  obtain ⟨part, rest, rfl⟩ := List.exists_cons_of_ne_nil h
  cases hentry : Dict.get? name entries with
  | none => simp only [find?, hentry]
  | some entry => cases entry <;> simp only [find?, hentry]

theorem get?_plain (t : Table ι) (h : Plain name) :
    t.get? name = match Dict.get? name t.entries with
      | some (.leaf i) => some i
      | _ => none := by
  rw [get?, pathOf_plain h, find?_singleton]

theorem get?_below (t : Table ι) (h : Plain name) (path : String) :
    t.get? (name ++ "." ++ path) = match Dict.get? name t.entries with
      | some (.table entries) => (Table.mk entries).get? path
      | _ => none := by
  rw [get?, pathOf_below h, find?_cons name (pathOf_ne_nil path)]
  rfl

/-- What a path leads to depends on the entry under its first part alone. -/
theorem get?_congr {path : String}
    (h : Dict.get? (firstPart path) s.entries = Dict.get? (firstPart path) t.entries) :
    s.get? path = t.get? path := by
  rcases path_cases path with hpath | ⟨name, rest, hname, rfl⟩
  · rw [firstPart_plain hpath] at h
    rw [get?_plain s hpath, get?_plain t hpath, h]
  · rw [firstPart_below hname] at h
    rw [get?_below s hname, get?_below t hname, h]

theorem get?_eq_none_of_first {path : String} (h : Dict.get? (firstPart path) t.entries = none) :
    t.get? path = none := by
  rcases path_cases path with hpath | ⟨name, rest, hname, rfl⟩
  · rw [firstPart_plain hpath] at h
    rw [get?_plain t hpath, h]
  · rw [firstPart_below hname] at h
    rw [get?_below t hname, h]

end Lookup

end Table

end AttrChain
