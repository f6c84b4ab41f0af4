import AttrChain.Proofs.Encodings
import AttrChain.Value.Json

/-!
Values written as JSON and read again. Texts, lists and maps come back as they are; a placeholder
and a node come back as what they are written as.
-/

namespace AttrChain.Value

/-- A value that JSON carries: no floating-point number in it, maps with their keys in ascending
order, and nodes with numbers that signed 64 bits hold. -/
inductive Carried : Value → Prop where
  | nil : Carried nil
  | null : Carried null
  | bool (b : Bool) : Carried (bool b)
  | int (n : Int64) : Carried (int n)
  | text (s : String) : Carried (text s)
  | list {items : List Value} : (∀ v ∈ items, Carried v) → Carried (list items)
  | map {entries : List (String × Value)} : entries.Pairwise (fun a b => a.1 < b.1) →
      (∀ e ∈ entries, Carried e.2) → Carried (map entries)
  | node {id : NodeId} : id.index < Nat.pow 2 63 → Carried (node id)

mutual

def depth : Value → Nat
  | list items => itemsDepth items + 1
  | map entries => entriesDepth entries + 1
  | _ => 0

def itemsDepth : List Value → Nat
  | [] => 0
  | v :: rest => max (depth v) (itemsDepth rest)

def entriesDepth : List (String × Value) → Nat
  | [] => 0
  | (_, v) :: rest => max (depth v) (entriesDepth rest)

end

mutual

/-- The value with `null` for each placeholder, and for each node its number. -/
def recoded : Value → Value
  | nil => null
  | node id => int (Int64.ofNat id.index)
  | list items => list (recodedItems items)
  | map entries => map (recodedEntries entries)
  | v => v

def recodedItems : List Value → List Value
  | [] => []
  | v :: rest => recoded v :: recodedItems rest

def recodedEntries : List (String × Value) → List (String × Value)
  | [] => []
  | (key, v) :: rest => (key, recoded v) :: recodedEntries rest

end

mutual

/-- Whether there is neither a placeholder nor a node in the value. -/
def isLasting : Value → Bool
  | nil | node _ => false
  | list items => lastingItems items
  | map entries => lastingEntries entries
  | _ => true

def lastingItems : List Value → Bool
  | [] => true
  | v :: rest => isLasting v && lastingItems rest

def lastingEntries : List (String × Value) → Bool
  | [] => true
  | (_, v) :: rest => isLasting v && lastingEntries rest

end

section Recoded

variable {v : Value} {items : List Value} {entries : List (String × Value)}

theorem recodedItems_eq_self_iff (h : ∀ v ∈ items, (v.recoded = v ↔ v.isLasting = true)) :
    recodedItems items = items ↔ lastingItems items = true := by
  induction items with
  | nil => simp [recodedItems, lastingItems]
  | cons v items ih =>
    obtain ⟨hv, hitems⟩ := List.forall_mem_cons.mp h
    rw [recodedItems, lastingItems, List.cons.injEq, Bool.and_eq_true, hv, ih hitems]

theorem recodedEntries_eq_self_iff
    (h : ∀ e ∈ entries, (e.2.recoded = e.2 ↔ e.2.isLasting = true)) :
    recodedEntries entries = entries ↔ lastingEntries entries = true := by
  induction entries with
  | nil => simp [recodedEntries, lastingEntries]
  | cons e entries ih =>
    obtain ⟨he, hentries⟩ := List.forall_mem_cons.mp h
    have hentry : (e.1, e.2.recoded) = e ↔ e.2.recoded = e.2 := by simp [Prod.ext_iff]
    rw [recodedEntries, lastingEntries, List.cons.injEq, Bool.and_eq_true, hentry, he, ih hentries]

theorem Carried.recoded_eq_self_iff (h : v.Carried) : v.recoded = v ↔ v.isLasting = true := by
  induction h with
  | nil | node _ => simp [recoded, isLasting]
  | null | bool _ | int _ | text _ => simp [recoded, isLasting]
  | list _ ih => rw [recoded, isLasting, Value.list.injEq, recodedItems_eq_self_iff ih]
  | map _ _ ih => rw [recoded, isLasting, Value.map.injEq, recodedEntries_eq_self_iff ih]

end Recoded

section Documents

variable {v : Value} {items : List Value} {entries : List (String × Value)}

theorem toJsonItems_eq_map (items : List Value) : toJsonItems items = items.map toJson := by
  induction items with
  | nil => rfl
  | cons v items ih => rw [toJsonItems, ih, List.map_cons]

theorem toJsonFields_eq_map (entries : List (String × Value)) :
    toJsonFields entries = entries.map fun e => (e.1, e.2.toJson) := by
  induction entries with
  | nil => rfl
  | cons e entries ih => rw [toJsonFields, ih, List.map_cons]

theorem index_fits {id : NodeId} (h : id.index < Nat.pow 2 63) :
    -Int.pow 2 63 ≤ (id.index : Int) ∧ (id.index : Int) < Int.pow 2 63 :=
  ⟨Int.le_trans (by decide) (Int.natCast_nonneg id.index), Int.ofNat_lt.mpr h⟩

theorem Carried.exact_toJson (h : v.Carried) : v.toJson.Exact := by
  induction h with
  | nil | null => exact .null
  | bool b => exact .bool b
  | int n =>
    have hmin : -Int.pow 2 63 ≤ n.toInt := n.le_toInt
    have hmax : n.toInt < Int.pow 2 63 := n.toInt_lt
    exact .int hmin (Int.lt_trans hmax (by decide))
  | text s => exact .text s
  | list _ ih =>
    rw [toJson, toJsonItems_eq_map]
    exact .array (List.forall_mem_map.mpr ih)
  | map hkeys _ ih =>
    rw [toJson, toJsonFields_eq_map]
    exact .object (List.pairwise_map.mpr hkeys) (List.forall_mem_map.mpr ih)
  | node hid =>
    obtain ⟨hmin, hmax⟩ := index_fits hid
    exact .int hmin (Int.lt_trans hmax (by decide))

theorem itemsHeight_toJsonItems (h : ∀ v ∈ items, v.toJson.height = v.depth) :
    Json.itemsHeight (toJsonItems items) = itemsDepth items := by
  induction items with
  | nil => rfl
  | cons v items ih =>
    obtain ⟨hv, hitems⟩ := List.forall_mem_cons.mp h
    rw [toJsonItems, Json.itemsHeight, itemsDepth, hv, ih hitems]

theorem fieldsHeight_toJsonFields (h : ∀ e ∈ entries, e.2.toJson.height = e.2.depth) :
    Json.fieldsHeight (toJsonFields entries) = entriesDepth entries := by
  induction entries with
  | nil => rfl
  | cons e entries ih =>
    obtain ⟨he, hentries⟩ := List.forall_mem_cons.mp h
    rw [toJsonFields, Json.fieldsHeight, entriesDepth, he, ih hentries]

theorem Carried.height_toJson (h : v.Carried) : v.toJson.height = v.depth := by
  induction h with
  | nil | null | bool _ | int _ | text _ | node _ => rfl
  | list _ ih => rw [toJson, Json.height, depth, itemsHeight_toJsonItems ih]
  | map _ _ ih => rw [toJson, Json.height, depth, fieldsHeight_toJsonFields ih]

theorem ofJsonItems_eq_map (items : List Json) : ofJsonItems items = items.map ofJson := by
  induction items with
  | nil => rfl
  | cons item items ih => rw [ofJsonItems, ih, List.map_cons]

theorem ofJsonFields_eq_map (fields : List (String × Json)) :
    ofJsonFields fields = fields.map fun f => (f.1, ofJson f.2) := by
  induction fields with
  | nil => rfl
  | cons f fields ih => rw [ofJsonFields, ih, List.map_cons]

theorem recodedItems_eq_map (items : List Value) : recodedItems items = items.map recoded := by
  induction items with
  | nil => rfl
  | cons v items ih => rw [recodedItems, ih, List.map_cons]

theorem recodedEntries_eq_map (entries : List (String × Value)) :
    recodedEntries entries = entries.map fun e => (e.1, e.2.recoded) := by
  induction entries with
  | nil => rfl
  | cons e entries ih => rw [recodedEntries, ih, List.map_cons]

theorem ofWhole_of_fits {n : Int} (hmin : -Int.pow 2 63 ≤ n) (hmax : n < Int.pow 2 63) :
    ofWhole n = int (Int64.ofInt n) := if_pos ⟨hmin, hmax⟩

theorem Carried.ofJson_toJson (h : v.Carried) : ofJson v.toJson = v.recoded := by
  induction h with
  | nil | null | bool _ | text _ => rfl
  | int n =>
    rw [toJson, ofJson, ofWhole_of_fits n.le_toInt n.toInt_lt, n.ofInt_toInt]
    rfl
  | list _ ih =>
    rw [toJson, ofJson, recoded, toJsonItems_eq_map, ofJsonItems_eq_map, recodedItems_eq_map,
      List.map_map]
    exact congrArg Value.list (List.map_congr_left ih)
  | @map entries hkeys _ ih =>
    have hentries : entries.map (fun e => (e.1, ofJson e.2.toJson)) =
        entries.map fun e => (e.1, e.2.recoded) :=
      List.map_congr_left fun e he => congrArg (Prod.mk e.1) (ih e he)
    -- the keys stay, so reading puts the entries in the order in which they are
    have hascending : (entries.map fun e => (e.1, e.2.recoded)).Pairwise fun a b => a.1 < b.1 :=
      List.pairwise_map.mpr hkeys
    rw [toJson, ofJson, recoded, toJsonFields_eq_map, ofJsonFields_eq_map, recodedEntries_eq_map,
      List.map_map, ofEntries]
    exact congrArg Value.map
      ((congrArg Dict.ofList hentries).trans (Dict.ofList_of_ascending hascending))
  | node hid =>
    obtain ⟨hmin, hmax⟩ := index_fits hid
    rw [toJson, ofJson, ofWhole_of_fits hmin hmax, recoded, Int64.ofInt_eq_ofNat]

end Documents

/-- A value without floating-point numbers that is written as JSON is read again as the recoded
value, if it is at most as deep as texts may nest, and else not at all. That is the value itself
if there is neither a placeholder nor a node in it. -/
theorem recoded_by_json {v : Value} (h : v.Carried) :
    read? v.toJson.compact = (if v.depth ≤ 127 then some v.recoded else none) ∧
      (v.recoded = v ↔ v.isLasting = true) := by
  refine ⟨?_, h.recoded_eq_self_iff⟩
  rw [read?, Json.read?_compact h.exact_toJson, Json.map_within, h.ofJson_toJson, h.height_toJson]
  rfl

def assorted : Value :=
  .map [("\"\n", .list [.int (-5), .nil, .text "\x01\\"]), ("k", .node ⟨3⟩)]

theorem assorted_recoded : read? assorted.toJson.compact =
    some (.map [("\"\n", .list [.int (-5), .null, .text "\x01\\"]), ("k", .int 3)]) := by
  have hitems : (Value.list [.int (-5), .nil, .text "\x01\\"]).Carried :=
    .list (by simp [Carried.int, Carried.nil, Carried.text])
  have hcarried : assorted.Carried :=
    .map (by decide) (by simp [hitems, Carried.node])
  exact (recoded_by_json hcarried).1

end AttrChain.Value
