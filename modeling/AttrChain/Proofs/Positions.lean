import AttrChain.Proofs.Windows

/-!
Reading a stack by position. An index may be any whole number: a negative one counts from the end of
the buffer. Bounds that lie outside are moved to the nearer end, and a single index outside finds a
placeholder. On 64-bit words, with every conversion, sum and access checked, the same is read, and
no check fails.
-/

namespace AttrChain

def signedWord? (n : Int) : Option Int64 :=
  if -Int.pow 2 63 ≤ n ∧ n < Int.pow 2 63 then some (.ofInt n) else none

def unsignedWord? (n : Int) : Option UInt64 :=
  if 0 ≤ n ∧ n < Int.pow 2 64 then some (.ofNat n.toNat) else none

/-- The items from one place up to another, if these are places of the list in this order. -/
def piece? {α : Type} (first last : UInt64) (items : List α) : Option (List α) :=
  if first ≤ last ∧ last.toNat ≤ items.length then
    some ((items.take last.toNat).drop first.toNat)
  else none

section Words

variable {n : Int}

theorem signedWord?_eq (h : -9223372036854775808 ≤ n ∧ n < 9223372036854775808) :
    ∃ w, signedWord? n = some w ∧ w.toInt = n :=
  ⟨.ofInt n, if_pos h, Int64.toInt_ofInt_of_le h.1 h.2⟩

theorem unsignedWord?_eq (h : 0 ≤ n ∧ n < 18446744073709551616) :
    ∃ w, unsignedWord? n = some w ∧ (w.toNat : Int) = n := by
  refine ⟨.ofNat n.toNat, if_pos h, ?_⟩
  rw [UInt64.toNat_ofNat_of_lt' (by rw [UInt64.size]; omega)]
  omega

end Words

namespace Stack

section Checked

/-- The place that an index means, on words. What would fall below zero stays at zero. -/
def placeWord? (i : Int64) (length : UInt64) : Option UInt64 := do
  if i < 0 then
    let size ← unsignedWord? i.toInt.natAbs
    return if length < size then 0 else length - size
  else
    let at_ ← unsignedWord? i.toInt
    return if at_ ≤ length then at_ else length

def stopWord? (last : Option Int64) (length : UInt64) : Option UInt64 :=
  match last with
  | some i => placeWord? i length
  | none => some length

def sliceWord? (first : Int64) (last : Option Int64) (s : Stack) : Option (List Value) := do
  let length ← unsignedWord? s.buffer.length
  let start ← placeWord? first length
  let stop ← stopWord? last length
  if stop ≤ start then return [] else piece? start stop s.buffer

def topWord? (n : UInt64) (s : Stack) : Option (List Value) := do
  let length ← unsignedWord? s.buffer.length
  piece? (if length < n then 0 else length - n) length s.buffer

def positionWord? (i length : Int64) : Option Int64 :=
  if i < 0 then signedWord? (length.toInt + i.toInt) else some i

def copyWord? (s : Stack) (i : Int64) : Option Value := do
  let length ← signedWord? s.buffer.length
  let at_ ← positionWord? i length
  if 0 ≤ at_ ∧ at_ < length then
    let place ← unsignedWord? at_.toInt
    s.buffer[place.toNat]?
  else return .nil

def stageCopiesWord? (indices : List Int64) (s : Stack) : Option Stack := do
  let copies ← indices.mapM s.copyWord?
  return s.stage copies

end Checked

/-- The position of an index: a negative one counts from the end. -/
def position (i : Int) (s : Stack) : Int := if i < 0 then s.buffer.length + i else i

/-- The position of an index, moved to the nearer end of the buffer if it lies outside. -/
def clamped (i : Int) (s : Stack) : Int := max 0 (min s.buffer.length (s.position i))

/-- The position at which a slice stops, without an index the end of the buffer. -/
def stopping (last : Option Int) (s : Stack) : Int :=
  match last with
  | some i => s.clamped i
  | none => s.buffer.length

/-- The value that an index finds: the one at its position, or a placeholder outside. -/
def Finds (s : Stack) (i : Int) (v : Value) : Prop :=
  if 0 ≤ s.position i ∧ s.position i < s.buffer.length then
    s.buffer[(s.position i).toNat]? = some v
  else v = .nil

section Positions

variable {s : Stack}

theorem place_eq_clamped (i : Int) (s : Stack) :
    (place i s.buffer.length : Int) = s.clamped i := by
  unfold place clamped position
  by_cases hi : i < 0
  · rw [if_pos hi, if_pos hi]
    omega
  · rw [if_neg hi, if_neg hi]
    omega

theorem stopping_nonneg (last : Option Int) (s : Stack) : 0 ≤ s.stopping last := by
  cases last with
  | none => exact Int.natCast_nonneg _
  | some i =>
    simp only [stopping, clamped]
    omega

theorem stopping_le (last : Option Int) (s : Stack) : s.stopping last ≤ s.buffer.length := by
  cases last with
  | none => exact Int.le_refl _
  | some i =>
    simp only [stopping, clamped]
    omega

theorem slice_eq {first : Int} {last : Option Int} {stop : Nat} (hstop : stop = s.stopping last) :
    s.slice first last = (s.buffer.take stop).drop (place first s.buffer.length) := by
  cases last with
  | none =>
    obtain rfl : stop = s.buffer.length := Int.ofNat_inj.mp hstop
    rfl
  | some i =>
    obtain rfl : stop = place i s.buffer.length :=
      Int.ofNat_inj.mp (hstop.trans (place_eq_clamped i s).symm)
    rfl

theorem slice_eq_placed (first : Int) (last : Option Int) (s : Stack) :
    s.slice first last =
      placed (fun p => s.clamped first ≤ p ∧ p < s.stopping last) s.buffer := by
  obtain ⟨stop, hstop⟩ := Int.eq_ofNat_of_zero_le (stopping_nonneg last s)
  have hbounds : (s.buffer.take stop).drop (place first s.buffer.length) =
      placed (fun p => place first s.buffer.length ≤ p ∧ p < stop) s.buffer :=
    Refinement.drop_take_eq s.buffer (place first s.buffer.length) stop 0
  rw [slice_eq hstop.symm, hbounds, hstop, ← place_eq_clamped]
  apply placed_congr
  intro p _
  simp

theorem length_top (n : Nat) (s : Stack) : (s.top n).length = min n s.buffer.length := by
  rw [top, List.length_drop]
  omega

theorem finds_get? (s : Stack) (i : Int) : s.Finds i ((s.get? i).getD .nil) := by
  have hread : s.get? i =
      if s.position i < 0 then none else s.buffer[(s.position i).toNat]? := rfl
  unfold Finds
  rw [hread]
  by_cases hin : 0 ≤ s.position i ∧ s.position i < s.buffer.length
  · have hlt : (s.position i).toNat < s.buffer.length := by omega
    rw [if_pos hin, if_neg (by omega), List.getElem?_eq_getElem hlt]
    rfl
  · rw [if_neg hin]
    by_cases hneg : s.position i < 0
    · rw [if_pos hneg]
      rfl
    · rw [if_neg hneg, List.getElem?_eq_none (by omega)]
      rfl

end Positions

section Words

variable {s : Stack}

theorem placeWord?_eq (i : Int64) (length : UInt64) :
    ∃ w, placeWord? i length = some w ∧ w.toNat = place i.toInt length.toNat := by
  have hlow := i.le_toInt
  have hhigh := i.toInt_lt
  have hlength := length.toNat_lt
  unfold placeWord? place
  by_cases hi : i < 0
  · have hneg : i.toInt < 0 := Int64.lt_iff_toInt_lt.mp hi
    obtain ⟨size, hsize, hval⟩ := unsignedWord?_eq (n := i.toInt.natAbs) (by omega)
    rw [if_pos hi, if_pos hneg, hsize]
    by_cases hless : length < size
    · have := UInt64.lt_iff_toNat_lt.mp hless
      refine ⟨0, by simp [hless], ?_⟩
      rw [UInt64.toNat_zero]
      omega
    · have hle : size ≤ length := UInt64.not_lt.mp hless
      refine ⟨length - size, by simp [hless], ?_⟩
      rw [UInt64.toNat_sub_of_le _ _ hle]
      omega
  · have hpos : ¬ i.toInt < 0 := fun h => hi (Int64.lt_iff_toInt_lt.mpr h)
    obtain ⟨at_, hat, hval⟩ := unsignedWord?_eq (n := i.toInt) (by omega)
    rw [if_neg hi, if_neg hpos, hat]
    by_cases hle : at_ ≤ length
    · have := UInt64.le_iff_toNat_le.mp hle
      refine ⟨at_, by simp [hle], ?_⟩
      omega
    · have := UInt64.lt_iff_toNat_lt.mp (UInt64.not_le.mp hle)
      refine ⟨length, by simp [hle], ?_⟩
      omega

theorem piece?_eq {first last : UInt64} {items : List Value}
    (h : first.toNat ≤ last.toNat ∧ last.toNat ≤ items.length) :
    piece? first last items = some ((items.take last.toNat).drop first.toNat) :=
  if_pos ⟨UInt64.le_iff_toNat_le.mpr h.1, h.2⟩

/-- The length of a buffer as it can be held in memory, as an unsigned word. -/
theorem length_word (h : s.buffer.length < Nat.pow 2 63) :
    ∃ w, unsignedWord? s.buffer.length = some w ∧ w.toNat = s.buffer.length := by
  have hlength : s.buffer.length < 9223372036854775808 := h
  obtain ⟨w, hw, hval⟩ := unsignedWord?_eq (n := s.buffer.length) (by omega)
  exact ⟨w, hw, by omega⟩

theorem stopWord?_eq {length : UInt64} (hlength : length.toNat = s.buffer.length)
    (last : Option Int64) :
    ∃ w, stopWord? last length = some w ∧ (w.toNat : Int) = s.stopping (last.map Int64.toInt) := by
  cases last with
  | none => exact ⟨length, rfl, congrArg Nat.cast hlength⟩
  | some i =>
    obtain ⟨w, hw, hval⟩ := placeWord?_eq i length
    refine ⟨w, hw, ?_⟩
    rw [hval, hlength]
    exact place_eq_clamped i.toInt s

theorem sliceWord?_eq (h : s.buffer.length < Nat.pow 2 63) (first : Int64) (last : Option Int64) :
    s.sliceWord? first last = some (s.slice first.toInt (last.map Int64.toInt)) := by
  obtain ⟨length, hlength, hlengthVal⟩ := length_word h
  obtain ⟨start, hstart, hstartVal⟩ := placeWord?_eq first length
  obtain ⟨stop, hstop, hstopVal⟩ := stopWord?_eq hlengthVal last
  rw [hlengthVal] at hstartVal
  have hwithin := stopping_le (last.map Int64.toInt) s
  rw [slice_eq hstopVal, ← hstartVal]
  unfold sliceWord?
  simp only [hlength, hstart, hstop, Option.bind_eq_bind, Option.bind_some]
  by_cases hempty : stop ≤ start
  · have hle := UInt64.le_iff_toNat_le.mp hempty
    rw [if_pos hempty, List.drop_eq_nil_of_le]
    · rfl
    · rw [List.length_take]
      omega
  · have hlt := UInt64.lt_iff_toNat_lt.mp (UInt64.not_le.mp hempty)
    rw [if_neg hempty, piece?_eq (by omega)]

theorem topWord?_eq (h : s.buffer.length < Nat.pow 2 63) (n : UInt64) :
    s.topWord? n = some (s.top n.toNat) := by
  obtain ⟨length, hlength, hval⟩ := length_word h
  have hstart : (if length < n then 0 else length - n).toNat = s.buffer.length - n.toNat := by
    by_cases hless : length < n
    · have := UInt64.lt_iff_toNat_lt.mp hless
      rw [if_pos hless, UInt64.toNat_zero]
      omega
    · rw [if_neg hless, UInt64.toNat_sub_of_le _ _ (UInt64.not_lt.mp hless)]
      omega
  unfold topWord?
  simp only [hlength, Option.bind_eq_bind, Option.bind_some]
  rw [piece?_eq (by omega), hstart, hval, List.take_length]
  rfl

/-- A negative index and a length have a sum, since their signs differ. -/
theorem positionWord?_eq {length : Int64} (hlength : length.toInt = s.buffer.length) (i : Int64) :
    ∃ w, positionWord? i length = some w ∧ w.toInt = s.position i.toInt := by
  have hlow := i.le_toInt
  have hhigh := length.toInt_lt
  unfold positionWord? position
  by_cases hi : i < 0
  · have hneg : i.toInt < 0 := Int64.lt_iff_toInt_lt.mp hi
    rw [if_pos hi, if_pos hneg, hlength]
    exact signedWord?_eq (by omega)
  · have hpos : ¬ i.toInt < 0 := fun h => hi (Int64.lt_iff_toInt_lt.mpr h)
    rw [if_neg hi, if_neg hpos]
    exact ⟨i, rfl, rfl⟩

theorem copyWord?_eq (h : s.buffer.length < Nat.pow 2 63) (i : Int64) :
    s.copyWord? i = some ((s.get? i.toInt).getD .nil) := by
  have hshort : s.buffer.length < 9223372036854775808 := h
  obtain ⟨length, hlength, hlengthVal⟩ := signedWord?_eq (n := s.buffer.length) (by omega)
  obtain ⟨at_, hat, hval⟩ := positionWord?_eq hlengthVal i
  have hinside : (0 ≤ at_ ∧ at_ < length) ↔
      (0 ≤ s.position i.toInt ∧ s.position i.toInt < s.buffer.length) := by
    rw [Int64.le_iff_toInt_le, Int64.lt_iff_toInt_lt, hval, hlengthVal]
    rfl
  have hfinds := finds_get? s i.toInt
  unfold Finds at hfinds
  unfold copyWord?
  simp only [hlength, hat, Option.bind_eq_bind, Option.bind_some]
  by_cases hin : 0 ≤ s.position i.toInt ∧ s.position i.toInt < s.buffer.length
  · obtain ⟨place, hplace, hplaceVal⟩ := unsignedWord?_eq (n := at_.toInt) (by omega)
    have hsame : place.toNat = (s.position i.toInt).toNat := by omega
    rw [if_pos hin] at hfinds
    rw [if_pos (hinside.mpr hin), hplace, Option.bind_some, hsame, hfinds]
  · rw [if_neg hin] at hfinds
    rw [if_neg (fun hword => hin (hinside.mp hword)), hfinds]
    rfl

theorem stageCopiesWord?_eq (h : s.buffer.length < Nat.pow 2 63) (indices : List Int64) :
    s.stageCopiesWord? indices = some (s.stageCopies (indices.map Int64.toInt)) := by
  have hcopies : indices.mapM s.copyWord? =
      some (indices.map fun i => (s.get? i.toInt).getD .nil) := by
    rw [show s.copyWord? = fun i => some ((s.get? i.toInt).getD .nil) from
      funext (copyWord?_eq h)]
    exact List.mapM_pure
  rw [stageCopiesWord?, hcopies, stageCopies, List.map_map]
  rfl

end Words

/-- What is read by position, for all indices and counts. A slice holds the items at the positions
from one bound up to the other, both counted from the end if negative and moved to the nearer end if
they lie outside. The last `n` values are as many as there are, up to `n`. Copies are set aside one
for each index, in order, a placeholder where the index lies outside, and the buffer stays as it is.
For a buffer that fits into memory the same is read on 64-bit words: no conversion and no sum leaves
its range, and no access is out of bounds. -/
theorem reads_by_position (s : Stack) :
    (∀ first last, s.slice first last =
      placed (fun p => s.clamped first ≤ p ∧ p < s.stopping last) s.buffer) ∧
    (∀ n, s.top n <:+ s.buffer ∧ (s.top n).length = min n s.buffer.length) ∧
    (∀ indices, (s.stageCopies indices).buffer = s.buffer ∧
      ∃ copies, (s.stageCopies indices).staging = s.staging ++ copies ∧
        List.Forall₂ s.Finds indices copies) ∧
    (s.buffer.length < Nat.pow 2 63 →
      (∀ first last,
        s.sliceWord? first last = some (s.slice first.toInt (last.map Int64.toInt))) ∧
      (∀ n, s.topWord? n = some (s.top n.toNat)) ∧
      ∀ indices,
        s.stageCopiesWord? indices = some (s.stageCopies (indices.map Int64.toInt))) := by
  refine ⟨fun first last => slice_eq_placed first last s, ?_, ?_, ?_⟩
  · intro n
    exact ⟨List.drop_suffix _ _, length_top n s⟩
  · intro indices
    refine ⟨rfl, _, rfl, ?_⟩
    rw [List.forall₂_map_right_iff, List.forall₂_same]
    intro i _
    exact finds_get? s i
  · intro h
    exact ⟨sliceWord?_eq h, topWord?_eq h, stageCopiesWord?_eq h⟩

def threeDeep : Stack := ⟨[.bool true, .null, .bool false], []⟩

/-- The extreme words are bounds and indices like any others. -/
theorem threeDeep_read :
    threeDeep.buffer.length < Nat.pow 2 63 ∧
    threeDeep.sliceWord? Int64.minValue (some (-1)) = some [.bool true, .null] ∧
    threeDeep.sliceWord? Int64.maxValue none = some [] ∧
    threeDeep.topWord? 18446744073709551615 = some threeDeep.buffer ∧
    (threeDeep.stageCopiesWord? [-3, Int64.minValue, 2, Int64.maxValue]).map Stack.staging =
      some [.bool true, .nil, .bool false, .nil] := by
  have hlength : threeDeep.buffer.length < Nat.pow 2 63 := by decide
  obtain ⟨hslice, htop, hcopies⟩ := (reads_by_position threeDeep).2.2.2 hlength
  rw [hslice, hslice, htop, hcopies]
  exact ⟨hlength, rfl, rfl, rfl, rfl⟩

end Stack

end AttrChain
