import AttrChain.Proofs.Endings
import AttrChain.Proofs.Lookup

/-!
Which matches are kept by bounds, by places in a row and by tests of the place: from one place up to
another all three keep the same ones. Bounds are kept to as far as they denote numbers.
-/

namespace AttrChain

open AttrChain.Text

section Places

variable {α : Type} {admits admits' : Nat → Bool} {items : List α}

def placed (admits : Nat → Bool) (items : List α) : List α :=
  (items.zipIdx.filter fun p => admits p.2).map Prod.fst

theorem placed_congr (h : ∀ i < items.length, admits i = admits' i) :
    placed admits items = placed admits' items := by
  unfold placed
  congr 1
  apply List.filter_congr
  intro p hp
  exact h p.2 (List.snd_lt_of_mem_zipIdx hp)

end Places

namespace Filter.Expr

def onPlace (op : Op) (n : Nat) : Expr := .binary op .index (.num (.ofNat n))

def window (first last : Nat) : Expr := .binary .and (onPlace .ge first) (onPlace .lt last)

variable {n : Nat}

theorem writable_onPlace (op : Op) (h : n < Nat.pow 2 63) : (onPlace op n).Writable := by
  have hpos : 0 ≤ (Int64.ofNat n).toInt := by
    rw [Int64.toInt_ofNat_of_lt h]
    exact Int.natCast_nonneg n
  exact ⟨trivial, hpos⟩

theorem written_onPlace (op : Op) (h : n < Nat.pow 2 63) :
    (onPlace op n).written = "i ".toList ++ op.sign.toList ++ ' ' :: Nat.toDigits 10 n := by
  have htokens : (onPlace op n).tokens = [.word "i", .op op, .num (.ofNat n)] := by
    cases op <;> rfl
  have hnum : (Token.num (.ofNat n)).written = Nat.toDigits 10 n := by
    rw [Token.written, Int64.toInt_ofNat_of_lt h]
    exact repr_ofNat n
  rw [written, htokens, writtenAll]
  simp only [List.map_cons, List.map_nil, List.intercalate_cons_cons, List.intercalate_singleton,
    hnum]
  simp [Token.written]

theorem writable_window {first last : Nat} (hfirst : first < Nat.pow 2 63)
    (hlast : last < Nat.pow 2 63) : (window first last).Writable :=
  ⟨writable_onPlace .ge hfirst, writable_onPlace .lt hlast⟩

theorem written_window (first last : Nat) : (window first last).written =
    (onPlace .ge first).written ++ " && ".toList ++ (onPlace .lt last).written := by
  have htokens : (window first last).tokens =
      (onPlace .ge first).tokens ++ ([.op .and] ++ (onPlace .lt last).tokens) := rfl
  have hne (e : Expr) : e.tokens ≠ [] := List.length_pos_iff.mp e.tokens_length_pos
  rw [written, htokens, writtenAll_append (hne _) (by simp), writtenAll_append (by simp) (hne _)]
  simp [written, writtenAll, Token.written, Op.sign]

/-- Places below `2 ^ 63` compare as the 64-bit numbers that they become. -/
theorem compare?_places {i : Nat} (hi : i < Nat.pow 2 63) (hn : n < Nat.pow 2 63) :
    (Operand.int (.ofNat i)).compare? (.int (.ofNat n)) =
      some (if i < n then .lt else if i = n then .eq else .gt) := by
  have hlt : Int64.ofNat i < Int64.ofNat n ↔ i < n := by
    rw [Int64.lt_iff_toInt_lt, Int64.toInt_ofNat_of_lt hi, Int64.toInt_ofNat_of_lt hn]
    exact Int.ofNat_lt
  have heq : Int64.ofNat i = Int64.ofNat n ↔ i = n := by
    rw [← Int64.toInt_inj, Int64.toInt_ofNat_of_lt hi, Int64.toInt_ofNat_of_lt hn]
    exact Int.ofNat_inj
  simp [Operand.compare?, Operand.number?, hlt, heq]

variable {m : Match}

theorem keeps_ge (hm : m.index < Nat.pow 2 63) (hn : n < Nat.pow 2 63) :
    (onPlace .ge n).keeps m = decide (n ≤ m.index) := by
  have happly : (onPlace .ge n).keeps m =
      ((Operand.int (.ofNat m.index)).compare? (.int (.ofNat n)) == some .gt ||
        (Operand.int (.ofNat m.index)).compare? (.int (.ofNat n)) == some .eq) :=
    Operand.isTruthy_ofBool _
  rw [happly, compare?_places hm hn]
  by_cases hlt : m.index < n
  · simp [hlt]
  · by_cases heq : m.index = n
    · simp [heq]
    · have hle : n ≤ m.index := by omega
      simp [hlt, heq, hle]

theorem keeps_lt (hm : m.index < Nat.pow 2 63) (hn : n < Nat.pow 2 63) :
    (onPlace .lt n).keeps m = decide (m.index < n) := by
  have happly : (onPlace .lt n).keeps m =
      ((Operand.int (.ofNat m.index)).compare? (.int (.ofNat n)) == some .lt) :=
    Operand.isTruthy_ofBool _
  rw [happly, compare?_places hm hn]
  by_cases hlt : m.index < n
  · simp [hlt]
  · by_cases heq : m.index = n <;> simp [hlt, heq]

theorem keeps_window {first last : Nat} (hm : m.index < Nat.pow 2 63)
    (hfirst : first < Nat.pow 2 63) (hlast : last < Nat.pow 2 63) :
    (window first last).keeps m = decide (first ≤ m.index ∧ m.index < last) := by
  have hboth : (window first last).keeps m =
      ((onPlace .ge first).keeps m && (onPlace .lt last).keeps m) := Operand.isTruthy_ofBool _
  rw [hboth, keeps_ge hm hfirst, keeps_lt hm hlast, Bool.decide_and]

end Filter.Expr

namespace Refinement

variable {α : Type} {read : α → Option String → Option Value} {items : List α}

theorem range_placed (first last : Option Nat) :
    (range first last).applyWith read items =
      placed (fun i => (∀ n ∈ first, n ≤ i) ∧ ∀ n ∈ last, i < n) items := by
  have hkept : (range first last).applyWith read items =
      placed (fun i => first.getD 0 ≤ i ∧ i < last.getD items.length) items :=
    applyWith_eq_kept read items (range first last)
  rw [hkept]
  apply placed_congr
  intro i hi
  cases first <;> cases last <;> simp [hi]

theorem test_placed {e : Filter.Expr} {admits : Nat → Bool} (hlength : items.length < Nat.pow 2 63)
    (he : ∀ m : Filter.Match, m.index < Nat.pow 2 63 → e.keeps m = admits m.index) :
    (test e).applyWith read items = placed admits items := by
  rw [applyWith_eq_kept, kept, placed]
  congr 1
  apply List.filter_congr
  intro p hp
  have hplace : p.2 < items.length := List.snd_lt_of_mem_zipIdx hp
  exact he _ (Nat.lt_trans hplace hlength)

theorem pick_row (items : List α) (first length : Nat) :
    pick items (List.range' first length) = (items.drop first).take length := by
  unfold pick
  induction length generalizing first with
  | zero => simp
  | succ length ih =>
    rw [List.range'_succ, List.filterMap_cons, ih]
    by_cases hfirst : first < items.length
    · rw [List.getElem?_eq_getElem hfirst, List.drop_eq_getElem_cons hfirst, List.take_succ_cons]
    · have hend : items.length ≤ first := Nat.le_of_not_lt hfirst
      rw [List.getElem?_eq_none hend, List.drop_eq_nil_of_le hend,
        List.drop_eq_nil_of_le (Nat.le_succ_of_le hend), List.take_nil, List.take_nil]

theorem places_row (first last : Nat) :
    (places (List.range' first (last - first))).applyWith read items =
      (range (some first) (some last)).applyWith read items := by
  have hrow := pick_row items first (last - first)
  rw [← List.drop_take] at hrow
  exact hrow

end Refinement

namespace Query

variable {s r : List Char}

theorem read_enclosed {o c : Char} {inner : List Char} (hs : ')' ∉ s) (hb : (o, c) ∈ brackets)
    (hne : inner ≠ []) {x : Refinement} (hx : Refinement.read (o :: inner ++ [c]) = .ok x) :
    Query.read ('(' :: s ++ ')' :: (o :: inner ++ [c])) =
      .ok ⟨String.ofList (trim s), false, some x⟩ := by
  have hbracketed : IsBracketed (trim (o :: inner ++ [c])) := by
    rw [trim_enclosed hb]
    exact ⟨o, inner, c, rfl, (Nesting.isOpening_of_mem hb).1, (Nesting.isClosing_of_mem hb).1, hne⟩
  rw [read_of_mayFollow hs (.inr hbracketed), withRest, if_neg hbracketed.ne_nil, trim_enclosed hb,
    hx]
  rfl

/-- Empty parentheses are no bounds: they become a part of the selector. -/
theorem read_empty_bounds (hs : ')' ∉ s) :
    Query.read ('(' :: s ++ ')' :: ['(', ')']) =
      .ok ⟨String.ofList (trim (s ++ [')', '('])), false, none⟩ := by
  have hlater : Closes ['(', ')'] ['('] [] :=
    closes_at_once (s := ['(']) (r := []) (by decide) (by decide)
  exact read_of_closes_later hs (by decide) hlater

/-- What is read of bounds, digits and blanks in parts between commas. Each of the first two parts
is a bound if it denotes a number, and else leaves its end open, whatever it says; what other parts
say is passed over. The items from one bound up to the other are kept. Nothing is rejected, but
empty parentheses are taken for a part of the selector. -/
theorem bounds_read (hs : ')' ∉ s) (hr : ∀ c ∈ r, isPlaceChar c = true) :
    let text := '(' :: s ++ ')' :: inParens r
    (r = [] → Query.read text = .ok ⟨String.ofList (trim (s ++ [')', '('])), false, none⟩) ∧
    (r ≠ [] → ∃ first last,
      Query.read text = .ok ⟨String.ofList (trim s), false, some (.range first last)⟩ ∧
      (∀ n, first = some n ↔ ∃ part, (Refinement.parts r)[0]? = some part ∧ Denotes part n) ∧
      (∀ n, last = some n ↔ ∃ part, (Refinement.parts r)[1]? = some part ∧ Denotes part n) ∧
      ∀ (α : Type) (read : α → Option String → Option Value) (items : List α),
        (Refinement.range first last).applyWith read items =
          placed (fun i => (∀ n ∈ first, n ≤ i) ∧ ∀ n ∈ last, i < n) items) := by
  intro text
  constructor
  · rintro rfl
    exact read_empty_bounds hs
  · intro hne
    refine ⟨Refinement.bound r 0, Refinement.bound r 1, ?_, ?_, ?_, ?_⟩
    · exact read_enclosed hs (by decide) hne (Refinement.read_parens hr)
    · exact fun n => Refinement.bound_eq_some_iff hr
    · exact fun n => Refinement.bound_eq_some_iff hr
    · exact fun α read items => Refinement.range_placed _ _

/-- Bounds with blanks around them, of which the second one is beyond the items. -/
theorem fromFirst_bounds_read :
    Query.read "(li)( 1 ,9)".toList = .ok ⟨"li", false, some (.range (some 1) (some 9))⟩ ∧
      (Refinement.range (some 1) (some 9)).apply ['a', 'b', 'c'] = ['b', 'c'] := by
  have hread : Query.read "(li)( 1 ,9)".toList =
      .ok ⟨"li", false, some (.range (some 1) (some 9))⟩ := by rfl
  have hchars : ∀ c ∈ " 1 ,9".toList, isPlaceChar c = true :=
    List.all_eq_true.mp (by decide)
  obtain ⟨first, last, hbounds, -, -, hkept⟩ :=
    (bounds_read (s := "li".toList) (r := " 1 ,9".toList) (by decide) hchars).2 (by decide)
  have hsame := Except.ok.inj (hread.symm.trans hbounds)
  simp only [Query.mk.injEq, Option.some.injEq, Refinement.range.injEq, true_and] at hsame
  obtain ⟨-, rfl, rfl⟩ := hsame
  exact ⟨hread, (hkept Char (fun _ _ => none) ['a', 'b', 'c']).trans (by decide)⟩

/-- Not every bound that is written counts: digits with a blank between them are none, and neither
is a third number. As places the same digits are a fault. -/
theorem parted_bounds_dropped :
    Query.read "(li)(1 2,3,4)".toList = .ok ⟨"li", false, some (.range none (some 3))⟩ ∧
      (Refinement.range none (some 3)).apply ['a', 'b', 'c', 'd'] = ['a', 'b', 'c'] ∧
      Query.read "(li)[1 2,3,4]".toList = .error (.badQuery "[1 2,3,4]") := by
  refine ⟨?_, ?_, ?_⟩ <;> rfl

/-- The text behind a selector is read as a refinement, and it keeps these of the items. -/
def Keeps {α : Type} (read : α → Option String → Option Value) (items : List α) (s r : List Char)
    (kept : List α) : Prop :=
  ∃ x : Refinement, Query.read ('(' :: s ++ ')' :: r) =
    .ok ⟨String.ofList (trim s), false, some x⟩ ∧ x.applyWith read items = kept

variable {α : Type} {read : α → Option String → Option Value} {items kept : List α}

theorem keeps_written {x : Refinement} (hs : ')' ∉ s) (hx : x.Writable)
    (hkept : x.applyWith read items = kept) : Keeps read items s x.written kept := by
  obtain ⟨o, c, inner, hwritten, hb, hne, -⟩ := hx.enclosed
  have hread := hx.read_written
  rw [hwritten] at hread ⊢
  exact ⟨x, read_enclosed hs hb hne hread, hkept⟩

theorem keeps_range (hs : ')' ∉ s) {first last : Option Nat}
    (hfirst : ∀ n ∈ first, n < Nat.pow 2 63) (hlast : ∀ n ∈ last, n < Nat.pow 2 63) :
    Keeps read items s (Refinement.range first last).written
      (placed (fun i => (∀ n ∈ first, n ≤ i) ∧ ∀ n ∈ last, i < n) items) := by
  have hsmall : Nat.pow 2 63 < Nat.pow 2 64 := by decide
  refine keeps_written hs ⟨?_, ?_⟩ (Refinement.range_placed first last)
  · exact fun n hn => Nat.lt_trans (hfirst n hn) hsmall
  · exact fun n hn => Nat.lt_trans (hlast n hn) hsmall

theorem keeps_test {e : Filter.Expr} (hs : ')' ∉ s) (he : e.Writable)
    (hlength : items.length < Nat.pow 2 63) (admits : Nat → Bool)
    (hadmits : ∀ m : Filter.Match, m.index < Nat.pow 2 63 → e.keeps m = admits m.index) :
    Keeps read items s ("\x7b".toList ++ e.written ++ "\x7d".toList) (placed admits items) := by
  have hwritable : (Refinement.test e).Writable := ⟨e.written, he.read_written⟩
  exact keeps_written hs hwritable (Refinement.test_placed hlength hadmits)

theorem keeps_row (hs : ')' ∉ s) {first last : Nat} (hlt : first < last)
    (hlast : last < Nat.pow 2 63) :
    Keeps read items s (Refinement.places (List.range' first (last - first))).written
      (placed (fun i => first ≤ i ∧ i < last) items) := by
  have hsmall : Nat.pow 2 63 < Nat.pow 2 64 := by decide
  have hwritable : (Refinement.places (List.range' first (last - first))).Writable := by
    constructor
    · rw [Ne, List.range'_eq_nil_iff]
      omega
    · intro n hn
      rw [List.mem_range'_1] at hn
      omega
  refine keeps_written hs hwritable ?_
  rw [Refinement.places_row, Refinement.range_placed]
  simp

/-- From one place up to another, from a place on and up to a place, bounds and tests of the place
keep the same items, in the same order; so do all the places in a row, where there are any. -/
theorem windows_agree (first last : Nat) (hs : ')' ∉ s) (hfirst : first < Nat.pow 2 63)
    (hlast : last < Nat.pow 2 63) (hlength : items.length < Nat.pow 2 63) :
    let start := Nat.toDigits 10 first
    let stop := Nat.toDigits 10 last
    let window := placed (fun i => first ≤ i ∧ i < last) items
    let onward := placed (fun i => first ≤ i) items
    let before := placed (fun i => i < last) items
    (Keeps read items s ("(".toList ++ start ++ ",".toList ++ stop ++ ")".toList) window ∧
      Keeps read items s
        ("\x7bi >= ".toList ++ start ++ " && i < ".toList ++ stop ++ "\x7d".toList) window ∧
      (first < last → Keeps read items s
        ("[".toList ++
          [','].intercalate ((List.range' first (last - first)).map (Nat.toDigits 10)) ++
          "]".toList) window)) ∧
    (Keeps read items s ("(".toList ++ start ++ ",)".toList) onward ∧
      Keeps read items s ("\x7bi >= ".toList ++ start ++ "\x7d".toList) onward) ∧
    Keeps read items s ("(,".toList ++ stop ++ ")".toList) before ∧
      Keeps read items s ("\x7bi < ".toList ++ stop ++ "\x7d".toList) before := by
  intro start stop window onward before
  have hge := Filter.Expr.written_onPlace .ge hfirst
  have hlt := Filter.Expr.written_onPlace .lt hlast
  have hsome {n m : Nat} (h : n < Nat.pow 2 63) (hm : m ∈ some n) : m < Nat.pow 2 63 := by
    cases hm
    exact h
  have hnone {m : Nat} (hm : m ∈ (none : Option Nat)) : m < Nat.pow 2 63 := nomatch hm
  refine ⟨⟨?_, ?_, ?_⟩, ⟨?_, ?_⟩, ?_, ?_⟩
  · have hkeeps : Keeps read items s _ _ :=
      keeps_range hs (fun _ => hsome hfirst) (fun _ => hsome hlast)
    simpa [Refinement.written, Refinement.boundText, inParens, start, stop, window] using hkeeps
  · have hkeeps : Keeps read items s _ _ :=
      keeps_test hs (Filter.Expr.writable_window hfirst hlast) hlength
        (fun i => first ≤ i ∧ i < last) fun m hm => Filter.Expr.keeps_window hm hfirst hlast
    rw [Filter.Expr.written_window, hge, hlt] at hkeeps
    simpa [Filter.Op.sign, start, stop, window] using hkeeps
  · exact fun h => keeps_row hs h hlast
  · have hkeeps : Keeps read items s _ _ :=
      keeps_range hs (fun _ => hsome hfirst) (fun _ => hnone)
    simpa [Refinement.written, Refinement.boundText, inParens, start, onward] using hkeeps
  · have hkeeps : Keeps read items s _ _ :=
      keeps_test hs (Filter.Expr.writable_onPlace .ge hfirst) hlength (fun i => first ≤ i)
        fun m hm => Filter.Expr.keeps_ge hm hfirst
    rw [hge] at hkeeps
    simpa [Filter.Op.sign, start, onward] using hkeeps
  · have hkeeps : Keeps read items s _ _ :=
      keeps_range hs (fun _ => hnone) (fun _ => hsome hlast)
    simpa [Refinement.written, Refinement.boundText, inParens, stop, before] using hkeeps
  · have hkeeps : Keeps read items s _ _ :=
      keeps_test hs (Filter.Expr.writable_onPlace .lt hlast) hlength (fun i => i < last)
        fun m hm => Filter.Expr.keeps_lt hm hlast
    rw [hlt] at hkeeps
    simpa [Filter.Op.sign, stop, before] using hkeeps

/-- The second and the third of four items. -/
theorem middle_windows_agree :
    ')' ∉ "li".toList ∧ 3 < Nat.pow 2 63 ∧ ['a', 'b', 'c', 'd'].length < Nat.pow 2 63 ∧
      Keeps (fun _ _ => none) ['a', 'b', 'c', 'd'] "li".toList "(1,3)".toList ['b', 'c'] ∧
      Keeps (fun _ _ => none) ['a', 'b', 'c', 'd'] "li".toList "\x7bi >= 1 && i < 3\x7d".toList
        ['b', 'c'] ∧
      Keeps (fun _ _ => none) ['a', 'b', 'c', 'd'] "li".toList "[1,2]".toList ['b', 'c'] := by
  have hs : ')' ∉ "li".toList := by decide
  have hlength : ['a', 'b', 'c', 'd'].length < Nat.pow 2 63 := by decide
  obtain ⟨⟨hbounds, htest, hrow⟩, -⟩ :=
    windows_agree 1 3 hs (by decide) (by decide) hlength
  exact ⟨hs, by decide, hlength, hbounds, htest, hrow (by decide)⟩

end Query

end AttrChain
