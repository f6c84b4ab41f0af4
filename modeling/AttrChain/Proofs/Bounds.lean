import AttrChain.Proofs.Queries
import Mathlib.Data.List.Basic

/-!
Which texts are refinements, and which numbers their bounds and places denote. A bound that denotes
no number is open, while a place that denotes none is a fault.
-/

namespace AttrChain

open AttrChain.Text

/-- A text denotes a number below `2 ^ 64`: it has decimal digits in it and blanks around them. -/
structure Denotes (part : List Char) (n : Nat) : Prop where
  nonblank : trim part ≠ []
  digits : ∀ c ∈ trim part, c.isDigit = true
  value : Nat.ofDigitChars 10 (trim part) 0 = n
  small : n < Nat.pow 2 64

section Numbers

variable {cs : List Char} {n : Nat}

theorem readNat?_eq_some_iff : readNat? cs = some n ↔
    cs ≠ [] ∧ (∀ c ∈ cs, c.isDigit = true) ∧ Nat.ofDigitChars 10 cs 0 = n := by
  unfold readNat?
  by_cases hne : cs = []
  · simp [hne]
  by_cases hdigits : ∀ c ∈ cs, c.isDigit = true
  · have hall : cs.all Char.isDigit = true := List.all_eq_true.mpr hdigits
    have hsome : cs.isEmpty = false := List.isEmpty_eq_false_iff.mpr hne
    rw [hall, hsome, appendDigits_eq_ofDigitChars hdigits]
    simp only [Bool.not_true, Bool.or_self, Bool.false_eq_true, if_false, Option.some.injEq]
    exact ⟨fun h => ⟨hne, hdigits, h⟩, fun h => h.2.2⟩
  · have hall : cs.all Char.isDigit = false := by
      apply Bool.eq_false_iff.mpr
      exact fun h => hdigits (List.all_eq_true.mp h)
    rw [hall]
    simp only [Bool.not_false, Bool.or_true, if_true, reduceCtorEq, false_iff]
    exact fun h => hdigits h.2.1

theorem readSize?_eq_some_iff (hplus : '+' ∉ cs) :
    readSize? cs = some n ↔ readNat? cs = some n ∧ n < Nat.pow 2 64 := by
  have hdigits : readSize? cs =
      (readNat? cs).bind fun n => if n < Nat.pow 2 64 then some n else none := by
    unfold readSize?
    split
    · exact absurd List.mem_cons_self hplus
    · rfl
  rw [hdigits, Option.bind_eq_some_iff]
  constructor
  · rintro ⟨m, hm, hlt⟩
    split at hlt
    · next h =>
      cases hlt
      exact ⟨hm, h⟩
    · cases hlt
  · rintro ⟨hn, hlt⟩
    exact ⟨n, hn, if_pos hlt⟩

theorem readSize?_trim_iff (hplus : '+' ∉ cs) : readSize? (trim cs) = some n ↔ Denotes cs n := by
  rw [readSize?_eq_some_iff fun h => hplus (mem_of_mem_trim h), readNat?_eq_some_iff]
  constructor
  · rintro ⟨⟨hne, hdigits, hvalue⟩, hsmall⟩
    exact ⟨hne, hdigits, hvalue, hsmall⟩
  · intro h
    exact ⟨⟨h.nonblank, h.digits, h.value⟩, h.small⟩

theorem isSome_mapM {α β : Type} {f : α → Option β} {l : List α} :
    (∃ r, l.mapM f = some r) ↔ ∀ a ∈ l, ∃ b, f a = some b := by
  induction l with
  | nil => simp
  | cons a l ih =>
    rw [List.forall_mem_cons, ← ih, List.mapM_cons]
    cases f a with
    | none => simp
    | some b => cases l.mapM f <;> simp

end Numbers

namespace Refinement

/-- What stands in brackets of its kind: any bounds, places that denote numbers, or a filter. -/
inductive WellFormed : List Char → Prop where
  | range {inner : List Char} : (∀ c ∈ inner, isPlaceChar c = true) →
      WellFormed ('(' :: inner ++ [')'])
  | places {inner : List Char} : (∀ c ∈ inner, isPlaceChar c = true) →
      (∀ part ∈ parts inner, trim part ≠ [] → ∃ n, Denotes part n) →
      WellFormed ('[' :: inner ++ [']'])
  | test {inner : List Char} {e : Filter.Expr} : Filter.Expr.read inner = .ok e →
      WellFormed ('\x7b' :: inner ++ ['\x7d'])

variable {cs inner : List Char} {n : Nat}

theorem between?_eq_some_iff {o c : Char} :
    between? o c cs = some inner ↔ cs = o :: inner ++ [c] := by
  constructor
  · intro h
    cases cs with
    | nil => cases h
    | cons d rest =>
      rw [between?] at h
      split at h
      · next hends =>
        obtain ⟨rfl, hlast⟩ := hends
        cases h
        rw [List.cons_append, List.dropLast_append_getLast? _ hlast]
      · cases h
  · rintro rfl
    exact between?_enclosed o c inner

theorem filter_between?_eq_some_iff {o c : Char} {p : Char → Bool} :
    (between? o c cs).filter (·.all p) = some inner ↔
      cs = o :: inner ++ [c] ∧ ∀ d ∈ inner, p d = true := by
  rw [Option.filter_eq_some_iff, between?_eq_some_iff, List.all_eq_true]

theorem plus_not_mem_parts (h : ∀ c ∈ inner, isPlaceChar c = true) :
    ∀ part ∈ parts inner, '+' ∉ part := by
  intro part hpart hmem
  have hplus := h '+' (mem_of_mem_splitBy hpart hmem).2
  exact absurd hplus (by decide)

theorem bound_eq_some_iff (h : ∀ c ∈ inner, isPlaceChar c = true) {i : Nat} :
    bound inner i = some n ↔ ∃ part, (parts inner)[i]? = some part ∧ Denotes part n := by
  rw [bound, Option.bind_eq_some_iff]
  apply exists_congr
  intro part
  apply and_congr_right
  intro hpart
  exact readSize?_trim_iff (plus_not_mem_parts h part (List.mem_of_getElem? hpart))

theorem indices_iff (h : ∀ c ∈ inner, isPlaceChar c = true) :
    (∃ indices, (((parts inner).map trim).filter (!·.isEmpty)).mapM readSize? = some indices) ↔
      ∀ part ∈ parts inner, trim part ≠ [] → ∃ n, Denotes part n := by
  have hnumber {part : List Char} (hpart : part ∈ parts inner) :
      (∃ n, readSize? (trim part) = some n) ↔ ∃ n, Denotes part n := by
    apply exists_congr
    intro n
    exact readSize?_trim_iff (plus_not_mem_parts h part hpart)
  have hmem (text : List Char) : text ∈ ((parts inner).map trim).filter (!·.isEmpty) ↔
      (∃ part ∈ parts inner, trim part = text) ∧ text ≠ [] := by
    rw [List.mem_filter, List.mem_map, Bool.not_eq_true', List.isEmpty_eq_false_iff]
  rw [isSome_mapM]
  constructor
  · intro hall part hpart hne
    exact (hnumber hpart).mp (hall _ ((hmem _).mpr ⟨⟨part, hpart, rfl⟩, hne⟩))
  · intro hall text htext
    obtain ⟨⟨part, hpart, rfl⟩, hne⟩ := (hmem _).mp htext
    exact (hnumber hpart).mpr (hall part hpart hne)

theorem wellFormed_of_read {x : Refinement} (h : Refinement.read cs = .ok x) : WellFormed cs := by
  unfold Refinement.read at h
  dsimp only at h
  split at h
  · next inner hround =>
    obtain ⟨rfl, hinner⟩ := filter_between?_eq_some_iff.mp hround
    exact .range hinner
  split at h
  · next inner hsquare =>
    obtain ⟨rfl, hinner⟩ := filter_between?_eq_some_iff.mp hsquare
    split at h
    · next indices hindices => exact .places hinner ((indices_iff hinner).mp ⟨indices, hindices⟩)
    · cases h
  split at h
  · next inner hbrace =>
    obtain rfl := between?_eq_some_iff.mp hbrace
    obtain ⟨e, he, -⟩ := ok_of_map h
    exact .test he
  · cases h

theorem read_ok_iff : (∃ x, Refinement.read cs = .ok x) ↔ WellFormed cs := by
  constructor
  · rintro ⟨x, h⟩
    exact wellFormed_of_read h
  · intro h
    cases h with
    | range hinner => exact ⟨_, read_parens hinner⟩
    | places hinner hparts =>
      obtain ⟨indices, hindices⟩ := (indices_iff hinner).mpr hparts
      exact ⟨_, read_squares hinner hindices⟩
    | test he => exact ⟨_, read_braces he⟩

theorem isConfiguration_of_read {why : Error} (h : Refinement.read cs = .error why) :
    why.isConfiguration = true := by
  unfold Refinement.read at h
  dsimp only at h
  split at h
  · cases h
  split at h
  · split at h
    · cases h
    · cases h
      rfl
  split at h
  · next inner hbrace =>
    unfold Filter.Expr.read at h
    split at h
    · cases h
    · cases h
      rfl
  · cases h
    rfl

end Refinement

end AttrChain
