import AttrChain.Selector.Basic
import Mathlib.Data.List.Forall2

/-!
Which paths an alternative of a selector matches. Behind the element itself each compound takes the
nearest ancestor that it matches; where that leads nowhere, no other choice of ancestors does.
-/

namespace AttrChain

def Compound.PassesAt (path : List Element) (c : Compound) (place : Nat) : Prop :=
  ∃ e, path[place]? = some e ∧ c.passes e = true

/-- Places of a path that the compounds of an alternative match, outermost first: the element itself
for the last compound, and for every other one an ancestor further out than those behind it. -/
structure Complex.Placed (c : Complex) (path : List Element) (places : List Nat) : Prop where
  self : places.getLast? = some 0
  inward : places.Pairwise fun outer inner => inner < outer
  passes : List.Forall₂ (Compound.PassesAt path) c.parts places

namespace Compound

variable {cs : List Compound} {e : Element} {path : List Element} {places : List Nat}

theorem passesAt_succ (c : Compound) (place : Nat) :
    PassesAt (e :: path) c (place + 1) ↔ PassesAt path c place := by
  rw [PassesAt, PassesAt, List.getElem?_cons_succ]

theorem passesAt_zero (c : Compound) : PassesAt (e :: path) c 0 ↔ c.passes e = true := by
  simp [PassesAt]

/-- Places behind the first one are the places of the rest of the path, counted from there. -/
theorem placed_behind : List.Forall₂ (PassesAt (e :: path)) cs (places.map (· + 1)) ↔
    List.Forall₂ (PassesAt path) cs places := by
  rw [List.forall₂_map_right_iff]
  simp only [passesAt_succ]

theorem ascending_behind : (places.map (· + 1)).Pairwise (· < ·) ↔ places.Pairwise (· < ·) := by
  simp [List.pairwise_map]

theorem exists_behind (h : ∀ place ∈ places, 0 < place) :
    ∃ behind : List Nat, places = behind.map (· + 1) := by
  refine ⟨places.map (· - 1), ?_⟩
  rw [List.map_map, eq_comm]
  apply (List.map_congr_left fun place hplace => ?_).trans (List.map_id places)
  exact Nat.sub_add_cancel (h place hplace)

theorem placed_of_climb (h : climb cs path = true) :
    ∃ places : List Nat, places.Pairwise (· < ·) ∧ List.Forall₂ (PassesAt path) cs places := by
  induction path generalizing cs with
  | nil =>
    cases cs with
    | nil => exact ⟨[], .nil, .nil⟩
    | cons c more => cases h
  | cons e path ih =>
    cases cs with
    | nil => exact ⟨[], .nil, .nil⟩
    | cons c more =>
      rw [climb] at h
      by_cases hc : c.passes e = true
      · rw [if_pos hc] at h
        obtain ⟨behind, hasc, hpass⟩ := ih h
        refine ⟨0 :: behind.map (· + 1), ?_, ?_⟩
        · exact .cons (by simp) (ascending_behind.mpr hasc)
        · exact .cons ((passesAt_zero c).mpr hc) (placed_behind.mpr hpass)
      · rw [if_neg hc] at h
        obtain ⟨behind, hasc, hpass⟩ := ih h
        exact ⟨behind.map (· + 1), ascending_behind.mpr hasc, placed_behind.mpr hpass⟩

/-- Any choice of places can be exchanged for the nearest ones: where the first compound matches the
first element, the other places stand behind that element, whichever place was chosen for it. -/
theorem climb_of_placed (hasc : places.Pairwise (· < ·))
    (hpass : List.Forall₂ (PassesAt path) cs places) : climb cs path = true := by
  induction path generalizing cs places with
  | nil =>
    cases hpass with
    | nil => rfl
    | cons hfirst _ =>
      obtain ⟨e, he, -⟩ := hfirst
      cases he
  | cons e path ih =>
    cases hpass with
    | nil => rfl
    | @cons c place more later hfirst hlater =>
      obtain ⟨hless, hbehind⟩ := List.pairwise_cons.mp hasc
      obtain ⟨behind, rfl⟩ := exists_behind fun q hq => Nat.zero_lt_of_lt (hless q hq)
      rw [climb]
      by_cases hc : c.passes e = true
      · rw [if_pos hc]
        exact ih (ascending_behind.mp hbehind) (placed_behind.mp hlater)
      · rw [if_neg hc]
        cases place with
        | zero => exact absurd ((passesAt_zero c).mp hfirst) hc
        | succ place =>
          have hless' : ∀ q ∈ behind, place < q := fun q hq =>
            Nat.lt_of_succ_lt_succ (hless (q + 1) (List.mem_map_of_mem hq))
          have hpass' : List.Forall₂ (PassesAt path) (c :: more) (place :: behind) :=
            .cons ((passesAt_succ c place).mp hfirst) (placed_behind.mp hlater)
          exact ih (.cons hless' (ascending_behind.mp hbehind)) hpass'

end Compound

namespace Complex

variable {c : Complex} {e : Element} {path : List Element}

/-- From the element outwards, the last compound is at place 0 and the others are behind it. -/
theorem Placed.turned {places : List Nat} (h : c.Placed path places) :
    ∃ out, places = out ++ [0] ∧
      List.Forall₂ (Compound.PassesAt path) c.parts.reverse (0 :: out.reverse) := by
  obtain ⟨out, rfl⟩ := List.getLast?_eq_some_iff.mp h.self
  refine ⟨out, rfl, ?_⟩
  rw [← List.reverse_concat, List.forall₂_reverse_iff]
  exact h.passes

theorem exists_placed_iff {last : Compound} {outer : List Compound}
    (hparts : c.parts.reverse = last :: outer) :
    (∃ places, c.Placed (e :: path) places) ↔ last.passes e = true ∧
      ∃ places : List Nat, places.Pairwise (· < ·) ∧
        List.Forall₂ (Compound.PassesAt path) outer places := by
  constructor
  · rintro ⟨places, h⟩
    obtain ⟨out, rfl, hpass⟩ := h.turned
    rw [hparts] at hpass
    obtain ⟨hlast, houter⟩ := List.forall₂_cons.mp hpass
    obtain ⟨hout, -, hpos⟩ := List.pairwise_append.mp h.inward
    obtain ⟨behind, hbehind⟩ : ∃ behind : List Nat, out.reverse = behind.map (· + 1) :=
      Compound.exists_behind fun place hplace =>
        hpos place (List.mem_reverse.mp hplace) 0 List.mem_cons_self
    have hasc := List.pairwise_reverse.mpr hout
    rw [hbehind] at hasc houter
    exact ⟨(Compound.passesAt_zero last).mp hlast, behind, Compound.ascending_behind.mp hasc,
      Compound.placed_behind.mp houter⟩
  · rintro ⟨hlast, behind, hasc, hpass⟩
    have hinward : (0 :: behind.map (· + 1)).Pairwise (· < ·) :=
      .cons (by simp) (Compound.ascending_behind.mpr hasc)
    refine ⟨(0 :: behind.map (· + 1)).reverse, ?_, List.pairwise_reverse.mpr hinward, ?_⟩
    · rw [List.getLast?_reverse]
      rfl
    · rw [← List.reverse_reverse c.parts, hparts, List.forall₂_reverse_iff]
      exact .cons ((Compound.passesAt_zero last).mpr hlast) (Compound.placed_behind.mpr hpass)

theorem Placed.ne_nil {places : List Nat} (h : c.Placed path places) : c.parts ≠ [] ∧ path ≠ [] := by
  obtain ⟨out, -, hpass⟩ := h.turned
  obtain ⟨last, outer, ⟨e, he, -⟩, -, hparts⟩ := List.forall₂_cons_right_iff.mp hpass
  constructor
  · intro hnone
    rw [hnone] at hparts
    cases hparts
  · rintro rfl
    cases he

theorem matchesPath_iff (c : Complex) (path : List Element) :
    c.matchesPath path = true ↔ ∃ places, c.Placed path places := by
  unfold matchesPath
  cases hparts : c.parts.reverse with
  | nil =>
    refine iff_of_false Bool.false_ne_true ?_
    rintro ⟨places, h⟩
    exact h.ne_nil.1 (List.reverse_eq_nil_iff.mp hparts)
  | cons last outer =>
    cases path with
    | nil =>
      refine iff_of_false Bool.false_ne_true ?_
      rintro ⟨places, h⟩
      exact h.ne_nil.2 rfl
    | cons e ancestors =>
      rw [exists_placed_iff hparts, Bool.and_eq_true]
      refine and_congr_right fun _ => ⟨Compound.placed_of_climb, ?_⟩
      rintro ⟨places, hasc, hpass⟩
      exact Compound.climb_of_placed hasc hpass

end Complex

/-- A selector matches if and only if some choice of ancestors fits one of its alternatives: taking
the nearest ancestor for each compound misses no match. -/
theorem Selector.matches_iff_placed (s : Selector) (path : List Element) :
    s.matchesPath path = true ↔ ∃ c ∈ s.alternatives, ∃ places, c.Placed path places := by
  rw [matchesPath, List.any_eq_true]
  exact exists_congr fun c => and_congr_right fun _ => c.matchesPath_iff path

end AttrChain
