import AttrChain.Error
import Mathlib.Data.List.Forall2

/-!
The items of a list, each taken through a function that may fail: all of them succeed, or the first
one that fails decides.
-/

namespace AttrChain

theorem mapM_eq_pure {m : Type → Type} [Monad m] [LawfulMonad m] {α β : Type} {read : β → m α}
    {write : α → β} {l : List α} (h : ∀ a ∈ l, read (write a) = pure a) :
    (l.map write).mapM read = pure l := by
  induction l with
  | nil => rfl
  | cons a l ih =>
    obtain ⟨ha, hl⟩ := List.forall_mem_cons.mp h
    rw [List.map_cons, List.mapM_cons, ha, pure_bind, ih hl, pure_bind]

variable {ε α β : Type} {f : α → Except ε β} {l : List α}

theorem mapM_eq_ok_iff {r : List β} :
    l.mapM f = .ok r ↔ List.Forall₂ (fun a b => f a = .ok b) l r := by
  induction l generalizing r with
  | nil =>
    rw [List.forall₂_nil_left_iff]
    exact ⟨fun h => (Except.ok.inj h).symm, fun h => congrArg Except.ok h.symm⟩
  | cons a l ih =>
    rw [List.mapM_cons, List.forall₂_cons_left_iff]
    constructor
    · intro h
      obtain ⟨b, hb, h⟩ := ok_of_bind h
      obtain ⟨more, hmore, h⟩ := ok_of_bind h
      exact ⟨b, more, hb, ih.mp hmore, (Except.ok.inj h).symm⟩
    · rintro ⟨b, more, hb, hmore, rfl⟩
      rw [hb, ih.mpr hmore]
      rfl

theorem of_mapM_ok {r : List β} (h : l.mapM f = .ok r) : ∀ b ∈ r, ∃ a ∈ l, f a = .ok b := by
  have hall := mapM_eq_ok_iff.mp h
  clear h
  induction hall with
  | nil => exact fun _ hb => nomatch hb
  | cons hread _ ih =>
    intro b hb
    rcases List.mem_cons.mp hb with rfl | hb
    · exact ⟨_, List.mem_cons_self, hread⟩
    · obtain ⟨a, ha, hread⟩ := ih b hb
      exact ⟨a, List.mem_cons_of_mem _ ha, hread⟩

theorem exists_mapM_eq_ok_iff : (∃ r, l.mapM f = .ok r) ↔ ∀ a ∈ l, ∃ b, f a = .ok b := by
  simp only [mapM_eq_ok_iff]
  induction l with
  | nil => exact iff_of_true ⟨[], .nil⟩ (List.forall_mem_nil _)
  | cons a l ih =>
    rw [List.forall_mem_cons, ← ih]
    constructor
    · rintro ⟨r, hr⟩
      cases hr with
      | cons hb hmore => exact ⟨⟨_, hb⟩, _, hmore⟩
    · rintro ⟨⟨b, hb⟩, more, hmore⟩
      exact ⟨b :: more, .cons hb hmore⟩

theorem mapM_cons_eq_error_iff {a : α} {e : ε} : (a :: l).mapM f = .error e ↔
    f a = .error e ∨ (∃ b, f a = .ok b) ∧ l.mapM f = .error e := by
  rw [List.mapM_cons]
  cases ha : f a with
  | error why =>
    constructor
    · intro h
      cases h
      exact .inl rfl
    · rintro (h | ⟨⟨b, h⟩, -⟩)
      · cases h
        rfl
      · cases h
  | ok b =>
    cases l.mapM f with
    | error why =>
      constructor
      · intro h
        exact .inr ⟨⟨b, rfl⟩, h⟩
      · rintro (h | ⟨-, h⟩)
        · cases h
        · exact h
    | ok more =>
      refine iff_of_false (fun h => nomatch h) ?_
      rintro (h | ⟨-, h⟩) <;> cases h

/-- A list fails with the error of the first of its items that fails. -/
theorem mapM_eq_error_iff {e : ε} : l.mapM f = .error e ↔
    ∃ front a behind, l = front ++ a :: behind ∧ (∀ x ∈ front, ∃ b, f x = .ok b) ∧
      f a = .error e := by
  induction l with
  | nil =>
    refine iff_of_false (fun h => nomatch h) ?_
    rintro ⟨front, a, behind, h, -⟩
    cases front <;> cases h
  | cons a l ih =>
    rw [mapM_cons_eq_error_iff, ih]
    constructor
    · rintro (ha | ⟨hb, front, a', behind, rfl, hfront, herror⟩)
      · exact ⟨[], a, l, rfl, List.forall_mem_nil _, ha⟩
      · exact ⟨a :: front, a', behind, rfl, List.forall_mem_cons.mpr ⟨hb, hfront⟩, herror⟩
    · rintro ⟨front, a', behind, hsplit, hfront, herror⟩
      cases front with
      | nil =>
        cases hsplit
        exact .inl herror
      | cons x front =>
        cases hsplit
        obtain ⟨hb, hmore⟩ := List.forall_mem_cons.mp hfront
        exact .inr ⟨hb, front, a', behind, rfl, hmore, herror⟩

end AttrChain
