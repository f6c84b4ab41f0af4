import AttrChain.Proofs.Bounds
import Mathlib.Data.List.DropRight

/-!
Where the selector of a query for all matches ends: at the first closing parenthesis with only
blanks or a text in brackets behind it. A text without such a parenthesis is no query.
-/

namespace AttrChain

open AttrChain.Text

section Blanks

variable {p : Char → Bool} {c : Char} {cs : List Char}

theorem rdropWhile_append_cons (hc : p c = false) (cs rest : List Char) :
    (cs ++ c :: rest).rdropWhile p = cs ++ c :: rest.rdropWhile p := by
  have hstop : ¬ p c = true := ne_true_of_eq_false hc
  induction rest using List.reverseRecOn with
  | nil => rw [List.rdropWhile_concat_neg p cs c hstop, List.rdropWhile_nil]
  | append_singleton rest d ih =>
    have hassoc : cs ++ c :: (rest ++ [d]) = cs ++ c :: rest ++ [d] := by simp
    rw [hassoc, List.rdropWhile_concat, List.rdropWhile_concat]
    by_cases hd : p d = true
    · rw [if_pos hd, if_pos hd, ih]
    · rw [if_neg hd, if_neg hd, hassoc]

theorem dropWhile_rdropWhile (cs : List Char) :
    (cs.rdropWhile p).dropWhile p = (cs.dropWhile p).rdropWhile p := by
  induction cs using List.reverseRecOn with
  | nil => rfl
  | append_singleton cs c ih =>
    rw [List.rdropWhile_concat, List.dropWhile_append]
    by_cases hc : p c = true
    · rw [if_pos hc, ih]
      by_cases hnil : (cs.dropWhile p).isEmpty = true
      · rw [if_pos hnil, List.isEmpty_iff.mp hnil, List.dropWhile_cons_of_pos hc]
        rfl
      · rw [if_neg hnil, List.rdropWhile_concat_pos p _ c hc]
    · rw [if_neg hc, List.dropWhile_append]
      by_cases hnil : (cs.dropWhile p).isEmpty = true
      · rw [if_pos hnil, List.dropWhile_cons_of_neg hc]
        exact (List.rdropWhile_concat_neg p [] c hc).symm
      · rw [if_neg hnil, List.rdropWhile_concat_neg p _ c hc]

theorem trim_eq_dropWhile (cs : List Char) :
    trim cs = (cs.rdropWhile isBlank).dropWhile isBlank := (dropWhile_rdropWhile cs).symm

theorem mem_dropWhile (hc : p c = false) (hmem : c ∈ cs) : c ∈ cs.dropWhile p := by
  rw [← List.takeWhile_append_dropWhile (p := p) (l := cs)] at hmem
  rcases List.mem_append.mp hmem with h | h
  · exact absurd (List.mem_takeWhile_imp h) (ne_true_of_eq_false hc)
  · exact h

theorem mem_trim (hc : isBlank c = false) (hmem : c ∈ cs) : c ∈ trim cs := by
  apply List.mem_reverse.mpr
  apply mem_dropWhile hc
  apply List.mem_reverse.mpr
  exact mem_dropWhile hc hmem

end Blanks

/-- A text between brackets, which need not be of one kind. -/
def IsBracketed (cs : List Char) : Prop :=
  ∃ o inner c, cs = o :: inner ++ [c] ∧ isOpening o = true ∧ isClosing c = true ∧ inner ≠ []

/-- Whether a selector may end in front of the text: there are blanks, or a text in brackets with
blanks around it. -/
def MayFollow (cs : List Char) : Prop := trim cs = [] ∨ IsBracketed (trim cs)

section Cutting

variable {cs selector rest s r : List Char} {text? : Option (List Char)}

theorem IsBracketed.ne_nil (h : IsBracketed cs) : cs ≠ [] := by
  obtain ⟨o, inner, c, rfl, -⟩ := h
  exact List.cons_ne_nil _ _

theorem isBracketed_cons_iff {o : Char} : IsBracketed (o :: rest) ↔
    (isOpening o && 2 ≤ rest.length && (rest.getLast?.map isClosing).getD false) = true := by
  rcases List.eq_nil_or_concat' rest with rfl | ⟨inner, c, rfl⟩
  · constructor
    · rintro ⟨o', inner, c, heq, -, -, hne⟩
      simp at heq
    · intro h
      simp at h
  · have hlength : 2 ≤ (inner ++ [c]).length ↔ inner ≠ [] := by
      rw [List.length_append, List.length_singleton, ← List.length_pos_iff]
      omega
    simp only [Bool.and_eq_true, decide_eq_true_eq, List.getLast?_concat, Option.map_some,
      Option.getD_some, hlength]
    constructor
    · rintro ⟨o', inner', c', heq, ho, hc, hne⟩
      rw [List.cons_append, List.cons.injEq] at heq
      obtain ⟨rfl, heq⟩ := heq
      obtain ⟨rfl, hlast⟩ := List.append_inj' heq rfl
      cases hlast
      exact ⟨⟨ho, hne⟩, hc⟩
    · rintro ⟨⟨ho, hne⟩, hc⟩
      exact ⟨o, inner, c, rfl, ho, hc, hne⟩

instance (cs : List Char) : Decidable (IsBracketed cs) :=
  match cs with
  | [] => isFalse fun h => h.ne_nil rfl
  | _ :: _ => decidable_of_iff _ isBracketed_cons_iff.symm

instance (cs : List Char) : Decidable (MayFollow cs) :=
  inferInstanceAs (Decidable (_ ∨ _))

theorem refinementText?_of_blank (h : trim rest = []) :
    refinementText? (rest.rdropWhile isBlank) = some none := by
  rw [refinementText?, ← trim_eq_dropWhile, h]

theorem refinementText?_of_bracketed (h : IsBracketed (trim rest)) :
    refinementText? (rest.rdropWhile isBlank) = some (some (trim rest)) := by
  rw [refinementText?, ← trim_eq_dropWhile]
  cases htrim : trim rest with
  | nil => exact absurd htrim h.ne_nil
  | cons o inner =>
    rw [htrim, isBracketed_cons_iff] at h
    exact if_pos h

theorem refinementText?_of_not (h : ¬ MayFollow rest) :
    refinementText? (rest.rdropWhile isBlank) = none := by
  rw [refinementText?, ← trim_eq_dropWhile]
  unfold MayFollow at h
  cases htrim : trim rest with
  | nil => exact absurd (.inl htrim) h
  | cons o inner =>
    rw [htrim, isBracketed_cons_iff] at h
    exact if_neg fun hcond => h (.inr hcond)

theorem cutQuery?_of_none (h : ∀ u v, cs = u ++ ')' :: v → refinementText? v = none) :
    cutQuery? cs = none := by
  induction cs with
  | nil => rfl
  | cons c cs ih =>
    have hlater := ih fun u v heq => h (c :: u) v (by rw [heq, List.cons_append])
    rw [cutQuery?, hlater]
    by_cases hc : c = ')'
    · rw [if_pos hc, h [] cs (by rw [hc, List.nil_append])]
      rfl
    · rw [if_neg hc]
      rfl

/-- Behind a text without closing parentheses a longer one is cut there or later. -/
theorem cut_cases {u v : List Char} (hs : ')' ∉ s) (h : s ++ ')' :: r = u ++ ')' :: v) :
    (u = s ∧ v = r) ∨ ∃ more, u = s ++ ')' :: more ∧ r = more ++ ')' :: v := by
  rcases List.append_eq_append_iff.mp h with ⟨more, hu, hr⟩ | ⟨more, hs', hv⟩
  · cases more with
    | nil =>
      cases hr
      exact .inl ⟨by rw [hu, List.append_nil], rfl⟩
    | cons c more =>
      cases hr
      exact .inr ⟨more, hu, rfl⟩
  · cases more with
    | nil =>
      cases hv
      exact .inl ⟨by rw [hs', List.append_nil], rfl⟩
    | cons c more =>
      cases hv
      rw [hs'] at hs
      exact absurd (List.mem_append_right u List.mem_cons_self) hs

end Cutting

/-- A text is cut at the first closing parenthesis that a selector may end at. -/
structure Closes (text selector rest : List Char) : Prop where
  cut : text = selector ++ ')' :: rest
  follows : MayFollow rest
  first : ∀ u v, text = u ++ ')' :: v → MayFollow v → selector.length ≤ u.length

namespace Query

variable {cs s r selector rest : List Char}

def withRest (selector rest : List Char) : Except Error Query :=
  if trim rest = [] then .ok ⟨String.ofList (trim selector), false, none⟩
  else (Refinement.read (trim rest)).map fun r => ⟨String.ofList (trim selector), false, some r⟩

theorem read_opening (cs : List Char) :
    Query.read ('(' :: cs) =
      match cutQuery? (cs.rdropWhile isBlank) with
      | none => .error (.badQuery (String.ofList (trim ('(' :: cs))))
      | some (selector, none) => .ok ⟨String.ofList (trim selector), false, none⟩
      | some (selector, some refinement) =>
        (Refinement.read refinement).map fun r =>
          ⟨String.ofList (trim selector), false, some r⟩ := by
  have htrim : trim ('(' :: cs) = '(' :: cs.rdropWhile isBlank := by
    rw [trim_eq_dropWhile]
    exact congrArg (List.dropWhile isBlank)
      (rdropWhile_append_cons (p := isBlank) (c := '(') (by decide) [] cs)
  unfold Query.read
  rw [htrim]
  rfl

theorem read_of_closes (h : Closes cs selector rest) :
    Query.read ('(' :: cs) = withRest selector rest := by
  have hblank : isBlank ')' = false := by decide
  obtain ⟨rfl, hfollows, hfirst⟩ := h
  have hearlier : ∀ u v, selector = u ++ ')' :: v →
      refinementText? (v ++ ')' :: rest.rdropWhile isBlank) = none := by
    rintro u v rfl
    rw [← rdropWhile_append_cons hblank]
    apply refinementText?_of_not
    intro hmay
    have hle := hfirst u (v ++ ')' :: rest) (by simp) hmay
    rw [List.length_append, List.length_cons] at hle
    omega
  rw [read_opening, rdropWhile_append_cons hblank, withRest]
  rcases hfollows with hnone | hsome
  · rw [cutQuery?_of_first hearlier (refinementText?_of_blank hnone), if_pos hnone]
  · rw [cutQuery?_of_first hearlier (refinementText?_of_bracketed hsome), if_neg hsome.ne_nil]

theorem read_of_unclosed (h : ∀ u v, cs = u ++ ')' :: v → ¬ MayFollow v) :
    Query.read ('(' :: cs) = .error (.badQuery (String.ofList (trim ('(' :: cs)))) := by
  rw [read_opening, cutQuery?_of_none]
  intro u v heq
  have hcs : cs.rdropWhile isBlank ++ cs.rtakeWhile isBlank = cs :=
    List.rdropWhile_append_rtakeWhile
  rw [heq, List.append_assoc, List.cons_append] at hcs
  have hv : v = (v ++ cs.rtakeWhile isBlank).rdropWhile isBlank := by
    rw [← hcs, rdropWhile_append_cons (by decide)] at heq
    exact (List.cons.inj (List.append_cancel_left heq)).2.symm
  rw [hv]
  exact refinementText?_of_not (h u _ hcs.symm)

theorem closes_at_once (hs : ')' ∉ s) (hr : MayFollow r) : Closes (s ++ ')' :: r) s r := by
  refine ⟨rfl, hr, ?_⟩
  intro u v heq _
  rcases cut_cases hs heq with ⟨rfl, -⟩ | ⟨more, rfl, -⟩
  · exact Nat.le_refl _
  · rw [List.length_append]
    exact Nat.le_add_right _ _

theorem read_of_mayFollow (hs : ')' ∉ s) (hr : MayFollow r) :
    Query.read ('(' :: s ++ ')' :: r) = withRest s r :=
  read_of_closes (closes_at_once hs hr)

/-- Where it may not, it goes on to the first closing parenthesis where it may. -/
theorem read_of_closes_later {u w : List Char} (hs : ')' ∉ s) (hr : ¬ MayFollow r)
    (h : Closes r u w) : Query.read ('(' :: s ++ ')' :: r) = withRest (s ++ ')' :: u) w := by
  refine read_of_closes ⟨by rw [h.cut]; simp, h.follows, ?_⟩
  intro u' v heq hv
  rcases cut_cases hs heq with ⟨-, rfl⟩ | ⟨more, rfl, hcut⟩
  · exact absurd hv hr
  · have hle := h.first more v hcut hv
    simp only [List.length_append, List.length_cons]
    omega

theorem read_of_nowhere (hs : ')' ∉ s) (hr : ¬ MayFollow r)
    (h : ∀ u v, r = u ++ ')' :: v → ¬ MayFollow v) :
    Query.read ('(' :: s ++ ')' :: r) =
      .error (.badQuery (String.ofList (trim ('(' :: s ++ ')' :: r)))) := by
  apply read_of_unclosed
  intro u v heq
  rcases cut_cases hs heq with ⟨-, rfl⟩ | ⟨more, -, hcut⟩
  · exact hr
  · exact h more v hcut

end Query

theorem closes_or_not (text : List Char) :
    (∃ selector rest, Closes text selector rest) ∨
      ∀ u v, text = u ++ ')' :: v → ¬ MayFollow v := by
  induction text with
  | nil =>
    right
    intro u v heq
    simp at heq
  | cons c text ih =>
    by_cases hhere : c = ')' ∧ MayFollow text
    · obtain ⟨rfl, hmay⟩ := hhere
      exact .inl ⟨[], text, rfl, hmay, fun _ _ _ _ => Nat.zero_le _⟩
    · have hfirst : ∀ u v, c :: text = u ++ ')' :: v → MayFollow v →
          ∃ u', u = c :: u' ∧ text = u' ++ ')' :: v := by
        intro u v heq hmay
        cases u with
        | nil =>
          cases heq
          exact absurd ⟨rfl, hmay⟩ hhere
        | cons d u =>
          cases heq
          exact ⟨u, rfl, rfl⟩
      rcases ih with ⟨selector, rest, h⟩ | h
      · left
        refine ⟨c :: selector, rest, by rw [h.cut, List.cons_append], h.follows, ?_⟩
        intro u v heq hmay
        obtain ⟨u', rfl, htext⟩ := hfirst u v heq hmay
        exact Nat.succ_le_succ (h.first u' v htext hmay)
      · right
        intro u v heq hmay
        obtain ⟨u', -, htext⟩ := hfirst u v heq hmay
        exact h u' v htext hmay

namespace Query

variable {s r selector rest : List Char} {q : Query}

theorem of_withRest_ok (h : withRest selector rest = .ok q) :
    q.single = false ∧ q.selector = String.ofList (trim selector) ∧
      (q.refinement = none ↔ trim rest = []) := by
  rw [withRest] at h
  split at h
  · next hblank =>
    cases h
    exact ⟨rfl, rfl, fun _ => hblank, fun _ => rfl⟩
  · next hsome =>
    obtain ⟨x, -, rfl⟩ := ok_of_map h
    exact ⟨rfl, rfl, by simp [hsome]⟩

theorem withRest_ok_iff : (∃ q, withRest selector rest = .ok q) ↔
    trim rest = [] ∨ Refinement.WellFormed (trim rest) := by
  rw [withRest, ← Refinement.read_ok_iff]
  by_cases hblank : trim rest = []
  · rw [if_pos hblank]
    exact ⟨fun _ => .inl hblank, fun _ => ⟨_, rfl⟩⟩
  · rw [if_neg hblank]
    constructor
    · rintro ⟨q, h⟩
      obtain ⟨x, hx, -⟩ := ok_of_map h
      exact .inr ⟨x, hx⟩
    · rintro (h | ⟨x, hx⟩)
      · exact absurd h hblank
      · exact ⟨_, by rw [hx]; rfl⟩

theorem isConfiguration_of_withRest {why : Error} (h : withRest selector rest = .error why) :
    why.isConfiguration = true := by
  rw [withRest] at h
  split at h
  · cases h
  · cases hread : Refinement.read (trim rest) with
    | ok x =>
      rw [hread] at h
      cases h
    | error why' =>
      rw [hread] at h
      cases h
      exact Refinement.isConfiguration_of_read hread

/-- A selector that takes in a closing parenthesis is another one. -/
theorem trim_swallowed_ne (hs : ')' ∉ s) (more : List Char) :
    String.ofList (trim (s ++ ')' :: more)) ≠ String.ofList (trim s) := by
  intro heq
  have hmem : ')' ∈ trim (s ++ ')' :: more) :=
    mem_trim (by decide) (List.mem_append_right s List.mem_cons_self)
  rw [String.ofList_injective heq] at hmem
  exact hs (mem_of_mem_trim hmem)

theorem read_cases (hs : ')' ∉ s) (r : List Char) :
    let text := '(' :: s ++ ')' :: r
    (MayFollow r ∧ Query.read text = withRest s r) ∨
      (¬ MayFollow r ∧ ∃ u w, Query.read text = withRest (s ++ ')' :: u) w) ∨
      (¬ MayFollow r ∧ Query.read text = .error (.badQuery (String.ofList (trim text)))) := by
  intro text
  by_cases hr : MayFollow r
  · exact .inl ⟨hr, read_of_mayFollow hs hr⟩
  · rcases closes_or_not r with ⟨u, w, h⟩ | h
    · exact .inr (.inl ⟨hr, u, w, read_of_closes_later hs hr h⟩)
    · exact .inr (.inr ⟨hr, read_of_nowhere hs hr h⟩)

/-- What is read of a selector in parentheses, which has none itself, and of any text behind it. If
the selector may end there, the text is its refinement: there is none exactly if the text is blank,
and what is no refinement is an error. If it may not, the selector takes in the text up to the next
closing parenthesis where it may, and only if there is none this is an error. So the selector is
read as it is if and only if it may end where its parenthesis is closed. -/
theorem selector_ends (hs : ')' ∉ s) :
    let text := '(' :: s ++ ')' :: r
    (MayFollow r → Query.read text = withRest s r) ∧
    (¬ MayFollow r → ∀ u w, Closes r u w → Query.read text = withRest (s ++ ')' :: u) w) ∧
    (¬ MayFollow r → (∀ u w, ¬ Closes r u w) →
      Query.read text = .error (.badQuery (String.ofList (trim text)))) ∧
    (∀ q, Query.read text = .ok q → q.single = false ∧
      (q.selector = String.ofList (trim s) ↔ MayFollow r) ∧
      (MayFollow r → (q.refinement = none ↔ trim r = []))) ∧
    (MayFollow r → ((∃ q, Query.read text = .ok q) ↔
      trim r = [] ∨ Refinement.WellFormed (trim r))) ∧
    ∀ why, Query.read text = .error why → why.isConfiguration = true := by
  intro text
  refine ⟨read_of_mayFollow hs, fun hr u w => read_of_closes_later hs hr, ?_, ?_, ?_, ?_⟩
  · intro hr hnone
    rcases closes_or_not r with ⟨u, w, h⟩ | h
    · exact absurd h (hnone u w)
    · exact read_of_nowhere hs hr h
  · intro q hq
    rcases read_cases hs r with ⟨hr, hread⟩ | ⟨hr, u, w, hread⟩ | ⟨-, hread⟩
    · obtain ⟨hall, hselector, hnone⟩ := of_withRest_ok (hread.symm.trans hq)
      exact ⟨hall, ⟨fun _ => hr, fun _ => hselector⟩, fun _ => hnone⟩
    · obtain ⟨hall, hselector, -⟩ := of_withRest_ok (hread.symm.trans hq)
      refine ⟨hall, ⟨fun heq => ?_, fun h => absurd h hr⟩, fun h => absurd h hr⟩
      exact absurd (hselector.symm.trans heq) (trim_swallowed_ne hs u)
    · cases hread.symm.trans hq
  · intro hr
    rw [read_of_mayFollow hs hr]
    exact withRest_ok_iff
  · intro why hwhy
    rcases read_cases hs r with ⟨-, hread⟩ | ⟨-, u, w, hread⟩ | ⟨-, hread⟩
    · exact isConfiguration_of_withRest (hread.symm.trans hwhy)
    · exact isConfiguration_of_withRest (hread.symm.trans hwhy)
    · cases hread.symm.trans hwhy
      rfl

/-- Behind the selector there is a text that is not in brackets, and then a refinement. -/
theorem markedUp_selector_ends :
    let r := "<1>) [0, 2] ".toList
    ')' ∉ " li ".toList ∧ ¬ MayFollow r ∧ Closes r "<1>".toList " [0, 2] ".toList ∧
      Query.read ("( li )".toList ++ r) = .ok ⟨"li )<1>", false, some (.places [0, 2])⟩ := by
  intro r
  have hs : ')' ∉ " li ".toList := by decide
  have hr : ¬ MayFollow r := by decide
  have hcloses : Closes r "<1>".toList " [0, 2] ".toList :=
    closes_at_once (s := "<1>".toList) (by decide) (by decide)
  refine ⟨hs, hr, hcloses, ?_⟩
  exact ((selector_ends (r := r) hs).2.1 hr _ _ hcloses).trans (by rfl)

/-- Not every text behind a selector is rejected that is no refinement. -/
theorem markedUp_swallowed :
    Query.read "(li)<1>".toList = .error (.badQuery "(li)<1>") ∧
      Query.read "(li)<1>)".toList = .ok ⟨"li)<1>", false, none⟩ := by
  constructor <;> rfl

end Query

end AttrChain
