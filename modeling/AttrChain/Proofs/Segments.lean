import AttrChain.Split

/-!
The segments of a split: joined by the separator they give the text back, each of them is whole when
it is split again, and a bounded split is the full one with its tail joined. All of it rests on one
fact: an unguarded character leaves the scan where the text began.
-/

namespace AttrChain

def Guarding.reset (g : Guarding) : Guarding :=
  { g with
    quote := none
    escaped := false
    nestings := g.nestings.map fun n => { n with depth := 0 } }

def Guarding.after (g : Guarding) (cs : List Char) : Guarding :=
  cs.foldl (fun g c => (g.step c).2) g

theorem Nesting.step_reset (c : Char) (ns : List Nesting) :
    (Nesting.step c ns).2.map (fun n => { n with depth := 0 }) =
      ns.map fun n => { n with depth := 0 } := by
  induction ns with
  | nil => rfl
  | cons n rest ih =>
    simp only [Nesting.step]
    split
    · rfl
    · split
      · rfl
      · simp only [List.map_cons, ih]

theorem Nesting.step_unguarded {c : Char} {ns : List Nesting}
    (h : (Nesting.step c ns).1 = false) :
    (Nesting.step c ns).2 = ns ∧ ns.map (fun n => { n with depth := 0 }) = ns := by
  induction ns with
  | nil => exact ⟨rfl, rfl⟩
  | cons n rest ih =>
    simp only [Nesting.step] at h ⊢
    split at h
    · cases h
    · next hopen =>
      rw [if_neg hopen]
      split at h
      · cases h
      · next hclose =>
        rw [if_neg hclose]
        obtain ⟨hdepth, hrest⟩ := Bool.or_eq_false_iff.mp h
        obtain ⟨hstep, hreset⟩ := ih hrest
        have hzero : n.depth = 0 := by simpa using hdepth
        refine ⟨by rw [hstep], ?_⟩
        rw [List.map_cons, hreset, ← hzero]

namespace Guarding

/-- What holds of every scan that was started with these guards. -/
structure Started (guards : List Guard) (g : Guarding) : Prop where
  reset : g.reset = start guards
  calm : g.quote = none → g.escaped = false

theorem start_started (guards : List Guard) : Started guards (start guards) := by
  refine ⟨?_, fun _ => rfl⟩
  unfold reset start
  simp

theorem step_reset (c : Char) (g : Guarding) : (g.step c).2.reset = g.reset := by
  unfold step
  split
  · repeat' split
    all_goals rfl
  · split
    · rfl
    · simp only [reset, Nesting.step_reset]

theorem Started.step {guards : List Guard} {g : Guarding} (h : Started guards g) (c : Char) :
    Started guards (g.step c).2 := by
  refine ⟨(step_reset c g).trans h.reset, ?_⟩
  obtain ⟨watch, quote, escaped, nestings⟩ := g
  cases quote with
  | none =>
    intro _
    unfold Guarding.step
    dsimp only
    split <;> exact h.calm rfl
  | some q =>
    unfold Guarding.step
    cases escaped with
    | true => exact fun _ => rfl
    | false =>
      by_cases hback : c = '\\'
      · simp [hback]
      · by_cases hclose : c = q
        · subst hclose
          simp [hback]
        · simp [hback, hclose]

/-- An unguarded character stands where the text began, and leaves the scan there. -/
theorem Started.unguarded {guards : List Guard} {g : Guarding} (h : Started guards g) {c : Char}
    (hc : (g.step c).1 = false) : g = start guards ∧ (g.step c).2 = g := by
  obtain ⟨hreset, hcalm⟩ := h
  obtain ⟨watch, quote, escaped, nestings⟩ := g
  unfold Guarding.step at hc ⊢
  cases quote with
  | some q =>
    dsimp only at hc
    repeat' split at hc
    all_goals cases hc
  | none =>
    have hescaped : escaped = false := hcalm rfl
    subst hescaped
    dsimp only at hc ⊢
    split at hc
    · cases hc
    · next hwatch =>
      obtain ⟨hstep, hzero⟩ := Nesting.step_unguarded hc
      rw [if_neg hwatch, hstep]
      refine ⟨?_, rfl⟩
      rw [← hreset, Guarding.reset, hzero]

theorem after_cons (g : Guarding) (c : Char) (cs : List Char) :
    g.after (c :: cs) = (g.step c).2.after cs := rfl

theorem after_append (g : Guarding) (cs ds : List Char) :
    g.after (cs ++ ds) = (g.after cs).after ds := List.foldl_append

end Guarding

namespace Splitter

/-- A character either stays in its segment or is a separator that nothing guards. -/
theorem cuts_or_not (s : Splitter) (g : Guarding) (c : Char) :
    ((g.step c).1 = true ∨ c ≠ s.separator) ∨ (c = s.separator ∧ (g.step s.separator).1 = false) := by
  by_cases hc : c = s.separator
  · subst hc
    cases h : (g.step s.separator).1 with
    | true => exact .inl (.inl rfl)
    | false => exact .inr ⟨rfl, rfl⟩
  · exact .inl (.inr hc)

/-- Whether the scan at `g` goes through `cs` without a cut. -/
def Keeps (s : Splitter) : Guarding → List Char → Prop
  | _, [] => True
  | g, c :: cs => ((g.step c).1 = true ∨ c ≠ s.separator) ∧ s.Keeps (g.step c).2 cs

variable {s : Splitter} {g : Guarding} {cs ds : List Char}

theorem keeps_append (hcs : s.Keeps g cs) (hds : s.Keeps (g.after cs) ds) :
    s.Keeps g (cs ++ ds) := by
  induction cs generalizing g with
  | nil => exact hds
  | cons c cs ih => exact ⟨hcs.1, ih hcs.2 hds⟩

theorem scan_ne_nil (s : Splitter) (max : Nat) (g : Guarding) (cs : List Char) :
    s.scan max g cs ≠ [] := by
  fun_induction s.scan max g cs with
  | case1 => simp
  | case2 => simp
  | case3 => simp
  | case4 max g c rest guarded g' hstep hcut ih =>
    cases hscan : s.scan (max + 1) g' rest with
    | nil => simp [consHead]
    | cons seg segs => simp [consHead]

theorem consHead_eq_modifyHead {c : Char} {segs : List (List Char)} (h : segs ≠ []) :
    consHead c segs = segs.modifyHead (c :: ·) := by
  cases segs with
  | nil => exact absurd rfl h
  | cons seg segs => rfl

theorem scan_cons_of_keeps {c : Char} (h : (g.step c).1 = true ∨ c ≠ s.separator) (max : Nat)
    (cs : List Char) :
    s.scan max g (c :: cs) = (s.scan max (g.step c).2 cs).modifyHead (c :: ·) := by
  cases max with
  | zero =>
    rw [scan, scan]
    rfl
  | succ max =>
    have hcut : ¬ (!(g.step c).1 && c == s.separator) = true := by
      rcases h with h | h
      · simp [h]
      · simp [h]
    rw [scan, ← consHead_eq_modifyHead (scan_ne_nil s (max + 1) (g.step c).2 cs)]
    exact if_neg hcut

theorem scan_append_of_keeps (h : s.Keeps g cs) (max : Nat) (ds : List Char) :
    s.scan max g (cs ++ ds) = (s.scan max (g.after cs) ds).modifyHead (cs ++ ·) := by
  induction cs generalizing g with
  | nil => exact (congrFun List.modifyHead_id _).symm
  | cons c cs ih =>
    rw [List.cons_append, scan_cons_of_keeps h.1, ih h.2, List.modifyHead_modifyHead]
    rfl

theorem scan_of_keeps (h : s.Keeps g cs) (max : Nat) : s.scan max g cs = [cs] := by
  have happend := scan_append_of_keeps h max []
  rw [List.append_nil] at happend
  rw [happend]
  cases max <;> simp [scan]

theorem scan_cons_of_cut (hg : (g.step s.separator).1 = false) (max : Nat) (cs : List Char) :
    s.scan (max + 1) g (s.separator :: cs) = [] :: s.scan max (g.step s.separator).2 cs := by
  have hcut : (!(g.step s.separator).1 && s.separator == s.separator) = true := by simp [hg]
  rw [scan]
  exact if_pos hcut

theorem intercalate_scan (s : Splitter) (max : Nat) (g : Guarding) (cs : List Char) :
    [s.separator].intercalate (s.scan max g cs) = cs := by
  induction cs generalizing max g with
  | nil => cases max <;> simp [scan]
  | cons c cs ih =>
    rcases cuts_or_not s g c with hkeep | ⟨rfl, hcut⟩
    · rw [scan_cons_of_keeps hkeep]
      have hjoin := ih max (g.step c).2
      cases hscan : s.scan max (g.step c).2 cs with
      | nil => exact absurd hscan (scan_ne_nil s max _ cs)
      | cons seg segs =>
        rw [hscan] at hjoin
        rw [List.modifyHead_cons, List.intercalate_cons_cons_left, hjoin]
    · cases max with
      | zero => simp [scan]
      | succ max =>
        rw [scan_cons_of_cut hcut, List.intercalate_cons_of_ne_nil (scan_ne_nil s max _ cs), ih]
        rfl

/-- No cut is left in a segment: the first is gone through from where the scan is, and every later
one from the start, since it stands behind a cut. -/
theorem keeps_of_mem_scan {max : Nat} (hg : g.Started s.guards) (hmax : cs.length ≤ max) :
    ∃ seg segs, s.scan max g cs = seg :: segs ∧ s.Keeps g seg ∧
      ∀ later ∈ segs, s.Keeps (Guarding.start s.guards) later := by
  induction cs generalizing max g with
  | nil => cases max <;> exact ⟨[], [], by rw [scan], trivial, by simp⟩
  | cons c cs ih =>
    rw [List.length_cons] at hmax
    rcases cuts_or_not s g c with hkeep | ⟨rfl, hcut⟩
    · obtain ⟨seg, segs, hscan, hseg, hsegs⟩ := ih (hg.step c) (by omega : cs.length ≤ max)
      refine ⟨c :: seg, segs, ?_, ⟨hkeep, hseg⟩, hsegs⟩
      rw [scan_cons_of_keeps hkeep, hscan, List.modifyHead_cons]
    · obtain ⟨max, rfl⟩ : ∃ n, max = n + 1 := ⟨max - 1, by omega⟩
      obtain ⟨hstart, hback⟩ := hg.unguarded hcut
      obtain ⟨seg, segs, hscan, hseg, hsegs⟩ := ih hg (by omega : cs.length ≤ max)
      refine ⟨[], seg :: segs, ?_, trivial, ?_⟩
      · rw [scan_cons_of_cut hcut, hback, hscan]
      · intro later hlater
        rcases List.mem_cons.mp hlater with rfl | hlater
        · rw [← hstart]
          exact hseg
        · exact hsegs later hlater

/-- The first `max` segments, and the others joined to one. -/
def gather (s : Splitter) : Nat → List (List Char) → List (List Char)
  | _, [] => []
  | 0, seg :: segs => [[s.separator].intercalate (seg :: segs)]
  | max + 1, seg :: segs => seg :: s.gather max segs

theorem gather_modifyHead (s : Splitter) (max : Nat) (c : Char) (segs : List (List Char)) :
    s.gather max (segs.modifyHead (c :: ·)) = (s.gather max segs).modifyHead (c :: ·) := by
  cases segs with
  | nil => simp [gather]
  | cons seg segs => cases max <;> simp [gather]

theorem gather_of_length_le {max : Nat} {segs : List (List Char)} (h : segs.length ≤ max + 1) :
    s.gather max segs = segs := by
  induction segs generalizing max with
  | nil => rw [gather]
  | cons seg segs ih =>
    rw [List.length_cons] at h
    cases max with
    | zero =>
      have hnil : segs = [] := List.length_eq_zero_iff.mp (by omega)
      simp [gather, hnil]
    | succ max => rw [gather, ih (by omega)]

theorem gather_of_lt_length {max : Nat} {segs : List (List Char)} (h : max < segs.length) :
    s.gather max segs = segs.take max ++ [[s.separator].intercalate (segs.drop max)] := by
  induction segs generalizing max with
  | nil => cases h
  | cons seg segs ih =>
    cases max with
    | zero => simp [gather]
    | succ max =>
      rw [List.length_cons] at h
      rw [gather, ih (by omega)]
      rfl

/-- A scan with fewer cuts joins what a scan with more of them has cut apart. The second scan has
enough cuts if it may cut at every character. -/
theorem scan_eq_gather {m n : Nat} (h : m ≤ n ∨ cs.length ≤ n) :
    s.scan m g cs = s.gather m (s.scan n g cs) := by
  induction cs generalizing m n g with
  | nil => cases m <;> cases n <;> simp [scan, gather]
  | cons c cs ih =>
    rw [List.length_cons] at h
    rcases cuts_or_not s g c with hkeep | ⟨rfl, hcut⟩
    · have hless : m ≤ n ∨ cs.length ≤ n := h.imp_right fun hn => by omega
      rw [scan_cons_of_keeps hkeep, scan_cons_of_keeps hkeep, gather_modifyHead, ih hless]
    · cases m with
      | zero =>
        have hjoin := intercalate_scan s n g (s.separator :: cs)
        cases hscan : s.scan n g (s.separator :: cs) with
        | nil => exact absurd hscan (scan_ne_nil s n g _)
        | cons seg segs =>
          rw [hscan] at hjoin
          rw [scan, gather, hjoin]
      | succ m =>
        obtain ⟨n, rfl⟩ : ∃ k, n = k + 1 := ⟨n - 1, by omega⟩
        have hless : m ≤ n ∨ cs.length ≤ n := h.imp (fun hm => by omega) (fun hn => by omega)
        rw [scan_cons_of_cut hcut, scan_cons_of_cut hcut, gather, ih hless]

theorem split_nil (s : Splitter) : s.split [] = [] := rfl

theorem splitN_of_ne_nil (s : Splitter) (max : Nat) (h : cs ≠ []) :
    s.splitN max cs = s.scan max (Guarding.start s.guards) cs := by
  unfold splitN
  rw [if_neg]
  simpa using h

theorem split_of_ne_nil (s : Splitter) (h : cs ≠ []) :
    s.split cs = s.scan cs.length (Guarding.start s.guards) cs := splitN_of_ne_nil s cs.length h

theorem intercalate_split (s : Splitter) (cs : List Char) :
    [s.separator].intercalate (s.split cs) = cs := by
  by_cases h : cs = []
  · subst h
    rfl
  · rw [split_of_ne_nil s h, intercalate_scan]

theorem keeps_of_mem_split {seg : List Char} (h : seg ∈ s.split cs) :
    s.Keeps (Guarding.start s.guards) seg := by
  have hne : cs ≠ [] := by
    rintro rfl
    cases h
  rw [split_of_ne_nil s hne] at h
  obtain ⟨first, segs, hscan, hfirst, hsegs⟩ :=
    keeps_of_mem_scan (Guarding.start_started s.guards) (Nat.le_refl cs.length)
  rw [hscan] at h
  rcases List.mem_cons.mp h with rfl | h
  · exact hfirst
  · exact hsegs seg h

theorem split_of_keeps (h : s.Keeps (Guarding.start s.guards) cs) (hne : cs ≠ []) :
    s.split cs = [cs] := by
  rw [split_of_ne_nil s hne]
  exact scan_of_keeps h cs.length

theorem splitN_eq_gather (s : Splitter) (max : Nat) (cs : List Char) :
    s.splitN max cs = s.gather max (s.split cs) := by
  by_cases h : cs = []
  · subst h
    rw [split_nil, gather]
    rfl
  · rw [splitN_of_ne_nil s max h, split_of_ne_nil s h]
    exact scan_eq_gather (.inr (Nat.le_refl cs.length))

/-- Splitting loses nothing, leaves nothing to split, and is what a bounded split does up to its
bound: joined by the separator the segments are the text, with none for the empty text; a segment
that is not empty is the only segment of itself; and with a bound on the cuts the segments beyond
it stay joined. -/
theorem split_lossless_local_bounded (s : Splitter) (cs : List Char) (max : Nat) :
    ([s.separator].intercalate (s.split cs) = cs ∧ (s.split cs = [] ↔ cs = [])) ∧
    (∀ seg ∈ s.split cs, seg ≠ [] → s.split seg = [seg]) ∧
    ((s.split cs).length ≤ max + 1 → s.splitN max cs = s.split cs) ∧
    (max + 1 < (s.split cs).length →
      s.splitN max cs =
        (s.split cs).take max ++ [[s.separator].intercalate ((s.split cs).drop max)]) := by
  refine ⟨⟨intercalate_split s cs, ?_⟩, ?_, ?_, ?_⟩
  · constructor
    · intro h
      rw [← intercalate_split s cs, h]
      rfl
    · rintro rfl
      rfl
  · intro seg hseg hne
    exact split_of_keeps (keeps_of_mem_split hseg) hne
  · intro h
    rw [splitN_eq_gather, gather_of_length_le h]
  · intro h
    rw [splitN_eq_gather, gather_of_lt_length (by omega)]

/-- A bar in the arguments of a call does not cut, and one cut leaves the calls behind it joined. -/
theorem split_guarded_bars :
    let s : Splitter := ⟨'|', [.call]⟩
    let cs := "click|a|b(1|2)|c".toList
    s.split "b(1|2)".toList = ["b(1|2)".toList] ∧
      s.splitN 1 cs = (s.split cs).take 1 ++ [['|'].intercalate ((s.split cs).drop 1)] :=
  ⟨(split_lossless_local_bounded ⟨'|', [.call]⟩ "click|a|b(1|2)|c".toList 1).2.1 _ (by decide)
      (by decide),
    (split_lossless_local_bounded ⟨'|', [.call]⟩ "click|a|b(1|2)|c".toList 1).2.2.2 (by decide)⟩

end Splitter
end AttrChain
