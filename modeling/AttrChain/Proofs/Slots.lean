import AttrChain.Proofs.Triggers

/-!
On and By slots: the groups of the attribute texts are the slots they were put together from, and
each slot is read back as the events and calls it was written for.
-/

namespace AttrChain

open AttrChain.Text

def slotStart : Guarding := Guarding.start partSplitter.guards

theorem slotStart_ready : slotStart.Ready := Guarding.start_ready (by decide)

section Bars

variable {cs ds : List Char}

/-- A bar behind the first part of a slot does not come off. -/
theorem trim_bar (hne : cs ≠ []) (hfirst : ∀ c ∈ cs.head?, isBlank c = false)
    (hlast : ∀ c ∈ ds.getLast?, isBlank c = false) : trim (cs ++ '|' :: ds) = cs ++ '|' :: ds := by
  refine trim_eq_self ?_ ?_
  · obtain ⟨c, cs, rfl⟩ := List.exists_cons_of_ne_nil hne
    rintro d ⟨⟩
    exact hfirst c rfl
  · intro c hc
    rw [List.getLast?_append, List.getLast?_cons, Option.some_or] at hc
    cases hds : ds.getLast? with
    | none =>
      rw [hds] at hc
      cases hc
      decide
    | some d =>
      rw [hds] at hc
      cases hc
      exact hlast d hds

theorem splitN_bar (hcs : partSplitter.Passes slotStart cs) (max : Nat) (ds : List Char) :
    partSplitter.splitN (max + 1) (cs ++ '|' :: ds) = cs :: partSplitter.scan max slotStart ds := by
  rw [Splitter.splitN_of_ne_nil _ _ (by simp)]
  exact Splitter.scan_append_separator rfl hcs max ds

end Bars

section Calls

variable {calls : List Call}

theorem isItem_of_mem_calls (h : ∀ c ∈ calls, c.Regular ∧ ∀ v ∈ c.args, v.IsLiteral) :
    ∀ t ∈ calls.map Call.written, IsItem t := by
  intro t ht
  obtain ⟨c, hc, rfl⟩ := List.mem_map.mp ht
  exact (h c hc).1.isItem (h c hc).2

end Calls

namespace Plan

variable {p : Plan}

theorem Writable.onCalls (h : p.Writable) :
    ∀ c ∈ p.onCalls, c.Regular ∧ ∀ v ∈ c.args, v.IsLiteral :=
  fun c hc => h.calls c (List.mem_append_left _ hc)

theorem Writable.byCalls (h : p.Writable) :
    ∀ c ∈ p.byCalls, c.Regular ∧ ∀ v ∈ c.args, v.IsLiteral :=
  fun c hc => h.calls c (List.mem_append_right _ hc)

theorem Writable.isItem_triggers (h : p.Writable) :
    ∀ t ∈ p.triggers.map Trigger.written, IsItem t := by
  intro t ht
  obtain ⟨trigger, htrigger, rfl⟩ := List.mem_map.mp ht
  exact (h.triggers trigger htrigger).isItem

theorem Writable.trim_onText (h : p.Writable) : trim p.onText = p.onText := by
  have htriggers := h.isItem_triggers
  have hcalls := isItem_of_mem_calls h.onCalls
  have hne : p.triggers.map Trigger.written ≠ [] := by simpa using h.nonempty
  exact trim_bar (spaced_ne_nil (fun t ht => (htriggers t ht).ne_nil) hne)
    (head_spaced fun t ht => ⟨(htriggers t ht).ne_nil, (htriggers t ht).head⟩)
    (last_spaced fun t ht => ⟨(hcalls t ht).ne_nil, (hcalls t ht).last⟩)

theorem Writable.readSlot_onText (h : p.Writable) :
    Trigger.readSlot p.onText = .ok (p.triggers, p.onCalls) := by
  have htriggers := h.isItem_triggers
  have hpass : partSplitter.Passes slotStart (spaced (p.triggers.map Trigger.written)) :=
    spaced_passes htriggers slotStart_ready (by decide) (by decide) (by decide)
  have hparts : partSplitter.splitN 1 (trim p.onText) =
      [spaced (p.triggers.map Trigger.written), spaced (p.onCalls.map Call.written)] := by
    rw [h.trim_onText, onText, splitN_bar hpass, Splitter.scan]
  have hevents : (items (spaceBlanks (spaced (p.triggers.map Trigger.written)))).mapM Trigger.read =
      .ok p.triggers := by
    rw [(spaced_sealed htriggers).spaceBlanks_eq, items_spaced htriggers]
    exact mapM_eq_pure fun t ht => (h.triggers t ht).read_written
  have hsome : p.triggers.isEmpty = false := by simpa using h.nonempty
  have hcalls : Call.readAll (spaced (p.onCalls.map Call.written)) = .ok p.onCalls :=
    Call.readAll_written h.onCalls
  unfold Trigger.readSlot
  rw [hparts]
  simp only [List.getElem?_cons_zero, List.getElem?_cons_succ, Option.getD_some, hevents, hcalls,
    bind, Except.bind, hsome]
  rfl

theorem Writable.readAll_byText (h : p.Writable) : Call.readAll p.byText = .ok p.byCalls :=
  Call.readAll_written h.byCalls

theorem Writable.slot_onText (h : p.Writable) : slot p.onText = p.onText ∧ p.onText ≠ [] := by
  have hbar : '|' ∈ p.onText := List.mem_append_right _ List.mem_cons_self
  have hplace : isPlaceholder p.onText = false := by
    rw [isPlaceholder, beq_eq_false_iff_ne]
    intro heq
    rw [heq] at hbar
    exact absurd (List.mem_singleton.mp hbar) (by decide)
  refine ⟨?_, List.ne_nil_of_mem hbar⟩
  rw [slot, h.trim_onText, hplace]
  rfl

theorem Writable.slot_byText (h : p.Writable) : slot p.byText = p.byText := by
  have hcalls := isItem_of_mem_calls h.byCalls
  have htrim : trim p.byText = p.byText := trim_spaced hcalls
  have hplace : isPlaceholder p.byText = false := by
    refine not_isPlaceholder_spaced fun t ht => ⟨(hcalls t ht).ne_nil, ?_⟩
    obtain ⟨c, -, rfl⟩ := List.mem_map.mp ht
    exact last_inParens _ _
  rw [slot, htrim, hplace]
  rfl

/-- Where the scan for slots goes through, a slot ends at a semicolon only. -/
theorem Writable.passes (h : p.Writable) :
    slotSplitter.Passes (Guarding.start slotSplitter.guards) p.onText ∧
      slotSplitter.Passes (Guarding.start slotSplitter.guards) p.byText := by
  have hready : (Guarding.start slotSplitter.guards).Ready := Guarding.start_ready (by decide)
  have hspaced {texts : List (List Char)} (h : ∀ t ∈ texts, IsItem t) :
      slotSplitter.Passes (Guarding.start slotSplitter.guards) (spaced texts) :=
    spaced_passes h hready (by decide) (by decide) (by decide)
  have hbar {cs : List Char} (hcs : slotSplitter.Passes (Guarding.start slotSplitter.guards) cs) :
      slotSplitter.Passes (Guarding.start slotSplitter.guards) ('|' :: cs) :=
    .cons (Guarding.step_plain hready rfl rfl rfl) (.inr (by decide)) hcs
  exact ⟨(hspaced h.isItem_triggers).append (hbar (hspaced (isItem_of_mem_calls h.onCalls))),
    hspaced (isItem_of_mem_calls h.byCalls)⟩

end Plan

/-- Slots with semicolons between them are split where they were joined, but a lone slot that is
empty is none. -/
theorem split_slots {texts : List (List Char)}
    (h : ∀ t ∈ texts, slotSplitter.Passes (Guarding.start slotSplitter.guards) t) :
    slotSplitter.split ([';'].intercalate texts) = texts ∨
      (slotSplitter.split ([';'].intercalate texts) = [] ∧ texts = [[]]) := by
  by_cases hjoin : [';'].intercalate texts = []
  · cases texts with
    | nil => exact .inl rfl
    | cons t texts =>
      cases texts with
      | nil =>
        rw [List.intercalate_singleton] at hjoin
        subst hjoin
        exact .inr ⟨rfl, rfl⟩
      | cons u texts =>
        rw [List.intercalate_cons_cons] at hjoin
        simp at hjoin
  · left
    have hne : texts ≠ [] := by
      rintro rfl
      exact hjoin rfl
    rw [Splitter.split_of_ne_nil _ hjoin]
    exact Splitter.scan_intercalate rfl h hne (length_le_intercalate_succ ';' texts)

namespace Plan

variable {ps : List Plan}

theorem slots_onTexts (h : ∀ p ∈ ps, p.Writable) :
    ((slotSplitter.split (onTexts ps).toList).map slot).filter (!·.isEmpty) = ps.map onText := by
  have hsplit := split_slots (List.forall_mem_map.mpr fun p hp => (h p hp).passes.1)
  have hfull : slotSplitter.split (onTexts ps).toList = ps.map onText := by
    rw [onTexts, String.toList_ofList]
    rcases hsplit with hsplit | ⟨-, hlone⟩
    · exact hsplit
    · have hempty : [] ∈ ps.map onText := by
        rw [hlone]
        exact List.mem_cons_self
      obtain ⟨p, hp, hnil⟩ := List.mem_map.mp hempty
      exact absurd hnil (h p hp).slot_onText.2
  have hslot : (ps.map onText).map slot = ps.map onText := by
    rw [List.map_map]
    exact List.map_congr_left fun p hp => (h p hp).slot_onText.1
  rw [hfull, hslot, List.filter_eq_self]
  intro t ht
  obtain ⟨p, hp, rfl⟩ := List.mem_map.mp ht
  simp [(h p hp).slot_onText.2]

theorem slots_byTexts (h : ∀ p ∈ ps, p.Writable) {i : Nat} {p : Plan} (hi : ps[i]? = some p) :
    ((slotSplitter.split (byTexts ps).toList).map slot)[i]?.getD [] = p.byText := by
  have htext : (ps.map byText)[i]? = some p.byText := by rw [List.getElem?_map, hi]; rfl
  have hsplit := split_slots (List.forall_mem_map.mpr fun p hp => (h p hp).passes.2)
  rw [byTexts, String.toList_ofList]
  rcases hsplit with hsplit | ⟨hsplit, hlone⟩
  · have hslot : (ps.map byText).map slot = ps.map byText := by
      rw [List.map_map]
      exact List.map_congr_left fun p hp => (h p hp).slot_byText
    rw [hsplit, hslot, htext]
    rfl
  · have hmem := List.mem_of_getElem? htext
    rw [hlone] at hmem
    rw [hsplit, List.mem_singleton.mp hmem]
    rfl

theorem ofTexts_written (h : ∀ p ∈ ps, p.Writable) :
    Group.ofTexts (onTexts ps) (byTexts ps) "" =
      ps.map fun p => ⟨String.ofList p.onText, String.ofList p.byText, ""⟩ := by
  unfold Group.ofTexts
  dsimp only
  rw [slots_onTexts h]
  apply List.ext_getElem?
  intro i
  rw [List.getElem?_map, List.getElem?_map, List.getElem?_zipIdx, List.getElem?_map, Nat.zero_add]
  cases hi : ps[i]? with
  | none => rfl
  | some p =>
    simp only [Option.map_some, slots_byTexts h hi]
    rfl

/-- On and By slots are read back: there is one group for each plan, and its slots say the events and
calls that they were written for. -/
theorem slots_read_back (ps : List Plan) (h : ∀ p ∈ ps, p.Writable) :
    (Group.ofTexts (onTexts ps) (byTexts ps) "").map
        (fun g => (Trigger.readSlot g.onText.toList, Call.readAll g.byText.toList)) =
      ps.map fun p => (.ok (p.triggers, p.onCalls), .ok p.byCalls) := by
  rw [ofTexts_written h, List.map_map]
  apply List.map_congr_left
  intro p hp
  have hon := (h p hp).readSlot_onText
  have hby := (h p hp).readAll_byText
  simp only [Function.comp_apply, String.toList_ofList]
  rw [hon, hby]

/-- A plan with the separators of slots, parts and items in a text and in a selector. -/
def guarded : Plan where
  triggers := [⟨"click", some "li; a|b", true, false⟩, ⟨"key.up:x-1", none, false, true⟩]
  onCalls := [⟨"$pick", [.text "it's; (a|b]\\", .list [.int (-3), .map [("k 1", .null)]]], some 2⟩]
  byCalls := []

theorem guarded_read_back :
    guarded.onText = ("^click(li; a|b) @key.up:x-1|" ++
        "$pick('it\\'s; (a|b]\\\\', [-3, \x7b'k 1': null\x7d], _2)").toList ∧
      (∀ p ∈ [guarded, guarded], p.Writable) ∧
      (Group.ofTexts (onTexts [guarded, guarded]) (byTexts [guarded, guarded]) "").map
          (fun g => (Trigger.readSlot g.onText.toList, Call.readAll g.byText.toList)) =
        [(.ok (guarded.triggers, guarded.onCalls), .ok []),
          (.ok (guarded.triggers, guarded.onCalls), .ok [])] := by
  have htriggers : ∀ t ∈ guarded.triggers, t.Writable := by
    refine List.forall_mem_cons.mpr ⟨?_, List.forall_mem_singleton.mpr ?_⟩
    · refine ⟨by decide, by decide, ?_⟩
      rintro s ⟨⟩
      have hblanks : "li; a|b".toList.all (fun c => !isBlank c || c == ' ') = true := by decide
      refine ⟨by decide, by decide, by decide, ?_⟩
      intro c hc hblank
      simpa [hblank] using List.all_eq_true.mp hblanks c hc
    · exact ⟨by decide, by decide, fun _ hs => nomatch hs⟩
  have hargs : ∀ v ∈ [Value.text "it's; (a|b]\\", .list [.int (-3), .map [("k 1", .null)]]],
      v.IsLiteral := by
    refine List.forall_mem_cons.mpr ⟨.text _, List.forall_mem_singleton.mpr (.list ?_)⟩
    refine List.forall_mem_cons.mpr ⟨.int _, List.forall_mem_singleton.mpr (.map ?_ ?_)⟩
    · exact List.pairwise_singleton _ _
    · exact List.forall_mem_singleton.mpr .null
  have hcalls : ∀ c ∈ guarded.onCalls ++ guarded.byCalls,
      c.Regular ∧ ∀ v ∈ c.args, v.IsLiteral := by
    exact List.forall_mem_singleton.mpr ⟨⟨by decide, by decide⟩, hargs⟩
  have hplan : guarded.Writable := ⟨by decide, htriggers, hcalls⟩
  have hplans : ∀ p ∈ [guarded, guarded], p.Writable :=
    List.forall_mem_cons.mpr ⟨hplan, List.forall_mem_singleton.mpr hplan⟩
  exact ⟨by decide, hplans, slots_read_back [guarded, guarded] hplans⟩

end Plan

end AttrChain
