import AttrChain.Proofs.Queries
import AttrChain.Proofs.Slots

/-!
To slots: the text of a target is read back as the target exactly when its calls have names and
marks that calls can have, and its query does not refine a first match.
-/

namespace AttrChain.Target

open AttrChain.Text

variable {t : Target}

theorem watches_slotStart {o c : Char} (hb : (o, c) ∈ brackets) :
    Nesting.watches o slotStart.nestings = true :=
  of_mem_brackets (p := fun o _ => Nesting.watches o slotStart.nestings = true)
    (by decide) (by decide) (by decide) hb

theorem written_eq (t : Target) :
    t.written = t.query.written ++ '|' :: (spaced (t.updates.map Update.written) ++
      '|' :: spaced (t.calls.map Call.written)) := by
  rw [written, List.append_assoc]
  rfl

theorem isItem_of_mem_updates (h : ∀ u ∈ t.updates, u.Writable) :
    ∀ text ∈ t.updates.map Update.written, IsItem text := by
  intro text htext
  obtain ⟨u, hu, rfl⟩ := List.mem_map.mp htext
  exact (h u hu).isItem

theorem splitN_written (hquery : t.query.Selects) (hupdates : ∀ u ∈ t.updates, u.Writable) :
    partSplitter.splitN 2 t.written =
      [t.query.written, spaced (t.updates.map Update.written),
        spaced (t.calls.map Call.written)] := by
  have hquerypass : partSplitter.Passes slotStart t.query.written :=
    hquery.passes slotStart_ready fun o c => watches_slotStart
  have hupdatepass : partSplitter.Passes slotStart (spaced (t.updates.map Update.written)) :=
    spaced_passes (isItem_of_mem_updates hupdates) slotStart_ready (by decide) (by decide)
      (by decide)
  have hrest : partSplitter.scan 1 slotStart (spaced (t.updates.map Update.written) ++
      '|' :: spaced (t.calls.map Call.written)) =
      [spaced (t.updates.map Update.written), spaced (t.calls.map Call.written)] := by
    have hscan := Splitter.scan_append_separator (s := partSplitter) rfl hupdatepass 0
      (spaced (t.calls.map Call.written))
    rw [Splitter.scan] at hscan
    exact hscan
  rw [written_eq, splitN_bar hquerypass, hrest]

theorem trim_written (hquery : t.query.Selects)
    (hcalls : ∀ c ∈ t.calls, c.Regular ∧ ∀ v ∈ c.args, v.IsLiteral) :
    trim t.written = t.written := by
  have hitems := isItem_of_mem_calls hcalls
  have hne := hquery.written_ne_nil
  have hhead := head_trim t.query.written
  rw [hquery.trim_written] at hhead
  refine trim_bar (List.append_ne_nil_of_left_ne_nil hne _) ?_
    (last_spaced fun text htext => ⟨(hitems text htext).ne_nil, (hitems text htext).last⟩)
  obtain ⟨c, cs, hcs⟩ := List.exists_cons_of_ne_nil hne
  rw [hcs] at hhead ⊢
  exact hhead

theorem read_written (hquery : t.query.Selects)
    (hfirst : t.query.single = true → t.query.refinement = none)
    (hupdates : ∀ u ∈ t.updates, u.Writable)
    (hcalls : ∀ c ∈ t.calls, c.Regular ∧ ∀ v ∈ c.args, v.IsLiteral) :
    Target.read t.written = .ok (some t) := by
  have hsome : t.written.isEmpty = false := by
    rw [written_eq, List.isEmpty_eq_false_iff]
    exact List.append_ne_nil_of_left_ne_nil hquery.written_ne_nil _
  unfold Target.read
  rw [trim_written hquery hcalls]
  dsimp only
  rw [hsome, if_neg Bool.false_ne_true, splitN_written hquery hupdates]
  simp only [List.getElem?_cons_zero, List.getElem?_cons_succ, Option.getD_some,
    hquery.read_written hfirst, Update.readAll_written hupdates, Call.readAll_written hcalls]
  rfl

/-- Of any text only targets are read that do not refine a first match, with names and marks that
calls can have. -/
theorem regular_of_read {cs : List Char} (h : Target.read cs = .ok (some t)) :
    (t.query.single = true → t.query.refinement = none) ∧ ∀ c ∈ t.calls, c.Regular := by
  unfold Target.read at h
  dsimp only at h
  split at h
  · cases h
  · obtain ⟨query, hquery, h⟩ := ok_of_bind h
    obtain ⟨updates, -, h⟩ := ok_of_bind h
    obtain ⟨calls, hcalls, h⟩ := ok_of_bind h
    cases h
    exact ⟨Query.refinement_of_read hquery, Call.regular_of_readAll hcalls⟩

/-- A target that can be written but for its calls and the refinement of a first match is read back
if and only if there is no such refinement and the calls are regular. -/
theorem read_written_iff (hquery : t.query.Selects) (hupdates : ∀ u ∈ t.updates, u.Writable)
    (hargs : ∀ c ∈ t.calls, ∀ v ∈ c.args, v.IsLiteral) :
    Target.read t.written = .ok (some t) ↔
      (t.query.single = true → t.query.refinement = none) ∧ ∀ c ∈ t.calls, c.Regular := by
  constructor
  · exact regular_of_read
  · rintro ⟨hfirst, hregular⟩
    exact read_written hquery hfirst hupdates fun c hc => ⟨hregular c hc, hargs c hc⟩

/-- The first two items and those of a name with a bar and brackets in it, an update, and a call with
live arguments. -/
def sifting : Target where
  query := ⟨"ul > li | x", false, some (.test
    (.binary .or (.binary .lt .index (.num 2)) (.binary .eq (.item (some "name")) (.text "a|'b)]"))))⟩
  updates := [⟨"css", [.text "top left", .map [("x", .int (-1))]]⟩]
  calls := [⟨"$go.on-1", [.list [.nil, .bool true]], some 0⟩]

theorem sifting_read_back :
    sifting.written = ("(ul > li | x)\x7bi < 2 || v.name == 'a|\\'b)]'\x7d|" ++
        "css('top left', \x7b'x': -1\x7d)|$go.on-1([undefined, true], _)").toList ∧
      Target.read sifting.written = .ok (some sifting) := by
  have hfilter : Filter.Expr.read "i<2||v.name=='a|\\'b)]'".toList =
      .ok (.binary .or (.binary .lt .index (.num 2))
        (.binary .eq (.item (some "name")) (.text "a|'b)]"))) := ok_of_toOption (by decide +kernel)
  have hquery : sifting.query.Selects := by
    refine .all (by decide) (by decide) ?_
    rintro r ⟨⟩
    exact ⟨_, hfilter⟩
  have hupdates : ∀ u ∈ sifting.updates, u.Writable := by
    refine List.forall_mem_singleton.mpr ⟨by decide, ?_⟩
    refine List.forall_mem_cons.mpr ⟨.text _, List.forall_mem_singleton.mpr (.map ?_ ?_)⟩
    · exact List.pairwise_singleton _ _
    · exact List.forall_mem_singleton.mpr (.int _)
  have hargs : ∀ c ∈ sifting.calls, ∀ v ∈ c.args, v.IsLiteral := by
    refine List.forall_mem_singleton.mpr (List.forall_mem_singleton.mpr (.list ?_))
    exact List.forall_mem_cons.mpr ⟨.nil, List.forall_mem_singleton.mpr (.bool true)⟩
  have hregular : ∀ c ∈ sifting.calls, c.Regular :=
    List.forall_mem_singleton.mpr ⟨by decide, by decide⟩
  refine ⟨by cbv, (read_written_iff hquery hupdates hargs).mpr ⟨?_, hregular⟩⟩
  exact fun hsingle => absurd hsingle Bool.false_ne_true

def parted : Target := ⟨.start, [], [⟨"a b", [], none⟩]⟩

/-- Not every target is read back: the name of a call is taken apart where it has a space. -/
theorem parted_not_read_back :
    parted.query.Selects ∧ (∀ u ∈ parted.updates, u.Writable) ∧
      (∀ c ∈ parted.calls, ∀ v ∈ c.args, v.IsLiteral) ∧ parted.written = "-||a b()".toList ∧
      Target.read parted.written ≠ .ok (some parted) := by
  refine ⟨.start, (fun _ hu => nomatch hu), ?_, by decide, ?_⟩
  · exact List.forall_mem_singleton.mpr fun _ hv => nomatch hv
  · intro h
    obtain ⟨-, hcalls⟩ := regular_of_read h
    have hname : IsName isCallStart isCallChar "a b" := (hcalls _ List.mem_cons_self).name
    revert hname
    decide

end AttrChain.Target
