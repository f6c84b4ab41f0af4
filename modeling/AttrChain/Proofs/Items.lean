import AttrChain.Descriptor.Printer
import AttrChain.Proofs.Literals
import AttrChain.Proofs.Results

/-!
Lists of events, calls and updates: the items of such a text are the texts it was put together from,
and each of them is read back as what it was written for.
-/

namespace AttrChain

open AttrChain.Text

/-- The text of an item: characters of names, and perhaps a text in parentheses behind them. -/
inductive IsItem : List Char → Prop where
  | bare {cs : List Char} : cs ≠ [] → (∀ c ∈ cs, Plain c) → IsItem cs
  | call {cs args : List Char} : cs ≠ [] → (∀ c ∈ cs, Plain c) → Sealed Spaced args →
      IsItem (cs ++ inParens args)

theorem last_inParens (cs args : List Char) : ∀ c ∈ (cs ++ inParens args).getLast?, c = ')' := by
  rw [inParens, ← List.append_assoc, List.getLast?_concat]
  rintro c ⟨⟩
  rfl

theorem toList_ne_nil {s : String} (h : s ≠ "") : s.toList ≠ [] :=
  fun hnil => h (String.toList_inj.mp hnil)

theorem trim_toList {s : String} (h : trimmed s = s) : trim s.toList = s.toList := by
  have hlist := congrArg String.toList h
  rwa [trimmed, String.toList_ofList] at hlist

namespace IsItem

variable {t : List Char}

theorem ne_nil (h : IsItem t) : t ≠ [] := by
  cases h with
  | bare hne _ => exact hne
  | call hne _ _ => exact List.append_ne_nil_of_left_ne_nil hne _

theorem isSealed (h : IsItem t) : Sealed Spaced t := by
  cases h with
  | bare _ hcs => exact .of_plain hcs
  | call _ hcs hargs => exact (Sealed.of_plain hcs).append (.enclosed (by decide) hargs)

theorem head (h : IsItem t) : ∀ c ∈ t.head?, isBlank c = false := by
  have hplain {cs : List Char} (hne : cs ≠ []) (hcs : ∀ c ∈ cs, Plain c) (ds : List Char) :
      ∀ c ∈ (cs ++ ds).head?, isBlank c = false := by
    intro c hc
    obtain ⟨d, cs, rfl⟩ := List.exists_cons_of_ne_nil hne
    cases hc
    exact (hcs c List.mem_cons_self).blank
  cases h with
  | bare hne hcs =>
    rw [← List.append_nil t]
    exact hplain hne hcs []
  | call hne hcs _ => exact hplain hne hcs _

theorem last (h : IsItem t) : ∀ c ∈ t.getLast?, isBlank c = false := by
  intro c hc
  cases h with
  | bare _ hcs => exact (hcs c (List.mem_of_getLast? hc)).blank
  | call _ _ _ =>
    rw [last_inParens _ _ c hc]
    decide

theorem trim_eq (h : IsItem t) : trim t = t := trim_eq_self h.head h.last

/-- No splitter that watches quotes and parentheses cuts inside of an item. -/
theorem passes {s : Splitter} {g : Guarding} (h : IsItem t) (hg : g.Ready)
    (hw : Nesting.watches '(' g.nestings = true) (hsep : s.separator ∈ signs) :
    s.Passes g t := by
  have hplain {cs : List Char} (hcs : ∀ c ∈ cs, Plain c) : s.Passes g cs := by
    refine Splitter.passes_of_flat hg (fun c hc => ?_) fun hmem => (hcs _ hmem).ne hsep rfl
    exact ⟨(hcs c hc).isQuote, (hcs c hc).isOpening, (hcs c hc).isClosing⟩
  cases h with
  | bare _ hcs => exact hplain hcs
  | call _ hcs hargs => exact (hplain hcs).append (Splitter.passes_span (by decide) hg hw hargs)

end IsItem

section Lists

variable {texts : List (List Char)}

theorem spaced_sealed (h : ∀ t ∈ texts, IsItem t) : Sealed Spaced (spaced texts) :=
  .intercalate (.char (fun _ => rfl) rfl rfl rfl .nil) fun t ht => (h t ht).isSealed

theorem spaced_passes {s : Splitter} {g : Guarding} (h : ∀ t ∈ texts, IsItem t) (hg : g.Ready)
    (hw : Nesting.watches '(' g.nestings = true) (hsep : s.separator ∈ signs)
    (hspace : ' ' ≠ s.separator) : s.Passes g (spaced texts) := by
  unfold spaced
  induction texts with
  | nil => exact .nil
  | cons t texts ih =>
    obtain ⟨ht, htexts⟩ := List.forall_mem_cons.mp h
    have hpass := ht.passes hg hw hsep
    cases texts with
    | nil => rwa [List.intercalate_singleton]
    | cons u texts =>
      rw [List.intercalate_cons_cons, List.append_assoc]
      exact hpass.append (.cons (Guarding.step_plain hg rfl rfl rfl) (.inr hspace) (ih htexts))

theorem spaced_ne_nil (h : ∀ t ∈ texts, t ≠ []) (hne : texts ≠ []) : spaced texts ≠ [] :=
  intercalate_ne_nil [' '] h hne

theorem head_spaced {p : Char → Prop} (h : ∀ t ∈ texts, t ≠ [] ∧ ∀ c ∈ t.head?, p c) :
    ∀ c ∈ (spaced texts).head?, p c := by
  intro c hc
  unfold spaced at hc
  cases texts with
  | nil => cases hc
  | cons t texts =>
    obtain ⟨hne, hhead⟩ := h t List.mem_cons_self
    obtain ⟨d, ds, rfl⟩ := List.exists_cons_of_ne_nil hne
    rw [List.intercalate_cons_cons_left] at hc
    cases hc
    exact hhead c rfl

theorem last_spaced {p : Char → Prop} (h : ∀ t ∈ texts, t ≠ [] ∧ ∀ c ∈ t.getLast?, p c) :
    ∀ c ∈ (spaced texts).getLast?, p c := by
  induction texts with
  | nil => exact fun c hc => nomatch hc
  | cons t texts ih =>
    obtain ⟨ht, htexts⟩ := List.forall_mem_cons.mp h
    have hrest := ih htexts
    unfold spaced at hrest ⊢
    cases texts with
    | nil =>
      rw [List.intercalate_singleton]
      exact ht.2
    | cons u texts =>
      have hne : spaced (u :: texts) ≠ [] := spaced_ne_nil (fun v hv => (htexts v hv).1) (by simp)
      obtain ⟨d, hd⟩ : ∃ d, ([' '].intercalate (u :: texts)).getLast? = some d :=
        ⟨_, List.getLast?_eq_some_getLast hne⟩
      intro c hc
      rw [List.intercalate_cons_cons, List.getLast?_append, hd, Option.some_or] at hc
      exact hrest c (hd.trans hc)

theorem items_spaced (h : ∀ t ∈ texts, IsItem t) : items (spaced texts) = texts := by
  by_cases hne : texts = []
  · subst hne
    rfl
  have hready : (Guarding.start itemSplitter.guards).Ready := Guarding.start_ready (by decide)
  have hpass : ∀ t ∈ texts, itemSplitter.Passes (Guarding.start itemSplitter.guards) t :=
    fun t ht => (h t ht).passes hready (by decide) (by decide)
  have hcs : spaced texts ≠ [] := spaced_ne_nil (fun t ht => (h t ht).ne_nil) hne
  have hsplit : itemSplitter.split (spaced texts) = texts := by
    rw [Splitter.split_of_ne_nil _ hcs]
    exact Splitter.scan_intercalate rfl hpass hne (length_le_intercalate_succ ' ' texts)
  have htrim : texts.map trim = texts :=
    (List.map_congr_left fun t ht => (h t ht).trim_eq).trans (List.map_id texts)
  rw [items, hsplit, htrim, List.filter_eq_self]
  intro t ht
  simp [(h t ht).ne_nil]

theorem trim_spaced (h : ∀ t ∈ texts, IsItem t) : trim (spaced texts) = spaced texts :=
  trim_eq_self (head_spaced fun t ht => ⟨(h t ht).ne_nil, (h t ht).head⟩)
    (last_spaced fun t ht => ⟨(h t ht).ne_nil, (h t ht).last⟩)

/-- A list in which every item has its parentheses is no placeholder. -/
theorem not_isPlaceholder_spaced (h : ∀ t ∈ texts, t ≠ [] ∧ ∀ c ∈ t.getLast?, c = ')') :
    isPlaceholder (spaced texts) = false := by
  rw [isPlaceholder, beq_eq_false_iff_ne]
  intro heq
  have hlast := last_spaced h '-'
  rw [heq] at hlast
  exact absurd (hlast rfl) (by decide)

theorem readList_spaced {ε α : Type} {read : List Char → Except ε α} {write : α → List Char}
    {l : List α} (hitem : ∀ a ∈ l, IsItem (write a) ∧ ∀ c ∈ (write a).getLast?, c = ')')
    (hread : ∀ a ∈ l, read (write a) = .ok a) :
    (if isPlaceholder (trim (spaceBlanks (spaced (l.map write)))) then .ok []
      else (items (spaceBlanks (spaced (l.map write)))).mapM read) = Except.ok l := by
  have hitems : ∀ t ∈ l.map write, IsItem t ∧ ∀ c ∈ t.getLast?, c = ')' :=
    List.forall_mem_map.mpr hitem
  have hplace := not_isPlaceholder_spaced fun t ht => ⟨(hitems t ht).1.ne_nil, (hitems t ht).2⟩
  rw [(spaced_sealed fun t ht => (hitems t ht).1).spaceBlanks_eq,
    trim_spaced fun t ht => (hitems t ht).1, hplace, items_spaced fun t ht => (hitems t ht).1]
  exact mapM_eq_pure hread

end Lists

section Reading

variable {start part : Char → Bool} {name : String} {cs rest : List Char}

theorem readName?_append (h : IsName start part name)
    (hrest : ∀ c ∈ rest.head?, part c = false) :
    readName? start part (name.toList ++ rest) = some (name.toList, rest) := by
  obtain ⟨c, ds, hname, hc, hds⟩ := h
  obtain ⟨htake, hdrop⟩ := takeWhile_dropWhile_append hds hrest
  rw [hname, List.cons_append, readName?, if_pos hc, htake, hdrop]

theorem isName_of_readName? {word : List Char} (h : readName? start part cs = some (word, rest)) :
    IsName start part (String.ofList word) := by
  unfold readName? at h
  split at h
  · split at h
    · next hc =>
      cases h
      exact ⟨_, _, String.toList_ofList, hc, List.all_eq_true.mp List.all_takeWhile⟩
    · cases h
  · cases h

theorem argsText?_inParens (cs : List Char) : argsText? (inParens cs) = some (some cs) := by
  have hlast : (cs ++ [')']).getLast? = some ')' := List.getLast?_concat
  have hinner : inParens? (inParens cs) = some cs := by
    rw [inParens, List.cons_append, inParens?, hlast, if_pos (by rfl), List.dropLast_concat]
  unfold argsText?
  rw [hinner]
  rfl

end Reading

namespace IsName

variable {start part : Char → Bool} {name : String}

theorem ne_nil (h : IsName start part name) : name.toList ≠ [] := by
  obtain ⟨c, cs, hname, -⟩ := h
  rw [hname]
  exact List.cons_ne_nil c cs

theorem plain (h : IsName start part name) (hstart : ∀ c, start c = true → Plain c)
    (hpart : ∀ c, part c = true → Plain c) : ∀ c ∈ name.toList, Plain c := by
  obtain ⟨c, cs, hname, hc, hcs⟩ := h
  rw [hname]
  exact List.forall_mem_cons.mpr ⟨hstart c hc, fun d hd => hpart d (hcs d hd)⟩

end IsName

namespace Call

variable {c : Call}

theorem Regular.isItem (h : c.Regular) (hargs : ∀ v ∈ c.args, v.IsLiteral) : IsItem c.written :=
  .call h.name.ne_nil (h.name.plain (fun _ => .of_isCallStart) (fun _ => .of_isCallChar))
    (Arguments.sealed_written hargs)

theorem Regular.read_written (h : c.Regular) (hargs : ∀ v ∈ c.args, v.IsLiteral) :
    Call.read c.written = .ok c := by
  have hname : readName? isCallStart isCallChar c.written =
      some (c.name.toList, inParens (Arguments.mk c.args c.rest).written) :=
    readName?_append h.name (by rintro d ⟨⟩; decide)
  have hread : Arguments.read (Arguments.mk c.args c.rest).written = .ok ⟨c.args, c.rest⟩ :=
    Arguments.Writable.read_written ⟨hargs, h.rest⟩
  unfold Call.read
  rw [hname]
  dsimp only
  rw [argsText?_inParens]
  dsimp only [Option.map_some]
  rw [readArgs?, hread, String.ofList_toList]
  rfl

/-- Whatever is read as a call is one that can be written, as far as its name and its mark for live
arguments go. -/
theorem regular_of_read {cs : List Char} (h : Call.read cs = .ok c) : c.Regular := by
  have hrest {text? : Option (List Char)} {a : Arguments} (h : readArgs? text? = .ok a) :
      ∀ n ∈ a.rest, n ≤ 9 := by
    cases text? with
    | none =>
      cases h
      exact fun _ hn => nomatch hn
    | some text => exact Arguments.rest_le_of_read h
  have hpush : IsName isCallStart isCallChar pushName := by decide
  unfold Call.read at h
  dsimp only at h
  split at h
  · cases h
  · next name text? hparts =>
    obtain ⟨a, ha, rfl⟩ := ok_of_map h
    refine ⟨?_, hrest ha⟩
    split at hparts
    · next hname =>
      obtain ⟨_, -, heq⟩ := Option.map_eq_some_iff.mp hparts
      cases heq
      exact isName_of_readName? hname
    · obtain ⟨_, -, heq⟩ := Option.map_eq_some_iff.mp hparts
      cases heq
      exact hpush

theorem readAll_written {calls : List Call}
    (h : ∀ c ∈ calls, c.Regular ∧ ∀ v ∈ c.args, v.IsLiteral) :
    Call.readAll (spaced (calls.map written)) = .ok calls := by
  refine readList_spaced ?_ fun c hc => (h c hc).1.read_written (h c hc).2
  exact fun c hc => ⟨(h c hc).1.isItem (h c hc).2, last_inParens _ _⟩

theorem regular_of_readAll {cs : List Char} {calls : List Call} (h : Call.readAll cs = .ok calls) :
    ∀ c ∈ calls, c.Regular := by
  unfold Call.readAll at h
  dsimp only at h
  split at h
  · cases h
    exact fun _ hc => nomatch hc
  · intro c hc
    obtain ⟨text, -, hread⟩ := of_mapM_ok h c hc
    exact regular_of_read hread

end Call

namespace Trigger

variable {t : Trigger}

theorem plain_mark (t : Trigger) : ∀ c ∈ t.mark, Plain c := by
  have honce : Plain '^' := ⟨by decide, by decide⟩
  have hstored : Plain '@' := ⟨by decide, by decide⟩
  intro c hc
  unfold mark at hc
  split at hc
  · obtain rfl := List.mem_singleton.mp hc
    exact honce
  · split at hc
    · obtain rfl := List.mem_singleton.mp hc
      exact hstored
    · cases hc

theorem Writable.isItem (h : t.Writable) : IsItem t.written := by
  have hne : t.mark ++ t.event.toList ≠ [] :=
    List.append_ne_nil_of_right_ne_nil _ h.event.ne_nil
  have hplain : ∀ c ∈ t.mark ++ t.event.toList, Plain c :=
    List.forall_mem_append.mpr ⟨plain_mark t,
      h.event.plain (fun _ => .of_isWordChar) (fun _ => .of_isEventChar)⟩
  unfold written
  cases hselector : t.selector with
  | none =>
    rw [Option.map_none, Option.getD_none, List.append_nil]
    exact .bare hne hplain
  | some s =>
    obtain ⟨-, -, hflat, hspaced⟩ := h.selector s hselector
    exact .call hne hplain (.of_chars fun c hc => ⟨hspaced c hc, hflat c hc⟩)

end Trigger

namespace Update

variable {u : Update}

theorem Writable.isItem (h : u.Writable) : IsItem u.written :=
  .call h.name.ne_nil (h.name.plain (fun _ => .of_isWordChar) (fun _ => .of_isWordChar))
    (Arguments.sealed_written h.args)

/-- No name of an update is a sign. -/
theorem signUpdate?_of_isWordChar {c : Char} (h : isWordChar c = true) : signUpdate? c = none := by
  rw [signUpdate?]
  all_goals exact ne_of_class h (by decide)

theorem Writable.read_written (h : u.Writable) : Update.read u.written = .ok u := by
  have hname : readName? isWordChar isWordChar u.written =
      some (u.name.toList, inParens (Arguments.mk u.args none).written) :=
    readName?_append h.name (by rintro d ⟨⟩; decide)
  have hread : Arguments.read (Arguments.mk u.args none).written = .ok ⟨u.args, none⟩ :=
    Arguments.Writable.read_written ⟨h.args, fun _ hn => nomatch hn⟩
  have hnamed : Update.readNamed u.written = .ok u := by
    unfold Update.readNamed
    rw [hname]
    simp only [bind, Option.bind, argsText?_inParens, pure]
    rw [readArgs?, hread, String.ofList_toList]
    rfl
  obtain ⟨c, cs, hcs, hc, -⟩ := h.name
  rw [← hnamed, Update.written, hcs, List.cons_append, Update.read]
  rw [signUpdate?_of_isWordChar hc]

theorem readAll_written {updates : List Update} (h : ∀ u ∈ updates, u.Writable) :
    Update.readAll (spaced (updates.map written)) = .ok updates := by
  refine readList_spaced ?_ fun u hu => (h u hu).read_written
  exact fun u hu => ⟨(h u hu).isItem, last_inParens _ _⟩

end Update

end AttrChain
