import AttrChain.Proofs.Items
import AttrChain.Proofs.Precedence

/-!
Queries are read back as they were written, with bounds, places or a filter behind them, whatever
separators and brackets the texts of the filter hold.
-/

namespace AttrChain

open AttrChain.Text

/-- Characters of any kind, where only quotes and brackets count. -/
def Anything (_ : Char) : Prop := True

theorem Sealed.anything {allowed : Char → Prop} {cs : List Char} (h : Sealed allowed cs) :
    Sealed Anything cs := h.mono fun _ _ => trivial

theorem sealed_of_isFlat {s : String} (h : IsFlat s) : Sealed Anything s.toList :=
  .of_chars fun c hc => ⟨trivial, h c hc⟩

theorem Plain.of_isNameChar {c : Char} (h : Filter.isNameChar c = true) : Plain c := by
  refine ⟨Filter.not_isBlank_of_isNameChar h, ?_⟩
  intro hsign
  have hall : signs.all (fun d => !Filter.isNameChar d) = true := by decide
  have hnot : Filter.isNameChar c = false := by simpa using List.all_eq_true.mp hall c hsign
  exact absurd h (ne_true_of_eq_false hnot)

namespace Filter

def Token.isParenthesis : Token → Bool
  | opening | closing => true
  | _ => false

theorem sealed_token {t : Token} (h : t.Writable) (hother : t.isParenthesis = false) :
    Sealed Anything t.written := by
  cases t with
  | num n => exact (Literal.sealed_int n).anything
  | text s => exact .encode s
  | word name =>
    obtain ⟨c, cs, hname, hc, hcs⟩ := h
    have hplain : ∀ d ∈ c :: cs, Plain d :=
      List.forall_mem_cons.mpr ⟨.of_isNameChar (isNameChar_of_isNameStart hc),
        fun d hd => .of_isNameChar (hcs d hd)⟩
    rw [Token.written, hname]
    exact (Sealed.of_plain hplain).anything
  | op o =>
    have hflat : IsFlat o.sign := by cases o <;> decide
    exact sealed_of_isFlat hflat
  | bang => exact .char trivial rfl rfl rfl .nil
  | opening => cases hother
  | closing => cases hother

theorem writtenAll_append {ts us : List Token} (hts : ts ≠ []) (hus : us ≠ []) :
    writtenAll (ts ++ us) = writtenAll ts ++ ' ' :: writtenAll us := by
  induction ts with
  | nil => exact absurd rfl hts
  | cons t ts ih =>
    obtain ⟨u, us, rfl⟩ := List.exists_cons_of_ne_nil hus
    cases ts with
    | nil => simp [writtenAll, List.intercalate_cons_cons]
    | cons v ts =>
      have hrest := ih (List.cons_ne_nil _ _)
      unfold writtenAll at hrest ⊢
      simp only [List.cons_append, List.map_cons, List.intercalate_cons_cons] at hrest ⊢
      rw [hrest]
      simp only [List.append_assoc]

theorem sealed_writtenAll_append {ts us : List Token} (hts : Sealed Anything (writtenAll ts))
    (hus : Sealed Anything (writtenAll us)) : Sealed Anything (writtenAll (ts ++ us)) := by
  by_cases hnil : ts = []
  · rwa [hnil]
  by_cases hnil' : us = []
  · rwa [hnil', List.append_nil]
  · rw [writtenAll_append hnil hnil']
    exact hts.append (.char trivial rfl rfl rfl hus)

theorem sealed_parenthesized {ts : List Token} (needed : Bool) (hne : ts ≠ [])
    (h : Sealed Anything (writtenAll ts)) :
    Sealed Anything (writtenAll (Expr.parenthesized needed ts)) := by
  cases needed with
  | false => exact h
  | true =>
    have hclosed : writtenAll (ts ++ [.closing]) = writtenAll ts ++ [' ', ')'] :=
      writtenAll_append hne (List.cons_ne_nil _ _)
    have hall : writtenAll (.opening :: ts ++ [.closing]) =
        '(' :: (' ' :: writtenAll ts ++ [' ']) ++ [')'] := by
      rw [List.cons_append, ← List.singleton_append,
        writtenAll_append (List.cons_ne_nil _ _) (by simp), hclosed]
      simp [writtenAll, Token.written]
    have hspace : Sealed Anything [' '] := .char trivial rfl rfl rfl .nil
    rw [Expr.parenthesized, if_pos rfl, hall]
    exact .enclosed (by decide) ((hspace.append h).append hspace)

theorem sealed_written {e : Expr} (h : e.Writable) : Sealed Anything e.written := by
  have hone {t : Token} (ht : t.Writable) (hother : t.isParenthesis = false) :
      Sealed Anything (writtenAll [t]) := by
    rw [writtenAll, List.map_singleton, List.intercalate_singleton]
    exact sealed_token ht hother
  have hleaf {e : Expr} {t : Token} (htokens : e.tokens = [t]) (h : e.Writable)
      (hother : t.isParenthesis = false) : Sealed Anything (writtenAll e.tokens) := by
    have ht : t.Writable := h.tokens t (by rw [htokens]; exact List.mem_cons_self)
    rw [htokens]
    exact hone ht hother
  have hne (e : Expr) : e.tokens ≠ [] := List.length_pos_iff.mp e.tokens_length_pos
  unfold Expr.written
  induction e with
  | num n => exact hleaf rfl h rfl
  | text s => exact hleaf rfl h rfl
  | index => exact hleaf rfl h rfl
  | count => exact hleaf rfl h rfl
  | item field => cases field <;> exact hleaf rfl h rfl
  | not e ih =>
    have hbang : Sealed Anything (writtenAll [.bang]) := hone trivial rfl
    exact sealed_writtenAll_append hbang (sealed_parenthesized _ (hne e) (ih h))
  | neg e ih =>
    have hminus : Sealed Anything (writtenAll [.op .sub]) := hone trivial rfl
    exact sealed_writtenAll_append hminus (sealed_parenthesized _ (hne e) (ih h))
  | binary op left right ihl ihr =>
    have hop : Sealed Anything (writtenAll [.op op]) := hone trivial rfl
    exact sealed_writtenAll_append (sealed_parenthesized _ (hne left) (ihl h.1))
      (sealed_writtenAll_append hop (sealed_parenthesized _ (hne right) (ihr h.2)))

end Filter

section Enclosed

variable {o c : Char} {cs : List Char}

theorem between?_enclosed (o c : Char) (cs : List Char) :
    between? o c (o :: cs ++ [c]) = some cs := by
  rw [List.cons_append, between?, List.getLast?_concat, if_pos ⟨rfl, rfl⟩, List.dropLast_concat]

theorem between?_of_ne {d : Char} (h : d ≠ o) (c : Char) (cs : List Char) :
    between? o c (d :: cs) = none := by
  rw [between?, if_neg fun heq => h heq.1]

theorem trim_enclosed (hb : (o, c) ∈ brackets) (cs : List Char) :
    trim (o :: cs ++ [c]) = o :: cs ++ [c] := by
  have hblank := not_isBlank_of_bracket hb
  apply trim_eq_self
  · rintro d ⟨⟩
    exact hblank.1
  · rw [List.getLast?_concat]
    rintro d ⟨⟩
    exact hblank.2

theorem refinementText?_enclosed (hb : (o, c) ∈ brackets) (hne : cs ≠ []) :
    refinementText? (o :: cs ++ [c]) = some (some (o :: cs ++ [c])) := by
  have hblank := (not_isBlank_of_bracket hb).1
  have hopen := (Nesting.isOpening_of_mem hb).1
  have hclose := (Nesting.isClosing_of_mem hb).1
  rw [List.cons_append, refinementText?, dropWhile_of_head (by rintro d ⟨⟩; exact hblank)]
  simp [hopen, hclose, hne]

/-- The selector goes on over a closing parenthesis with no fitting text behind it. -/
theorem cutQuery?_of_first {selector rest : List Char} {text? : Option (List Char)}
    (hfirst : ∀ u v, selector = u ++ ')' :: v → refinementText? (v ++ ')' :: rest) = none)
    (hrest : refinementText? rest = some text?) :
    cutQuery? (selector ++ ')' :: rest) = some (selector, text?) := by
  induction selector with
  | nil => rw [List.nil_append, cutQuery?, if_pos rfl, hrest]
  | cons c selector ih =>
    have hlater := ih fun u v heq => hfirst (c :: u) v (by rw [heq, List.cons_append])
    rw [List.cons_append, cutQuery?, hlater]
    by_cases hc : c = ')'
    · rw [if_pos hc, hfirst [] selector (by rw [hc, List.nil_append])]
      rfl
    · rw [if_neg hc]
      rfl

theorem cutQuery?_append {rest : List Char} {text? : Option (List Char)} (h : ')' ∉ cs)
    (hrest : refinementText? rest = some text?) :
    cutQuery? (cs ++ ')' :: rest) = some (cs, text?) := by
  refine cutQuery?_of_first ?_ hrest
  rintro u v rfl
  exact absurd (List.mem_append_right u List.mem_cons_self) h

end Enclosed

namespace Refinement

def Counts (c : Char) : Prop := c.isDigit = true ∨ c = ','

theorem Counts.isPlaceChar {c : Char} (h : Counts c) : isPlaceChar c = true := by
  rcases h with h | rfl
  · exact of_isDigit (by decide) h
  · decide

theorem Counts.flat {c : Char} (h : Counts c) :
    isQuote c = false ∧ isOpening c = false ∧ isClosing c = false := by
  rcases h with h | rfl
  · have hplain := Plain.of_isDigit h
    exact ⟨hplain.isQuote, hplain.isOpening, hplain.isClosing⟩
  · decide

variable {cs : List Char} {first last : Option Nat} {indices : List Nat}

def parts (inner : List Char) : List (List Char) := splitOn ',' inner

/-- The number that the part at a place denotes, if there is such a part and it does. -/
def bound (inner : List Char) (i : Nat) : Option Nat :=
  (parts inner)[i]?.bind fun part => readSize? (trim part)

theorem filter_placeChars {inner : List Char} (h : ∀ c ∈ inner, isPlaceChar c = true) :
    (some inner).filter (·.all isPlaceChar) = some inner :=
  Option.filter_some_pos (List.all_eq_true.mpr h)

theorem read_parens {inner : List Char} (h : ∀ c ∈ inner, isPlaceChar c = true) :
    Refinement.read ('(' :: inner ++ [')']) = .ok (.range (bound inner 0) (bound inner 1)) := by
  have hbound (i : Nat) : ((parts inner).map fun s => readSize? (trim s))[i]?.getD none =
      bound inner i := by
    rw [List.getElem?_map, bound]
    cases (parts inner)[i]? <;> rfl
  unfold Refinement.read
  rw [between?_enclosed, filter_placeChars h]
  exact congrArg Except.ok (congr (congrArg Refinement.range (hbound 0)) (hbound 1))

theorem read_squares {inner : List Char} (h : ∀ c ∈ inner, isPlaceChar c = true)
    (hindices : (((parts inner).map trim).filter (!·.isEmpty)).mapM readSize? = some indices) :
    Refinement.read ('[' :: inner ++ [']']) = .ok (.places indices) := by
  have hother : between? '(' ')' ('[' :: inner ++ [']']) = none := between?_of_ne (by decide) _ _
  rw [parts] at hindices
  unfold Refinement.read
  rw [hother, between?_enclosed, filter_placeChars h]
  dsimp only [Option.filter_none]
  rw [hindices]

theorem read_braces {inner : List Char} {e : Filter.Expr} (h : Filter.Expr.read inner = .ok e) :
    Refinement.read ('\x7b' :: inner ++ ['\x7d']) = .ok (.test e) := by
  have hparens : between? '(' ')' ('\x7b' :: inner ++ ['\x7d']) = none :=
    between?_of_ne (by decide) _ _
  have hsquares : between? '[' ']' ('\x7b' :: inner ++ ['\x7d']) = none :=
    between?_of_ne (by decide) _ _
  unfold Refinement.read
  rw [hparens, hsquares, between?_enclosed]
  dsimp only [Option.filter_none]
  rw [h]
  rfl

theorem isDigit_of_mem_boundText {bound : Option Nat} :
    ∀ c ∈ boundText bound, c.isDigit = true := by
  cases bound with
  | none => exact fun _ hc => nomatch hc
  | some n => exact fun _ hc => isDigit_of_mem_decimal hc

theorem trim_digits (h : ∀ c ∈ cs, c.isDigit = true) : trim cs = cs :=
  trim_of_forall fun c hc => not_isBlank_of_isDigit (h c hc)

theorem comma_not_mem (h : ∀ c ∈ cs, c.isDigit = true) : ',' ∉ cs :=
  fun hmem => absurd (h ',' hmem) (by decide)

theorem readSize?_boundText {bound : Option Nat} (h : ∀ n ∈ bound, n < Nat.pow 2 64) :
    readSize? (boundText bound) = bound := by
  cases bound with
  | none => rfl
  | some n => exact readSize?_toDigits (h n rfl)

theorem counts_bounds (first last : Option Nat) :
    ∀ c ∈ boundText first ++ ',' :: boundText last, Counts c :=
  List.forall_mem_append.mpr ⟨fun c hc => .inl (isDigit_of_mem_boundText c hc),
    List.forall_mem_cons.mpr ⟨.inr rfl, fun c hc => .inl (isDigit_of_mem_boundText c hc)⟩⟩

theorem read_range (h : (range first last).Writable) :
    Refinement.read (range first last).written = .ok (range first last) := by
  have hfirst : ∀ c ∈ boundText first, c.isDigit = true := isDigit_of_mem_boundText
  have hlast : ∀ c ∈ boundText last, c.isDigit = true := isDigit_of_mem_boundText
  have hsplit : splitOn ',' (boundText first ++ ',' :: boundText last) =
      [boundText first, boundText last] := by
    rw [splitOn_append (comma_not_mem hfirst), splitOn_of_not_mem (comma_not_mem hlast)]
  have hfirstBound : bound (boundText first ++ ',' :: boundText last) 0 = first := by
    rw [bound, parts, hsplit]
    exact (congrArg readSize? (trim_digits hfirst)).trans (readSize?_boundText h.1)
  have hlastBound : bound (boundText first ++ ',' :: boundText last) 1 = last := by
    rw [bound, parts, hsplit]
    exact (congrArg readSize? (trim_digits hlast)).trans (readSize?_boundText h.2)
  rw [written, inParens, read_parens fun c hc => (counts_bounds first last c hc).isPlaceChar,
    hfirstBound, hlastBound]

theorem isDigit_of_mem_places {t : List Char} (ht : t ∈ indices.map (Nat.toDigits 10)) :
    ∀ c ∈ t, c.isDigit = true := by
  obtain ⟨n, -, rfl⟩ := List.mem_map.mp ht
  exact fun c => isDigit_of_mem_decimal

theorem counts_places (indices : List Nat) :
    ∀ c ∈ [','].intercalate (indices.map (Nat.toDigits 10)), Counts c :=
  forall_mem_intercalate (List.forall_mem_singleton.mpr (.inr rfl)) fun _ ht c hc =>
    .inl (isDigit_of_mem_places ht c hc)

theorem read_places (h : (places indices).Writable) :
    Refinement.read (places indices).written = .ok (places indices) := by
  have hne : indices.map (Nat.toDigits 10) ≠ [] := by simpa using h.1
  have hsplit : splitOn ',' ([','].intercalate (indices.map (Nat.toDigits 10))) =
      indices.map (Nat.toDigits 10) :=
    splitOn_intercalate hne fun t ht => comma_not_mem (isDigit_of_mem_places ht)
  have htrim : (indices.map (Nat.toDigits 10)).map trim = indices.map (Nat.toDigits 10) :=
    (List.map_congr_left fun t ht => trim_digits (isDigit_of_mem_places ht)).trans (List.map_id _)
  have hfilter : (indices.map (Nat.toDigits 10)).filter (!·.isEmpty) =
      indices.map (Nat.toDigits 10) := by
    rw [List.filter_eq_self]
    intro t ht
    obtain ⟨n, -, rfl⟩ := List.mem_map.mp ht
    simp [Nat.toDigits_ne_nil]
  have hread : (indices.map (Nat.toDigits 10)).mapM readSize? = some indices :=
    mapM_eq_pure fun n hn => readSize?_toDigits (h.2 n hn)
  refine read_squares (fun c hc => (counts_places indices c hc).isPlaceChar) ?_
  rw [parts, hsplit, htrim, hfilter, hread]

theorem read_test {e : Filter.Expr} (h : (test e).Writable) :
    Refinement.read (test e).written = .ok (test e) := by
  obtain ⟨cs, hcs⟩ := h
  exact read_braces (Filter.Expr.writable_of_read hcs).read_written

theorem Writable.read_written {r : Refinement} (h : r.Writable) :
    Refinement.read r.written = .ok r := by
  cases r with
  | range first last => exact read_range h
  | places indices => exact read_places h
  | test e => exact read_test h

theorem Writable.enclosed {r : Refinement} (h : r.Writable) :
    ∃ o c inner, r.written = o :: inner ++ [c] ∧ (o, c) ∈ brackets ∧ inner ≠ [] ∧
      Sealed Anything inner := by
  have hcounts {cs : List Char} (h : ∀ c ∈ cs, Counts c) : Sealed Anything cs :=
    .of_chars fun c hc => ⟨trivial, (h c hc).flat⟩
  cases r with
  | range first last =>
    exact ⟨'(', ')', _, rfl, by decide, by simp, hcounts (counts_bounds first last)⟩
  | places indices =>
    refine ⟨'[', ']', _, rfl, by decide, ?_, hcounts (counts_places indices)⟩
    refine intercalate_ne_nil [','] ?_ (by simpa using h.1)
    intro t ht
    obtain ⟨n, -, rfl⟩ := List.mem_map.mp ht
    exact Nat.toDigits_ne_nil
  | test e =>
    obtain ⟨cs, hcs⟩ := h
    have he := Filter.Expr.writable_of_read hcs
    have hpos := Nat.lt_of_lt_of_le e.tokens_length_pos he.length_tokens_le
    exact ⟨'\x7b', '\x7d', e.written, rfl, by decide, List.length_pos_iff.mp hpos,
      Filter.sealed_written he⟩

end Refinement

namespace Query

variable {q : Query}

theorem not_mem_of_isFlat {s : String} (h : IsFlat s) {c : Char}
    (hc : isOpening c = true ∨ isClosing c = true) : c ∉ s.toList := by
  intro hmem
  obtain ⟨-, hopen, hclose⟩ := h c hmem
  rcases hc with hc | hc
  · exact absurd hc (ne_true_of_eq_false hopen)
  · exact absurd hc (ne_true_of_eq_false hclose)

theorem written_first {s : String} (h : s ≠ "") (r : Option Refinement) :
    (Query.mk s true r).written = s.toList := by
  rw [written, if_pos rfl, if_neg h]

theorem written_all (s : String) (r : Option Refinement) :
    (Query.mk s false r).written = inParens s.toList ++ (r.map Refinement.written).getD [] := rfl

theorem Selects.written_ne_nil (h : q.Selects) : q.written ≠ [] := by
  cases h with
  | start => exact List.cons_ne_nil _ _
  | first r hne _ _ _ _ =>
    rw [written_first hne]
    exact toList_ne_nil hne
  | all _ _ _ => exact List.cons_ne_nil _ _

theorem Selects.trim_written (h : q.Selects) : trim q.written = q.written := by
  cases h with
  | start => decide
  | first r hne _ htrim _ _ =>
    rw [written_first hne]
    exact trim_toList htrim
  | @all s r _ _ hr =>
    have hlast : ∀ c ∈ (Query.mk s false r).written.getLast?, isBlank c = false := by
      rw [written_all]
      cases r with
      | none =>
        rw [Option.map_none, Option.getD_none, List.append_nil]
        intro c hc
        rw [last_inParens [] s.toList c hc]
        decide
      | some r =>
        obtain ⟨o, c, inner, hwritten, hb, -, -⟩ := (hr r rfl).enclosed
        rw [Option.map_some, Option.getD_some, hwritten, ← List.append_assoc, List.getLast?_concat]
        rintro d ⟨⟩
        exact (not_isBlank_of_bracket hb).2
    refine trim_eq_self ?_ hlast
    rintro c ⟨⟩
    decide

theorem Selects.passes (h : q.Selects) {g : Guarding} (hg : g.Ready)
    (hw : ∀ o c, (o, c) ∈ brackets → Nesting.watches o g.nestings = true) :
    partSplitter.Passes g q.written := by
  cases h with
  | start => exact .cons (Guarding.step_plain hg rfl rfl rfl) (.inr (by decide)) .nil
  | first r hne _ _ hflat hbar =>
    rw [written_first hne]
    exact Splitter.passes_of_flat hg hflat hbar
  | @all s r _ hflat hr =>
    have hselector : partSplitter.Passes g (inParens s.toList) :=
      Splitter.passes_span (by decide) hg (hw '(' ')' (by decide)) (sealed_of_isFlat hflat)
    rw [written_all]
    refine hselector.append ?_
    cases r with
    | none => exact .nil
    | some r =>
      obtain ⟨o, c, inner, hwritten, hb, -, hsealed⟩ := (hr r rfl).enclosed
      rw [Option.map_some, Option.getD_some, hwritten]
      exact Splitter.passes_span hb hg (hw o c hb) hsealed

theorem read_first {s : String} (hne : s ≠ "") (hplace : s ≠ "-") (htrim : trimmed s = s)
    (hflat : IsFlat s) : Query.read s.toList = .ok ⟨s, true, none⟩ := by
  have hsome : (s.toList.isEmpty || isPlaceholder s.toList) = false := by
    rw [Bool.or_eq_false_iff, List.isEmpty_eq_false_iff, isPlaceholder, beq_eq_false_iff_ne]
    exact ⟨toList_ne_nil hne, fun heq => hplace (String.toList_inj.mp heq)⟩
  unfold Query.read
  rw [trim_toList htrim]
  dsimp only
  rw [hsome, if_neg Bool.false_ne_true]
  split
  · next rest heq =>
    have hopen : '(' ∈ s.toList := by
      rw [heq]
      exact List.mem_cons_self
    exact absurd hopen (not_mem_of_isFlat hflat (.inl rfl))
  · rw [String.ofList_toList]

theorem read_all {s : String} {r : Option Refinement} (htrim : trimmed s = s)
    (hflat : IsFlat s) (hr : ∀ r' ∈ r, r'.Writable) :
    Query.read (Query.mk s false r).written = .ok ⟨s, false, r⟩ := by
  have hall : trim (Query.mk s false r).written = (Query.mk s false r).written :=
    (Selects.all htrim hflat hr).trim_written
  have htext : (Query.mk s false r).written =
      '(' :: (s.toList ++ ')' :: (r.map Refinement.written).getD []) := by
    rw [written_all, inParens]
    simp
  have hrest : refinementText? ((r.map Refinement.written).getD []) =
      some (r.map Refinement.written) := by
    cases r with
    | none => rfl
    | some r =>
      obtain ⟨o, c, inner, hwritten, hb, hne, -⟩ := (hr r rfl).enclosed
      rw [Option.map_some, Option.getD_some, hwritten]
      exact refinementText?_enclosed hb hne
  have hcut := cutQuery?_append (not_mem_of_isFlat hflat (.inr rfl)) hrest
  have hsome (cs : List Char) : (('(' :: cs).isEmpty || isPlaceholder ('(' :: cs)) = false := rfl
  unfold Query.read
  rw [hall, htext]
  dsimp only
  rw [hsome, if_neg Bool.false_ne_true]
  simp only [hcut]
  cases r with
  | none => simp only [Option.map_none, trim_toList htrim, String.ofList_toList]
  | some r =>
    simp only [Option.map_some, trim_toList htrim, String.ofList_toList, (hr r rfl).read_written]
    rfl

/-- A query is read back, but for a refinement of a first match, which has no text. -/
theorem Selects.read_written (h : q.Selects) (hfirst : q.single = true → q.refinement = none) :
    Query.read q.written = .ok q := by
  cases h with
  | start => rfl
  | first r hne hplace htrim hflat _ =>
    have hnone : r = none := hfirst rfl
    rw [written_first hne, hnone]
    exact read_first hne hplace htrim hflat
  | all htrim hflat hr => exact read_all htrim hflat hr

theorem refinement_of_read {cs : List Char} (h : Query.read cs = .ok q) :
    q.single = true → q.refinement = none := by
  unfold Query.read at h
  dsimp only at h
  split at h
  · cases h
    exact fun _ => rfl
  · split at h
    · split at h
      · cases h
      · cases h
        exact fun hsingle => nomatch hsingle
      · obtain ⟨r, -, rfl⟩ := ok_of_map h
        exact fun hsingle => nomatch hsingle
    · cases h
      exact fun _ => rfl

end Query

end AttrChain
