import AttrChain.Literal.Printer
import AttrChain.Literal.Reader
import AttrChain.Proofs.Characters
import AttrChain.Proofs.Numerals
import AttrChain.Proofs.Spans

/-!
Literals and argument lists are read back as they were written, whatever the texts in them hold.
-/

namespace AttrChain

theorem Value.literals_eq_map (items : List Value) : literals items = items.map literal := by
  induction items with
  | nil => rfl
  | cons v items ih => rw [literals, ih, List.map_cons]

end AttrChain

namespace AttrChain.Literal
open AttrChain.Text

/-- What may follow a value: nothing, a blank, a comma or the end of what it is in. -/
def Ended (rest : List Char) : Prop :=
  ∀ c ∈ rest.head?, isBlank c = true ∨ c = ',' ∨ c = ']' ∨ c = '\x7d'

theorem ended_nil : Ended [] := fun _ h => nomatch h

theorem ended_cons {c : Char} (h : c = ',' ∨ c = ']' ∨ c = '\x7d') (cs : List Char) :
    Ended (c :: cs) := by
  rintro d ⟨⟩
  exact .inr h

theorem ended_blank {c : Char} (h : isBlank c = true) (cs : List Char) : Ended (c :: cs) := by
  rintro d ⟨⟩
  exact .inl h

theorem Ended.not_in {p : Char → Bool} {rest : List Char} (h : Ended rest)
    (hblank : ∀ n ∈ blankCodes, p (Char.ofNat n) = false)
    (hp : ∀ c, c = ',' ∨ c = ']' ∨ c = '\x7d' → p c = false) : ∀ c ∈ rest.head?, p c = false := by
  intro c hc
  rcases h c hc with h | h
  · exact not_of_isBlank hblank h
  · exact hp c h

theorem Ended.not_bare {rest : List Char} (h : Ended rest) :
    ∀ c ∈ rest.head?, isBareChar c = false := by
  refine h.not_in (by decide +kernel) ?_
  rintro c (rfl | rfl | rfl) <;> decide

section Texts

variable {quote c : Char} {cs s rest : List Char} {fuel : Nat}

theorem readText_close : readText quote (fuel + 1) (quote :: rest) = .ok ([], rest) := by
  rw [readText.eq_def]
  exact if_pos rfl

theorem readText_plain (hclose : c ≠ quote) (hback : c ≠ '\\')
    (h : readText quote fuel cs = .ok (s, rest)) :
    readText quote (fuel + 1) (c :: cs) = .ok (c :: s, rest) := by
  rw [readText.eq_def]
  dsimp only
  rw [if_neg hclose, if_neg hback, h]
  rfl

theorem readText_escaped (hquote : '\\' ≠ quote) (hc : c ≠ 'u')
    (h : readText quote fuel cs = .ok (s, rest)) :
    readText quote (fuel + 1) ('\\' :: c :: cs) = .ok (escaped c :: s, rest) := by
  rw [readText.eq_def]
  dsimp only
  rw [if_neg hquote, if_pos rfl]
  split
  · next heq => cases heq
  · next heq =>
    cases heq
    exact absurd rfl hc
  · next heq =>
    cases heq
    rw [h]
    rfl

theorem readText_encode (s rest : List Char) {fuel : Nat}
    (hfuel : (s.flatMap Apostrophes.encodeChar).length < fuel) :
    readText '\x27' fuel (s.flatMap Apostrophes.encodeChar ++ '\x27' :: rest) = .ok (s, rest) := by
  induction s generalizing fuel with
  | nil =>
    obtain ⟨fuel, rfl⟩ : ∃ n, fuel = n + 1 := ⟨fuel - 1, by omega⟩
    exact readText_close
  | cons c s ih =>
    obtain ⟨fuel, rfl⟩ : ∃ n, fuel = n + 1 := ⟨fuel - 1, by omega⟩
    rw [List.flatMap_cons, List.append_assoc]
    rw [List.flatMap_cons, List.length_append] at hfuel
    by_cases hspecial : c = '\x27' ∨ c = '\\'
    · have hchar : Apostrophes.encodeChar c = ['\\', c] := if_pos hspecial
      rw [hchar] at hfuel ⊢
      simp only [List.length_cons, List.length_nil] at hfuel
      have hkept : c ≠ 'u' ∧ escaped c = c := by rcases hspecial with rfl | rfl <;> decide
      have hshort : (s.flatMap Apostrophes.encodeChar).length < fuel := by omega
      have hread := readText_escaped (by decide) hkept.1 (ih hshort)
      rwa [hkept.2] at hread
    · have hchar : Apostrophes.encodeChar c = [c] := if_neg hspecial
      obtain ⟨hclose, hback⟩ := not_or.mp hspecial
      rw [hchar] at hfuel ⊢
      simp only [List.length_cons, List.length_nil] at hfuel
      exact readText_plain hclose hback (ih (by omega))

theorem readText_quoted (s rest : List Char) :
    readText '\x27' ((s.flatMap Apostrophes.encodeChar ++ '\x27' :: rest).length + 1)
      (s.flatMap Apostrophes.encodeChar ++ '\x27' :: rest) = .ok (s, rest) := by
  refine readText_encode s rest ?_
  rw [List.length_append]
  omega

end Texts

section Scalars

variable {rest : List Char} {fuel : Nat}

theorem readWord?_append {c : Char} {word : List Char} (hc : c.isDigit = false)
    (hword : (c :: word).all isBareChar = true) (hrest : Ended rest) :
    readWord? (c :: word ++ rest) = some (c :: word, rest) := by
  obtain ⟨htake, hdrop⟩ :=
    takeWhile_dropWhile_append (List.all_eq_true.mp hword) hrest.not_bare
  rw [readWord?, htake, hdrop]
  dsimp only
  rw [hc]
  rfl

theorem skipBlank_of_not_isBlank {c : Char} {cs : List Char} (h : isBlank c = false) :
    skipBlank (c :: cs) = c :: cs := by
  rw [skipBlank, List.dropWhile_cons_of_neg]
  rw [h]
  exact Bool.false_ne_true

/-- How a value is read from its literal. -/
def ReadsBack (v : Value) : Prop :=
  ∀ fuel rest, 2 * v.literal.length ≤ fuel → Ended rest →
    readValue fuel (v.literal ++ rest) = .ok (v, rest)

theorem readsBack_named {v : Value} {c : Char} {word : List Char} (hv : v.literal = c :: word)
    (hstart : isBlank c = false ∧ c ∉ ['[', '\x7b', '\x22', '\x27', '\x60', '-', '+', '.'] ∧
      c.isDigit = false)
    (hword : (c :: word).all isBareChar = true) (hof : ofWord (c :: word) = .ok v) :
    ReadsBack v := by
  intro fuel rest hfuel hrest
  obtain ⟨hblank, hother, hdigit⟩ := hstart
  simp only [List.mem_cons, List.not_mem_nil, not_or, or_false] at hother
  rw [hv, List.length_cons] at hfuel
  obtain ⟨fuel, rfl⟩ : ∃ n, fuel = n + 1 := ⟨fuel - 1, by omega⟩
  have hread := readWord?_append hdigit hword hrest
  rw [hv, readValue, List.cons_append, skipBlank_of_not_isBlank hblank]
  rw [List.cons_append] at hread
  simp [hother, hdigit, readNamed, hread, hof, Except.map]

theorem numeralSpan_append {digits : List Char} (hdigits : ∀ c ∈ digits, c.isDigit = true)
    (hrest : Ended rest) : numeralSpan (digits ++ rest) = (digits, rest) := by
  induction digits with
  | nil =>
    cases rest with
    | nil => rfl
    | cons c rest =>
      have hclass : ∀ d ∈ (c :: rest).head?,
          (d.isDigit || d == '.' || (d == 'e' || d == 'E')) = false := by
        refine hrest.not_in (by decide) ?_
        rintro d (rfl | rfl | rfl) <;> rfl
      obtain ⟨hdigit, hmark⟩ := Bool.or_eq_false_iff.mp (hclass c rfl)
      rw [List.nil_append, numeralSpan.eq_def]
      dsimp only
      rw [hdigit, hmark]
      rfl
  | cons c digits ih =>
    have hc : c.isDigit = true := hdigits c List.mem_cons_self
    rw [List.cons_append, numeralSpan.eq_def]
    dsimp only
    rw [ih fun d hd => hdigits d (List.mem_cons_of_mem _ hd)]
    simp [hc]

theorem readUnsigned_digits {sign digits : List Char} {n : Int64}
    (hdigits : ∀ c ∈ digits, c.isDigit = true) (hrest : Ended rest)
    (hread : readInt? (sign ++ digits) = some n) (hne : digits ≠ []) :
    readUnsigned sign (digits ++ rest) = .ok (.int n, rest) := by
  have hdecimal : readDecimal sign (digits ++ rest) = .ok (.int n, rest) := by
    have hall : digits.all Char.isDigit = true := List.all_eq_true.mpr hdigits
    rw [readDecimal, numeralSpan_append hdigits hrest]
    dsimp only
    rw [if_pos hall, hread]
    rfl
  have hnext : ∀ c ∈ (digits.tail ++ rest).head?, c ≠ 'x' ∧ c ≠ 'X' := by
    cases htail : digits.tail with
    | nil =>
      have hclass : ∀ c ∈ rest.head?, (c == 'x' || c == 'X') = false := by
        refine hrest.not_in (by decide) ?_
        rintro d (rfl | rfl | rfl) <;> rfl
      intro c hc
      simpa using hclass c hc
    | cons d more =>
      rintro c ⟨⟩
      have hd : d.isDigit = true :=
        hdigits d (List.mem_of_mem_tail (htail ▸ List.mem_cons_self))
      constructor <;> (rintro rfl; cases hd)
  cases digits with
  | nil => exact absurd rfl hne
  | cons c digits =>
    have hc : c.isDigit = true := hdigits c List.mem_cons_self
    rw [List.tail_cons] at hnext
    rw [← hdecimal, List.cons_append, readUnsigned.eq_def]
    dsimp only
    split
    · next heq =>
      cases heq
      cases hc
    · next heq =>
      injection heq with _ heq
      rw [heq] at hnext
      exact absurd rfl (hnext 'x' rfl).1
    · next heq =>
      injection heq with _ heq
      rw [heq] at hnext
      exact absurd rfl (hnext 'X' rfl).2
    · rfl

theorem readValue_digit {c : Char} {cs : List Char} (hc : c.isDigit = true) :
    readValue (fuel + 1) (c :: cs) = readUnsigned [] (c :: cs) := by
  have hminus : c ≠ '-' := ne_of_class hc rfl
  have hplus : c ≠ '+' := ne_of_class hc rfl
  have hnumber : readNumber (c :: cs) = readUnsigned [] (c :: cs) := by
    rw [readNumber]
    · exact fun _ heq => hminus (List.cons.inj heq).1
    · exact fun _ heq => hplus (List.cons.inj heq).1
  have hlist : c ≠ '[' := ne_of_class hc rfl
  have hmap : c ≠ '\x7b' := ne_of_class hc rfl
  have hquotes : c ≠ '\x22' ∧ c ≠ '\x27' ∧ c ≠ '\x60' :=
    ⟨ne_of_class hc rfl, ne_of_class hc rfl, ne_of_class hc rfl⟩
  rw [readValue, skipBlank_of_not_isBlank (not_isBlank_of_isDigit hc), ← hnumber]
  simp [hlist, hmap, hquotes, hc]

theorem literal_int (n : Int64) : ∃ k, (Value.int n).literal = Nat.toDigits 10 k ∨
    (Value.int n).literal = '-' :: Nat.toDigits 10 k := by
  have hshown : (Value.int n).literal = n.toInt.repr.toList := rfl
  rw [hshown]
  cases n.toInt with
  | ofNat k => exact ⟨k, .inl (repr_ofNat k)⟩
  | negSucc k => exact ⟨k + 1, .inr (repr_negSucc k)⟩

theorem readsBack_int (n : Int64) : ReadsBack (.int n) := by
  intro fuel rest hfuel hrest
  have hread : readInt? (Value.int n).literal = some n := readInt?_repr n
  obtain ⟨k, hliteral | hliteral⟩ := literal_int n
  · rw [hliteral] at hread hfuel ⊢
    have hvalue : readUnsigned [] (Nat.toDigits 10 k ++ rest) = .ok (.int n, rest) :=
      readUnsigned_digits (fun c => isDigit_of_mem_decimal) hrest hread Nat.toDigits_ne_nil
    obtain ⟨c, digits, hdigits, hc⟩ := decimal_eq_cons k
    rw [hdigits] at hfuel hvalue ⊢
    rw [List.length_cons] at hfuel
    obtain ⟨fuel, rfl⟩ : ∃ n, fuel = n + 1 := ⟨fuel - 1, by omega⟩
    rw [← hvalue, List.cons_append, readValue_digit hc]
  · rw [hliteral] at hread hfuel ⊢
    rw [List.length_cons] at hfuel
    obtain ⟨fuel, rfl⟩ : ∃ n, fuel = n + 1 := ⟨fuel - 1, by omega⟩
    have hvalue : readUnsigned ['-'] (Nat.toDigits 10 k ++ rest) = .ok (.int n, rest) :=
      readUnsigned_digits (fun c => isDigit_of_mem_decimal) hrest hread Nat.toDigits_ne_nil
    exact hvalue

theorem readsBack_text (s : String) : ReadsBack (.text s) := by
  intro fuel rest hfuel _
  have hliteral : (Value.text s).literal = Apostrophes.encode s := rfl
  rw [hliteral, Apostrophes.encode] at hfuel ⊢
  simp only [List.length_append, List.length_cons, List.length_nil] at hfuel
  obtain ⟨fuel, rfl⟩ : ∃ n, fuel = n + 1 := ⟨fuel - 1, by omega⟩
  rw [List.append_assoc, List.cons_append, List.singleton_append, readValue,
    skipBlank_of_not_isBlank (by decide)]
  dsimp only
  rw [if_neg (by decide), if_neg (by decide), if_pos (by decide), readText_quoted]
  exact congrArg (fun t => Except.ok (Value.text t, rest)) String.ofList_toList

end Scalars

/-- Whether a value or an argument starts with these characters: no blank, no end of a list or map
and no mark for live arguments. -/
def Starts (cs : List Char) : Prop :=
  ∃ c rest, cs = c :: rest ∧ isBlank c = false ∧ c ≠ ']' ∧ c ≠ '\x7d' ∧ c ≠ '_'

theorem Starts.append {cs : List Char} (h : Starts cs) (ds : List Char) : Starts (cs ++ ds) := by
  obtain ⟨c, rest, rfl, hc⟩ := h
  exact ⟨c, rest ++ ds, rfl, hc⟩

theorem starts_encode (s : String) : Starts (Apostrophes.encode s) :=
  ⟨_, _, rfl, by decide, by decide, by decide, by decide⟩

theorem starts_int (n : Int64) : Starts (Value.int n).literal := by
  obtain ⟨k, hliteral | hliteral⟩ := literal_int n
  · obtain ⟨c, digits, hdigits, hc⟩ := decimal_eq_cons k
    rw [hdigits] at hliteral
    exact ⟨c, digits, hliteral, not_isBlank_of_isDigit hc, ne_of_class hc rfl, ne_of_class hc rfl,
      ne_of_class hc rfl⟩
  · exact ⟨_, _, hliteral, by decide, by decide, by decide, by decide⟩

theorem starts_literal {v : Value} (h : v.IsLiteral) : Starts v.literal := by
  cases h with
  | nil => exact ⟨_, _, rfl, by decide, by decide, by decide, by decide⟩
  | null => exact ⟨_, _, rfl, by decide, by decide, by decide, by decide⟩
  | bool b => cases b <;> exact ⟨_, _, rfl, by decide, by decide, by decide, by decide⟩
  | int n => exact starts_int n
  | text s => exact starts_encode s
  | list _ => exact ⟨_, _, rfl, by decide, by decide, by decide, by decide⟩
  | map _ _ => exact ⟨_, _, rfl, by decide, by decide, by decide, by decide⟩

section Lists

variable {fuel : Nat} {v : Value} {items : List Value} {key : String}
  {entries : List (String × Value)} {cs more rest : List Char}

theorem skipBlank_space (cs : List Char) : skipBlank (' ' :: cs) = skipBlank cs := by
  rw [skipBlank, skipBlank, List.dropWhile_cons_of_pos isBlank_space]

theorem readValue_space (fuel : Nat) (cs : List Char) :
    readValue fuel (' ' :: cs) = readValue fuel cs := by
  cases fuel with
  | zero => rfl
  | succ fuel => rw [readValue, readValue, skipBlank_space]

theorem readItems_space (fuel : Nat) (cs : List Char) :
    readItems fuel (' ' :: cs) = readItems fuel cs := by
  cases fuel with
  | zero => rfl
  | succ fuel => rw [readItems, readItems, skipBlank_space]

theorem readEntries_space (fuel : Nat) (cs : List Char) :
    readEntries fuel (' ' :: cs) = readEntries fuel cs := by
  cases fuel with
  | zero => rfl
  | succ fuel => rw [readEntries, readEntries, skipBlank_space]

theorem readItems_last (hs : Starts cs) (hv : readValue fuel cs = .ok (v, ']' :: rest)) :
    readItems (fuel + 1) cs = .ok ([v], rest) := by
  obtain ⟨c, ds, rfl, hblank, hclosing, -⟩ := hs
  rw [readItems.eq_def]
  dsimp only
  rw [skipBlank_of_not_isBlank hblank]
  split
  · next heq => exact absurd (List.cons.inj heq).1 hclosing
  · rw [hv]
    rfl

theorem readItems_more (hs : Starts cs) (hv : readValue fuel cs = .ok (v, ',' :: more))
    (hmore : readItems fuel more = .ok (items, rest)) :
    readItems (fuel + 1) cs = .ok (v :: items, rest) := by
  obtain ⟨c, ds, rfl, hblank, hclosing, -⟩ := hs
  rw [readItems.eq_def]
  dsimp only
  rw [skipBlank_of_not_isBlank hblank]
  split
  · next heq => exact absurd (List.cons.inj heq).1 hclosing
  · rw [hv]
    exact congrArg (fun r => r >>= fun r => Except.ok (v :: r.1, r.2)) hmore

theorem intercalate_commaSpace (t u : List Char) (texts : List (List Char)) (cs : List Char) :
    commaSpace.intercalate (t :: u :: texts) ++ cs =
      t ++ ',' :: ' ' :: (commaSpace.intercalate (u :: texts) ++ cs) :=
  intercalate_cons_cons_append commaSpace t u texts cs

theorem length_intercalate_commaSpace (t u : List Char) (texts : List (List Char)) :
    (commaSpace.intercalate (t :: u :: texts)).length =
      t.length + 2 + (commaSpace.intercalate (u :: texts)).length :=
  length_intercalate_cons_cons commaSpace t u texts

theorem readItems_literals (hlit : ∀ v ∈ items, v.IsLiteral ∧ ReadsBack v)
    (hfuel : 2 * (commaSpace.intercalate (items.map Value.literal)).length + 1 ≤ fuel) :
    readItems fuel (commaSpace.intercalate (items.map Value.literal) ++ ']' :: rest) =
      .ok (items, rest) := by
  induction items generalizing fuel with
  | nil =>
    obtain ⟨fuel, rfl⟩ : ∃ n, fuel = n + 1 := ⟨fuel - 1, by omega⟩
    rfl
  | cons v items ih =>
    obtain ⟨fuel, rfl⟩ : ∃ n, fuel = n + 1 := ⟨fuel - 1, by omega⟩
    obtain ⟨⟨hv, hback⟩, hitems⟩ := List.forall_mem_cons.mp hlit
    have hstart := starts_literal hv
    cases items with
    | nil =>
      rw [List.map_singleton, List.intercalate_singleton] at hfuel ⊢
      exact readItems_last (hstart.append _)
        (hback fuel _ (by omega) (ended_cons (.inr (.inl rfl)) rest))
    | cons w items =>
      rw [List.map_cons, List.map_cons, length_intercalate_commaSpace] at hfuel
      rw [List.map_cons, List.map_cons, intercalate_commaSpace]
      have hshort : 2 * (commaSpace.intercalate ((w :: items).map Value.literal)).length + 1 ≤ fuel := by
        rw [List.map_cons]
        omega
      have hmore := ih hitems hshort
      rw [← readItems_space] at hmore
      exact readItems_more (hstart.append _) (hback fuel _ (by omega) (ended_cons (.inl rfl) _))
        hmore

theorem readsBack_list (hlit : ∀ v ∈ items, v.IsLiteral ∧ ReadsBack v) :
    ReadsBack (.list items) := by
  intro fuel rest hfuel _
  have hliteral : (Value.list items).literal =
      '[' :: commaSpace.intercalate (items.map Value.literal) ++ [']'] := by
    rw [Value.literal, Value.literals_eq_map]
  rw [hliteral] at hfuel ⊢
  simp only [List.length_append, List.length_cons, List.length_nil] at hfuel
  obtain ⟨fuel, rfl⟩ : ∃ n, fuel = n + 1 := ⟨fuel - 1, by omega⟩
  have hitems : readItems fuel (commaSpace.intercalate (items.map Value.literal) ++ ']' :: rest) =
      .ok (items, rest) := readItems_literals hlit (by omega)
  rw [List.append_assoc, List.cons_append, List.singleton_append, readValue,
    skipBlank_of_not_isBlank (by decide)]
  dsimp only
  rw [if_pos (by decide), hitems]
  rfl

def entryText (e : String × Value) : List Char :=
  Apostrophes.encode e.1 ++ ':' :: ' ' :: e.2.literal

theorem literalEntries_eq_map (entries : List (String × Value)) :
    Value.literalEntries entries = entries.map entryText := by
  induction entries with
  | nil => rfl
  | cons e entries ih => rw [Value.literalEntries, ih, List.map_cons, entryText]

theorem readKey_encode (key : String) (rest : List Char) :
    readKey (Apostrophes.encode key ++ rest) = .ok (key, rest) := by
  rw [Apostrophes.encode, List.append_assoc, List.cons_append, List.singleton_append, readKey]
  rw [if_pos (by decide), readText_quoted]
  exact congrArg (fun t => Except.ok (t, rest)) String.ofList_toList

theorem readEntries_last (hs : Starts cs) (hkey : readKey cs = .ok (key, ':' :: more))
    (hv : readValue fuel more = .ok (v, '\x7d' :: rest)) :
    readEntries (fuel + 1) cs = .ok ([(key, v)], rest) := by
  obtain ⟨c, ds, rfl, hblank, -, hclosing, -⟩ := hs
  have hcolon : skipColon (':' :: more) = .ok more := rfl
  rw [readEntries.eq_def]
  dsimp only
  rw [skipBlank_of_not_isBlank hblank]
  split
  · next heq => exact absurd (List.cons.inj heq).1 hclosing
  · simp only [hkey, hcolon, hv, bind, Except.bind]
    rfl

theorem readEntries_more {after : List Char} (hs : Starts cs)
    (hkey : readKey cs = .ok (key, ':' :: more)) (hv : readValue fuel more = .ok (v, ',' :: after))
    (hmore : readEntries fuel after = .ok (entries, rest)) :
    readEntries (fuel + 1) cs = .ok ((key, v) :: entries, rest) := by
  obtain ⟨c, ds, rfl, hblank, -, hclosing, -⟩ := hs
  have hcolon : skipColon (':' :: more) = .ok more := rfl
  have hcomma : skipBlank (',' :: after) = ',' :: after := rfl
  rw [readEntries.eq_def]
  dsimp only
  rw [skipBlank_of_not_isBlank hblank]
  split
  · next heq => exact absurd (List.cons.inj heq).1 hclosing
  · simp only [hkey, hcolon, hv, hcomma, hmore, bind, Except.bind]
    rfl

theorem readEntries_literals (hlit : ∀ e ∈ entries, ReadsBack e.2)
    (hfuel : 2 * (commaSpace.intercalate (entries.map entryText)).length + 1 ≤ fuel) :
    readEntries fuel (commaSpace.intercalate (entries.map entryText) ++ '\x7d' :: rest) =
      .ok (entries, rest) := by
  induction entries generalizing fuel with
  | nil =>
    obtain ⟨fuel, rfl⟩ : ∃ n, fuel = n + 1 := ⟨fuel - 1, by omega⟩
    rfl
  | cons e entries ih =>
    obtain ⟨fuel, rfl⟩ : ∃ n, fuel = n + 1 := ⟨fuel - 1, by omega⟩
    obtain ⟨hback, hentries⟩ := List.forall_mem_cons.mp hlit
    have hstart : Starts (entryText e) := (starts_encode e.1).append _
    have hkey (more : List Char) :
        readKey (entryText e ++ more) = .ok (e.1, ':' :: ' ' :: (e.2.literal ++ more)) := by
      rw [entryText, List.append_assoc]
      exact readKey_encode e.1 _
    have hlength : e.2.literal.length + 2 ≤ (entryText e).length := by
      simp only [entryText, List.length_append, List.length_cons]
      omega
    cases entries with
    | nil =>
      rw [List.map_singleton, List.intercalate_singleton] at hfuel ⊢
      have hv := hback fuel ('\x7d' :: rest) (by omega) (ended_cons (.inr (.inr rfl)) rest)
      rw [← readValue_space] at hv
      exact readEntries_last (hstart.append _) (hkey _) hv
    | cons f entries =>
      rw [List.map_cons, List.map_cons, length_intercalate_commaSpace] at hfuel
      rw [List.map_cons, List.map_cons, intercalate_commaSpace]
      have hshort : 2 * (commaSpace.intercalate ((f :: entries).map entryText)).length + 1 ≤ fuel := by
        rw [List.map_cons]
        omega
      have hmore := ih hentries hshort
      rw [← readEntries_space] at hmore
      have hv (after : List Char) :
          readValue fuel (' ' :: (e.2.literal ++ ',' :: after)) = .ok (e.2, ',' :: after) := by
        rw [readValue_space]
        exact hback fuel _ (by omega) (ended_cons (.inl rfl) after)
      exact readEntries_more (hstart.append _) (hkey _) (hv _) hmore

theorem readsBack_map (hkeys : entries.Pairwise fun a b => a.1 < b.1)
    (hlit : ∀ e ∈ entries, ReadsBack e.2) : ReadsBack (.map entries) := by
  intro fuel rest hfuel _
  have hliteral : (Value.map entries).literal =
      '\x7b' :: commaSpace.intercalate (entries.map entryText) ++ ['\x7d'] := by
    rw [Value.literal, literalEntries_eq_map]
  rw [hliteral] at hfuel ⊢
  simp only [List.length_append, List.length_cons, List.length_nil] at hfuel
  obtain ⟨fuel, rfl⟩ : ∃ n, fuel = n + 1 := ⟨fuel - 1, by omega⟩
  have hentries : readEntries fuel (commaSpace.intercalate (entries.map entryText) ++
      '\x7d' :: rest) = .ok (entries, rest) := readEntries_literals hlit (by omega)
  rw [List.append_assoc, List.cons_append, List.singleton_append, readValue,
    skipBlank_of_not_isBlank (by decide)]
  dsimp only
  rw [if_neg (by decide), if_pos (by decide), hentries]
  exact congrArg (fun es => Except.ok (Value.map es, rest)) (Dict.ofList_of_ascending hkeys)

end Lists

theorem readsBack {v : Value} (h : v.IsLiteral) : ReadsBack v := by
  induction h with
  | nil => exact readsBack_named rfl (by decide) (by decide) rfl
  | null => exact readsBack_named rfl (by decide) (by decide) rfl
  | bool b =>
    cases b with
    | false => exact readsBack_named rfl (by decide) (by decide) rfl
    | true => exact readsBack_named rfl (by decide) (by decide) rfl
  | int n => exact readsBack_int n
  | text s => exact readsBack_text s
  | list hlit ih => exact readsBack_list fun v hv => ⟨hlit v hv, ih v hv⟩
  | map hkeys _ ih => exact readsBack_map hkeys ih

section Arguments

variable {fuel : Nat} {c : Char} {cs ds more rest : List Char} {arg : Argument}
  {args : List Argument}

/-- How an argument is read from its text. -/
structure Spells (cs : List Char) (arg : Argument) : Prop where
  start : ∃ c ds, cs = c :: ds ∧ isBlank c = false
  back : ∀ rest, Ended rest → readArgument (cs ++ rest) = .ok (arg, rest)

theorem sentinel?_of_ne {c : Char} {word : List Char} (h : c ≠ '_') :
    sentinel? (c :: word) = none := by
  unfold sentinel?
  split
  · next heq => exact absurd (List.cons.inj heq).1 h
  · next heq => exact absurd (List.cons.inj heq).1 h
  · rfl

theorem of_readWord? {c : Char} {word : List Char}
    (h : readWord? (c :: cs) = some (word, rest)) : isBareChar c = true ∧
      word = c :: cs.takeWhile isBareChar ∧ rest = cs.dropWhile isBareChar := by
  cases hbare : isBareChar c with
  | false =>
    rw [readWord?, List.takeWhile_cons_of_neg (by simp [hbare])] at h
    cases h
  | true =>
    rw [readWord?, List.takeWhile_cons_of_pos hbare, List.dropWhile_cons_of_pos hbare] at h
    dsimp only at h
    split at h
    · cases h
    · cases h
      exact ⟨rfl, rfl, rfl⟩

theorem spells_literal {v : Value} (h : v.IsLiteral) : Spells v.literal (.value v) := by
  obtain ⟨c, ds, hv, hblank, -, -, hmark⟩ := starts_literal h
  refine ⟨⟨c, ds, hv, hblank⟩, ?_⟩
  intro rest hrest
  have hfuel : 2 * v.literal.length ≤ 2 * (v.literal ++ rest).length + 2 := by
    rw [List.length_append]
    omega
  have hread := readsBack h _ rest hfuel hrest
  unfold readArgument
  dsimp only
  rw [hread]
  split
  · next word after hword =>
    rw [hv] at hword
    obtain ⟨-, rfl, -⟩ := of_readWord? hword
    rw [sentinel?_of_ne hmark]
    rfl
  · rfl

theorem flowMark_eq_cons (n : Nat) : ∃ ds, flowMark n = '_' :: ds := by
  unfold flowMark
  split
  · exact ⟨_, rfl⟩
  · exact ⟨_, rfl⟩

theorem spells_flowMark {n : Nat} (h : n ≤ 9) :
    Spells (flowMark n) (.flow n (String.ofList (flowMark n))) := by
  have hall : ∀ k ∈ List.range 10, (flowMark k).all isBareChar = true ∧
      sentinel? (flowMark k) = some k := by decide
  obtain ⟨hbare, hmark⟩ := hall n (List.mem_range.mpr (by omega))
  obtain ⟨ds, hds⟩ := flowMark_eq_cons n
  refine ⟨⟨'_', ds, hds, by decide⟩, ?_⟩
  intro rest hrest
  rw [hds] at hbare
  have hword := readWord?_append (by decide) hbare hrest
  rw [← hds] at hword
  unfold readArgument
  dsimp only
  rw [hword]
  dsimp only
  rw [hmark]

theorem readArguments_space (fuel : Nat) (cs : List Char) :
    readArguments fuel (' ' :: cs) = readArguments fuel cs := by
  cases fuel with
  | zero => rfl
  | succ fuel => rw [readArguments, readArguments, skipBlank_space]

theorem readArguments_blank (fuel : Nat) (h : skipBlank cs = []) :
    readArguments (fuel + 1) cs = .ok [] := by
  rw [readArguments.eq_def]
  dsimp only
  rw [h]

theorem readArguments_error (fuel : Nat) (hcs : skipBlank cs = c :: ds) {why : Fault}
    (hread : readArgument (c :: ds) = .error why) :
    readArguments (fuel + 1) cs = .error why := by
  rw [readArguments.eq_def]
  dsimp only
  rw [hcs]
  dsimp only
  rw [hread]
  rfl

theorem readArguments_end (fuel : Nat) (hcs : skipBlank cs = c :: ds)
    (hread : readArgument (c :: ds) = .ok (arg, rest)) (hrest : skipBlank rest = []) :
    readArguments (fuel + 1) cs = .ok [arg] := by
  rw [readArguments.eq_def]
  dsimp only
  rw [hcs]
  dsimp only
  rw [hread]
  simp only [bind, Except.bind, hrest]
  rfl

theorem readArguments_comma (fuel : Nat) (hcs : skipBlank cs = c :: ds)
    (hread : readArgument (c :: ds) = .ok (arg, rest)) (hrest : skipBlank rest = ',' :: more) :
    readArguments (fuel + 1) cs = (readArguments fuel more).map (arg :: ·) := by
  rw [readArguments.eq_def]
  dsimp only
  rw [hcs]
  dsimp only
  rw [hread]
  simp only [bind, Except.bind, hrest]
  cases readArguments fuel more <;> rfl

theorem readArguments_other (fuel : Nat) (hcs : skipBlank cs = c :: ds)
    (hread : readArgument (c :: ds) = .ok (arg, rest)) {d : Char} (hrest : skipBlank rest = d :: more)
    (hd : d ≠ ',') : readArguments (fuel + 1) cs = .error (.unexpected d) := by
  rw [readArguments.eq_def]
  dsimp only
  rw [hcs]
  dsimp only
  rw [hread]
  simp only [bind, Except.bind, hrest]
  rfl

theorem readArguments_last (h : Spells cs arg) : readArguments (fuel + 1) cs = .ok [arg] := by
  obtain ⟨⟨c, ds, rfl, hblank⟩, hback⟩ := h
  have hread := hback [] ended_nil
  rw [List.append_nil] at hread
  exact readArguments_end fuel (skipBlank_of_not_isBlank hblank) hread rfl

theorem readArguments_more (h : Spells cs arg) (hmore : readArguments fuel more = .ok args) :
    readArguments (fuel + 1) (cs ++ ',' :: more) = .ok (arg :: args) := by
  obtain ⟨⟨c, ds, rfl, hblank⟩, hback⟩ := h
  have hread := hback (',' :: more) (ended_cons (.inl rfl) more)
  rw [List.cons_append] at hread ⊢
  rw [readArguments_comma fuel (skipBlank_of_not_isBlank hblank) hread rfl, hmore]
  rfl

theorem readArguments_intercalate {parts : List (List Char × Argument)}
    (h : ∀ p ∈ parts, Spells p.1 p.2) (hfuel : parts.length ≤ fuel) :
    readArguments fuel (commaSpace.intercalate (parts.map Prod.fst)) =
      .ok (parts.map Prod.snd) := by
  induction parts generalizing fuel with
  | nil => cases fuel <;> rfl
  | cons p parts ih =>
    rw [List.length_cons] at hfuel
    obtain ⟨fuel, rfl⟩ : ∃ n, fuel = n + 1 := ⟨fuel - 1, by omega⟩
    obtain ⟨hp, hparts⟩ := List.forall_mem_cons.mp h
    have hmore := ih hparts (by omega : parts.length ≤ fuel)
    cases parts with
    | nil =>
      rw [List.map_singleton, List.intercalate_singleton]
      exact readArguments_last hp
    | cons q parts =>
      rw [← readArguments_space] at hmore
      have hread := readArguments_more hp hmore
      rw [List.map_cons, List.map_cons, List.map_cons, List.intercalate_cons_cons, List.append_assoc]
      exact hread

theorem collect_values (values : List Value) (args : List Argument) :
    collect (values.map .value ++ args) =
      (collect args).map fun a => { a with args := values ++ a.args } := by
  induction values with
  | nil =>
    rw [List.map_nil, List.nil_append]
    cases collect args <;> rfl
  | cons v values ih =>
    rw [List.map_cons, List.cons_append, collect, ih]
    cases collect args <;> rfl

theorem sentinel?_le {word : List Char} {n : Nat} (h : sentinel? word = some n) : n ≤ 9 := by
  unfold sentinel? at h
  split at h
  · cases h
    decide
  · next d =>
    split at h
    · next hd =>
      cases h
      have hhigh : d.toNat ≤ 57 := hd.2
      have hlow : 49 ≤ d.toNat := hd.1
      have hdigit : d.isDigit = true :=
        Char.isDigit_iff_toNat.mpr ⟨Nat.le_of_succ_le hlow, hhigh⟩
      rw [digitValue, if_pos hdigit]
      omega
    · cases h
  · cases h

theorem of_readArgument (h : readArgument cs = .ok (arg, rest)) :
    (∃ word n, readWord? cs = some (word, rest) ∧ sentinel? word = some n ∧
      arg = .flow n (String.ofList word)) ∨
    ∃ v, readValue (2 * cs.length + 2) cs = .ok (v, rest) ∧ arg = .value v := by
  have hplain (h : ((readValue (2 * cs.length + 2) cs).map fun r => (Argument.value r.1, r.2)) =
      .ok (arg, rest)) : ∃ v, readValue (2 * cs.length + 2) cs = .ok (v, rest) ∧ arg = .value v := by
    obtain ⟨⟨v, after⟩, hread, heq⟩ := ok_of_map h
    cases heq
    exact ⟨v, hread, rfl⟩
  unfold readArgument at h
  dsimp only at h
  split at h
  · next word after hword =>
    split at h
    · next n hmark =>
      cases h
      exact .inl ⟨word, n, hword, hmark, rfl⟩
    · exact .inr (hplain h)
  · exact .inr (hplain h)

theorem readArgument_flow_le {n : Nat} {name : String}
    (h : readArgument cs = .ok (.flow n name, rest)) : n ≤ 9 := by
  rcases of_readArgument h with ⟨word, k, -, hmark, heq⟩ | ⟨v, -, heq⟩
  · cases heq
    exact sentinel?_le hmark
  · cases heq

theorem readArguments_flow_le (h : readArguments fuel cs = .ok args) {n : Nat} {name : String}
    (hflow : Argument.flow n name ∈ args) : n ≤ 9 := by
  induction fuel generalizing cs args with
  | zero =>
    cases h
    cases hflow
  | succ fuel ih =>
    rw [readArguments.eq_def] at h
    dsimp only at h
    split at h
    · cases h
      cases hflow
    · obtain ⟨⟨arg, after⟩, hread, h⟩ := ok_of_bind h
      have hfirst (heq : arg = .flow n name) : n ≤ 9 := by
        rw [heq] at hread
        exact readArgument_flow_le hread
      dsimp only at h
      split at h
      · cases h
        exact hfirst (List.mem_singleton.mp hflow).symm
      · obtain ⟨more, hmore, heq⟩ := ok_of_bind h
        cases heq
        rcases List.mem_cons.mp hflow with heq | hflow
        · exact hfirst heq.symm
        · exact ih hmore hflow
      · cases h

theorem collect_rest {a : Arguments} (h : collect args = .ok a) {n : Nat} (hn : n ∈ a.rest) :
    ∃ name, Argument.flow n name ∈ args := by
  induction args generalizing a with
  | nil =>
    cases h
    cases hn
  | cons arg args ih =>
    cases arg with
    | value v =>
      rw [collect] at h
      obtain ⟨more, hmore, rfl⟩ := ok_of_map h
      obtain ⟨name, hname⟩ := ih hmore hn
      exact ⟨name, List.mem_cons_of_mem _ hname⟩
    | flow count name =>
      cases args with
      | nil =>
        cases h
        cases hn
        exact ⟨name, List.mem_cons_self⟩
      | cons next args => cases h

end Arguments

theorem sealed_int (n : Int64) : Sealed Spaced (Value.int n).literal := by
  have hdigits (k : Nat) : Sealed Spaced (Nat.toDigits 10 k) :=
    .of_plain fun c hc => .of_isDigit (isDigit_of_mem_decimal hc)
  obtain ⟨k, hliteral | hliteral⟩ := literal_int n
  · rw [hliteral]
    exact hdigits k
  · rw [hliteral]
    exact .char (spaced_of_not_isBlank rfl) rfl rfl rfl (hdigits k)

theorem sealed_commaSpace : Sealed Spaced commaSpace :=
  .char (spaced_of_not_isBlank rfl) rfl rfl rfl (.char (fun _ => rfl) rfl rfl rfl .nil)

/-- A literal closes its quotes and brackets, and has plain spaces outside of texts only. -/
theorem sealed_literal {v : Value} (h : v.IsLiteral) : Sealed Spaced v.literal := by
  have hword {cs : List Char} (h : cs.all isWordChar = true) : Sealed Spaced cs :=
    .of_plain fun c hc => .of_isWordChar (List.all_eq_true.mp h c hc)
  induction h with
  | nil => exact hword (by decide)
  | null => exact hword (by decide)
  | bool b =>
    cases b with
    | false => exact hword (by decide)
    | true => exact hword (by decide)
  | int n => exact sealed_int n
  | text s => exact .encode s
  | list _ ih =>
    rw [Value.literal, Value.literals_eq_map]
    refine .enclosed (by decide) (.intercalate sealed_commaSpace ?_)
    intro t ht
    obtain ⟨v, hv, rfl⟩ := List.mem_map.mp ht
    exact ih v hv
  | map _ _ ih =>
    rw [Value.literal, literalEntries_eq_map]
    refine .enclosed (by decide) (.intercalate sealed_commaSpace ?_)
    intro t ht
    obtain ⟨e, he, rfl⟩ := List.mem_map.mp ht
    have hcolon : Sealed Spaced (':' :: ' ' :: e.2.literal) :=
      .char (spaced_of_not_isBlank rfl) rfl rfl rfl (.char (fun _ => rfl) rfl rfl rfl (ih e he))
    exact (Sealed.encode e.1).append hcolon

theorem sealed_flowMark (n : Nat) : Sealed Spaced (flowMark n) := by
  have hlow : Plain '_' := .of_isWordChar (by decide)
  refine .of_plain ?_
  intro c hc
  unfold flowMark at hc
  split at hc
  · obtain rfl := List.mem_singleton.mp hc
    exact hlow
  · rcases List.mem_cons.mp hc with rfl | hc
    · exact hlow
    · exact .of_isDigit (isDigit_of_mem_decimal hc)

end AttrChain.Literal

namespace AttrChain.Arguments

open AttrChain.Literal

def parts (a : Arguments) : List (List Char × Argument) :=
  a.args.map (fun v => (v.literal, .value v)) ++
    (a.rest.map fun n => (flowMark n, .flow n (String.ofList (flowMark n)))).toList

theorem written_eq_intercalate (a : Arguments) :
    a.written = commaSpace.intercalate (a.parts.map Prod.fst) := by
  obtain ⟨args, rest⟩ := a
  rw [written, parts, Value.literals_eq_map, List.map_append, List.map_map]
  cases rest <;> rfl

theorem Writable.spells {a : Arguments} (h : a.Writable) : ∀ p ∈ a.parts, Spells p.1 p.2 := by
  intro p hp
  rcases List.mem_append.mp hp with hp | hp
  · obtain ⟨v, hv, rfl⟩ := List.mem_map.mp hp
    exact spells_literal (h.args v hv)
  · rw [Option.mem_toList] at hp
    obtain ⟨n, hn, rfl⟩ := Option.map_eq_some_iff.mp hp
    exact spells_flowMark (h.rest n hn)

/-- Arguments are read back as they were written. -/
theorem Writable.read_written {a : Arguments} (h : a.Writable) :
    Arguments.read a.written = .ok a := by
  have hne : ∀ t ∈ a.parts.map Prod.fst, t ≠ [] := by
    intro t ht
    obtain ⟨p, hp, rfl⟩ := List.mem_map.mp ht
    obtain ⟨c, ds, hcs, -⟩ := (h.spells p hp).start
    rw [hcs]
    exact List.cons_ne_nil c ds
  have hfuel := length_le_intercalate commaSpace hne
  rw [List.length_map, ← written_eq_intercalate] at hfuel
  have hread := readArguments_intercalate h.spells (Nat.le_succ_of_le hfuel)
  rw [← written_eq_intercalate] at hread
  have hcollect : collect (a.parts.map Prod.snd) = .ok a := by
    obtain ⟨args, rest⟩ := a
    rw [parts, List.map_append, List.map_map]
    cases rest with
    | none => exact (collect_values args []).trans (by simp [collect, Except.map, Arguments.empty])
    | some n => exact (collect_values args _).trans (by simp [collect, Except.map])
  rw [Arguments.read, hread]
  exact hcollect

theorem sealed_written {a : Arguments} (h : ∀ v ∈ a.args, v.IsLiteral) :
    Sealed Spaced a.written := by
  rw [written_eq_intercalate]
  refine .intercalate sealed_commaSpace ?_
  intro t ht
  obtain ⟨p, hp, rfl⟩ := List.mem_map.mp ht
  rcases List.mem_append.mp hp with hp | hp
  · obtain ⟨v, hv, rfl⟩ := List.mem_map.mp hp
    exact sealed_literal (h v hv)
  · rw [Option.mem_toList] at hp
    obtain ⟨n, -, rfl⟩ := Option.map_eq_some_iff.mp hp
    exact sealed_flowMark n

theorem rest_le_of_read {cs : List Char} {a : Arguments} (h : Arguments.read cs = .ok a) :
    ∀ n ∈ a.rest, n ≤ 9 := by
  intro n hn
  rw [Arguments.read] at h
  split at h
  · next hread =>
    obtain ⟨name, hflow⟩ := collect_rest h hn
    exact readArguments_flow_le hread hflow
  · cases h

end AttrChain.Arguments
