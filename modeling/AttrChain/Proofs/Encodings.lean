import AttrChain.Json.Printer
import AttrChain.Json.Reader
import AttrChain.Proofs.Characters
import AttrChain.Proofs.Numerals

/-!
JSON documents are read back from their text on one line, unless they nest deeper than texts may.
Floating-point numbers are left out, as not all of them come back.
-/

namespace AttrChain

theorem Text.toList_joinWith (sep : String) (texts : List String) :
    (joinWith sep texts).toList = sep.toList.intercalate (texts.map String.toList) := by
  induction texts with
  | nil => rfl
  | cons s rest ih =>
    cases rest with
    | nil => rw [joinWith, List.map_singleton, List.intercalate_singleton]
    | cons t rest =>
      rw [joinWith, String.toList_append, String.toList_append, ih, List.map_cons, List.map_cons,
        List.map_cons, List.intercalate_cons_cons]
      exact List.cons_ne_nil t rest

namespace Json
open AttrChain.Text

/-- A document without floating-point numbers: whole numbers that 64 bits hold, signed or not, and
objects with their keys in ascending order. -/
inductive Exact : Json → Prop where
  | null : Exact null
  | bool (b : Bool) : Exact (bool b)
  | int {n : Int} : -Int.pow 2 63 ≤ n → n < Int.pow 2 64 → Exact (int n)
  | text (s : String) : Exact (text s)
  | array {items : List Json} : (∀ item ∈ items, Exact item) → Exact (array items)
  | object {fields : List (String × Json)} : fields.Pairwise (fun a b => a.1 < b.1) →
      (∀ f ∈ fields, Exact f.2) → Exact (object fields)

mutual

def height : Json → Nat
  | array items => itemsHeight items + 1
  | object fields => fieldsHeight fields + 1
  | _ => 0

def itemsHeight : List Json → Nat
  | [] => 0
  | item :: rest => max (height item) (itemsHeight rest)

def fieldsHeight : List (String × Json) → Nat
  | [] => 0
  | (_, value) :: rest => max (height value) (fieldsHeight rest)

end

def within {α : Type} (height depth : Nat) (a : α) : Option α :=
  if height ≤ depth then some a else none

section Within

variable {α β : Type} {m n depth : Nat} {a : α} {b : β}

theorem within_zero : within 0 depth a = some a := if_pos (Nat.zero_le depth)

theorem within_succ : within (n + 1) (depth + 1) a = within n depth a := by
  simp only [within, Nat.add_le_add_iff_right]

theorem map_within (f : α → β) : (within n depth a).map f = within n depth (f a) := by
  unfold within
  split <;> rfl

theorem bind_within {f : α → Option β} (h : f a = within n depth b) :
    (within m depth a).bind f = within (max m n) depth b := by
  unfold within at h ⊢
  by_cases hm : m ≤ depth
  · rw [if_pos hm, Option.bind_some, h]
    simp only [Nat.max_le, hm, true_and]
  · rw [if_neg hm, Option.bind_none, if_neg fun hmax => hm (Nat.max_le.mp hmax).1]

end Within

section Texts

variable {c : Char} {rest : List Char} {fuel : Nat}

/-- A character stands between quotes as it is, or behind a backslash as a letter or as a code
point. -/
theorem encodeChar_cases (c : Char) :
    (∃ e, e ≠ 'u' ∧ escaped? e = some c ∧ encodeChar c = ['\\', e]) ∨
    (c.toNat < 0x20 ∧ encodeChar c =
      ['\\', 'u', '0', '0', hexDigit (c.toNat / 16), hexDigit (c.toNat % 16)]) ∨
    (c ≠ '\x22' ∧ c ≠ '\\' ∧ ¬c.toNat < 0x20 ∧ encodeChar c = [c]) := by
  by_cases hletter : c ∈ ['\x22', '\\', '\x08', '\x0c', '\n', '\r', '\t']
  · left
    simp only [List.mem_cons, List.not_mem_nil, or_false] at hletter
    rcases hletter with rfl | rfl | rfl | rfl | rfl | rfl | rfl
    all_goals exact ⟨_, by decide, rfl, rfl⟩
  · right
    simp only [List.mem_cons, List.not_mem_nil, or_false, not_or] at hletter
    obtain ⟨hquote, hback, h⟩ := hletter
    by_cases hcontrol : c.toNat < 0x20
    · exact .inl ⟨hcontrol, by simp [encodeChar, hquote, hback, h, hcontrol]⟩
    · exact .inr ⟨hquote, hback, hcontrol, by simp [encodeChar, hquote, hback, h, hcontrol]⟩

theorem isHexDigit_hexDigit {d : Nat} (h : d < 16) : isHexDigit (hexDigit d) = true := by
  have hall : ∀ e ∈ List.range 16, isHexDigit (hexDigit e) = true := by decide
  exact hall d (List.mem_range.mpr h)

theorem readCodePoint?_control (hc : c.toNat < 0x20) (rest : List Char) :
    readCodePoint? ('0' :: '0' :: hexDigit (c.toNat / 16) :: hexDigit (c.toNat % 16) :: rest) =
      some (c, rest) := by
  have hhigh : c.toNat / 16 < 16 := by omega
  have hlow : c.toNat % 16 < 16 := Nat.mod_lt _ (by decide)
  have hdigits : ['0', '0', hexDigit (c.toNat / 16), hexDigit (c.toNat % 16)].all isHexDigit := by
    simp only [List.all_cons, List.all_nil, isHexDigit_hexDigit hhigh, isHexDigit_hexDigit hlow]
    rfl
  have hvalue : appendDigits 16 0 ['0', '0', hexDigit (c.toNat / 16), hexDigit (c.toNat % 16)] =
      c.toNat := by
    have hzero : digitValue '0' = 0 := rfl
    simp only [appendDigits, List.foldl_cons, List.foldl_nil, hzero, digitValue_hexDigit hhigh,
      digitValue_hexDigit hlow]
    omega
  have hread : readHex? ('0' :: '0' :: hexDigit (c.toNat / 16) :: hexDigit (c.toNat % 16) :: rest) =
      some (c.toNat, rest) := by
    rw [readHex?, if_pos hdigits, hvalue]
  rw [readCodePoint?, hread]
  dsimp only [Option.bind_eq_bind, Option.bind_some]
  rw [if_neg (by omega), if_pos (by omega), Char.ofNat_toNat]

theorem readChars?_close : readChars? (fuel + 1) ('\x22' :: rest) = some ([], rest) := rfl

theorem readChars?_encodeChar (c : Char) (rest : List Char) :
    readChars? (fuel + 1) (encodeChar c ++ rest) =
      (readChars? fuel rest).map fun r => (c :: r.1, r.2) := by
  rcases encodeChar_cases c with ⟨e, he, hescaped, hchar⟩ | ⟨hcontrol, hchar⟩ |
      ⟨hquote, hback, hcontrol, hchar⟩
  · rw [hchar, readChars?.eq_def]
    dsimp only [List.cons_append, List.nil_append]
    rw [if_neg (by decide), if_pos (by decide)]
    split
    · next heq => exact absurd (List.cons.inj heq).1 he
    · next heq =>
      cases heq
      rw [hescaped]
      cases readChars? fuel rest <;> rfl
    · next heq => cases heq
  · have hread := readCodePoint?_control hcontrol rest
    rw [hchar, readChars?.eq_def]
    dsimp only [List.cons_append, List.nil_append]
    rw [if_neg (by decide), if_pos (by decide)]
    simp only [hread, Option.bind_eq_bind, Option.bind_some]
    cases readChars? fuel rest <;> rfl
  · rw [hchar, readChars?.eq_def]
    dsimp only [List.cons_append, List.nil_append]
    rw [if_neg (by simpa using hquote), if_neg (by simpa using hback), if_neg hcontrol]
    cases readChars? fuel rest <;> rfl

theorem encodeChar_ne_nil (c : Char) : encodeChar c ≠ [] := by
  rcases encodeChar_cases c with ⟨_, -, -, hchar⟩ | ⟨-, hchar⟩ | ⟨-, -, -, hchar⟩
  all_goals exact hchar ▸ List.cons_ne_nil _ _

theorem readChars?_encode (s rest : List Char) {fuel : Nat}
    (hfuel : (s.flatMap encodeChar).length < fuel) :
    readChars? fuel (s.flatMap encodeChar ++ '\x22' :: rest) = some (s, rest) := by
  induction s generalizing fuel with
  | nil =>
    obtain ⟨fuel, rfl⟩ : ∃ n, fuel = n + 1 := ⟨fuel - 1, by omega⟩
    exact readChars?_close
  | cons c s ih =>
    obtain ⟨fuel, rfl⟩ : ∃ n, fuel = n + 1 := ⟨fuel - 1, by omega⟩
    have hchar : 0 < (encodeChar c).length := List.length_pos_iff.mpr (encodeChar_ne_nil c)
    rw [List.flatMap_cons, List.length_append] at hfuel
    rw [List.flatMap_cons, List.append_assoc, readChars?_encodeChar, ih (by omega)]
    rfl

theorem readText?_encode (s : String) (rest : List Char) :
    readText? (s.toList.flatMap encodeChar ++ '\x22' :: rest) = some (s, rest) := by
  have hfuel : (s.toList.flatMap encodeChar).length <
      (s.toList.flatMap encodeChar ++ '\x22' :: rest).length + 1 := by
    rw [List.length_append]
    omega
  rw [readText?, readChars?_encode _ _ hfuel]
  exact congrArg (fun t => some (t, rest)) String.ofList_toList

theorem toList_quote (s : String) :
    (quote s).toList = '\x22' :: (s.toList.flatMap encodeChar ++ ['\x22']) :=
  String.toList_ofList

end Texts

/-- What may follow a document in a text: nothing, a comma or the end of what it is in. -/
def Ended (rest : List Char) : Prop :=
  ∀ c ∈ rest.head?, c = ',' ∨ c = ']' ∨ c = '\x7d'

theorem ended_nil : Ended [] := by
  intro c h
  cases h

theorem ended_cons {c : Char} (h : c = ',' ∨ c = ']' ∨ c = '\x7d') (cs : List Char) :
    Ended (c :: cs) := by
  rintro d ⟨⟩
  exact h

/-- Whether a document may start with these characters: no blank, and no end of a list. -/
def Starts (cs : List Char) : Prop :=
  ∃ c rest, cs = c :: rest ∧ c ∉ [' ', '\n', '\t', '\r', ']']

theorem Starts.append {cs : List Char} (h : Starts cs) (ds : List Char) : Starts (cs ++ ds) := by
  obtain ⟨c, rest, rfl, hc⟩ := h
  exact ⟨c, rest ++ ds, rfl, hc⟩

theorem Starts.skipBlank {cs : List Char} (h : Starts cs) : skipBlank cs = cs := by
  obtain ⟨c, rest, rfl, hc⟩ := h
  refine List.dropWhile_cons_of_neg ?_
  simp only [List.mem_cons, not_or] at hc
  simp [hc]

theorem Starts.length_pos {cs : List Char} (h : Starts cs) : 0 < cs.length := by
  obtain ⟨c, rest, rfl, -⟩ := h
  exact Nat.succ_pos _

section Numbers

variable {n : Nat} {cs rest : List Char} {fuel depth : Nat}

theorem le_appendDigits (n : Nat) (cs : List Char) : n ≤ appendDigits 10 n cs := by
  induction cs generalizing n with
  | nil => exact Nat.le_refl n
  | cons c cs ih =>
    have hnext : n ≤ 10 * n + digitValue c := by omega
    exact Nat.le_trans hnext (ih _)

theorem absorb_of_lt (h : appendDigits 10 n cs < Nat.pow 2 64) :
    absorb n cs = (appendDigits 10 n cs, []) := by
  induction cs generalizing n with
  | nil => rfl
  | cons c cs ih =>
    have hnext : 10 * n + digitValue c < Nat.pow 2 64 := Nat.lt_of_le_of_lt (le_appendDigits _ cs) h
    rw [absorb, if_pos hnext, ih h]
    rfl

theorem readMagnitude?_toDigits (negative : Bool) (hn : n < Nat.pow 2 64) (hrest : Ended rest) :
    readMagnitude? negative (Nat.toDigits 10 n ++ rest) = some (ofWhole negative n, rest) := by
  have hdigits : ∀ c ∈ Nat.toDigits 10 n, c.isDigit = true := fun c => isDigit_of_mem_decimal
  have hstop : ∀ c ∈ rest.head?, c.isDigit = false := by
    intro c hc
    rcases hrest c hc with rfl | rfl | rfl <;> rfl
  obtain ⟨htake, hdrop⟩ := takeWhile_dropWhile_append hdigits hstop
  have hvalue : appendDigits 10 0 (Nat.toDigits 10 n) = n := by
    rw [appendDigits_eq_ofDigitChars hdigits, Nat.ofDigitChars_ten_toDigits]
  have habsorb : absorb 0 (Nat.toDigits 10 n) = (n, []) := by
    rw [absorb_of_lt (hvalue.symm ▸ hn), hvalue]
  have hunpadded : ((Nat.toDigits 10 n).isEmpty ||
      ((Nat.toDigits 10 n).head? == some '0' && 1 < (Nat.toDigits 10 n).length)) = false := by
    rcases Nat.eq_zero_or_pos n with rfl | hpos
    · rfl
    · simp [Nat.toDigits_ne_nil, head?_decimal_ne hpos]
  rw [readMagnitude?, htake, hdrop]
  dsimp only
  rw [if_neg (ne_true_of_eq_false hunpadded), habsorb]
  -- neither a point nor an exponent follows, so the number stays whole
  cases rest with
  | nil => rfl
  | cons c rest => rcases hrest c rfl with rfl | rfl | rfl <;> rfl

theorem readValue?_number {c : Char} (hc : c.isDigit = true ∨ c = '-') :
    readValue? (fuel + 1) depth (c :: cs) = readNumber? (c :: cs) := by
  have hne {d : Char} (hd : d.isDigit = false ∧ d ≠ '-') : c ≠ d := by
    rintro rfl
    rcases hc with hc | hc
    · exact absurd hc (ne_true_of_eq_false hd.1)
    · exact hd.2 hc
  have hstarts : Starts (c :: cs) := by
    refine ⟨c, cs, rfl, ?_⟩
    simp [hne]
  rw [readValue?.eq_def]
  dsimp only
  rw [hstarts.skipBlank]
  split
  case h_7 => rfl
  all_goals
    next heq => exact absurd (List.cons.inj heq).1 (hne (by decide))

end Numbers

def chars (j : Json) : List Char := j.compact.toList

/-- How a document is read back: as it is, if it is no higher than allowed. Two units of fuel for
each character are enough, one for the reader of values and one for that of items or fields. -/
def ReadsBack (j : Json) : Prop :=
  ∀ fuel depth rest, 2 * j.chars.length ≤ fuel → Ended rest →
    readValue? fuel depth (j.chars ++ rest) = within j.height depth (j, rest)

section Scalars

theorem readsBack_flat {j : Json} (hflat : j.height = 0) (hstarts : Starts j.chars)
    (hread : ∀ fuel depth rest, Ended rest →
      readValue? (fuel + 1) depth (j.chars ++ rest) = some (j, rest)) : ReadsBack j := by
  intro fuel depth rest hfuel hrest
  have hlength := hstarts.length_pos
  obtain ⟨fuel, rfl⟩ : ∃ n, fuel = n + 1 := ⟨fuel - 1, by omega⟩
  rw [hread fuel depth rest hrest, hflat, within_zero]

theorem starts_int (n : Int) : Starts (int n).chars := by
  have hchars : (int n).chars = n.repr.toList := by rw [chars, compact]
  rw [hchars]
  cases n with
  | ofNat k =>
    obtain ⟨c, cs, hdigits, hc⟩ := decimal_eq_cons k
    refine ⟨c, cs, (repr_ofNat k).trans hdigits, ?_⟩
    simp [ne_of_class hc]
  | negSucc k => exact ⟨_, _, repr_negSucc k, by decide⟩

theorem readsBack_int {n : Int} (hmin : -Int.pow 2 63 ≤ n) (hmax : n < Int.pow 2 64) :
    ReadsBack (int n) := by
  refine readsBack_flat rfl (starts_int n) ?_
  intro fuel depth rest hrest
  have hchars : (int n).chars = n.repr.toList := by rw [chars, compact]
  rw [hchars]
  cases n with
  | ofNat k =>
    have hk : k < Nat.pow 2 64 := Int.ofNat_lt.mp hmax
    have hread := readMagnitude?_toDigits false hk hrest
    obtain ⟨c, cs, hdigits, hc⟩ := decimal_eq_cons k
    rw [repr_ofNat]
    rw [hdigits] at hread ⊢
    rw [List.cons_append, readValue?_number (.inl hc), readNumber?]
    · exact hread
    · exact fun _ heq => ne_of_class hc rfl (List.cons.inj heq).1
  | negSucc k =>
    have hk : k + 1 ≤ Nat.pow 2 63 := Int.ofNat_le.mp (Int.neg_le_neg_iff.mp hmin)
    have hwhole : ofWhole true (k + 1) = int (Int.negSucc k) := by
      rw [ofWhole, if_pos rfl, if_neg (not_or.mpr ⟨Nat.succ_ne_zero k, Nat.not_lt.mpr hk⟩)]
      rfl
    have hread := readMagnitude?_toDigits true (Nat.lt_of_le_of_lt hk (by decide)) hrest
    rw [repr_negSucc, List.cons_append, readValue?_number (.inr rfl), readNumber?, hread, hwhole]

theorem chars_text (s : String) : (text s).chars =
    '\x22' :: (s.toList.flatMap encodeChar ++ ['\x22']) := by
  rw [chars, compact, toList_quote]

theorem readsBack_text (s : String) : ReadsBack (text s) := by
  refine readsBack_flat rfl ⟨_, _, chars_text s, by decide⟩ ?_
  intro fuel depth rest _
  rw [chars_text, List.cons_append, List.append_assoc, List.singleton_append]
  have hread : readValue? (fuel + 1) depth
      ('\x22' :: (s.toList.flatMap encodeChar ++ '\x22' :: rest)) =
        (readText? (s.toList.flatMap encodeChar ++ '\x22' :: rest)).map fun r => (text r.1, r.2) :=
    rfl
  rw [hread, readText?_encode]
  rfl

end Scalars

section Lists

variable {item : Json} {items : List Json} {field : String × Json} {fields : List (String × Json)}
  {cs more rest : List Char} {fuel depth : Nat}

/-- What stands between brackets is read one level further down. -/
theorem readsBack_nested {j : Json} {opening closing : Char} {inner : List Char} {n : Nat}
    (hchars : j.chars = opening :: (inner ++ [closing])) (hheight : j.height = n + 1)
    (hzero : ∀ fuel cs, readValue? (fuel + 1) 0 (opening :: cs) = none)
    (hread : ∀ fuel depth rest, 2 * inner.length + 1 ≤ fuel →
      readValue? (fuel + 1) (depth + 1) (opening :: (inner ++ closing :: rest)) =
        within n depth (j, rest)) : ReadsBack j := by
  intro fuel depth rest hfuel _
  rw [hchars, List.length_cons, List.length_append] at hfuel
  obtain ⟨fuel, rfl⟩ : ∃ m, fuel = m + 1 := ⟨fuel - 1, by omega⟩
  rw [hchars, hheight, List.cons_append, List.append_assoc, List.singleton_append]
  cases depth with
  | zero => exact hzero fuel _
  | succ depth =>
    rw [within_succ]
    exact hread fuel depth rest (by omega)

theorem intercalate_comma (t u : List Char) (texts : List (List Char)) (cs : List Char) :
    [','].intercalate (t :: u :: texts) ++ cs =
      t ++ ',' :: ([','].intercalate (u :: texts) ++ cs) :=
  intercalate_cons_cons_append [','] t u texts cs

theorem length_intercalate_comma (t u : List Char) (texts : List (List Char)) :
    ([','].intercalate (t :: u :: texts)).length =
      t.length + 1 + ([','].intercalate (u :: texts)).length :=
  length_intercalate_cons_cons [','] t u texts

def fieldChars (f : String × Json) : List Char :=
  '\x22' :: (f.1.toList.flatMap encodeChar ++ '\x22' :: ':' :: f.2.chars)

theorem chars_array (items : List Json) : (array items).chars =
    '[' :: ([','].intercalate (items.map chars) ++ [']']) := by
  have hitems : (compactItems items).map String.toList = items.map chars := by
    induction items with
    | nil => rfl
    | cons item items ih => rw [compactItems, List.map_cons, List.map_cons, ih, chars]
  rw [chars, compact, String.toList_append, String.toList_append, toList_joinWith, hitems]
  rfl

theorem chars_object (fields : List (String × Json)) : (object fields).chars =
    '\x7b' :: ([','].intercalate (fields.map fieldChars) ++ ['\x7d']) := by
  have hfields : (compactFields fields).map String.toList = fields.map fieldChars := by
    induction fields with
    | nil => rfl
    | cons field fields ih =>
      rw [compactFields, List.map_cons, List.map_cons, ih, String.toList_append,
        String.toList_append, toList_quote, fieldChars, chars]
      simp
  rw [chars, compact, String.toList_append, String.toList_append, toList_joinWith, hfields]
  rfl

theorem readItems?_last
    (hv : readValue? fuel depth cs = within item.height depth (item, ']' :: rest)) :
    readItems? (fuel + 1) depth cs = within (itemsHeight [item]) depth ([item], rest) := by
  rw [readItems?, hv]
  exact bind_within within_zero.symm

theorem readItems?_cons
    (hv : readValue? fuel depth cs = within item.height depth (item, ',' :: more))
    (hmore : readItems? fuel depth more = within (itemsHeight items) depth (items, rest)) :
    readItems? (fuel + 1) depth cs =
      within (itemsHeight (item :: items)) depth (item :: items, rest) := by
  have hrest : (readItems? fuel depth more).map (fun r => (item :: r.1, r.2)) =
      within (itemsHeight items) depth (item :: items, rest) := by rw [hmore, map_within]
  rw [readItems?, hv]
  refine bind_within ?_
  rw [← hrest, Option.map_eq_bind]
  rfl

theorem readItems?_compact (hne : items ≠ [])
    (hback : ∀ item ∈ items, Starts item.chars ∧ ReadsBack item)
    (hfuel : 2 * ([','].intercalate (items.map chars)).length + 1 ≤ fuel) :
    readItems? fuel depth ([','].intercalate (items.map chars) ++ ']' :: rest) =
      within (itemsHeight items) depth (items, rest) := by
  induction items generalizing fuel with
  | nil => exact absurd rfl hne
  | cons item items ih =>
    obtain ⟨fuel, rfl⟩ : ∃ n, fuel = n + 1 := ⟨fuel - 1, by omega⟩
    obtain ⟨⟨hstarts, hitem⟩, hitems⟩ := List.forall_mem_cons.mp hback
    have hlength := hstarts.length_pos
    cases items with
    | nil =>
      rw [List.map_singleton, List.intercalate_singleton] at hfuel ⊢
      exact readItems?_last (hitem fuel depth _ (by omega) (ended_cons (.inr (.inl rfl)) rest))
    | cons next items =>
      rw [List.map_cons, List.map_cons, length_intercalate_comma] at hfuel
      rw [List.map_cons, List.map_cons, intercalate_comma]
      have hshort : 2 * ([','].intercalate ((next :: items).map chars)).length + 1 ≤ fuel := by
        rw [List.map_cons]
        omega
      exact readItems?_cons (hitem fuel depth _ (by omega) (ended_cons (.inl rfl) _))
        (ih (List.cons_ne_nil _ _) hitems hshort)

theorem readValue?_array (hs : Starts cs) :
    readValue? (fuel + 1) (depth + 1) ('[' :: cs) =
      (readItems? fuel depth cs).map fun r => (array r.1, r.2) := by
  have hopen : skipBlank ('[' :: cs) = '[' :: cs := rfl
  rw [readValue?.eq_def]
  dsimp only
  simp only [hopen, hs.skipBlank]
  obtain ⟨c, ds, rfl, hc⟩ := hs
  split
  · next heq => cases heq
  · next heq =>
    rw [(List.cons.inj heq).1] at hc
    exact absurd hc (by decide)
  · next hdepth _ =>
    cases hdepth
    rfl

theorem readsBack_array (hback : ∀ item ∈ items, Starts item.chars ∧ ReadsBack item) :
    ReadsBack (array items) := by
  refine readsBack_nested (chars_array items) (by rw [height]) (fun _ _ => rfl) ?_
  intro fuel depth rest hfuel
  cases items with
  | nil => exact within_zero.symm
  | cons item items =>
    have hstarts : Starts ([','].intercalate ((item :: items).map chars)) := by
      have hitem := (hback item List.mem_cons_self).1
      cases items with
      | nil => rwa [List.map_singleton, List.intercalate_singleton]
      | cons next items =>
        rw [List.map_cons, List.map_cons, List.intercalate_cons_cons, List.append_assoc]
        exact hitem.append _
    rw [readValue?_array (hstarts.append _),
      readItems?_compact (List.cons_ne_nil _ _) hback hfuel, map_within]

theorem readFields?_field
    (hv : readValue? fuel depth (field.2.chars ++ cs) = within field.2.height depth (field.2, cs)) :
    readFields? (fuel + 1) depth (fieldChars field ++ cs) =
      (within field.2.height depth (field.2, cs)).bind fun r =>
        match skipBlank r.2 with
        | ',' :: more =>
          (readFields? fuel depth more).bind fun s => some ((field.1, r.1) :: s.1, s.2)
        | '\x7d' :: rest => some ([(field.1, r.1)], rest)
        | _ => none := by
  have hkey := readText?_encode field.1 (':' :: (field.2.chars ++ cs))
  have hquote : skipBlank (fieldChars field ++ cs) = fieldChars field ++ cs := rfl
  have hcolon : skipBlank (':' :: (field.2.chars ++ cs)) = ':' :: (field.2.chars ++ cs) := rfl
  rw [readFields?.eq_def]
  simp only [hquote]
  simp only [fieldChars, List.cons_append, List.append_assoc, hkey, hcolon, hv,
    Option.bind_eq_bind, Option.bind_some]
  rfl

theorem readFields?_last
    (hv : readValue? fuel depth (field.2.chars ++ '\x7d' :: rest) =
      within field.2.height depth (field.2, '\x7d' :: rest)) :
    readFields? (fuel + 1) depth (fieldChars field ++ '\x7d' :: rest) =
      within (fieldsHeight [field]) depth ([field], rest) := by
  rw [readFields?_field hv]
  exact bind_within within_zero.symm

theorem readFields?_cons
    (hv : readValue? fuel depth (field.2.chars ++ ',' :: more) =
      within field.2.height depth (field.2, ',' :: more))
    (hmore : readFields? fuel depth more = within (fieldsHeight fields) depth (fields, rest)) :
    readFields? (fuel + 1) depth (fieldChars field ++ ',' :: more) =
      within (fieldsHeight (field :: fields)) depth (field :: fields, rest) := by
  have hrest : (readFields? fuel depth more).map (fun r => (field :: r.1, r.2)) =
      within (fieldsHeight fields) depth (field :: fields, rest) := by rw [hmore, map_within]
  rw [readFields?_field hv]
  refine bind_within ?_
  rw [← hrest, Option.map_eq_bind]
  rfl

theorem readFields?_compact (hne : fields ≠ []) (hback : ∀ field ∈ fields, ReadsBack field.2)
    (hfuel : 2 * ([','].intercalate (fields.map fieldChars)).length + 1 ≤ fuel) :
    readFields? fuel depth ([','].intercalate (fields.map fieldChars) ++ '\x7d' :: rest) =
      within (fieldsHeight fields) depth (fields, rest) := by
  induction fields generalizing fuel with
  | nil => exact absurd rfl hne
  | cons field fields ih =>
    obtain ⟨fuel, rfl⟩ : ∃ n, fuel = n + 1 := ⟨fuel - 1, by omega⟩
    obtain ⟨hvalue, hfields⟩ := List.forall_mem_cons.mp hback
    have hlength : field.2.chars.length < (fieldChars field).length := by
      simp only [fieldChars, List.length_append, List.length_cons]
      omega
    cases fields with
    | nil =>
      rw [List.map_singleton, List.intercalate_singleton] at hfuel ⊢
      exact readFields?_last
        (hvalue fuel depth _ (by omega) (ended_cons (.inr (.inr rfl)) rest))
    | cons next fields =>
      rw [List.map_cons, List.map_cons, length_intercalate_comma] at hfuel
      rw [List.map_cons, List.map_cons, intercalate_comma]
      have hshort : 2 * ([','].intercalate ((next :: fields).map fieldChars)).length + 1 ≤
          fuel := by
        rw [List.map_cons]
        omega
      exact readFields?_cons (hvalue fuel depth _ (by omega) (ended_cons (.inl rfl) _))
        (ih (List.cons_ne_nil _ _) hfields hshort)

theorem readValue?_object (hquote : cs.head? = some '\x22') :
    readValue? (fuel + 1) (depth + 1) ('\x7b' :: cs) =
      (readFields? fuel depth cs).map fun r => (object (Dict.ofList r.1), r.2) := by
  obtain ⟨ds, rfl⟩ := List.head?_eq_some_iff.mp hquote
  rfl

theorem readsBack_object (hkeys : fields.Pairwise fun a b => a.1 < b.1)
    (hback : ∀ field ∈ fields, ReadsBack field.2) : ReadsBack (object fields) := by
  refine readsBack_nested (chars_object fields) (by rw [height]) (fun _ _ => rfl) ?_
  intro fuel depth rest hfuel
  cases fields with
  | nil => exact within_zero.symm
  | cons field fields =>
    have hquote : ([','].intercalate ((field :: fields).map fieldChars) ++
        '\x7d' :: rest).head? = some '\x22' := by cases fields <;> rfl
    rw [readValue?_object hquote, readFields?_compact (List.cons_ne_nil _ _) hback hfuel,
      map_within, Dict.ofList_of_ascending hkeys]

end Lists

theorem starts_chars {j : Json} (h : j.Exact) : Starts j.chars := by
  cases h with
  | null => exact ⟨_, _, rfl, by decide⟩
  | bool b => cases b <;> exact ⟨_, _, rfl, by decide⟩
  | int _ _ => exact starts_int _
  | text s => exact ⟨_, _, chars_text s, by decide⟩
  | array _ => exact ⟨_, _, chars_array _, by decide⟩
  | object _ _ => exact ⟨_, _, chars_object _, by decide⟩

theorem readsBack {j : Json} (h : j.Exact) : ReadsBack j := by
  induction h with
  | null => exact readsBack_flat rfl (starts_chars .null) fun _ _ _ _ => rfl
  | bool b =>
    cases b with
    | false => exact readsBack_flat rfl (starts_chars (.bool false)) fun _ _ _ _ => rfl
    | true => exact readsBack_flat rfl (starts_chars (.bool true)) fun _ _ _ _ => rfl
  | int hmin hmax => exact readsBack_int hmin hmax
  | text s => exact readsBack_text s
  | array hitems ih =>
    exact readsBack_array fun item hitem => ⟨starts_chars (hitems item hitem), ih item hitem⟩
  | object hkeys _ ih => exact readsBack_object hkeys ih

/-- An exact document is read back from its text on one line, unless it is higher than texts may
nest. -/
theorem read?_compact {j : Json} (h : j.Exact) : read? j.compact = within j.height 127 j := by
  have hread : readValue? (2 * j.chars.length + 2) 127 j.chars = within j.height 127 (j, []) := by
    have hback := readsBack h (2 * j.chars.length + 2) 127 [] (by omega) ended_nil
    rwa [List.append_nil] at hback
  have hwhole : read? j.compact = (readValue? (2 * j.chars.length + 2) 127 j.chars).bind
      fun r => if (skipBlank r.2).isEmpty then some r.1 else none := rfl
  rw [hwhole, hread]
  unfold within
  split <;> rfl

end Json

end AttrChain
