import Mathlib.Algebra.Group.Nat.Defs
import AttrChain.Proofs.Literals

/-!
What may stand between the quotes of a text: characters as they are, escapes by letter, and code
points of four digits in base sixteen. In place of the first of the four digits a plus sign gets by
as well. The reader takes exactly such pieces, up to the first quote that no backslash keeps.
-/

namespace AttrChain.Text

theorem digitValue_lt {c : Char} (h : isHexDigit c = true) : digitValue c < 16 := by
  have hclass : c.isDigit = true ∨ ('a' ≤ c ∧ c ≤ 'f') ∨ ('A' ≤ c ∧ c ≤ 'F') := by
    simpa [isHexDigit, or_assoc] using h
  have hcode : c.toNat < 103 := by
    rcases hclass with hdigit | ⟨-, hhigh⟩ | ⟨-, hhigh⟩
    · exact Nat.lt_of_le_of_lt (Char.isDigit_iff_toNat.mp hdigit).2 (by decide)
    · exact Nat.lt_succ_of_le hhigh
    · exact Nat.lt_of_le_of_lt hhigh (by decide)
  have hall : ∀ n ∈ List.range 103, isHexDigit (Char.ofNat n) = true →
      digitValue (Char.ofNat n) < 16 := by decide
  have hvalue := hall c.toNat (List.mem_range.mpr hcode)
  rw [Char.ofNat_toNat] at hvalue
  exact hvalue h

theorem appendDigits_lt {n : Nat} {digits : List Char} (h : ∀ c ∈ digits, isHexDigit c = true) :
    appendDigits 16 n digits < (n + 1) * 16 ^ digits.length := by
  induction digits generalizing n with
  | nil => exact Nat.lt_of_lt_of_eq (Nat.lt_succ_self n) (Nat.mul_one _).symm
  | cons c digits ih =>
    obtain ⟨hc, hdigits⟩ := List.forall_mem_cons.mp h
    have hvalue := digitValue_lt hc
    have hrest : appendDigits 16 (16 * n + digitValue c) digits <
        (16 * n + digitValue c + 1) * 16 ^ digits.length := ih hdigits
    have hle : 16 * n + digitValue c + 1 ≤ 16 * (n + 1) := by omega
    calc appendDigits 16 n (c :: digits)
        < (16 * n + digitValue c + 1) * 16 ^ digits.length := hrest
      _ ≤ 16 * (n + 1) * 16 ^ digits.length := Nat.mul_le_mul_right _ hle
      _ = (n + 1) * 16 ^ (c :: digits).length := by
          rw [List.length_cons, Nat.pow_succ, Nat.mul_comm 16, Nat.mul_assoc,
            Nat.mul_comm 16]

end AttrChain.Text

namespace AttrChain.Literal

open AttrChain.Text

/-- Digits in base sixteen that name a character. -/
structure Names (digits : List Char) (c : Char) : Prop where
  hex : ∀ d ∈ digits, isHexDigit d = true
  value : c.toNat = appendDigits 16 0 digits

/-- What may be written between the quotes for one character. -/
inductive Stands (quote : Char) : List Char → Char → Prop where
  | plain {c : Char} : c ≠ quote → c ≠ '\\' → Stands quote [c] c
  | newline : Stands quote ['\\', 'n'] '\n'
  | tab : Stands quote ['\\', 't'] '\t'
  | carriage : Stands quote ['\\', 'r'] '\r'
  | zero : Stands quote ['\\', '0'] '\x00'
  | itself {c : Char} : c ∉ ['n', 't', 'r', '0', 'u'] → Stands quote ['\\', c] c
  | code {a b c d e : Char} : Names [a, b, c, d] e → Stands quote ['\\', 'u', a, b, c, d] e

/-- Three digits with a plus sign in front. -/
inductive Signed : List Char → Char → Prop where
  | code {a b c d : Char} : Names [a, b, c] d → Signed ['\\', 'u', '+', a, b, c] d

/-- What the reader takes for one character. -/
def Piece (quote : Char) (written : List Char) (c : Char) : Prop :=
  Stands quote written c ∨ Signed written c

section CodePoints

variable {digits : List Char} {c : Char}

/-- Every number of four digits is that of a character, or a surrogate. -/
theorem ofNat_eq_iff {n : Nat} (h : n < 16 ^ 4) :
    (if n < 0xD800 ∨ 0xDFFF < n then some (Char.ofNat n) else none) = some c ↔ c.toNat = n := by
  constructor
  · intro hsome
    split at hsome
    · next hscalar =>
      have hvalid : n.isValidChar := by
        rcases hscalar with hlow | hhigh
        · exact .inl hlow
        · exact .inr ⟨hhigh, Nat.lt_trans h (by decide)⟩
      obtain rfl := Option.some.inj hsome
      rw [Char.ofNat, dif_pos hvalid]
      rfl
    · cases hsome
  · rintro rfl
    have hscalar : c.toNat < 0xD800 ∨ 0xDFFF < c.toNat := c.valid.imp_right And.left
    rw [if_pos hscalar, Char.ofNat_toNat]

theorem named_iff (hne : digits ≠ []) (hlength : digits.length ≤ 4) :
    (if digits.isEmpty || !digits.all isHexDigit then none
      else if appendDigits 16 0 digits < 0xD800 ∨ 0xDFFF < appendDigits 16 0 digits then
        some (Char.ofNat (appendDigits 16 0 digits))
      else none) = some c ↔ Names digits c := by
  have hempty : digits.isEmpty = false := List.isEmpty_eq_false_iff.mpr hne
  have hbound (hhex : ∀ d ∈ digits, isHexDigit d = true) : appendDigits 16 0 digits < 16 ^ 4 := by
    calc appendDigits 16 0 digits
        < (0 + 1) * 16 ^ digits.length := appendDigits_lt hhex
      _ = 16 ^ digits.length := Nat.one_mul _
      _ ≤ 16 ^ 4 := Nat.pow_le_pow_right (by decide) hlength
  rw [hempty, Bool.false_or]
  constructor
  · intro hsome
    split at hsome
    · cases hsome
    · next hall =>
      have hhex : ∀ d ∈ digits, isHexDigit d = true := by simpa using hall
      exact ⟨hhex, (ofNat_eq_iff (hbound hhex)).mp hsome⟩
  · rintro ⟨hhex, hvalue⟩
    have hall : digits.all isHexDigit = true := List.all_eq_true.mpr hhex
    rw [hall]
    exact (ofNat_eq_iff (hbound hhex)).mpr hvalue

/-- Four characters name a code point as digits, or as three digits behind a plus sign. -/
theorem codePoint?_eq_some_iff {a b d e : Char} :
    codePoint? [a, b, d, e] = some c ↔
      Names [a, b, d, e] c ∨ (a = '+' ∧ Names [b, d, e] c) := by
  by_cases hplus : a = '+'
  · subst hplus
    have hnot : ¬ Names ['+', b, d, e] c := by
      intro h
      exact absurd (h.hex '+' List.mem_cons_self) (by decide)
    rw [or_iff_right hnot, and_iff_right rfl]
    exact named_iff (List.cons_ne_nil b [d, e]) (Nat.le_succ 3)
  · rw [or_iff_left fun h => hplus h.1, ← named_iff (List.cons_ne_nil a [b, d, e]) (Nat.le_refl 4)]
    unfold codePoint?
    split
    · next heq => exact absurd (List.cons.inj heq).1 hplus
    · rfl

end CodePoints

section Reading

variable {quote c : Char} {fuel : Nat} {cs s rest written : List Char}

theorem not_of_isQuote {kind : Char → Bool}
    (hall : ['\x22', '\x27', '\x60'].all (fun q => !kind q) = true) (h : isQuote c = true) :
    kind c = false := by
  have hmem : c ∈ ['\x22', '\x27', '\x60'] := by simpa [isQuote, or_assoc] using h
  simpa using List.all_eq_true.mp hall c hmem

theorem not_isQuote_backslash : isQuote '\\' = false := by decide

theorem readText_piece (hquote : isQuote quote = true) (h : Piece quote written c)
    (hmore : readText quote fuel cs = .ok (s, rest)) :
    readText quote (fuel + 1) (written ++ cs) = .ok (c :: s, rest) := by
  have hback : '\\' ≠ quote := (ne_of_class hquote not_isQuote_backslash).symm
  have hcode {a b d e : Char} (h : codePoint? [a, b, d, e] = some c) :
      readText quote (fuel + 1) ('\\' :: 'u' :: a :: b :: d :: e :: cs) = .ok (c :: s, rest) := by
    rw [readText.eq_def]
    dsimp only
    rw [if_neg hback, if_pos rfl]
    simp only [List.take_succ_cons, List.take_zero, List.drop_succ_cons, List.drop_zero, h, hmore]
    rfl
  rcases h with h | h
  · cases h with
    | plain hclose hplain => exact readText_plain hclose hplain hmore
    | newline => exact readText_escaped hback (by decide) hmore
    | tab => exact readText_escaped hback (by decide) hmore
    | carriage => exact readText_escaped hback (by decide) hmore
    | zero => exact readText_escaped hback (by decide) hmore
    | itself hother =>
      simp only [List.mem_cons, List.not_mem_nil, or_false, not_or] at hother
      obtain ⟨hn, ht, hr, h0, hu⟩ := hother
      have hkept : escaped c = c := escaped.eq_5 c hn ht hr h0
      have hread := readText_escaped hback hu hmore
      rwa [hkept] at hread
    | code h => exact hcode (codePoint?_eq_some_iff.mpr (.inl h))
  · cases h with
    | code h => exact hcode (codePoint?_eq_some_iff.mpr (.inr ⟨rfl, h⟩))

theorem stands_escaped {e : Char} (h : e ≠ 'u') : Stands quote ['\\', e] (escaped e) := by
  by_cases hletter : e ∈ ['n', 't', 'r', '0']
  · simp only [List.mem_cons, List.not_mem_nil, or_false] at hletter
    rcases hletter with rfl | rfl | rfl | rfl
    · exact .newline
    · exact .tab
    · exact .carriage
    · exact .zero
  · have hother : e ∉ ['n', 't', 'r', '0', 'u'] := by simpa [h] using hletter
    simp only [List.mem_cons, List.not_mem_nil, or_false, not_or] at hletter
    obtain ⟨hn, ht, hr, h0⟩ := hletter
    rw [escaped.eq_5 e hn ht hr h0]
    exact .itself hother

theorem ne_nil_of_readText (h : readText quote fuel cs = .ok (s, rest)) : cs ≠ [] := by
  rintro rfl
  cases fuel <;> cases h

/-- The text goes on behind a code point, so none is cut short by the end. -/
theorem piece_codePoint {more ds : List Char} (h : codePoint? (more.take 4) = some c)
    (hread : readText quote fuel (more.drop 4) = .ok (ds, rest)) :
    Piece quote ('\\' :: 'u' :: more.take 4) c := by
  have hlong : 4 < more.length := by
    have hpos := List.length_pos_iff.mpr (ne_nil_of_readText hread)
    rw [List.length_drop] at hpos
    omega
  obtain ⟨a, b, d, e, hfour⟩ : ∃ a b d e, more.take 4 = [a, b, d, e] := by
    match more, hlong with
    | a :: b :: d :: e :: _, _ => exact ⟨a, b, d, e, rfl⟩
  rw [hfour] at h ⊢
  rcases codePoint?_eq_some_iff.mp h with hnames | ⟨rfl, hnames⟩
  · exact .inl (.code hnames)
  · exact .inr (.code hnames)

theorem readText_cases (h : readText quote fuel cs = .ok (s, rest)) :
    (cs = quote :: rest ∧ s = []) ∨
    ∃ written c more ds n, Piece quote written c ∧ cs = written ++ more ∧ s = c :: ds ∧
      fuel = n + 1 ∧ readText quote n more = .ok (ds, rest) := by
  cases fuel with
  | zero => cases h
  | succ fuel =>
    rw [readText.eq_def] at h
    cases cs with
    | nil => cases h
    | cons c cs =>
      dsimp only at h
      split at h
      · next hclose =>
        cases h
        exact .inl ⟨hclose ▸ rfl, rfl⟩
      · next hclose =>
        right
        split at h
        · next hback =>
          subst hback
          split at h
          · cases h
          · next more =>
            split at h
            · cases h
            · next d hpoint =>
              obtain ⟨⟨ds, after⟩, hread, heq⟩ := ok_of_bind h
              cases heq
              have htext : '\\' :: 'u' :: more = '\\' :: 'u' :: more.take 4 ++ more.drop 4 := by
                simp only [List.cons_append, List.take_append_drop]
              exact ⟨_, d, _, ds, fuel, piece_codePoint hpoint hread, htext, rfl, rfl, hread⟩
          · next e more hu =>
            obtain ⟨⟨ds, after⟩, hread, heq⟩ := ok_of_bind h
            cases heq
            have he : e ≠ 'u' := by
              rintro rfl
              exact hu rfl
            exact ⟨_, _, more, ds, fuel, .inl (stands_escaped he), rfl, rfl, rfl, hread⟩
        · next hback =>
          obtain ⟨⟨ds, after⟩, hread, heq⟩ := ok_of_bind h
          cases heq
          exact ⟨[c], c, cs, ds, fuel, .inl (.plain hclose hback), rfl, rfl, rfl, hread⟩

theorem Piece.ne_nil (h : Piece quote written c) : written ≠ [] := by
  rcases h with h | h
  · cases h <;> exact List.cons_ne_nil _ _
  · cases h
    exact List.cons_ne_nil _ _

theorem readText_pieces (hquote : isQuote quote = true) {pieces : List (List Char × Char)}
    (h : ∀ p ∈ pieces, Piece quote p.1 p.2) (hfuel : pieces.length < fuel) :
    readText quote fuel (pieces.flatMap Prod.fst ++ quote :: rest) =
      .ok (pieces.map Prod.snd, rest) := by
  induction pieces generalizing fuel with
  | nil =>
    obtain ⟨fuel, rfl⟩ : ∃ n, fuel = n + 1 := ⟨fuel - 1, by omega⟩
    exact readText_close
  | cons p pieces ih =>
    rw [List.length_cons] at hfuel
    obtain ⟨fuel, rfl⟩ : ∃ n, fuel = n + 1 := ⟨fuel - 1, by omega⟩
    obtain ⟨hp, hpieces⟩ := List.forall_mem_cons.mp h
    rw [List.flatMap_cons, List.append_assoc]
    exact readText_piece hquote hp (ih hpieces (by omega))

theorem pieces_of_readText (h : readText quote fuel cs = .ok (s, rest)) :
    ∃ pieces : List (List Char × Char), (∀ p ∈ pieces, Piece quote p.1 p.2) ∧
      cs = pieces.flatMap Prod.fst ++ quote :: rest ∧ s = pieces.map Prod.snd := by
  induction fuel generalizing cs s with
  | zero => cases h
  | succ fuel ih =>
    rcases readText_cases h with ⟨rfl, rfl⟩ | ⟨written, c, more, ds, n, hpiece, rfl, rfl, hn, hread⟩
    · exact ⟨[], List.forall_mem_nil _, rfl, rfl⟩
    · cases hn
      obtain ⟨pieces, hpieces, rfl, rfl⟩ := ih hread
      refine ⟨(written, c) :: pieces, List.forall_mem_cons.mpr ⟨hpiece, hpieces⟩, ?_, rfl⟩
      rw [List.flatMap_cons, List.append_assoc]

theorem length_le_pieces {pieces : List (List Char × Char)}
    (h : ∀ p ∈ pieces, Piece quote p.1 p.2) : pieces.length ≤ (pieces.flatMap Prod.fst).length := by
  induction pieces with
  | nil => exact Nat.zero_le _
  | cons p pieces ih =>
    obtain ⟨hp, hpieces⟩ := List.forall_mem_cons.mp h
    have hpos := List.length_pos_iff.mpr hp.ne_nil
    have hle := ih hpieces
    rw [List.flatMap_cons, List.length_append, List.length_cons]
    omega

theorem readText_iff (hquote : isQuote quote = true) (hfuel : cs.length < fuel) :
    readText quote fuel cs = .ok (s, rest) ↔
      ∃ pieces : List (List Char × Char), (∀ p ∈ pieces, Piece quote p.1 p.2) ∧
        cs = pieces.flatMap Prod.fst ++ quote :: rest ∧ s = pieces.map Prod.snd := by
  refine ⟨pieces_of_readText, ?_⟩
  rintro ⟨pieces, hpieces, rfl, rfl⟩
  have hle := length_le_pieces hpieces
  rw [List.length_append] at hfuel
  exact readText_pieces hquote hpieces (by omega)

/-- Pieces can end at one quote only, and stand for one text. -/
theorem ends_once (hquote : isQuote quote = true) {pieces others : List (List Char × Char)}
    {after : List Char} (hpieces : ∀ p ∈ pieces, Piece quote p.1 p.2)
    (hothers : ∀ p ∈ others, Piece quote p.1 p.2)
    (heq : pieces.flatMap Prod.fst ++ quote :: rest = others.flatMap Prod.fst ++ quote :: after) :
    pieces.map Prod.snd = others.map Prod.snd ∧ rest = after := by
  have hone : readText quote (pieces.length + others.length + 1)
      (pieces.flatMap Prod.fst ++ quote :: rest) = .ok (pieces.map Prod.snd, rest) :=
    readText_pieces hquote hpieces (by omega)
  have hother : readText quote (pieces.length + others.length + 1)
      (others.flatMap Prod.fst ++ quote :: after) = .ok (others.map Prod.snd, after) :=
    readText_pieces hquote hothers (by omega)
  rw [heq, hother, Except.ok.injEq, Prod.mk.injEq] at hone
  exact ⟨hone.1.symm, hone.2.symm⟩

end Reading

end AttrChain.Literal
