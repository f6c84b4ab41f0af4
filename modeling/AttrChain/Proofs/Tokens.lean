import AttrChain.Filter.Printer
import AttrChain.Filter.Reader
import AttrChain.Proofs.Characters
import AttrChain.Proofs.Numerals

/-!
The tokens of filter texts: each is read back from its text where a space or the end follows, and
whatever the reader takes for a token has such a text.
-/

namespace AttrChain.Filter

open AttrChain.Text

def isNameStart (c : Char) : Bool := isLetter c || c == '_'

/-- What a token is made of: no sign in front of a number, and a name that starts with a letter or an
underscore. -/
def Token.Writable : Token → Prop
  | num n => 0 ≤ n.toInt
  | word name =>
    ∃ c cs, name.toList = c :: cs ∧ isNameStart c = true ∧ ∀ d ∈ cs, isNameChar d = true
  | _ => True

theorem isNameChar_of_isNameStart {c : Char} (h : isNameStart c = true) : isNameChar c = true := by
  rcases Bool.or_eq_true_iff.mp h with h | h
  · simp [isNameChar, isAlphanumeric, h]
  · simp [isNameChar, h]

theorem not_isBlank_of_isNameChar {c : Char} (h : isNameChar c = true) : isBlank c = false :=
  not_isBlank_of (by decide +kernel) h

theorem le_toNat_of_isNameStart {c : Char} (h : isNameStart c = true) : 0x41 ≤ c.toNat := by
  rcases Bool.or_eq_true_iff.mp h with hletter | hlow
  · apply Nat.le_of_not_lt
    intro hlt
    have hnot : isLetter c = false := inRanges_below _ hlt
    exact absurd hletter (ne_true_of_eq_false hnot)
  · rw [eq_of_beq hlow]
    decide

theorem not_isDigit_of_isNameStart {c : Char} (h : isNameStart c = true) : c.isDigit = false := by
  have hle := le_toNat_of_isNameStart h
  cases hdigit : c.isDigit with
  | false => rfl
  | true =>
    have hnine : c.toNat ≤ '9'.toNat := (Char.isDigit_iff_toNat.mp hdigit).2
    have : '9'.toNat = 57 := rfl
    omega

theorem not_isQuote_of_isNameStart {c : Char} (h : isNameStart c = true) :
    (c == '\x27' || c == '\x22') = false := by
  have hle := le_toNat_of_isNameStart h
  simp only [Bool.or_eq_false_iff, beq_eq_false_iff_ne]
  constructor <;> (rintro rfl; revert hle; decide)

section Texts

variable {quote c : Char} {cs s rest : List Char}

theorem readText_close : readText quote (quote :: rest) = .ok ([], rest) := by
  rw [readText.eq_def]
  exact if_pos rfl

theorem readText_plain (hclose : c ≠ quote) (hback : c ≠ '\\')
    (h : readText quote cs = .ok (s, rest)) :
    readText quote (c :: cs) = .ok (c :: s, rest) := by
  rw [readText.eq_def]
  dsimp only
  rw [if_neg hclose, if_neg hback, h]
  rfl

theorem readText_escaped (hquote : '\\' ≠ quote) (h : readText quote cs = .ok (s, rest)) :
    readText quote ('\\' :: c :: cs) = .ok (c :: s, rest) := by
  rw [readText.eq_def]
  dsimp only
  rw [if_neg hquote, if_pos rfl, h]
  rfl

theorem readText_encode (s rest : List Char) :
    readText '\x27' (s.flatMap Apostrophes.encodeChar ++ '\x27' :: rest) = .ok (s, rest) := by
  induction s with
  | nil => exact readText_close
  | cons c s ih =>
    rw [List.flatMap_cons, List.append_assoc]
    by_cases hspecial : c = '\x27' ∨ c = '\\'
    · have hchar : Apostrophes.encodeChar c = ['\\', c] := if_pos hspecial
      rw [hchar]
      exact readText_escaped (by decide) ih
    · have hchar : Apostrophes.encodeChar c = [c] := if_neg hspecial
      obtain ⟨hclose, hback⟩ := not_or.mp hspecial
      rw [hchar]
      exact readText_plain hclose hback ih

end Texts

/-- Whether a token ends here: the text ends, or a space follows. -/
def Stops (rest : List Char) : Prop := ∀ c ∈ rest.head?, c = ' '

theorem stops_nil : Stops [] := fun _ h => nomatch h

theorem stops_space (cs : List Char) : Stops (' ' :: cs) := by
  rintro c ⟨⟩
  rfl

theorem Stops.not_in {p : Char → Bool} {rest : List Char} (h : Stops rest) (hp : p ' ' = false) :
    ∀ c ∈ rest.head?, p c = false := by
  intro c hc
  rw [h c hc, hp]

namespace Token

/-- How a token is read from its text where `rest` follows. -/
def ReadsBack (rest : List Char) (t : Token) : Prop :=
  ∃ c cs, t.written = c :: cs ∧ isBlank c = false ∧ readToken c (cs ++ rest) = .ok (t, rest)

variable {rest : List Char}

theorem num_readsBack {n : Int64} (hn : 0 ≤ n.toInt) (hstop : Stops rest) :
    ReadsBack rest (.num n) := by
  obtain ⟨k, hk⟩ := Int.eq_ofNat_of_zero_le hn
  have hwritten : (num n).written = Nat.toDigits 10 k := by
    rw [written, hk]
    exact repr_ofNat k
  have hread : readInt? (num n).written = some n := readInt?_repr n
  have hdigits : ∀ c ∈ (num n).written, c.isDigit = true := by
    rw [hwritten]
    exact fun c => isDigit_of_mem_decimal
  cases hchars : (num n).written with
  | nil => exact absurd (hwritten.symm.trans hchars) Nat.toDigits_ne_nil
  | cons c cs =>
    rw [hchars] at hread hdigits
    have hc : c.isDigit = true := hdigits c List.mem_cons_self
    have hcs : ∀ d ∈ cs, d.isDigit = true := fun d hd => hdigits d (List.mem_cons_of_mem _ hd)
    obtain ⟨htake, hdrop⟩ := takeWhile_dropWhile_append hcs (hstop.not_in (by decide))
    refine ⟨c, cs, hchars, not_isBlank_of_isDigit hc, ?_⟩
    rw [readToken, if_pos hc, htake]
    dsimp only
    rw [hread, hdrop]

theorem text_readsBack (s : String) (rest : List Char) : ReadsBack rest (.text s) := by
  refine ⟨'\x27', s.toList.flatMap Apostrophes.encodeChar ++ ['\x27'], rfl, by decide, ?_⟩
  have hread := readText_encode s.toList rest
  rw [List.append_assoc, List.singleton_append, readToken, if_neg (by decide), if_pos (by decide),
    hread]
  exact congrArg (fun t => Except.ok (Token.text t, rest)) String.ofList_toList

theorem word_readsBack {name : String} (h : (word name).Writable) (hstop : Stops rest) :
    ReadsBack rest (.word name) := by
  obtain ⟨c, cs, hname, hc, hcs⟩ := h
  obtain ⟨htake, hdrop⟩ := takeWhile_dropWhile_append hcs (hstop.not_in (by decide))
  refine ⟨c, cs, hname, not_isBlank_of_isNameChar (isNameChar_of_isNameStart hc), ?_⟩
  have hdigit : ¬ c.isDigit = true := by simp [not_isDigit_of_isNameStart hc]
  have hquote : ¬ (c == '\x27' || c == '\x22') = true := by simp [not_isQuote_of_isNameStart hc]
  have hstart : (isLetter c || c == '_') = true := hc
  rw [readToken, if_neg hdigit, if_neg hquote, if_pos hstart, htake, hdrop, ← hname,
    String.ofList_toList]

/-- A sign that a space follows is not the start of a longer one. -/
theorem op_readsBack (o : Op) (hstop : Stops rest) : ReadsBack rest (.op o) := by
  rcases rest with _ | ⟨d, rest⟩
  · cases o <;> exact ⟨_, _, rfl, by decide, by rfl⟩
  · obtain rfl : d = ' ' := hstop d rfl
    cases o <;> exact ⟨_, _, rfl, by decide, by rfl⟩

theorem bang_readsBack (hstop : Stops rest) : ReadsBack rest .bang := by
  rcases rest with _ | ⟨d, rest⟩
  · exact ⟨_, _, rfl, by decide, rfl⟩
  · obtain rfl : d = ' ' := hstop d rfl
    exact ⟨_, _, rfl, by decide, rfl⟩

theorem Writable.readsBack {t : Token} (h : t.Writable) (hstop : Stops rest) :
    ReadsBack rest t := by
  cases t with
  | num n => exact num_readsBack h hstop
  | text s => exact text_readsBack s rest
  | word name => exact word_readsBack h hstop
  | op o => exact op_readsBack o hstop
  | bang => exact bang_readsBack hstop
  | opening => exact ⟨_, _, rfl, by decide, rfl⟩
  | closing => exact ⟨_, _, rfl, by decide, rfl⟩

end Token

theorem readTokens_space (fuel : Nat) (cs : List Char) :
    readTokens fuel (' ' :: cs) = readTokens fuel cs := by
  cases fuel with
  | zero => rfl
  | succ fuel => rw [readTokens, readTokens, List.dropWhile_cons_of_pos isBlank_space]

theorem readTokens_of_readsBack {t : Token} {ts : List Token} {rest : List Char} {fuel : Nat}
    (ht : t.ReadsBack rest) (hrest : readTokens fuel rest = .ok ts) :
    readTokens (fuel + 1) (t.written ++ rest) = .ok (t :: ts) := by
  obtain ⟨c, cs, hwritten, hblank, hread⟩ := ht
  have hnot : ¬ isBlank c = true := by simp [hblank]
  rw [hwritten, List.cons_append, readTokens, List.dropWhile_cons_of_neg hnot]
  dsimp only
  rw [hread]
  exact congrArg (fun r => r >>= fun ts => Except.ok (t :: ts)) hrest

theorem readTokens_writtenAll {ts : List Token} (h : ∀ t ∈ ts, t.Writable) {fuel : Nat}
    (hfuel : ts.length ≤ fuel) : readTokens fuel (writtenAll ts) = .ok ts := by
  induction ts generalizing fuel with
  | nil => cases fuel <;> rfl
  | cons t ts ih =>
    rw [List.length_cons] at hfuel
    obtain ⟨fuel, rfl⟩ : ∃ n, fuel = n + 1 := ⟨fuel - 1, by omega⟩
    have ht : t.Writable := h t List.mem_cons_self
    have hrest := ih (fun u hu => h u (List.mem_cons_of_mem _ hu)) (by omega : ts.length ≤ fuel)
    cases ts with
    | nil =>
      have hread := readTokens_of_readsBack (ht.readsBack stops_nil) hrest
      rw [List.append_nil] at hread
      rw [writtenAll, List.map_singleton, List.intercalate_singleton]
      exact hread
    | cons u ts =>
      rw [← readTokens_space] at hrest
      have hread := readTokens_of_readsBack (ht.readsBack (stops_space _)) hrest
      unfold writtenAll at hread ⊢
      rw [List.map_cons, List.map_cons, List.intercalate_cons_cons, List.append_assoc]
      exact hread

theorem readSign?_writable {cs rest : List Char} {t : Token} (h : readSign? cs = some (t, rest)) :
    t.Writable := by
  unfold readSign? at h
  split at h <;> cases h <;> trivial

theorem readToken_writable {c : Char} {cs rest : List Char} {t : Token}
    (h : readToken c cs = .ok (t, rest)) : t.Writable := by
  unfold readToken at h
  split at h
  · next hdigit =>
    dsimp only at h
    split at h
    · next n hn =>
      cases h
      exact toInt_nonneg_of_readInt? ⟨c, rfl, hdigit⟩ hn
    · cases h
  · split at h
    · obtain ⟨_, -, heq⟩ := ok_of_map h
      cases heq
      trivial
    · split at h
      · next hstart =>
        cases h
        refine ⟨c, cs.takeWhile isNameChar, String.toList_ofList, hstart, ?_⟩
        exact List.all_eq_true.mp List.all_takeWhile
      · split at h
        · next hsign =>
          cases h
          exact readSign?_writable hsign
        · cases h

theorem readTokens_writable {fuel : Nat} {cs : List Char} {ts : List Token}
    (h : readTokens fuel cs = .ok ts) : ∀ t ∈ ts, t.Writable := by
  induction fuel generalizing cs ts with
  | zero =>
    cases h
    exact fun _ ht => nomatch ht
  | succ fuel ih =>
    rw [readTokens] at h
    split at h
    · cases h
      exact fun _ ht => nomatch ht
    · next c rest _ =>
      obtain ⟨⟨t, rest⟩, hread, h⟩ := ok_of_bind h
      obtain ⟨ts, hts, heq⟩ := ok_of_bind h
      cases heq
      intro u hu
      rcases List.mem_cons.mp hu with rfl | hu
      · exact readToken_writable hread
      · exact ih hts u hu

end AttrChain.Filter
