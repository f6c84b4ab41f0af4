import AttrChain.Proofs.Escapes

/-!
Where a scan of an argument list is: in which brackets, in a text or outside, and whether an item of
a list or a value of a map is due. What a reader takes leads the scan out of all brackets and texts
it has met, and past no underscore where a value is due.
-/

namespace AttrChain.Literal

open AttrChain.Text

/-- Characters that neither separate nor enclose anything in an argument list. -/
structure Quiet (c : Char) : Prop extends Plain c where
  colon : c ≠ ':'

def isNumeralChar (c : Char) : Bool :=
  c.isDigit || c == '.' || (c == 'e' || c == 'E') || (c == '+' || c == '-')

namespace Quiet

variable {c : Char}

theorem of_class {kind : Char → Bool} (hblank : ∀ n ∈ blankCodes, kind (Char.ofNat n) = false)
    (hsigns : (':' :: signs).all (fun d => !kind d) = true) (h : kind c = true) : Quiet c := by
  have hnot {d : Char} (hd : d ∈ ':' :: signs) : kind d = false := by
    simpa using List.all_eq_true.mp hsigns d hd
  refine ⟨⟨not_isBlank_of hblank h, ?_⟩, ne_of_class h (hnot List.mem_cons_self)⟩
  intro hsign
  exact absurd h (ne_true_of_eq_false (hnot (List.mem_cons_of_mem _ hsign)))

theorem of_isBareChar (h : isBareChar c = true) : Quiet c :=
  of_class (by decide +kernel) (by decide) h

theorem of_isHexDigit (h : isHexDigit c = true) : Quiet c := of_class (by decide) (by decide) h

theorem of_isNumeralChar (h : isNumeralChar c = true) : Quiet c :=
  of_class (by decide) (by decide) h

end Quiet

section Rests

variable {cs rest sign : List Char} {v : Value}

theorem readHexNumber_rest {negative : Bool} (h : readHexNumber negative cs = .ok (v, rest)) :
    rest = cs.dropWhile isHexDigit := by
  unfold readHexNumber at h
  dsimp only at h
  split at h
  · cases h
  · split at h
    · cases h
    · cases h
      rfl

theorem readDecimal_rest (h : readDecimal sign cs = .ok (v, rest)) :
    rest = (numeralSpan cs).2 := by
  unfold readDecimal at h
  dsimp only at h
  split at h
  · cases h
    rfl
  · cases h

theorem readUnsigned_rest (h : readUnsigned sign cs = .ok (v, rest)) :
    (∃ ds word, cs = 'I' :: ds ∧ readWord? cs = some (word, rest)) ∨
    (∃ mark ds, (mark = 'x' ∨ mark = 'X') ∧ cs = '0' :: mark :: ds ∧
      rest = ds.dropWhile isHexDigit) ∨
    rest = (numeralSpan cs).2 := by
  unfold readUnsigned at h
  dsimp only at h
  split at h
  · next ds =>
    split at h
    · next word after hword =>
      split at h
      · cases h
        exact .inl ⟨ds, word, rfl, hword⟩
      · cases h
    · cases h
  · next ds => exact .inr (.inl ⟨'x', ds, .inl rfl, rfl, readHexNumber_rest h⟩)
  · next ds => exact .inr (.inl ⟨'X', ds, .inr rfl, rfl, readHexNumber_rest h⟩)
  · exact .inr (.inr (readDecimal_rest h))

theorem ofWord_mark (word : List Char) : ofWord ('_' :: word) ≠ .ok v := by
  have hother {name : String} (h : String.ofList ('_' :: word) = name)
      (hname : name.toList.head? ≠ some '_') : False := by
    rw [← h, String.toList_ofList] at hname
    exact hname rfl
  intro hof
  unfold ofWord at hof
  split at hof
  · next h => exact hother h (by decide)
  · next h => exact hother h (by decide)
  · next h => exact hother h (by decide)
  · next h => exact hother h (by decide)
  · next h => exact hother h (by decide)
  · next h => exact hother h (by decide)
  · cases hof

end Rests

/-- Outside of texts, with a value due or not; inside of one; behind a backslash in one. -/
inductive Mode where
  | outside (due : Bool)
  | inside (quote : Char)
  | escape (quote : Char)
  deriving DecidableEq

/-- Where a scan is: the open brackets, innermost first, and the mode. -/
structure Place where
  opened : List Char
  mode : Mode
  deriving DecidableEq

namespace Place

def turn (opened : List Char) (c : Char) : List Char :=
  if c = '[' ∨ c = '\x7b' then c :: opened
  else if c = ']' ∨ c = '\x7d' then opened.tail
  else opened

/-- Whether `c` makes an item of a list or a value of a map due. -/
def asks (opened : List Char) (c : Char) : Bool :=
  c == '[' || (c == ',' && opened.head? == some '[') || (c == ':' && opened.head? == some '\x7b')

def step (p : Place) (c : Char) : Place :=
  match p.mode with
  | .outside _ =>
    if isBlank c then p
    else if isQuote c then { p with mode := .inside c }
    else ⟨turn p.opened c, .outside (asks p.opened c)⟩
  | .inside quote =>
    if c = '\\' then { p with mode := .escape quote }
    else if c = quote then { p with mode := .outside false }
    else p
  | .escape quote => { p with mode := .inside quote }

def behind (cs : List Char) : Place := cs.foldl step ⟨[], .outside false⟩

/-- Whether an item of a list or a value of a map comes next. -/
def Due (p : Place) : Prop := p.mode = .outside true

instance (p : Place) : Decidable p.Due := inferInstanceAs (Decidable (_ = _))

section Steps

variable {opened : List Char} {due : Bool} {quote c : Char}

theorem step_blank (h : isBlank c = true) :
    step ⟨opened, .outside due⟩ c = ⟨opened, .outside due⟩ := if_pos h

theorem step_quote (h : isQuote c = true) :
    step ⟨opened, .outside due⟩ c = ⟨opened, .inside c⟩ := by
  have hblank : isBlank c = false := not_isBlank_of (by decide) h
  simp [step, hblank, h]

theorem step_quiet (h : Quiet c) :
    step ⟨opened, .outside due⟩ c = ⟨opened, .outside false⟩ := by
  have hopen : c ≠ '[' ∧ c ≠ '\x7b' := ⟨h.ne (by decide), h.ne (by decide)⟩
  have hclose : c ≠ ']' ∧ c ≠ '\x7d' := ⟨h.ne (by decide), h.ne (by decide)⟩
  have hcomma : c ≠ ',' := h.ne (by decide)
  simp [step, turn, asks, h.blank, h.isQuote, hopen, hclose, hcomma, h.colon]

theorem step_inside (hback : c ≠ '\\') (hclose : c ≠ quote) :
    step ⟨opened, .inside quote⟩ c = ⟨opened, .inside quote⟩ := by
  simp [step, hback, hclose]

theorem step_close (h : isQuote quote = true) :
    step ⟨opened, .inside quote⟩ quote = ⟨opened, .outside false⟩ := by
  have hback : quote ≠ '\\' := ne_of_class h not_isQuote_backslash
  simp [step, hback]

end Steps

end Place

/-- How a scan goes on: from a place and the characters ahead to another place and the rest, past no
underscore where a value is due. -/
inductive Passes : Place → List Char → Place → List Char → Prop where
  | here {p : Place} {cs : List Char} : Passes p cs p cs
  | next {p q : Place} {c : Char} {cs rest : List Char} : ¬ (p.Due ∧ c = '_') →
      Passes (p.step c) cs q rest → Passes p (c :: cs) q rest

namespace Passes

variable {p q r : Place} {c : Char} {cs ds rest : List Char}

theorem trans (h : Passes p cs q ds) (hmore : Passes q ds r rest) : Passes p cs r rest := by
  induction h with
  | here => exact hmore
  | next hmark _ ih => exact .next hmark (ih hmore)

theorem length_le (h : Passes p cs q rest) : rest.length ≤ cs.length := by
  induction h with
  | here => exact Nat.le_refl _
  | next _ _ ih => exact Nat.le_succ_of_le ih

theorem sign (hc : c ≠ '_') (h : Passes (p.step c) cs q rest) : Passes p (c :: cs) q rest :=
  .next (fun hmark => hc hmark.2) h

theorem foldl_eq (h : Passes p cs q []) : cs.foldl Place.step p = q := by
  induction cs generalizing p with
  | nil =>
    cases h
    rfl
  | cons c cs ih =>
    cases h with
    | next _ h => exact ih h

theorem not_due {pre post : List Char} (h : Passes p (pre ++ '_' :: post) q []) :
    ¬ (pre.foldl Place.step p).Due := by
  induction pre generalizing p with
  | nil =>
    cases h with
    | next hmark _ => exact fun hdue => hmark ⟨hdue, rfl⟩
  | cons c pre ih =>
    cases h with
    | next _ h => exact ih h

section Outside

variable {opened : List Char} {due : Bool}

theorem blanks : Passes ⟨opened, .outside due⟩ cs ⟨opened, .outside due⟩ (skipBlank cs) := by
  induction cs with
  | nil => exact .here
  | cons c cs ih =>
    cases hblank : isBlank c with
    | false =>
      rw [skipBlank_of_not_isBlank hblank]
      exact .here
    | true =>
      rw [skipBlank, List.dropWhile_cons_of_pos hblank]
      refine sign (ne_of_class hblank (by decide)) ?_
      rw [Place.step_blank hblank]
      exact ih

theorem quiet (h : Quiet c) (hmark : due = true → c ≠ '_')
    (hmore : Passes ⟨opened, .outside false⟩ cs q rest) :
    Passes ⟨opened, .outside due⟩ (c :: cs) q rest := by
  refine .next ?_ ?_
  · rintro ⟨hdue, rfl⟩
    cases hdue
    exact hmark rfl rfl
  · rw [Place.step_quiet h]
    exact hmore

theorem undue (h : Quiet c) (hmore : Passes ⟨opened, .outside false⟩ cs q rest) :
    Passes ⟨opened, .outside false⟩ (c :: cs) q rest := quiet h (fun hdue => nomatch hdue) hmore

theorem run {kind : Char → Bool} (h : ∀ c, kind c = true → Quiet c) :
    Passes ⟨opened, .outside false⟩ cs ⟨opened, .outside false⟩ (cs.dropWhile kind) := by
  induction cs with
  | nil => exact .here
  | cons c cs ih =>
    cases hc : kind c with
    | false =>
      rw [List.dropWhile_cons_of_neg (by simp [hc])]
      exact .here
    | true =>
      rw [List.dropWhile_cons_of_pos hc]
      exact undue (h c hc) ih

end Outside

section Readers

variable {opened word s : List Char} {due : Bool} {quote : Char} {fuel : Nat} {v : Value}
  {sign : List Char}

/-- An underscore may start a word where nothing is due. -/
theorem of_readWord? (h : readWord? (c :: cs) = some (word, rest)) (hmark : due = true → c ≠ '_') :
    Passes ⟨opened, .outside due⟩ (c :: cs) ⟨opened, .outside false⟩ rest := by
  obtain ⟨hbare, -, rfl⟩ := Literal.of_readWord? h
  exact quiet (.of_isBareChar hbare) hmark (run fun _ => .of_isBareChar)

theorem numeral :
    Passes ⟨opened, .outside false⟩ cs ⟨opened, .outside false⟩ (numeralSpan cs).2 := by
  fun_induction numeralSpan cs with
  | case1 => exact .here
  | case2 c cs hc span after hspan ih =>
    rw [hspan] at ih
    exact undue (.of_isNumeralChar (by rw [isNumeralChar, hc]; rfl)) ih
  | case3 c _ hexp => exact undue (.of_isNumeralChar (by simp [isNumeralChar, hexp])) .here
  | case4 c _ hexp sign cs hsign span after hspan ih =>
    rw [hspan] at ih
    refine undue (.of_isNumeralChar (by simp [isNumeralChar, hexp])) ?_
    exact undue (.of_isNumeralChar (by simp [isNumeralChar, hsign])) ih
  | case5 c _ hexp d cs _ span after hspan ih =>
    rw [hspan] at ih
    exact undue (.of_isNumeralChar (by simp [isNumeralChar, hexp])) ih
  | case6 => exact .here

/-- A number without a sign; where a value is due it starts with a digit or a point. -/
theorem of_readUnsigned (h : readUnsigned sign cs = .ok (v, rest))
    (hstart : due = true → ∃ c ds, cs = c :: ds ∧ (c.isDigit || c == '.') = true) :
    Passes ⟨opened, .outside due⟩ cs ⟨opened, .outside false⟩ rest := by
  rcases readUnsigned_rest h with ⟨ds, word, rfl, hword⟩ | ⟨mark, ds, hmark, rfl, rfl⟩ | rfl
  · exact of_readWord? hword fun _ => by decide
  · have hquiet : Quiet mark := by
      rcases hmark with rfl | rfl
      · exact .of_isBareChar (by decide)
      · exact .of_isBareChar (by decide)
    refine quiet (.of_isHexDigit (by decide)) (fun _ => by decide) ?_
    exact undue hquiet (run fun _ => .of_isHexDigit)
  · cases due with
    | false => exact numeral
    | true =>
      obtain ⟨c, ds, rfl, hc⟩ := hstart rfl
      have hnumeral : isNumeralChar c = true := by rw [isNumeralChar, hc]; rfl
      have hspan : (numeralSpan (c :: ds)).2 = (numeralSpan ds).2 := by
        rw [numeralSpan.eq_def]
        simp [hc]
      rw [hspan]
      exact quiet (.of_isNumeralChar hnumeral) (fun _ => ne_of_class hnumeral (by decide)) numeral

theorem of_readNumber (h : readNumber (c :: cs) = .ok (v, rest))
    (hc : (c.isDigit || c == '-' || c == '+' || c == '.') = true) :
    Passes ⟨opened, .outside due⟩ (c :: cs) ⟨opened, .outside false⟩ rest := by
  have hsign (hsign : c = '-' ∨ c = '+') {sign : List Char}
      (h : readUnsigned sign cs = .ok (v, rest)) :
      Passes ⟨opened, .outside due⟩ (c :: cs) ⟨opened, .outside false⟩ rest := by
    have hnumeral : isNumeralChar c = true := by rcases hsign with rfl | rfl <;> decide
    exact quiet (.of_isNumeralChar hnumeral) (fun _ => ne_of_class hnumeral (by decide))
      (of_readUnsigned h fun hdue => nomatch hdue)
  unfold readNumber at h
  split at h
  · next heq =>
    cases heq
    exact hsign (.inl rfl) h
  · next heq =>
    cases heq
    exact hsign (.inr rfl) h
  · next hminus hplus =>
    refine of_readUnsigned h fun _ => ⟨c, cs, rfl, ?_⟩
    have hno : c ≠ '-' ∧ c ≠ '+' := by
      constructor
      · rintro rfl
        exact hminus cs rfl
      · rintro rfl
        exact hplus cs rfl
    simpa [hno] using hc

theorem of_readNamed (h : readNamed cs = .ok (v, rest)) :
    Passes ⟨opened, .outside due⟩ cs ⟨opened, .outside false⟩ rest := by
  unfold readNamed at h
  split at h
  · cases h
  · next c cs =>
    split at h
    · cases h
    · next word after hword =>
      obtain ⟨w, hof, heq⟩ := ok_of_map h
      cases heq
      -- a word may start with an underscore, but then it names no value
      refine of_readWord? hword ?_
      rintro - rfl
      obtain ⟨-, rfl, -⟩ := Literal.of_readWord? hword
      exact ofWord_mark _ hof

theorem inside (h : Passes ((Place.mk opened (.inside quote)).step c) cs q rest) :
    Passes ⟨opened, .inside quote⟩ (c :: cs) q rest :=
  .next (fun hdue => nomatch hdue.1) h

theorem inside_plain (hback : c ≠ '\\') (hclose : c ≠ quote)
    (h : Passes ⟨opened, .inside quote⟩ cs q rest) :
    Passes ⟨opened, .inside quote⟩ (c :: cs) q rest := by
  refine inside ?_
  rw [Place.step_inside hback hclose]
  exact h

theorem inside_escape (h : Passes ⟨opened, .inside quote⟩ cs q rest) :
    Passes ⟨opened, .inside quote⟩ ('\\' :: c :: cs) q rest :=
  inside (.next (fun hdue => nomatch hdue.1) h)

def isCodeChar (c : Char) : Bool := isHexDigit c || c == '+'

theorem isCodeChar_of_names {digits : List Char} (h : Names digits c) :
    ∀ d ∈ digits, isCodeChar d = true := by
  intro d hd
  rw [isCodeChar, h.hex d hd]
  rfl

theorem inside_code (hquote : isQuote quote = true) {digits : List Char}
    (hdigits : ∀ d ∈ digits, isCodeChar d = true)
    (h : Passes ⟨opened, .inside quote⟩ cs q rest) :
    Passes ⟨opened, .inside quote⟩ (digits ++ cs) q rest := by
  induction digits with
  | nil => exact h
  | cons d digits ih =>
    obtain ⟨hd, hdigits⟩ := List.forall_mem_cons.mp hdigits
    have hback : d ≠ '\\' := ne_of_class hd (by decide)
    have hclose : d ≠ quote := ne_of_class hd (not_of_isQuote (by decide) hquote)
    exact inside_plain hback hclose (ih hdigits)

theorem inside_piece (hquote : isQuote quote = true) (hpiece : Piece quote s c)
    (h : Passes ⟨opened, .inside quote⟩ cs q rest) :
    Passes ⟨opened, .inside quote⟩ (s ++ cs) q rest := by
  rcases hpiece with hpiece | hpiece
  · cases hpiece with
    | plain hclose hback => exact inside_plain hback hclose h
    | newline => exact inside_escape h
    | tab => exact inside_escape h
    | carriage => exact inside_escape h
    | zero => exact inside_escape h
    | itself _ => exact inside_escape h
    | code hnames => exact inside_escape (inside_code hquote (isCodeChar_of_names hnames) h)
  · cases hpiece with
    | @code a b d c hnames =>
      have hdigits : ∀ e ∈ ['+', a, b, d], isCodeChar e = true :=
        List.forall_mem_cons.mpr ⟨by decide, isCodeChar_of_names hnames⟩
      exact inside_escape (inside_code hquote hdigits h)

theorem of_readText (hquote : isQuote quote = true) (h : readText quote fuel cs = .ok (s, rest)) :
    Passes ⟨opened, .inside quote⟩ cs ⟨opened, .outside false⟩ rest := by
  obtain ⟨pieces, hpieces, rfl, -⟩ := pieces_of_readText h
  clear h
  induction pieces with
  | nil =>
    refine inside ?_
    rw [Place.step_close hquote]
    exact .here
  | cons p pieces ih =>
    obtain ⟨hp, hpieces⟩ := List.forall_mem_cons.mp hpieces
    rw [List.flatMap_cons, List.append_assoc]
    exact inside_piece hquote hp (ih hpieces)

theorem of_quote (hquote : isQuote c = true) (h : readText c fuel cs = .ok (s, rest)) :
    Passes ⟨opened, .outside due⟩ (c :: cs) ⟨opened, .outside false⟩ rest := by
  refine sign (ne_of_class hquote (by decide)) ?_
  rw [Place.step_quote hquote]
  exact of_readText hquote h

theorem of_readKey {key : String} (h : readKey cs = .ok (key, rest)) :
    Passes ⟨opened, .outside false⟩ cs ⟨opened, .outside false⟩ rest := by
  unfold readKey at h
  split at h
  · cases h
  · next c cs =>
    split at h
    · next hquote =>
      obtain ⟨⟨s, after⟩, hread, heq⟩ := ok_of_bind h
      cases heq
      exact of_quote hquote hread
    · split at h
      · next word after hword =>
        cases h
        rcases Option.or_eq_some_iff.mp hword with hword | ⟨-, hdigits⟩
        · exact of_readWord? hword fun hdue => nomatch hdue
        · unfold readDigits? at hdigits
          split at hdigits
          · cases hdigits
          · cases hdigits
            exact run fun d hd => ⟨.of_isDigit hd, ne_of_class hd (by decide)⟩
      · cases h

theorem of_skipColon (h : skipColon cs = .ok rest) :
    Passes ⟨'\x7b' :: opened, .outside false⟩ cs ⟨'\x7b' :: opened, .outside true⟩ rest := by
  unfold skipColon at h
  refine blanks.trans ?_
  split at h
  · next heq =>
    cases h
    rw [heq]
    exact .sign (by decide) .here
  · cases h
  · cases h

end Readers

end Passes

/-- How far the readers go with this much fuel: a value leaves the scan outside and with nothing due,
the items of a list and the entries of a map leave the brackets around them as well. -/
structure Passing (fuel : Nat) : Prop where
  value {cs rest : List Char} {v : Value} : readValue fuel cs = .ok (v, rest) →
    ∀ opened due, Passes ⟨opened, .outside due⟩ cs ⟨opened, .outside false⟩ rest
  items {cs rest : List Char} {items : List Value} : readItems fuel cs = .ok (items, rest) →
    ∀ opened, Passes ⟨'[' :: opened, .outside true⟩ cs ⟨opened, .outside false⟩ rest
  entries {cs rest : List Char} {entries : List (String × Value)} :
    readEntries fuel cs = .ok (entries, rest) →
    ∀ opened, Passes ⟨'\x7b' :: opened, .outside false⟩ cs ⟨opened, .outside false⟩ rest

namespace Passing

variable {fuel : Nat} {opened cs rest : List Char} {due : Bool}

theorem value_succ (h : Passing fuel) {v : Value} (hread : readValue (fuel + 1) cs = .ok (v, rest)) :
    Passes ⟨opened, .outside due⟩ cs ⟨opened, .outside false⟩ rest := by
  rw [readValue] at hread
  refine Passes.blanks.trans ?_
  split at hread
  · cases hread
  · next c ds heq =>
    rw [heq]
    split at hread
    · next hc =>
      obtain rfl := eq_of_beq hc
      obtain ⟨⟨items, after⟩, hitems, heq⟩ := ok_of_map hread
      cases heq
      exact .sign (by decide) (h.items hitems opened)
    · split at hread
      · next hc =>
        obtain rfl := eq_of_beq hc
        obtain ⟨⟨entries, after⟩, hentries, heq⟩ := ok_of_map hread
        cases heq
        exact .sign (by decide) (h.entries hentries opened)
      · split at hread
        · next hquote =>
          obtain ⟨⟨s, after⟩, htext, heq⟩ := ok_of_map hread
          cases heq
          exact .of_quote hquote htext
        · split at hread
          · next hc => exact .of_readNumber hread hc
          · exact .of_readNamed hread

theorem items_succ (h : Passing fuel) {items : List Value}
    (hread : readItems (fuel + 1) cs = .ok (items, rest)) :
    Passes ⟨'[' :: opened, .outside true⟩ cs ⟨opened, .outside false⟩ rest := by
  rw [readItems.eq_def] at hread
  dsimp only at hread
  refine Passes.blanks.trans ?_
  split at hread
  · next after heq =>
    cases hread
    rw [heq]
    exact .sign (by decide) .here
  · obtain ⟨⟨item, after⟩, hitem, hread⟩ := ok_of_bind hread
    -- the item leads back into the brackets of the list, and a comma to where they are now
    refine (h.value hitem ('[' :: opened) true).trans (Passes.blanks.trans ?_)
    dsimp only at hread
    split at hread
    · next more heq =>
      obtain ⟨⟨items, after⟩, hitems, heq'⟩ := ok_of_bind hread
      cases heq'
      rw [heq]
      exact .sign (by decide) (h.items hitems opened)
    · next more heq =>
      cases hread
      rw [heq]
      exact .sign (by decide) .here
    · cases hread

theorem entries_succ (h : Passing fuel) {entries : List (String × Value)}
    (hread : readEntries (fuel + 1) cs = .ok (entries, rest)) :
    Passes ⟨'\x7b' :: opened, .outside false⟩ cs ⟨opened, .outside false⟩ rest := by
  rw [readEntries.eq_def] at hread
  dsimp only at hread
  refine Passes.blanks.trans ?_
  split at hread
  · next after heq =>
    cases hread
    rw [heq]
    exact .sign (by decide) .here
  · obtain ⟨⟨key, afterKey⟩, hkey, hread⟩ := ok_of_bind hread
    obtain ⟨afterColon, hcolon, hread⟩ := ok_of_bind hread
    obtain ⟨⟨v, after⟩, hvalue, hread⟩ := ok_of_bind hread
    -- nothing is due at the key, so an underscore may start it
    refine (Passes.of_readKey hkey).trans ((Passes.of_skipColon hcolon).trans ?_)
    refine (h.value hvalue ('\x7b' :: opened) true).trans (Passes.blanks.trans ?_)
    dsimp only at hread
    split at hread
    · next more heq =>
      obtain ⟨⟨entries, after⟩, hentries, heq'⟩ := ok_of_bind hread
      cases heq'
      rw [heq]
      exact .sign (by decide) (h.entries hentries opened)
    · next more heq =>
      cases hread
      rw [heq]
      exact .sign (by decide) .here
    · cases hread

end Passing

theorem passing (fuel : Nat) : Passing fuel := by
  -- the three readers call each other with less fuel, so they are carried together
  induction fuel with
  | zero =>
    constructor
    · exact fun h => nomatch h
    · exact fun h => nomatch h
    · exact fun h => nomatch h
  | succ fuel ih =>
    exact ⟨fun h _ _ => ih.value_succ h, fun h _ => ih.items_succ h, fun h _ => ih.entries_succ h⟩

namespace Passes

theorem of_readArgument {cs rest : List Char} {arg : Argument}
    (h : readArgument cs = .ok (arg, rest)) :
    Passes ⟨[], .outside false⟩ cs ⟨[], .outside false⟩ rest := by
  rcases Literal.of_readArgument h with ⟨word, n, hword, -, -⟩ | ⟨v, hread, -⟩
  · cases cs with
    | nil => cases hword
    | cons c cs => exact of_readWord? hword fun hdue => nomatch hdue
  · exact (passing _).value hread [] false

theorem of_readArguments {fuel : Nat} {cs : List Char} {args : List Argument}
    (h : readArguments fuel cs = .ok args) (hfuel : cs.length < fuel) :
    Passes ⟨[], .outside false⟩ cs ⟨[], .outside false⟩ [] := by
  induction fuel generalizing cs args with
  | zero => exact absurd hfuel (Nat.not_lt_zero _)
  | succ fuel ih =>
    have hblanks : Passes ⟨[], .outside false⟩ cs ⟨[], .outside false⟩ (skipBlank cs) := blanks
    rw [readArguments.eq_def] at h
    dsimp only at h
    refine hblanks.trans ?_
    split at h
    · next heq =>
      rw [heq]
      exact .here
    · obtain ⟨⟨arg, after⟩, harg, h⟩ := ok_of_bind h
      have hpass := (of_readArgument harg).trans blanks
      have hshort := Nat.le_trans hpass.length_le hblanks.length_le
      refine hpass.trans ?_
      dsimp only at h
      split at h
      · next heq =>
        rw [heq]
        exact .here
      · next more heq =>
        obtain ⟨args, hmore, -⟩ := ok_of_bind h
        rw [heq, List.length_cons] at hshort
        rw [heq]
        exact .sign (by decide) (ih hmore (by omega))
      · cases h

end Passes

end AttrChain.Literal
