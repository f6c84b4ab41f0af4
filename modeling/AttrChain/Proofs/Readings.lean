import AttrChain.Proofs.Outlines

/-!
Arguments are read one after the other, and a text in front of them is decoded piece by piece: it
ends at the first quote that belongs to no escape, and what follows it is read on its own.
-/

namespace AttrChain.Literal

open AttrChain.Text

theorem length_skipBlank_le (cs : List Char) : (skipBlank cs).length ≤ cs.length :=
  (List.dropWhile_sublist isBlank).length_le

theorem length_lt_of_readArgument {cs ds rest more : List Char} {c : Char} {arg : Argument}
    (hcs : skipBlank cs = c :: ds) (hread : readArgument (c :: ds) = .ok (arg, rest))
    (hrest : skipBlank rest = ',' :: more) : more.length < cs.length := by
  have hpass := (Passes.of_readArgument hread).length_le
  have hblanks := length_skipBlank_le cs
  have hmore := length_skipBlank_le rest
  rw [hcs] at hblanks
  rw [hrest, List.length_cons] at hmore
  omega

theorem readArguments_congr {cs : List Char} {m n : Nat} (hm : cs.length < m) (hn : cs.length < n) :
    readArguments m cs = readArguments n cs := by
  induction m generalizing n cs with
  | zero => exact absurd hm (Nat.not_lt_zero _)
  | succ m ih =>
    obtain ⟨n, rfl⟩ : ∃ k, n = k + 1 := ⟨n - 1, by omega⟩
    cases hcs : skipBlank cs with
    | nil => rw [readArguments_blank m hcs, readArguments_blank n hcs]
    | cons c ds =>
      cases hread : readArgument (c :: ds) with
      | error why => rw [readArguments_error m hcs hread, readArguments_error n hcs hread]
      | ok r =>
        obtain ⟨arg, rest⟩ := r
        cases hrest : skipBlank rest with
        | nil => rw [readArguments_end m hcs hread hrest, readArguments_end n hcs hread hrest]
        | cons d more =>
          by_cases hd : d = ','
          · subst hd
            have hshort := length_lt_of_readArgument hcs hread hrest
            rw [readArguments_comma m hcs hread hrest, readArguments_comma n hcs hread hrest,
              ih (by omega : more.length < m) (by omega : more.length < n)]
          · rw [readArguments_other m hcs hread hrest hd, readArguments_other n hcs hread hrest hd]

end AttrChain.Literal

namespace AttrChain.Arguments

open AttrChain.Text AttrChain.Literal

/-- What may stand behind an argument: blanks, or a comma and further arguments. -/
inductive Continued (rest : List Char) : Arguments → Prop where
  | done : skipBlank rest = [] → Continued rest .empty
  | comma {more : List Char} {a : Arguments} : skipBlank rest = ',' :: more →
      Arguments.read more = .ok a → Continued rest a

section First

variable {cs ds rest : List Char} {c : Char} {v : Value} {a : Arguments}

theorem read_eq_ok_iff : Arguments.read cs = .ok a ↔
    ∃ args, readArguments (cs.length + 1) cs = .ok args ∧ collect args = .ok a := by
  rw [Arguments.read]
  cases readArguments (cs.length + 1) cs with
  | ok args => simp
  | error why => simp

/-- Behind a first value the rest is read as if it stood alone. -/
theorem read_value_iff (hcs : skipBlank cs = c :: ds)
    (hread : readArgument (c :: ds) = .ok (.value v, rest)) :
    Arguments.read cs = .ok a ↔
      ∃ more, Continued rest more ∧ a = { more with args := v :: more.args } := by
  rw [read_eq_ok_iff]
  cases hrest : skipBlank rest with
  | nil =>
    have hlast : collect [.value v] = .ok ⟨[v], none⟩ := rfl
    rw [readArguments_end _ hcs hread hrest]
    constructor
    · rintro ⟨args, hargs, hcollect⟩
      cases hargs
      cases hlast.symm.trans hcollect
      exact ⟨.empty, .done hrest, rfl⟩
    · rintro ⟨more, hmore, rfl⟩
      cases hmore with
      | done _ => exact ⟨_, rfl, hlast⟩
      | comma hcomma _ => cases hrest.symm.trans hcomma
  | cons d after =>
    by_cases hd : d = ','
    · subst hd
      have hshort := length_lt_of_readArgument hcs hread hrest
      rw [readArguments_comma _ hcs hread hrest,
        readArguments_congr hshort (Nat.lt_succ_self after.length)]
      constructor
      · rintro ⟨args, hargs, hcollect⟩
        obtain ⟨others, hothers, rfl⟩ := ok_of_map hargs
        rw [collect] at hcollect
        obtain ⟨more, hmore, rfl⟩ := ok_of_map hcollect
        exact ⟨more, .comma hrest (read_eq_ok_iff.mpr ⟨others, hothers, hmore⟩), rfl⟩
      · rintro ⟨more, hmore, rfl⟩
        cases hmore with
        | done hdone => cases hrest.symm.trans hdone
        | comma hcomma hread =>
          cases hrest.symm.trans hcomma
          obtain ⟨others, hothers, hcollect⟩ := read_eq_ok_iff.mp hread
          refine ⟨.value v :: others, ?_, ?_⟩
          · rw [hothers]
            rfl
          · rw [collect, hcollect]
            rfl
    · rw [readArguments_other _ hcs hread hrest hd]
      constructor
      · rintro ⟨args, hargs, -⟩
        cases hargs
      · rintro ⟨more, hmore, -⟩
        cases hmore with
        | done hdone => cases hrest.symm.trans hdone
        | comma hcomma _ =>
          cases hrest.symm.trans hcomma
          exact absurd rfl hd

end First

section Texts

variable {quote : Char} {cs rest : List Char}

theorem readArgument_quote (hquote : isQuote quote = true) (cs : List Char) :
    readArgument (quote :: cs) = (readText quote (cs.length + 1) cs).map
      fun r => (.value (.text (String.ofList r.1)), r.2) := by
  have hblank : isBlank quote = false := not_isBlank_of (by decide) hquote
  have hword : readWord? (quote :: cs) = none := by
    have hbare : isBareChar quote = false := not_of_isQuote (by decide) hquote
    rw [readWord?, List.takeWhile_cons_of_neg (by simp [hbare])]
  have hlist : quote ≠ '[' := ne_of_class hquote (by decide)
  have hmap : quote ≠ '\x7b' := ne_of_class hquote (by decide)
  have hvalue (fuel : Nat) : readValue (fuel + 1) (quote :: cs) =
      (readText quote (cs.length + 1) cs).map fun r => (.text (String.ofList r.1), r.2) := by
    rw [readValue, skipBlank_of_not_isBlank hblank]
    dsimp only
    rw [if_neg (by simpa using hlist), if_neg (by simpa using hmap)]
    exact if_pos hquote
  rw [readArgument, hword]
  dsimp only
  rw [hvalue]
  cases readText quote (cs.length + 1) cs <;> rfl

/-- A first text is accepted exactly if it is made of pieces up to its closing quote and the rest
goes on as an argument list does; its value is what the pieces stand for. -/
theorem read_text_iff (hquote : isQuote quote = true) {blanks : List Char}
    (hblanks : ∀ c ∈ blanks, isBlank c = true) (cs : List Char) (a : Arguments) :
    Arguments.read (blanks ++ quote :: cs) = .ok a ↔
      ∃ (pieces : List (List Char × Char)) (rest : List Char) (more : Arguments),
        (∀ p ∈ pieces, Stands quote p.1 p.2 ∨ Signed p.1 p.2) ∧
        cs = pieces.flatMap Prod.fst ++ quote :: rest ∧ Continued rest more ∧
        a = { more with args := .text (String.ofList (pieces.map Prod.snd)) :: more.args } := by
  have hskip : skipBlank (blanks ++ quote :: cs) = quote :: cs := by
    have hblank : isBlank quote = false := not_isBlank_of (by decide) hquote
    rw [skipBlank, List.dropWhile_append_of_pos hblanks]
    exact skipBlank_of_not_isBlank hblank
  have hargument := readArgument_quote hquote cs
  constructor
  -- the text itself takes the pieces, and its error would be that of the whole list
  · intro h
    cases htext : readText quote (cs.length + 1) cs with
    | error why =>
      rw [htext] at hargument
      obtain ⟨args, hargs, -⟩ := read_eq_ok_iff.mp h
      rw [readArguments_error _ hskip hargument] at hargs
      cases hargs
    | ok r =>
      obtain ⟨s, rest⟩ := r
      rw [htext] at hargument
      obtain ⟨more, hmore, rfl⟩ := (read_value_iff hskip hargument).mp h
      obtain ⟨pieces, hpieces, hcs, rfl⟩ := pieces_of_readText htext
      exact ⟨pieces, rest, more, hpieces, hcs, hmore, rfl⟩
  · rintro ⟨pieces, rest, more, hpieces, hcs, hmore, rfl⟩
    have htext := (readText_iff hquote (Nat.lt_succ_self cs.length)).mpr
      ⟨pieces, hpieces, hcs, rfl⟩
    rw [htext] at hargument
    exact (read_value_iff hskip hargument).mpr ⟨more, hmore, rfl⟩

/-- An apostrophe kept by its backslash, a letter as its code point and one as it is. -/
theorem kept_apostrophe_read :
    Arguments.read " '\\'\\u0041x', 2".toList = .ok ⟨[.text "'Ax", .int 2], none⟩ := by
  have hquote : isQuote '\x27' = true := by decide
  have hblanks : ∀ c ∈ [' '], isBlank c = true := List.forall_mem_singleton.mpr isBlank_space
  refine (read_text_iff hquote hblanks _ _).mpr
    ⟨[(['\\', '\x27'], '\x27'), (['\\', 'u', '0', '0', '4', '1'], 'A'), (['x'], 'x')],
      [',', ' ', '2'], ⟨[.int 2], none⟩, ?_, rfl, .comma rfl rfl, rfl⟩
  intro p hp
  simp only [List.mem_cons, List.not_mem_nil, or_false] at hp
  rcases hp with rfl | rfl | rfl
  · exact .inl (.itself (by decide))
  · have hhex : ['0', '0', '4', '1'].all isHexDigit = true := by decide
    exact .inl (.code ⟨List.all_eq_true.mp hhex, by decide⟩)
  · exact .inl (.plain (by decide) (by decide))

/-- A plus sign gets by among the four digits, and no pieces without it make up the text. -/
theorem plus_sign_read : Arguments.read "'\\u+041'".toList = .ok ⟨[.text "A"], none⟩ ∧
    ¬ ∃ pieces : List (List Char × Char), (∀ p ∈ pieces, Stands '\x27' p.1 p.2) ∧
      "\\u+041".toList = pieces.flatMap Prod.fst := by
  refine ⟨rfl, ?_⟩
  rintro ⟨pieces, hpieces, htext⟩
  have hchars : "\\u+041".toList = ['\\', 'u', '+', '0', '4', '1'] := rfl
  rw [hchars] at htext
  cases pieces with
  | nil => cases htext
  | cons p pieces =>
    obtain ⟨written, c⟩ := p
    have hp : Stands '\x27' written c := hpieces _ List.mem_cons_self
    rw [List.flatMap_cons] at htext
    generalize pieces.flatMap Prod.fst = more at htext
    cases hp with
    | plain _ hback =>
      cases htext
      exact hback rfl
    | newline => cases htext
    | tab => cases htext
    | carriage => cases htext
    | zero => cases htext
    | itself hother =>
      cases htext
      exact hother (by decide)
    | code hnames =>
      cases htext
      exact absurd (hnames.hex '+' List.mem_cons_self) (by decide)

end Texts

end AttrChain.Arguments
