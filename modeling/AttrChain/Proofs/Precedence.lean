import AttrChain.Proofs.Tokens

/-!
Filter expressions and their texts. An expression that is written with as few parentheses as its
operators need is read back as it was, so the reader groups operators by their precedence and from
the left; and whatever the reader makes of a text can be written in this way.
-/

namespace AttrChain.Filter

open AttrChain.Text

namespace Op

theorem precedence_pos (o : Op) : 0 < o.precedence := by cases o <;> decide

theorem precedence_lt (o : Op) : o.precedence < 7 := by cases o <;> decide

end Op

/-- Whether no operator that binds tighter than `floor` comes next. -/
def Ends (floor : Nat) (ts : List Token) : Prop :=
  ∀ o rest, ts = .op o :: rest → o.precedence ≤ floor

theorem ends_nil (floor : Nat) : Ends floor [] := fun _ _ h => nomatch h

theorem ends_closing (floor : Nat) (ts : List Token) : Ends floor (.closing :: ts) :=
  fun _ _ h => nomatch h

theorem ends_op {floor : Nat} {o : Op} (h : o.precedence ≤ floor) (ts : List Token) :
    Ends floor (.op o :: ts) := by
  rintro o' rest heq
  cases heq
  exact h

section Steps

variable {fuel floor : Nat} {e left right : Expr} {ts rest : List Token} {o : Op}

theorem readBinary_of_unary (h : readUnary fuel ts = .ok (e, rest)) :
    readBinary (fuel + 1) floor ts = readTail fuel floor e rest := by
  rw [readBinary, h]
  rfl

theorem readTail_of_ends (h : Ends floor ts) : readTail (fuel + 1) floor e ts = .ok (e, ts) := by
  by_cases hop : ∃ o rest, ts = .op o :: rest
  · obtain ⟨o, rest, rfl⟩ := hop
    rw [readTail]
    dsimp only
    rw [if_pos (h o rest rfl)]
  · rw [readTail]
    exact fun o rest heq => hop ⟨o, rest, heq⟩

theorem readTail_of_tight (ho : floor < o.precedence)
    (h : readBinary fuel o.precedence ts = .ok (right, rest)) :
    readTail (fuel + 1) floor left (.op o :: ts) =
      readTail fuel floor (.binary o left right) rest := by
  rw [readTail]
  dsimp only
  rw [if_neg (Nat.not_le.mpr ho), h]
  rfl

theorem readUnary_bang (h : readUnary fuel ts = .ok (e, rest)) :
    readUnary (fuel + 1) (.bang :: ts) = .ok (.not e, rest) := by
  rw [readUnary, h]
  rfl

theorem readUnary_minus (h : readUnary fuel ts = .ok (e, rest)) :
    readUnary (fuel + 1) (.op .sub :: ts) = .ok (.neg e, rest) := by
  rw [readUnary, h]
  rfl

theorem readUnary_opening :
    readUnary (fuel + 1) (.opening :: ts) = readOperand fuel (.opening :: ts) := by
  rw [readUnary]
  all_goals exact fun _ h => nomatch h

theorem readOperand_enclosed (h : readBinary fuel 0 ts = .ok (e, .closing :: rest)) :
    readOperand (fuel + 1) (.opening :: ts) = .ok (e, rest) := by
  rw [readOperand, h]
  rfl

end Steps

/-- How the tokens of an expression are read: an expression without an operator on its outside is an
operand, and any expression is taken up to the place where the reader looks for the next operator.
Four units of fuel for each token are enough, and no more than one for each is used up. -/
structure Expr.ReadsBack (e : Expr) : Prop where
  operand : e.tightness = 7 → ∀ rest fuel, 4 * e.tokens.length ≤ fuel + 1 →
    readUnary fuel (e.tokens ++ rest) = .ok (e, rest)
  climb : ∀ floor rest fuel, floor < e.tightness → Ends e.tightness rest →
    4 * e.tokens.length ≤ fuel →
    ∃ left, fuel ≤ left + e.tokens.length ∧
      readBinary fuel floor (e.tokens ++ rest) = readTail left floor e rest

namespace Expr

theorem tokens_length_pos (e : Expr) : 0 < e.tokens.length := by
  cases e with
  | item field => cases field <;> exact Nat.one_pos
  | binary op left right =>
    rw [tokens, List.length_append, List.length_cons]
    omega
  | _ => simp [tokens]

theorem tightness_pos (e : Expr) : 0 < e.tightness := by
  cases e with
  | binary op left right => exact op.precedence_pos
  | _ => exact Nat.succ_pos 6

namespace ReadsBack

variable {e : Expr}

theorem of_operand
    (h : ∀ rest fuel, 4 * e.tokens.length ≤ fuel + 1 →
      readUnary fuel (e.tokens ++ rest) = .ok (e, rest)) : ReadsBack e := by
  refine ⟨fun _ => h, ?_⟩
  intro floor rest fuel _ _ hfuel
  have hpos := e.tokens_length_pos
  obtain ⟨fuel, rfl⟩ : ∃ n, fuel = n + 1 := ⟨fuel - 1, by omega⟩
  exact ⟨fuel, by omega, readBinary_of_unary (h rest fuel hfuel)⟩

theorem enclosed (h : ReadsBack e) (rest : List Token) {fuel : Nat}
    (hfuel : 4 * e.tokens.length + 2 ≤ fuel) :
    readUnary fuel (.opening :: e.tokens ++ .closing :: rest) = .ok (e, rest) := by
  have hpos := e.tokens_length_pos
  obtain ⟨fuel, rfl⟩ : ∃ n, fuel = n + 2 := ⟨fuel - 2, by omega⟩
  obtain ⟨left, hleft, hread⟩ :=
    h.climb 0 (.closing :: rest) fuel e.tightness_pos (ends_closing _ rest) (by omega)
  obtain ⟨left, rfl⟩ : ∃ n, left = n + 1 := ⟨left - 1, by omega⟩
  rw [readTail_of_ends (ends_closing 0 rest)] at hread
  rw [List.cons_append, readUnary_opening]
  exact readOperand_enclosed hread

theorem signed (h : ReadsBack e) (rest : List Token) {fuel : Nat}
    (hfuel : 4 * (parenthesized (e.tightness < 7) e.tokens).length ≤ fuel + 1) :
    readUnary fuel (parenthesized (e.tightness < 7) e.tokens ++ rest) = .ok (e, rest) := by
  unfold parenthesized at hfuel ⊢
  split at hfuel
  · next hneeded =>
    rw [if_pos hneeded, List.append_assoc]
    simp only [List.length_append, List.length_cons, List.length_nil] at hfuel
    exact h.enclosed rest (by omega)
  · next hneeded =>
    rw [if_neg hneeded]
    have htight : e.tightness = 7 := by
      cases e with
      | binary op left right => exact absurd (decide_eq_true op.precedence_lt) hneeded
      | _ => rfl
    exact h.operand htight rest fuel hfuel

theorem climb_parenthesized (h : ReadsBack e) {needed : Bool} {floor fuel : Nat}
    {rest : List Token}
    (hbare : needed = false → floor < e.tightness ∧ Ends e.tightness rest)
    (hfuel : 4 * (parenthesized needed e.tokens).length ≤ fuel) :
    ∃ left, fuel ≤ left + (parenthesized needed e.tokens).length ∧
      readBinary fuel floor (parenthesized needed e.tokens ++ rest) =
        readTail left floor e rest := by
  cases needed with
  | false =>
    obtain ⟨hfloor, hends⟩ := hbare rfl
    exact h.climb floor rest fuel hfloor hends hfuel
  | true =>
    unfold parenthesized at hfuel ⊢
    rw [if_pos rfl] at hfuel ⊢
    simp only [List.length_append, List.length_cons, List.length_nil] at hfuel ⊢
    obtain ⟨fuel, rfl⟩ : ∃ n, fuel = n + 1 := ⟨fuel - 1, by omega⟩
    refine ⟨fuel, by omega, ?_⟩
    rw [List.append_assoc]
    exact readBinary_of_unary (h.enclosed rest (by omega))

theorem binary {op : Op} {left right : Expr} (hl : ReadsBack left) (hr : ReadsBack right) :
    ReadsBack (.binary op left right) := by
  refine ⟨fun htight => absurd htight (Nat.ne_of_lt op.precedence_lt), ?_⟩
  intro floor rest fuel hfloor hends hfuel
  change floor < op.precedence at hfloor
  change Ends op.precedence rest at hends
  simp only [tokens, List.length_append, List.length_cons] at hfuel ⊢
  rw [List.append_assoc, List.cons_append]
  -- The left operand is read up to the operator, with fuel left for the right one.
  have hbareLeft : decide (left.tightness < op.precedence) = false →
      floor < left.tightness ∧ Ends left.tightness
        (.op op :: (parenthesized (right.tightness ≤ op.precedence) right.tokens ++ rest)) := by
    intro hbare
    have hle : op.precedence ≤ left.tightness := Nat.not_lt.mp (of_decide_eq_false hbare)
    exact ⟨Nat.lt_of_lt_of_le hfloor hle, ends_op hle _⟩
  have hfuelLeft : 4 * (parenthesized (left.tightness < op.precedence) left.tokens).length ≤ fuel :=
    by omega
  obtain ⟨fuel₁, hfuel₁, hleft⟩ := hl.climb_parenthesized hbareLeft hfuelLeft
  obtain ⟨fuel₁, rfl⟩ : ∃ n, fuel₁ = n + 1 := ⟨fuel₁ - 1, by omega⟩
  -- The right operand stops in front of `rest`, since it binds tighter than what may follow.
  have hbareRight : decide (right.tightness ≤ op.precedence) = false →
      op.precedence < right.tightness ∧ Ends right.tightness rest := by
    intro hbare
    have hlt : op.precedence < right.tightness := Nat.not_le.mp (of_decide_eq_false hbare)
    exact ⟨hlt, fun o r heq => Nat.le_trans (hends o r heq) (Nat.le_of_lt hlt)⟩
  have hfuelRight :
      4 * (parenthesized (right.tightness ≤ op.precedence) right.tokens).length ≤ fuel₁ := by omega
  obtain ⟨fuel₂, hfuel₂, hright⟩ := hr.climb_parenthesized hbareRight hfuelRight
  obtain ⟨fuel₂, rfl⟩ : ∃ n, fuel₂ = n + 1 := ⟨fuel₂ - 1, by omega⟩
  rw [readTail_of_ends hends] at hright
  refine ⟨fuel₁, by omega, ?_⟩
  rw [hleft, readTail_of_tight hfloor hright]

theorem of_token {t : Token} (ht : e.tokens = [t])
    (hbang : t ≠ .bang) (hminus : t ≠ .op .sub)
    (h : ∀ rest fuel, readOperand (fuel + 1) (t :: rest) = .ok (e, rest)) : ReadsBack e := by
  refine of_operand ?_
  intro rest fuel hfuel
  rw [ht] at hfuel ⊢
  rw [List.length_singleton] at hfuel
  obtain ⟨fuel, rfl⟩ : ∃ n, fuel = n + 2 := ⟨fuel - 2, by omega⟩
  rw [List.singleton_append, readUnary]
  · exact h rest fuel
  · exact fun _ heq => hbang (List.cons.inj heq).1
  · exact fun _ heq => hminus (List.cons.inj heq).1

theorem not (h : ReadsBack e) : ReadsBack (.not e) := by
  refine of_operand ?_
  intro rest fuel hfuel
  rw [tokens, List.length_cons] at hfuel
  obtain ⟨fuel, rfl⟩ : ∃ n, fuel = n + 1 := ⟨fuel - 1, by omega⟩
  exact readUnary_bang (h.signed rest (by omega))

theorem neg (h : ReadsBack e) : ReadsBack (.neg e) := by
  refine of_operand ?_
  intro rest fuel hfuel
  rw [tokens, List.length_cons] at hfuel
  obtain ⟨fuel, rfl⟩ : ∃ n, fuel = n + 1 := ⟨fuel - 1, by omega⟩
  exact readUnary_minus (h.signed rest (by omega))

end ReadsBack

theorem toList_field (field : String) : ("v." ++ field).toList = 'v' :: '.' :: field.toList := by
  rw [String.toList_append]
  rfl

/-- A field is no other operand's name. -/
theorem ofName_field {field : String} (hne : field ≠ "") (hdot : '.' ∉ field.toList) :
    ofName ("v." ++ field) = .ok (.item (some field)) := by
  have hlist := toList_field field
  have hother {name : String} (h : name.toList.take 2 ≠ ['v', '.']) : "v." ++ field ≠ name := by
    rintro rfl
    rw [hlist] at h
    exact h rfl
  have hchars : field.toList ≠ [] := by
    intro hnil
    exact hne (String.toList_inj.mp hnil)
  have hbad : (field.toList.isEmpty || field.toList.contains '.') = false := by
    simp [hchars, hdot]
  have hcount : ¬ ("v." ++ field = "n" ∨ "v." ++ field = "o.length") := by
    rintro (h | h)
    · exact hother (by decide) h
    · exact hother (by decide) h
  unfold ofName
  rw [if_neg (hother (by decide)), if_neg hcount, if_neg (hother (by decide)), hlist]
  simp only [hbad, String.ofList_toList]
  rfl

theorem Writable.dot_not_mem {field : String} (h : (item (some field)).Writable) :
    '.' ∉ field.toList := by
  intro hdot
  rcases h.2 '.' hdot with h | h
  · revert h
    decide
  · cases h

theorem Writable.readsBack {e : Expr} (h : e.Writable) : ReadsBack e := by
  induction e with
  | num n => exact .of_token rfl nofun nofun fun _ _ => rfl
  | text s => exact .of_token rfl nofun nofun fun _ _ => rfl
  | index => exact .of_token rfl nofun nofun fun _ _ => rfl
  | count => exact .of_token rfl nofun nofun fun _ _ => rfl
  | item field =>
    cases field with
    | none => exact .of_token rfl nofun nofun fun _ _ => rfl
    | some field =>
      refine .of_token rfl nofun nofun ?_
      intro rest fuel
      rw [readOperand, ofName_field h.1 h.dot_not_mem]
      rfl
  | not e ih => exact (ih h).not
  | neg e ih => exact (ih h).neg
  | binary op left right ihl ihr => exact .binary (ihl h.1) (ihr h.2)

theorem Writable.ofTokens_tokens {e : Expr} (h : e.Writable) : ofTokens e.tokens = .ok e := by
  have hpos := e.tokens_length_pos
  obtain ⟨left, hleft, hread⟩ :=
    h.readsBack.climb 0 [] (4 * e.tokens.length + 4) e.tightness_pos (ends_nil _) (by omega)
  obtain ⟨left, rfl⟩ : ∃ n, left = n + 1 := ⟨left - 1, by omega⟩
  rw [List.append_nil, readTail_of_ends (ends_nil 0)] at hread
  rw [ofTokens, hread]
  rfl

end Expr

theorem writable_parenthesized {ts : List Token} (h : ∀ t ∈ ts, t.Writable) (needed : Bool) :
    ∀ t ∈ Expr.parenthesized needed ts, t.Writable := by
  intro t ht
  unfold Expr.parenthesized at ht
  split at ht
  · rw [List.cons_append] at ht
    rcases List.mem_cons.mp ht with rfl | ht
    · trivial
    rcases List.mem_append.mp ht with ht | ht
    · exact h t ht
    · obtain rfl := List.mem_singleton.mp ht
      trivial
  · exact h t ht

theorem writable_field {field : String} (h : (Expr.item (some field)).Writable) :
    (Token.word ("v." ++ field)).Writable := by
  refine ⟨'v', '.' :: field.toList, Expr.toList_field field, by decide, ?_⟩
  intro d hd
  rcases List.mem_cons.mp hd with rfl | hd
  · decide
  · rcases h.2 d hd with h | rfl
    · simp [isNameChar, h]
    · simp [isNameChar]

theorem Expr.Writable.tokens {e : Expr} (h : e.Writable) : ∀ t ∈ e.tokens, t.Writable := by
  have hname {name : Char} (h : isNameStart name = true) :
      ∀ t ∈ [Token.word (String.ofList [name])], t.Writable := by
    intro t ht
    obtain rfl := List.mem_singleton.mp ht
    exact ⟨name, [], String.toList_ofList, h, fun _ hd => nomatch hd⟩
  induction e with
  | num n => exact List.forall_mem_singleton.mpr h
  | text s => exact List.forall_mem_singleton.mpr trivial
  | index => exact hname (by decide)
  | count => exact hname (by decide)
  | item field =>
    cases field with
    | none => exact hname (by decide)
    | some field => exact List.forall_mem_singleton.mpr (writable_field h)
  | not e ih => exact List.forall_mem_cons.mpr ⟨trivial, writable_parenthesized (ih h) _⟩
  | neg e ih => exact List.forall_mem_cons.mpr ⟨trivial, writable_parenthesized (ih h) _⟩
  | binary op left right ihl ihr =>
    refine List.forall_mem_append.mpr ⟨writable_parenthesized (ihl h.1) _, ?_⟩
    exact List.forall_mem_cons.mpr ⟨trivial, writable_parenthesized (ihr h.2) _⟩

theorem ofName_writable {name : String} {e : Expr} (hname : (Token.word name).Writable)
    (h : ofName name = .ok e) : e.Writable := by
  unfold ofName at h
  split at h
  · cases h
    trivial
  split at h
  · cases h
    trivial
  split at h
  · cases h
    trivial
  split at h
  · next field hlist =>
    split at h
    · cases h
    · next hgood =>
      cases h
      obtain ⟨c, cs, hcs, -, hchars⟩ := hname
      rw [hlist] at hcs
      cases hcs
      simp only [Bool.or_eq_true, List.isEmpty_iff, List.contains_iff_mem, not_or] at hgood
      obtain ⟨hne, hdot⟩ := hgood
      constructor
      · intro hempty
        have hnil := congrArg String.toList hempty
        rw [String.toList_ofList] at hnil
        exact hne hnil
      · intro d hd
        rw [String.toList_ofList] at hd
        have hchar := hchars d (List.mem_cons_of_mem _ hd)
        simp only [isNameChar, Bool.or_eq_true, beq_iff_eq] at hchar
        rcases hchar with hchar | rfl
        · exact hchar
        · exact absurd hd hdot
  · cases h

/-- Whether `read` makes of tokens with texts only expressions that say all of themselves, and leaves
such tokens. -/
def Faithful (read : List Token → Except Fault (Expr × List Token)) : Prop :=
  ∀ ts e rest, (∀ t ∈ ts, t.Writable) → read ts = .ok (e, rest) →
    e.Writable ∧ ∀ t ∈ rest, t.Writable

/-- With no fuel nothing is read; with one unit more, each reader goes on by the readers with one
unit less. -/
structure FaithfulWith (fuel : Nat) : Prop where
  binary : ∀ floor, Faithful (readBinary fuel floor)
  tail : ∀ floor left, left.Writable → Faithful (readTail fuel floor left)
  unary : Faithful (readUnary fuel)
  operand : Faithful (readOperand fuel)

theorem readOperand_faithful {fuel : Nat} (h : FaithfulWith fuel) :
    Faithful (readOperand (fuel + 1)) := by
  intro ts e rest hts hread
  rw [readOperand.eq_def] at hread
  dsimp only at hread
  split at hread
  · cases hread
  · cases hread
    exact List.forall_mem_cons.mp hts
  · cases hread
    exact List.forall_mem_cons.mp hts
  · obtain ⟨hname, hrest⟩ := List.forall_mem_cons.mp hts
    obtain ⟨_, he, heq⟩ := ok_of_map hread
    cases heq
    exact ⟨ofName_writable hname he, hrest⟩
  · obtain ⟨-, hrest⟩ := List.forall_mem_cons.mp hts
    obtain ⟨⟨inner, more⟩, hinner, hread⟩ := ok_of_bind hread
    obtain ⟨he, hleft⟩ := h.binary 0 _ _ _ hrest hinner
    split at hread
    · next heq =>
      cases hread
      cases heq
      exact ⟨he, fun t ht => hleft t (List.mem_cons_of_mem _ ht)⟩
    · cases hread
  all_goals cases hread

theorem readUnary_faithful {fuel : Nat} (h : FaithfulWith fuel) :
    Faithful (readUnary (fuel + 1)) := by
  intro ts e rest hts hread
  rw [readUnary.eq_def] at hread
  dsimp only at hread
  split at hread
  · obtain ⟨⟨inner, more⟩, hinner, heq⟩ := ok_of_map hread
    cases heq
    have hboth := h.unary _ _ _ (List.forall_mem_cons.mp hts).2 hinner
    exact hboth
  · obtain ⟨⟨inner, more⟩, hinner, heq⟩ := ok_of_map hread
    cases heq
    have hboth := h.unary _ _ _ (List.forall_mem_cons.mp hts).2 hinner
    exact hboth
  · exact h.operand _ _ _ hts hread

theorem readTail_faithful {fuel : Nat} (h : FaithfulWith fuel) (floor : Nat) {left : Expr}
    (hleft : left.Writable) : Faithful (readTail (fuel + 1) floor left) := by
  intro ts e rest hts hread
  rw [readTail.eq_def] at hread
  dsimp only at hread
  split at hread
  · next op _ =>
    split at hread
    · cases hread
      exact ⟨hleft, hts⟩
    · obtain ⟨⟨right, more⟩, hr, htail⟩ := ok_of_bind hread
      obtain ⟨hright, hmore⟩ := h.binary _ _ _ _ (List.forall_mem_cons.mp hts).2 hr
      have hpair : (Expr.binary op left right).Writable := ⟨hleft, hright⟩
      exact h.tail floor _ hpair _ _ _ hmore htail
  · cases hread
    exact ⟨hleft, hts⟩

theorem readBinary_faithful {fuel : Nat} (h : FaithfulWith fuel) (floor : Nat) :
    Faithful (readBinary (fuel + 1) floor) := by
  intro ts e rest hts hread
  rw [readBinary] at hread
  obtain ⟨⟨left, more⟩, hl, htail⟩ := ok_of_bind hread
  obtain ⟨hleft, hmore⟩ := h.unary _ _ _ hts hl
  exact h.tail floor left hleft _ _ _ hmore htail

theorem faithfulWith (fuel : Nat) : FaithfulWith fuel := by
  induction fuel with
  | zero =>
    constructor
    · exact fun _ _ _ _ _ h => nomatch h
    · exact fun _ _ _ _ _ _ _ h => nomatch h
    · exact fun _ _ _ _ h => nomatch h
    · exact fun _ _ _ _ h => nomatch h
  | succ fuel ih =>
    exact ⟨readBinary_faithful ih, fun floor _ hleft => readTail_faithful ih floor hleft,
      readUnary_faithful ih, readOperand_faithful ih⟩

theorem ofTokens_writable {ts : List Token} {e : Expr} (hts : ∀ t ∈ ts, t.Writable)
    (h : ofTokens ts = .ok e) : e.Writable := by
  obtain ⟨⟨e, rest⟩, hread, h⟩ := ok_of_bind h
  obtain ⟨he, -⟩ := (faithfulWith _).binary 0 _ _ _ hts hread
  dsimp only at h
  split at h
  · cases h
    exact he
  · cases h

namespace Expr

theorem read_eq_ok {cs : List Char} {e : Expr} :
    read cs = .ok e ↔ ∃ ts, readTokens cs.length cs = .ok ts ∧ ofTokens ts = .ok e := by
  constructor
  · intro h
    rw [read] at h
    split at h
    · next hread =>
      cases h
      exact ok_of_bind hread
    · cases h
  · rintro ⟨ts, hts, he⟩
    have hboth : (readTokens cs.length cs >>= ofTokens) = .ok e := by
      rw [hts]
      exact he
    rw [read, hboth]

theorem Writable.length_tokens_le {e : Expr} (h : e.Writable) :
    e.tokens.length ≤ e.written.length := by
  have hne : ∀ t ∈ e.tokens.map Token.written, t ≠ [] := by
    intro text htext
    obtain ⟨t, ht, rfl⟩ := List.mem_map.mp htext
    obtain ⟨c, cs, hwritten, -⟩ := (h.tokens t ht).readsBack stops_nil
    rw [hwritten]
    exact List.cons_ne_nil c cs
  have hlength := length_le_intercalate [' '] hne
  rwa [List.length_map] at hlength

theorem Writable.read_written {e : Expr} (h : e.Writable) : read e.written = .ok e :=
  read_eq_ok.mpr
    ⟨e.tokens, readTokens_writtenAll h.tokens h.length_tokens_le, h.ofTokens_tokens⟩

theorem writable_of_read {cs : List Char} {e : Expr} (h : read cs = .ok e) : e.Writable := by
  obtain ⟨ts, hts, he⟩ := read_eq_ok.mp h
  exact ofTokens_writable (readTokens_writable hts) he

/-- The reader of filters groups operators as their precedence says, and from the left: an expression
is read back from the text with as few parentheses as that leaves room for. All that is read from any
text can be written so. -/
theorem read_inverts_written :
    (∀ e : Expr, e.Writable → read e.written = .ok e) ∧
    (∀ cs e, read cs = .ok e → e.Writable ∧ read e.written = .ok e) := by
  refine ⟨fun e h => h.read_written, ?_⟩
  intro cs e h
  have he : e.Writable := writable_of_read h
  exact ⟨he, he.read_written⟩

/-- Subtraction from the right needs its parentheses and subtraction from the left does not, also
where the text that was read had more of them. -/
theorem read_nested_subtraction :
    let e : Expr := .binary .sub (.binary .sub (.num 7) (.neg .index))
      (.binary .sub (.num 2) (.binary .mul (.item (some "size")) .count))
    e.written = "7 - - i - ( 2 - v.size * n )".toList ∧ e.Writable ∧ read e.written = .ok e ∧
      read "(7 - -(i))-(2-v.size*n)".toList = .ok e := by
  intro e
  have hread : read "(7 - -(i))-(2-v.size*n)".toList = .ok e :=
    ok_of_toOption (by decide +kernel)
  have hwritable : e.Writable := (read_inverts_written.2 _ e hread).1
  exact ⟨by decide, hwritable, read_inverts_written.1 e hwritable, hread⟩

end Expr

end AttrChain.Filter
