import AttrChain.Descriptor.Reader
import AttrChain.Filter.Printer
import AttrChain.Literal.Printer

/-!
Writing descriptors as attribute text, and which of them can be written.
-/

namespace AttrChain

open AttrChain.Text

def inParens (cs : List Char) : List Char := '(' :: cs ++ [')']

def spaced (texts : List (List Char)) : List Char := [' '].intercalate texts

def IsName (start part : Char → Bool) (name : String) : Prop :=
  ∃ c cs, name.toList = c :: cs ∧ start c = true ∧ ∀ d ∈ cs, part d = true

theorem isName_iff (start part : Char → Bool) {name : String} {c : Char} {cs : List Char}
    (hname : name.toList = c :: cs) :
    (start c && cs.all part) = true ↔ IsName start part name := by
  rw [Bool.and_eq_true, List.all_eq_true, IsName, hname]
  constructor
  · exact fun h => ⟨c, cs, rfl, h⟩
  · rintro ⟨_, _, heq, h⟩
    cases heq
    exact h

instance (start part : Char → Bool) (name : String) : Decidable (IsName start part name) :=
  match hname : name.toList with
  | [] => isFalse (by simp [IsName, hname])
  | _ :: _ => decidable_of_iff _ (isName_iff start part hname)

def IsFlat (s : String) : Prop :=
  ∀ c ∈ s.toList, isQuote c = false ∧ isOpening c = false ∧ isClosing c = false

instance (s : String) : Decidable (IsFlat s) :=
  decidable_of_iff (s.toList.all (fun c => !isQuote c && !isOpening c && !isClosing c) = true)
    (by simp [IsFlat, and_assoc])

namespace Call

/-- The text of a call, with parentheses also where there are no arguments. -/
def written (c : Call) : List Char :=
  c.name.toList ++ inParens (Arguments.mk c.args c.rest).written

structure Regular (c : Call) : Prop where
  name : IsName isCallStart isCallChar c.name
  rest : ∀ n ∈ c.rest, n ≤ 9

end Call

namespace Trigger

def mark (t : Trigger) : List Char :=
  if t.once then ['^'] else if t.stored then ['@'] else []

def written (t : Trigger) : List Char :=
  t.mark ++ t.event.toList ++ (t.selector.map fun s => inParens s.toList).getD []

/-- Whether the event can be written: with one mark at most, and a selector without blanks at its
ends, quotes, brackets and blanks that are not plain. -/
structure Writable (t : Trigger) : Prop where
  event : IsName isWordChar isEventChar t.event
  mark : ¬ (t.once = true ∧ t.stored = true)
  selector : ∀ s ∈ t.selector, s ≠ "" ∧ trimmed s = s ∧ IsFlat s ∧
    ∀ c ∈ s.toList, isBlank c = true → c = ' '

end Trigger

structure Plan where
  triggers : List Trigger
  onCalls : List Call
  byCalls : List Call

namespace Plan

def onText (p : Plan) : List Char :=
  spaced (p.triggers.map Trigger.written) ++ '|' :: spaced (p.onCalls.map Call.written)

def byText (p : Plan) : List Char := spaced (p.byCalls.map Call.written)

structure Writable (p : Plan) : Prop where
  nonempty : p.triggers ≠ []
  triggers : ∀ t ∈ p.triggers, t.Writable
  calls : ∀ c ∈ p.onCalls ++ p.byCalls, c.Regular ∧ ∀ v ∈ c.args, v.IsLiteral

def onTexts (ps : List Plan) : String := String.ofList ([';'].intercalate (ps.map onText))

def byTexts (ps : List Plan) : String := String.ofList ([';'].intercalate (ps.map byText))

end Plan

namespace Update

def written (u : Update) : List Char :=
  u.name.toList ++ inParens (Arguments.mk u.args none).written

structure Writable (u : Update) : Prop where
  name : IsName isWordChar isWordChar u.name
  args : ∀ v ∈ u.args, v.IsLiteral

end Update

namespace Refinement

def boundText (bound : Option Nat) : List Char := (bound.map (Nat.toDigits 10)).getD []

def written : Refinement → List Char
  | range first last => inParens (boundText first ++ ',' :: boundText last)
  | places indices => '[' :: [','].intercalate (indices.map (Nat.toDigits 10)) ++ [']']
  | test e => '\x7b' :: e.written ++ ['\x7d']

/-- Whether the refinement can be written: with bounds and places of 64 bits, at least one place,
and a filter that the reader makes of some text. -/
def Writable : Refinement → Prop
  | range first last => (∀ n ∈ first, n < Nat.pow 2 64) ∧ ∀ n ∈ last, n < Nat.pow 2 64
  | places indices => indices ≠ [] ∧ ∀ n ∈ indices, n < Nat.pow 2 64
  | test e => ∃ cs, Filter.Expr.read cs = .ok e

end Refinement

namespace Query

/-- The text of a query: a placeholder for the start, the bare selector for its first match, the
selector in parentheses with the refinement behind it for all matches. -/
def written (q : Query) : List Char :=
  if q.single then (if q.selector = "" then ['-'] else q.selector.toList)
  else inParens q.selector.toList ++ (q.refinement.map Refinement.written).getD []

/-- The queries whose selector can be written: the start, a selector for its first match, and one
for all of its matches. Selectors have no blanks at their ends, quotes and brackets; one for the
first match is neither empty nor the placeholder, and has no bar. -/
inductive Selects : Query → Prop where
  | start : Selects start
  | first {s : String} (r : Option Refinement) : s ≠ "" → s ≠ "-" → trimmed s = s → IsFlat s →
      '|' ∉ s.toList → Selects ⟨s, true, r⟩
  | all {s : String} {r : Option Refinement} : trimmed s = s → IsFlat s →
      (∀ r' ∈ r, r'.Writable) → Selects ⟨s, false, r⟩

end Query

namespace Target

def written (t : Target) : List Char :=
  t.query.written ++ '|' :: spaced (t.updates.map Update.written) ++
    '|' :: spaced (t.calls.map Call.written)

end Target

end AttrChain
