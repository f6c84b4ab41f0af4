import AttrChain.Selector.Reader

/-!
Writing selectors, and which of them can be written.
-/

namespace AttrChain

open AttrChain.Text

def IsSelectorName (name : String) : Prop :=
  name ≠ "" ∧ ∀ c ∈ name.toList, isSelectorChar c = true

instance (name : String) : Decidable (IsSelectorName name) :=
  decidable_of_iff (name ≠ "" ∧ name.toList.all isSelectorChar = true)
    (and_congr_right fun _ => List.all_eq_true)

def isTestChar (c : Char) : Bool := !isBlank c && c != ',' && c != ']'

def isValueQuote (c : Char) : Bool := c == '\x22' || c == '\x27'

namespace AttrTest

def body (t : AttrTest) : List Char :=
  t.name.toList ++ (t.value.map fun v => '=' :: v.toList).getD []

def written (t : AttrTest) : List Char := '[' :: t.body ++ [']']

/-- Whether the name and the value can stand between brackets, so that the first equals sign is the
one behind the name. -/
structure Spelled (t : AttrTest) : Prop where
  name : t.name ≠ ""
  nameChars : ∀ c ∈ t.name.toList, isTestChar c = true ∧ c ≠ '='
  valueChars : ∀ v ∈ t.value, ∀ c ∈ v.toList, isTestChar c = true

instance (t : AttrTest) : Decidable t.Spelled :=
  decidable_of_iff (t.name ≠ "" ∧ t.name.toList.all (fun c => isTestChar c && c != '=') = true ∧
      ∀ v ∈ t.value, v.toList.all isTestChar = true)
    ⟨fun ⟨name, nameChars, valueChars⟩ =>
        ⟨name, by simpa using nameChars, fun v hv => List.all_eq_true.mp (valueChars v hv)⟩,
      fun h =>
        ⟨h.name, by simpa using h.nameChars, fun v hv => List.all_eq_true.mpr (h.valueChars v hv)⟩⟩

def unquoted (t : AttrTest) : AttrTest :=
  { t with value := t.value.map fun v => String.ofList (strip isValueQuote v.toList) }

/-- Whether the test can be written: its value neither starts nor ends with a quote. -/
structure Writable (t : AttrTest) : Prop extends t.Spelled where
  first : ∀ v ∈ t.value, ∀ c ∈ v.toList.head?, isValueQuote c = false
  last : ∀ v ∈ t.value, ∀ c ∈ v.toList.getLast?, isValueQuote c = false

instance (t : AttrTest) : Decidable t.Writable :=
  decidable_of_iff (t.Spelled ∧
      (∀ v ∈ t.value, v.toList.head?.all (fun c => !isValueQuote c) = true) ∧
      ∀ v ∈ t.value, v.toList.getLast?.all (fun c => !isValueQuote c) = true)
    ⟨fun ⟨spelled, first, last⟩ => ⟨spelled, by simpa [Option.all_eq_true] using first,
        by simpa [Option.all_eq_true] using last⟩,
      fun h => ⟨h.toSpelled, by simpa [Option.all_eq_true] using h.first,
        by simpa [Option.all_eq_true] using h.last⟩⟩

end AttrTest

namespace Compound

def written (c : Compound) : List Char :=
  (c.tag.map String.toList).getD ['*'] ++ (c.id.map fun id => '#' :: id.toList).getD [] ++
    c.classes.flatMap (fun name => '.' :: name.toList) ++ c.attrs.flatMap AttrTest.written

structure Writable (c : Compound) : Prop where
  tag : ∀ name ∈ c.tag, IsSelectorName name
  id : ∀ name ∈ c.id, IsSelectorName name
  classes : ∀ name ∈ c.classes, IsSelectorName name
  attrs : ∀ t ∈ c.attrs, t.Writable

instance (c : Compound) : Decidable c.Writable :=
  decidable_of_iff ((∀ name ∈ c.tag, IsSelectorName name) ∧ (∀ name ∈ c.id, IsSelectorName name) ∧
      (∀ name ∈ c.classes, IsSelectorName name) ∧ ∀ t ∈ c.attrs, t.Writable)
    ⟨fun ⟨tag, id, classes, attrs⟩ => ⟨tag, id, classes, attrs⟩,
      fun h => ⟨h.tag, h.id, h.classes, h.attrs⟩⟩

end Compound

namespace Complex

def written (c : Complex) : List Char := [' '].intercalate (c.parts.map Compound.written)

structure Writable (c : Complex) : Prop where
  parts : c.parts ≠ []
  each : ∀ part ∈ c.parts, part.Writable

instance (c : Complex) : Decidable c.Writable :=
  decidable_of_iff (c.parts ≠ [] ∧ ∀ part ∈ c.parts, part.Writable)
    ⟨fun ⟨parts, each⟩ => ⟨parts, each⟩, fun h => ⟨h.parts, h.each⟩⟩

end Complex

namespace Selector

def written (s : Selector) : String :=
  String.ofList ([','].intercalate (s.alternatives.map Complex.written))

structure Writable (s : Selector) : Prop where
  alternatives : s.alternatives ≠ []
  each : ∀ alternative ∈ s.alternatives, alternative.Writable

instance (s : Selector) : Decidable s.Writable :=
  decidable_of_iff (s.alternatives ≠ [] ∧ ∀ alternative ∈ s.alternatives, alternative.Writable)
    ⟨fun ⟨alternatives, each⟩ => ⟨alternatives, each⟩, fun h => ⟨h.alternatives, h.each⟩⟩

end Selector

end AttrChain
