/-!
Selectors: which elements they match.

A selector is a list of alternatives. An alternative is a list of compounds, outermost first: the
last one matches the element itself and the others match ancestors of it, in that order.
-/

namespace AttrChain

structure AttrTest where
  name : String
  value : Option String
  deriving DecidableEq

structure Compound where
  tag : Option String
  id : Option String
  classes : List String
  attrs : List AttrTest
  deriving DecidableEq

/-- Compounds for an element and its ancestors, outermost first. -/
structure Complex where
  parts : List Compound
  deriving DecidableEq

structure Selector where
  alternatives : List Complex
  deriving DecidableEq

structure Element where
  tag : String
  id : Option String
  hasClass : String → Bool
  attr : String → Option String

def foldCase (s : String) : List Char := s.toList.map Char.toLower

namespace AttrTest

def passes (t : AttrTest) (e : Element) : Bool :=
  match t.value, e.attr t.name with
  | none, found => found.isSome
  | some want, some found => want == found
  | some _, none => false

end AttrTest

/-- Whether the element passes all tests. Tags are compared without case. -/
def Compound.passes (c : Compound) (e : Element) : Bool :=
  c.tag.all (fun tag => foldCase tag == foldCase e.tag)
    && c.id.all (fun id => e.id == some id)
    && c.classes.all e.hasClass
    && c.attrs.all (·.passes e)

/-- Whether the compounds match elements of the path, one behind the other: each takes the first
that it matches. -/
def Compound.climb : List Compound → List Element → Bool
  | [], _ => true
  | _ :: _, [] => false
  | c :: more, e :: path => if c.passes e then climb more path else climb (c :: more) path

/-- Whether the element at the head of the path matches, with its ancestors behind it. -/
def Complex.matchesPath (c : Complex) (path : List Element) : Bool :=
  match c.parts.reverse, path with
  | last :: outer, e :: ancestors => last.passes e && Compound.climb outer ancestors
  | _, _ => false

def Selector.matchesPath (s : Selector) (path : List Element) : Bool :=
  s.alternatives.any (·.matchesPath path)

inductive Selector.Fault where
  | empty
  | unexpected (text : String) (found : Char)
  | unterminated (text : String)
  deriving DecidableEq

def Selector.Fault.message : Selector.Fault → String
  | empty => "Empty selector"
  | unexpected text found =>
    "Unexpected `" ++ found.toString ++ "` in selector `" ++ text ++ "`"
  | unterminated text => "Unterminated attribute filter in selector `" ++ text ++ "`"

end AttrChain
