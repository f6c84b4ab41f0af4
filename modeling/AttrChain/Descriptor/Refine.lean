import AttrChain.Descriptor.Basic
import AttrChain.Filter.Eval

/-!
Applying the refinement of a query to its matches.
-/

namespace AttrChain.Refinement

variable {α : Type}

/-- The items at the given places, in that order; places beyond the end are passed over. -/
def pick (items : List α) (indices : List Nat) : List α := indices.filterMap (items[·]?)

def passing (e : Filter.Expr) (count : Nat) (read : α → Option String → Option Value) :
    Nat → List α → List α
  | _, [] => []
  | i, item :: rest =>
    if e.keeps ⟨i, count, read item⟩ then item :: passing e count read (i + 1) rest
    else passing e count read (i + 1) rest

def applyWith (read : α → Option String → Option Value) (items : List α) : Refinement → List α
  | range first last =>
    (items.take (last.getD items.length)).drop (first.getD 0)
  | places indices => pick items indices
  | test e => passing e items.length read 0 items

def apply (items : List α) (r : Refinement) : List α := r.applyWith (fun _ _ => none) items

end AttrChain.Refinement
