/-!
Sets of characters given by their boundaries. The list names, in increasing
order, the code points at which membership changes, beginning outside the set;
a character belongs to the set when an odd number of boundaries lie at or below
it.
-/

namespace Stencil.Text

/-- Code points at which membership changes, in increasing order. -/
structure CharSet where
  boundaries : List Nat

namespace CharSet

def contains (s : CharSet) (c : Char) : Bool :=
  s.boundaries.countP (· ≤ c.toNat) % 2 == 1

end CharSet

end Stencil.Text
