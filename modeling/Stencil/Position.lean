/-!
Places in a source text.
-/

namespace Stencil

/-- A place in a source text: the byte offset and the line, counted from one. -/
structure Position where
  offset : Nat
  line : Nat
deriving DecidableEq, Inhabited

def Position.start : Position := ⟨0, 1⟩

end Stencil
