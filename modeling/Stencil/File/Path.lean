import Stencil.Text.Pieces

/-!
Paths as texts: names divided by slashes, absolute when a slash comes first.
-/

namespace Stencil.Path

def isAbsolute (path : String) : Bool := path.toList.head? = some '/'

def names (path : String) : List String := Text.pieces "/" path

/-- A path seen from a base. An absolute path stands for itself, and a slash is
put between the two unless the base is empty or ends in one. -/
def join (base path : String) : String :=
  if isAbsolute path || base.isEmpty then path
  else if base.toList.getLast? = some '/' then base ++ path
  else base ++ "/" ++ path

/-- The directory that a path lies in; the root and the empty path lie in none. -/
def parent? (path : String) : Option String :=
  match (names path).filter fun name => name ≠ "" ∧ name ≠ "." with
  | [] => none
  | proper =>
    some ((if isAbsolute path then "/" else "") ++ String.intercalate "/" proper.dropLast)

end Stencil.Path
