/-!
Cutting a text at a separator. Separators are found from the left and do not
overlap, so the pieces joined by the separator give the text back.
-/

namespace Stencil.Text

/-- The pieces of what is left, where `piece` holds the characters of the open
piece in reverse and the next `skip` characters belong to a separator. -/
def piecesFrom (separator piece : List Char) : Nat → List Char → List (List Char)
  | _, [] => [piece.reverse]
  | skip + 1, _ :: rest => piecesFrom separator piece skip rest
  | 0, c :: rest =>
    if separator.isPrefixOf (c :: rest) then
      piece.reverse :: piecesFrom separator [] (separator.length - 1) rest
    else piecesFrom separator (c :: piece) 0 rest

def pieces (separator text : String) : List String :=
  (piecesFrom separator.toList [] 0 text.toList).map String.ofList

def cutAt? (mark : Char) (cs : List Char) : Option (List Char × List Char) :=
  match cs.dropWhile (· != mark) with
  | [] => none
  | _ :: after => some (cs.takeWhile (· != mark), after)

end Stencil.Text
