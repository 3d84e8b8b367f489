import Stencil.Text.Blank

/-!
The line ends that programs can be told to write.
-/

namespace Stencil

inductive LineEnding
  | lf
  | crlf
  | cr
deriving DecidableEq

namespace LineEnding

def text : LineEnding → String
  | .lf => "\n"
  | .crlf => "\r\n"
  | .cr => "\r"

/-- Reads the name of a line end without regard to case and surrounding blanks;
a failure says what was read. -/
def ofName (name : String) : Except String LineEnding :=
  let word := (Text.trim name).map Char.toLower
  if word = "lf" then .ok .lf
  else if word = "crlf" then .ok .crlf
  else if word = "cr" then .ok .cr
  else .error s!"invalid line encoding \"{word}\""

end LineEnding

end Stencil
