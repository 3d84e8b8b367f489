import Stencil.Text.Case
import Stencil.Text.Pattern
import Stencil.Text.Uppercase

/-!
Spellings of compound names. Words are divided by runs of hyphens and
underscores or by a capital letter: `snake` joins them with an underscore,
`camel` with a capital, and `hacker` without a mark. Leading separators are
dropped and the first letter is small in both joined spellings.
-/

namespace Stencil.Text

def isSeparator (c : Char) : Bool := c = '-' || c = '_'

def capitalize (s : String) : String :=
  match s.toList with
  | [] => ""
  | c :: rest => String.ofList (upperChar c ++ rest)

/-- A run of separators and the character after it, unless the line ends there. -/
def joint : Pattern := .andThen (.many isSeparator) (.maybe (.capture (.one (· ≠ '\n'))))

def boundary : Pattern := .orElse joint (.capture (.one isCapital))

def snake (s : String) : String :=
  match s.toList.dropWhile isSeparator with
  | [] => ""
  | c :: rest =>
    String.ofList (lowerChar c ++
      boundary.replaceAll (fun letter => '_' :: (letter.getD []).flatMap lowerChar) rest)

def camel (s : String) : String :=
  match s.toList.dropWhile isSeparator with
  | [] => ""
  | c :: rest =>
    String.ofList (lowerChar c ++
      joint.replaceAll (fun letter => (letter.getD []).flatMap upperChar) rest)

def hacker (s : String) : String :=
  String.ofList ((s.toList.filter (!isSeparator ·)).flatMap lowerChar)

end Stencil.Text
