import Stencil.Text.CharSet

/-!
Blanks of all scripts and the trimming of a text at both ends. Trimming takes
away the longest stretch of unwanted characters at an end and nothing else.
-/

namespace Stencil.Text

/-- Characters with the property White_Space. -/
def blankSet : CharSet := ⟨[
  0x9, 0xE, 0x20, 0x21, 0x85, 0x86, 0xA0, 0xA1, 0x1680, 0x1681, 0x2000, 0x200B, 0x2028, 0x202A,
  0x202F, 0x2030, 0x205F, 0x2060, 0x3000, 0x3001]⟩

def isBlank (c : Char) : Bool := blankSet.contains c

def dropStart (unwanted : Char → Bool) (cs : List Char) : List Char := cs.dropWhile unwanted

def dropEnd (unwanted : Char → Bool) (cs : List Char) : List Char :=
  (cs.reverse.dropWhile unwanted).reverse

def dropEnds (unwanted : Char → Bool) (cs : List Char) : List Char :=
  dropEnd unwanted (dropStart unwanted cs)

def trim (s : String) : String := String.ofList (dropEnds isBlank s.toList)

end Stencil.Text
