/-!
What can be wrong with the characters of a template.
-/

namespace Stencil

inductive LexFault
  | invalidDelimiters
  | unclosedBlock
  | unclosedText
  | loneAt
  | danglingPoint
  | intOutOfRange (digits : String)
  | unsupported (character : Char)
deriving DecidableEq

def LexFault.message : LexFault → String
  | invalidDelimiters => "validate error of tokenizer"
  | unclosedBlock => "not closed by block"
  | unclosedText => "not closed by double quote"
  | loneAt => "invalid syntax. single '@' is not supported"
  | danglingPoint => "invalid float"
  | intOutOfRange digits => s!"integer \"{digits}\" is out of range"
  | unsupported character => s!"syntax error. unsupported character \"{character}\""

end Stencil
