/-!
The binary operators of expressions, with the words that messages use for them.
-/

namespace Stencil

inductive ArithOp
  | add
  | sub
  | mul
  | div
  | mod
deriving DecidableEq

namespace ArithOp

def verb : ArithOp → String
  | .add => "add"
  | .sub => "sub"
  | .mul => "mul"
  | .div => "division"
  | .mod => "mod"

def symbol : ArithOp → String
  | .add => "+"
  | .sub => "-"
  | .mul => "*"
  | .div => "/"
  | .mod => "%"

end ArithOp

inductive CompOp
  | eq
  | ne
  | lt
  | le
  | gt
  | ge
deriving DecidableEq

namespace CompOp

def name : CompOp → String
  | .eq => "eq"
  | .ne => "not eq"
  | .lt => "lt"
  | .le => "lte"
  | .gt => "gt"
  | .ge => "gte"

def symbol : CompOp → String
  | .eq => "=="
  | .ne => "!="
  | .lt => "<"
  | .le => "<="
  | .gt => ">"
  | .ge => ">="

end CompOp

end Stencil
