import Stencil.Eval.Statement

/-!
The evaluator: the constructs tied together. The fuel bounds how deep evaluation
nests and how often a loop goes round; a run that ends with some fuel ends in
the same way with any more.
-/

namespace Stencil.Eval

mutual

def eval : Nat → Expr → Eval Value
  | 0, _ => starve
  | fuel + 1, e => evalStep (eval fuel) (exec fuel) e

def exec : Nat → List Stmt → Eval Flow
  | 0, _ => starve
  | fuel + 1, body => execEach (execStep (eval fuel) (exec fuel) fuel) body

end

/-- More fuel than a run can spend in practice. -/
def plenty : Nat := Nat.pow 2 62

def runProgram (fuel : Nat) (program : Program) : Eval Unit := do
  settle (← exec fuel program)

end Stencil.Eval
