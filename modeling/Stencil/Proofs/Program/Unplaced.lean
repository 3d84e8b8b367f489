import Stencil.Proofs.Grammar.Spelling

/-!
Programs without their positions. Two programs are compared up to positions by what is
left of each when every place in it is forgotten.
-/

namespace Stencil

def Formula.unplaced : Formula → Formula
  | .assignments chains => .assignments (chains.map (·.map Expr.unplaced))
  | .parallel lists => .parallel (lists.map (·.map Expr.unplaced))

mutual

def Stmt.unplaced : Stmt → Stmt
  | .text content => .text content
  | .reference formula _ => .reference formula.unplaced .start
  | .formula formula _ => .formula formula.unplaced .start
  | .cond branches otherwise _ => .cond (unplacedBranches branches) (unplacedElse otherwise) .start
  | .loop init test update body _ =>
    .loop (init.map Formula.unplaced) (test.map Formula.unplaced) (update.map Formula.unplaced)
      (unplacedBody body) .start
  | .break _ => .break .start
  | .continue _ => .continue .start
  | .return value _ => .return (value.map Formula.unplaced) .start
  | .importAs path name _ => .importAs path name .start
  | .importFrom path names _ => .importFrom path names .start
  | .function name params base isMethod body _ =>
    .function name params base isMethod (unplacedBody body) .start
  | .struct name body _ => .struct name (unplacedBody body) .start
  | .block name body _ => .block name (unplacedBody body) .start
  | .inject name body _ => .inject name (unplacedBody body) .start

def unplacedBody : List Stmt → List Stmt
  | [] => []
  | stmt :: rest => stmt.unplaced :: unplacedBody rest

def unplacedBranches : List (Expr × List Stmt) → List (Expr × List Stmt)
  | [] => []
  | (condition, body) :: rest => (condition.unplaced, unplacedBody body) :: unplacedBranches rest

def unplacedElse : Option (List Stmt) → Option (List Stmt)
  | none => none
  | some body => some (unplacedBody body)

end

theorem unplacedBody_eq (body : List Stmt) : unplacedBody body = body.map Stmt.unplaced := by
  induction body with
  | nil => rfl
  | cons stmt rest ih => rw [unplacedBody, ih, List.map_cons]

def unplacedBranch (branch : Expr × List Stmt) : Expr × List Stmt :=
  (branch.1.unplaced, branch.2.map Stmt.unplaced)

theorem unplacedBranches_eq (branches : List (Expr × List Stmt)) :
    unplacedBranches branches = branches.map unplacedBranch := by
  induction branches with
  | nil => rfl
  | cons branch rest ih =>
    rw [unplacedBranches, ih, List.map_cons, unplacedBody_eq, unplacedBranch]

theorem unplacedElse_eq (otherwise : Option (List Stmt)) :
    unplacedElse otherwise = otherwise.map (·.map Stmt.unplaced) := by
  cases otherwise with
  | none => rfl
  | some body => rw [unplacedElse, unplacedBody_eq, Option.map_some]

/-! Statements with bodies. -/

namespace Stmt

theorem unplaced_cond (branches : List (Expr × List Stmt)) (otherwise : Option (List Stmt))
    (pos : Position) : (cond branches otherwise pos).unplaced =
      .cond (branches.map unplacedBranch) (otherwise.map (·.map unplaced)) .start := by
  rw [← unplacedBranches_eq, ← unplacedElse_eq]
  rfl

theorem unplaced_loop (init test update : Option Formula) (body : List Stmt) (pos : Position) :
    (loop init test update body pos).unplaced =
      .loop (init.map Formula.unplaced) (test.map Formula.unplaced) (update.map Formula.unplaced)
        (body.map unplaced) .start :=
  congrArg (loop _ _ _ · .start) (unplacedBody_eq body)

theorem unplaced_function (name : String) (params : List String) (base : Option String)
    (isMethod : Bool) (body : List Stmt) (pos : Position) :
    (function name params base isMethod body pos).unplaced =
      .function name params base isMethod (body.map unplaced) .start :=
  congrArg (function name params base isMethod · .start) (unplacedBody_eq body)

end Stmt

def Program.unplaced (program : Program) : Program := program.map Stmt.unplaced

end Stencil
