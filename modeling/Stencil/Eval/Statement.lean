import Stencil.Eval.Formula
import Stencil.Eval.Module

/-!
Execution of statements, one construct at a time. A statement ends by going on
or with a signal; statements after a signal are not reached, and loops and calls
catch the signals that are meant for them. The rounds of a loop are bounded by a
number that is handed in with the evaluator.
-/

namespace Stencil.Eval

def execEach (step : Stmt → Eval Flow) : List Stmt → Eval Flow
  | [] => pure .next
  | stmt :: rest => do
    match ← step stmt with
    | .next => execEach step rest
    | flow => return flow

def execBranches (ev : Evaluator) (ex : Executor) (otherwise : Option (List Stmt)) :
    List (Expr × List Stmt) → Eval Flow
  | [] =>
    match otherwise with
    | some body => ex body
    | none => pure .next
  | (condition, body) :: rest => do
    let v ← ev condition
    if ← isTruthy v then ex body else execBranches ev ex otherwise rest

def runClause (ev : Evaluator) : Option Formula → Eval Unit
  | none => pure ()
  | some formula => do
    let _ ← evalFormula ev formula
    return ()

/-- A loop without a condition goes on. -/
def goesOn (ev : Evaluator) : Option Formula → Eval Bool
  | none => pure true
  | some formula => do isTruthy (← evalFormula ev formula)

/-- The rounds of a loop. The update clause runs after a `continue` too. -/
def execRounds (ev : Evaluator) (ex : Executor) (test update : Option Formula)
    (body : List Stmt) : Nat → Eval Flow
  | 0 => starve
  | rounds + 1 => do
    if ← goesOn ev test then
      match ← ex body with
      | .break _ => return .next
      | .return v pos => return .return v pos
      | .next | .continue _ =>
        runClause ev update
        execRounds ev ex test update body rounds
    else return .next

def execLoop (ev : Evaluator) (ex : Executor) (rounds : Nat) (init test update : Option Formula)
    (body : List Stmt) : Eval Flow := do
  runClause ev init
  execRounds ev ex test update body rounds

def execReference (ev : Evaluator) (formula : Formula) : Eval Unit := do
  let v ← inReferenceBlock (evalFormula ev formula)
  writeOut (← load v).display

def defineFunction (definition : FunctionDef) : Eval Unit := do
  let frame ← frame
  bindLocal definition.name
    (← make (.function { definition, globals := frame.globals, file := frame.file }))

def defineStruct (ex : Executor) (definition : StructDef) (pos : Position) : Eval Unit := do
  let frame ← frame
  let fields ← newScope .empty
  runBody ex (.ofStruct definition.name fields frame.globals frame.file) definition.body pos
  bindLocal definition.name
    (← make (.struct { definition, fields, globals := frame.globals, file := frame.file }))

def thenNext (x : Eval Unit) : Eval Flow := do
  x
  return .next

def execStep (ev : Evaluator) (ex : Executor) (rounds : Nat) : Stmt → Eval Flow
  | .text content => thenNext (writeOut content)
  | .reference formula _ => thenNext (execReference ev formula)
  | .formula formula _ => thenNext (runClause ev (some formula))
  | .cond branches otherwise _ => execBranches ev ex otherwise branches
  | .loop init test update body _ => execLoop ev ex rounds init test update body
  | .break pos => pure (.break pos)
  | .continue pos => pure (.continue pos)
  | .return none pos => do return .return (← make .nil) pos
  | .return (some formula) pos => do return .return (← evalFormula ev formula) pos
  | .importAs path name pos => thenNext (importAs ex path name pos)
  | .importFrom path names pos => thenNext (importFrom ex path names pos)
  | .function name params base isMethod body _ =>
    thenNext (defineFunction { name, params, base, isMethod, body })
  | .struct name body pos => thenNext (defineStruct ex { name, body } pos)
  | .block name body pos => runBlock ex name body pos
  | .inject name body pos => thenNext (registerInjection name body pos)

end Stencil.Eval
