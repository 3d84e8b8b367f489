import Stencil.Eval.Call
import Stencil.Eval.Override
import Stencil.Eval.Place
import Stencil.Value.Arith

/-!
Evaluation of expressions, one construct at a time. Every construct is a function
of the evaluator of smaller expressions and of the executor that calls run their
bodies with. Operands are evaluated from left to right, and an operator is
applied as soon as its right operand is known.
-/

namespace Stencil.Eval

def evalEach (ev : Evaluator) : List Expr → Eval (List Value)
  | [] => pure []
  | e :: rest => do
    let v ← ev e
    return v :: (← evalEach ev rest)

/-- The entries of a dict; keys must be texts, and a repeated key keeps its place
and takes the later value. -/
def evalEntries (ev : Evaluator) (pos : Position) (table : Dict Value) :
    List (Expr × Expr) → Eval (Dict Value)
  | [] => pure table
  | (key, item) :: rest => do
    match (← load (← ev key)).text? with
    | none => failAt? .literalKeyNotText (key.pos?.or (some pos))
    | some name => evalEntries ev pos (table.insert name (← ev item)) rest

def combineAll (ev : Evaluator) (acc : Value) : List (ArithOp × Expr × Position) → Eval Value
  | [] => pure acc
  | (op, operand, pos) :: rest => do
    let v ← ev operand
    combineAll ev (← act pos (Value.arith op acc v)) rest

/-- Compares from left to right; each result is compared with the next operand. -/
def compareAll (ev : Evaluator) (acc : Value) : List (CompOp × Expr × Position) → Eval Value
  | [] => pure acc
  | (op, operand, pos) :: rest => do
    let v ← ev operand
    let holds ← act pos (Value.compare op acc v)
    compareAll ev (← make (.bool holds)) rest

/-- The first operand that decides, or the last one: with `stop` false the
operands are joined by "and", with `stop` true by "or". -/
def decideAll (ev : Evaluator) (stop : Bool) : List Expr → Eval Value
  | [] => make .nil
  | [e] => ev e
  | e :: rest => do
    let v ← ev e
    if (← isTruthy v) = stop then return v else decideAll ev stop rest

def follow (ev : Evaluator) (ex : Executor) (v : Value) : List Link → Eval Value
  | [] => pure v
  | .attr name pos :: rest => do follow ev ex (← getAttr v name pos) rest
  | .index key pos :: rest => do
    let k ← ev key
    follow ev ex (← act pos (v.elementAt k)) rest
  | .call args pos :: rest => do
    let vs ← evalEach ev args
    follow ev ex (← callValue ex v vs pos) rest

def evalChain (ev : Evaluator) (ex : Executor) (head : Expr) (links : List Link) : Eval Value :=
  match head, links with
  | .super _, .call args pos :: rest => do
    let vs ← evalEach ev args
    follow ev ex (← callSuper ex vs pos) rest
  | head, links => do follow ev ex (← ev head) links

def placeOf (ev : Evaluator) (target : Expr) : Eval Place :=
  match target with
  | .ident name pos => pure (.named name pos)
  | .chain head links =>
    match links.getLast? with
    | none => failAt? .invalidTarget target.pos?
    | some link => do
      let owner ← ev (.chain head links.dropLast)
      match link with
      | .attr name pos => return .attr owner name pos
      | .index key pos => return .index owner (← ev key) pos
      | .call _ pos => fail .assignToCall pos
  | other => failAt? .invalidTarget other.pos?

def evalStep (ev : Evaluator) (ex : Executor) : Evaluator
  | .nil => make .nil
  | .bool value => make (.bool value)
  | .int value => make (.int value)
  | .float value => make (.float value)
  | .str content => make (.str content)
  | .ident name pos => readName name pos
  | .array items _ => do make (.array (← evalEach ev items).toArray)
  | .dict entries pos => do make (.dict (← evalEntries ev pos .empty entries))
  | .super pos => fail .superNeedsCall pos
  | .chain head links => evalChain ev ex head links
  | .negative operand pos => do
    let v ← ev operand
    act pos (Value.negate v)
  | .arith first rest => do combineAll ev (← ev first) rest
  | .augment target rest => do
    let place ← placeOf ev target
    let v ← combineAll ev (← place.get) rest
    place.set v
    return v
  | .comparison first rest => do compareAll ev (← ev first) rest
  | .not operand _ => do
    let v ← ev operand
    make (.bool !(← isTruthy v))
  | .and items => decideAll ev false items
  | .or items => decideAll ev true items

end Stencil.Eval
