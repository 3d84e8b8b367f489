import Stencil.Eval.Expression

/-!
Formulas: assignments and plain expressions. The value is worked out before any
target; where several targets share it they are assigned from right to left, and
a list of targets takes the elements of an array from left to right.
-/

namespace Stencil.Eval

def assign (ev : Evaluator) (v : Value) (target : Expr) : Eval Unit := do
  let place ← placeOf ev target
  place.set v

def assignEach (ev : Evaluator) (v : Value) : List Expr → Eval Unit
  | [] => pure ()
  | target :: rest => do
    assign ev v target
    assignEach ev v rest

def assignPairs (ev : Evaluator) : List (Expr × Value) → Eval Unit
  | [] => pure ()
  | (target, v) :: rest => do
    assign ev v target
    assignPairs ev rest

def assignSpread (ev : Evaluator) (targets : List Expr) (v : Value) : Eval Unit := do
  let pos := targets.head?.bind Expr.pos?
  match ← load v with
  | .array items =>
    if items.size = targets.length then assignPairs ev (targets.zip items.toList)
    else failAt? (.targetCount items.size targets.length) pos
  | _ => failAt? .targetsNeedArray pos

def assignList (ev : Evaluator) (v : Value) : List Expr → Eval Unit
  | [target] => assign ev v target
  | targets => assignSpread ev targets v

def assignLists (ev : Evaluator) (v : Value) : List (List Expr) → Eval Unit
  | [] => pure ()
  | targets :: rest => do
    assignList ev v targets
    assignLists ev v rest

/-- One expression is its own value; several make an array. -/
def evalList (ev : Evaluator) : List Expr → Eval Value
  | [e] => ev e
  | items => do make (.array (← evalEach ev items).toArray)

/-- Chains of targets that end in a value; the result is the last value. -/
def evalChains (ev : Evaluator) (last : Value) : List (List Expr) → Eval Value
  | [] => pure last
  | chain :: rest =>
    match chain.getLast? with
    | none => evalChains ev last rest
    | some value => do
      let v ← ev value
      assignEach ev v chain.dropLast.reverse
      evalChains ev v rest

def evalFormula (ev : Evaluator) : Formula → Eval Value
  | .assignments chains => do evalChains ev (← make .nil) chains
  | .parallel lists =>
    match lists.getLast? with
    | none => make .nil
    | some values => do
      let v ← evalList ev values
      assignLists ev v lists.dropLast.reverse
      return v

end Stencil.Eval
