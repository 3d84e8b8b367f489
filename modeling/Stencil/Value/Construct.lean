import Stencil.Number.Reading
import Stencil.Text.Blank
import Stencil.Value.Copy

/-!
Types called as functions. Without an argument a type gives its empty value,
with one it converts the argument.
-/

namespace Stencil.TypeTag

def empty? : TypeTag → Option Object
  | .int => some (.int 0)
  | .float => some (.float 0.0)
  | .string => some (.str "")
  | .bool => some (.bool false)
  | .array => some (.array #[])
  | .dict => some (.dict .empty)
  | _ => none

def readInt (content : String) : Except Fault Object :=
  match Number.readInt? (Text.trim content) with
  | some n => .ok (.int n)
  | none => .error (.cannotCastText content .int)

def readFloat (content : String) : Except Fault Object :=
  match Number.readFloat? (Text.trim content) with
  | some x => .ok (.float x)
  | none => .error (.cannotCastText content .float)

/-- Converts a value. A value that is already of a numeric type stays the same
object; containers are copied. -/
def convert (target : TypeTag) (v : Value) : Action Value := do
  match target, ← Action.load v with
  | .int, .int _ => return v
  | .int, .bool b => Action.make (.int (Object.ofBool b))
  | .int, .float x => Action.make (.int x.toInt64)
  | .int, .str content => Action.make (← Action.ofExcept (readInt content))
  | .float, .float _ => return v
  | .float, .bool b => Action.make (.float (Object.ofBool b).toFloat)
  | .float, .int n => Action.make (.float n.toFloat)
  | .float, .str content => Action.make (← Action.ofExcept (readFloat content))
  | .string, held => Action.make (.str held.display)
  | .bool, held => Action.make (.bool held.truthy)
  | .array, .array _ => Value.copy v
  | .array, .str content =>
    Action.makeArrayOf (content.toList.map fun c => .str (String.singleton c))
  | .array, .dict entries => Action.makeArrayOf (entries.keys.map .str)
  | .dict, .dict _ => Value.copy v
  | .dict, .instance _ fields => Action.make (.dict (← Action.scope fields))
  | target, held => Action.fail (.cannotCast held.tag target)

def construct (target : TypeTag) (args : List Value) : Action Value := do
  match args with
  | [] =>
    match target.empty? with
    | some value => Action.make value
    | none => Action.fail (.cannotConstruct target)
  | [v] => target.convert v
  | _ => Action.fail (.constructorCount target)

end Stencil.TypeTag
