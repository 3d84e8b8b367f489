import Stencil.Text.Quoted
import Stencil.Value.Basic

/-!
Values shown with their structure: texts in quotes, arrays and dicts with their
elements, everything else as in the output.
-/

namespace Stencil.Value

/-- The budget bounds how deep elements are shown. -/
def inspectFrom (s : Store) : Nat → Value → String
  | 0, _ => ""
  | budget + 1, v =>
    match s.get v with
    | .str content => Text.quoted content
    | .array items =>
      "[" ++ String.intercalate ", " (items.toList.map (inspectFrom s budget)) ++ "]"
    | .dict entries =>
      "\x7b" ++ String.intercalate ", " (entries.toList.map fun (key, value) =>
        Text.quoted key ++ ": " ++ inspectFrom s budget value) ++ "\x7d"
    | object => object.display

/-- An element of a value without cycles lies no deeper than there are objects. -/
def inspect (s : Store) (v : Value) : String := inspectFrom s (s.objects.size + 1) v

def inspectDict (s : Store) (entries : Dict Value) : String :=
  "\x7b" ++ String.intercalate ", " (entries.toList.map fun (key, value) =>
    Text.quoted key ++ ": " ++ inspect s value) ++ "\x7d"

end Stencil.Value
