import Stencil.Value.Basic

/-!
Equality of values. Numbers are compared as numbers across truth values, whole
numbers and decimals, texts and types by content, arrays and dicts element by
element; everything else is equal only to itself. Containers may contain
themselves: a pair of containers that has been met before is taken to be equal,
which is sound because one difference anywhere settles the whole question.
-/

namespace Stencil

inductive Num
  | int (value : Int64)
  | float (value : Float)

namespace Num

def ofObject? : Object → Option Num
  | .bool value => some (.int (Object.ofBool value))
  | .int value => some (.int value)
  | .float value => some (.float value)
  | _ => none

def toFloat : Num → Float
  | .int value => value.toFloat
  | .float value => value

def equal : Num → Num → Bool
  | .int x, .int y => x = y
  | x, y => x.toFloat == y.toFloat

end Num

namespace Value

def scalarEqual (x y : Object) : Bool :=
  match Num.ofObject? x, Num.ofObject? y with
  | some a, some b => a.equal b
  | _, _ =>
    match x, y with
    | .nil, .nil => true
    | .str a, .str b => a = b
    | .type a, .type b => a = b
    | .builtin a, .builtin b => a = b
    | _, _ => false

abbrev Pairs := List (Value × Value)

def allEqual (equal : Pairs → Value → Value → Bool × Pairs) (seen : Pairs) :
    List (Value × Option Value) → Bool × Pairs
  | [] => (true, seen)
  | (_, none) :: _ => (false, seen)
  | (a, some b) :: rest =>
    match equal seen a b with
    | (true, seen) => allEqual equal seen rest
    | (false, seen) => (false, seen)

/-- Compares two values, given the pairs of containers met before. The budget is
the number of containers that may still be entered inside one another. -/
def equalFrom (s : Store) : Nat → Pairs → Value → Value → Bool × Pairs
  | 0, seen, _, _ => (false, seen)
  | budget + 1, seen, a, b =>
    if a = b then (true, seen)
    else match s.get a, s.get b with
      | .array xs, .array ys =>
        if seen.contains (a, b) then (true, seen)
        else if xs.size ≠ ys.size then (false, seen)
        else allEqual (equalFrom s budget) ((a, b) :: seen)
          (xs.toList.zip (ys.toList.map some))
      | .dict xs, .dict ys =>
        if seen.contains (a, b) then (true, seen)
        else if xs.size ≠ ys.size then (false, seen)
        else allEqual (equalFrom s budget) ((a, b) :: seen)
          (xs.toList.map fun (key, x) => (x, ys.get? key))
      | x, y => (scalarEqual x y, seen)

/-- Every pair of objects can be entered once. -/
def equal (s : Store) (a b : Value) : Bool :=
  (equalFrom s (s.objects.size * s.objects.size + 1) [] a b).1

end Value

end Stencil
