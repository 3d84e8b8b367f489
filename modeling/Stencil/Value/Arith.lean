import Stencil.Number.Binary64
import Stencil.Value.Equal

/-!
The operators on values. Truth values count as zero and one; whole numbers wrap
around at 64 bits and divide toward zero; as soon as one side is a decimal both
are. Texts can be joined and repeated. Only numbers have an order.
-/

namespace Stencil

namespace Int64Arith

def apply (op : ArithOp) (x y : Int64) : Except Fault Int64 :=
  match op with
  | .add => .ok (x + y)
  | .sub => .ok (x - y)
  | .mul => .ok (x * y)
  | .div => if y = 0 then .error .zeroDivision else .ok (x / y)
  | .mod => if y = 0 then .error .zeroDivision else .ok (x % y)

end Int64Arith

namespace FloatArith

def apply (op : ArithOp) (x y : Float) : Except Fault Float :=
  match op with
  | .add => .ok (x + y)
  | .sub => .ok (x - y)
  | .mul => .ok (x * y)
  | .div => if y == 0.0 then .error .zeroDivision else .ok (x / y)
  | .mod => if y == 0.0 then .error .zeroDivision else .ok (Binary64.remainder x y)

end FloatArith

namespace Object

/-- The longest text that repetition may make, in bytes. -/
def longestText : Nat := Nat.pow 2 30

def repeatText (content : String) (count : Nat) : String :=
  count.repeat (· ++ content) ""

def repeated (content : String) (count : Object) : Except Fault Object :=
  match count.int? with
  | none => .error (.cannotCombine .mul .string count.tag)
  | some n =>
    if n < 0 then .error .negativeRepeat
    else
      let times := n.toInt.toNat
      if content.utf8ByteSize * times ≤ longestText then
        .ok (.str (if content.isEmpty then "" else repeatText content times))
      else .error .repeatTooLarge

def numeric (op : ArithOp) (left right : Object) : Except Fault Object :=
  match Num.ofObject? left, Num.ofObject? right with
  | some (.int x), some (.int y) => (Int64Arith.apply op x y).map .int
  | some a, some b => (FloatArith.apply op a.toFloat b.toFloat).map .float
  | _, _ => .error (.cannotCombine op left.tag right.tag)

def arith (op : ArithOp) (left right : Object) : Except Fault Object :=
  match op, left, right with
  | .add, .str a, .str b => .ok (.str (a ++ b))
  | .mul, .str content, count => repeated content count
  | op, left, right => numeric op left right

def negate : Object → Except Fault Object
  | .bool value => .ok (.int (-ofBool value))
  | .int value => .ok (.int (-value))
  | .float value => .ok (.float (-value))
  | operand => .error (.cannotNegate operand.tag)

def orderInts (op : CompOp) (x y : Int64) : Bool :=
  match op with
  | .lt => x < y
  | .le => x ≤ y
  | .gt => y < x
  | .ge => y ≤ x
  | .eq => x = y
  | .ne => x ≠ y

/-- How two decimals are ordered; what is no number stands in no order. -/
def orderFloats (op : CompOp) (x y : Float) : Bool :=
  match op with
  | .lt => x < y
  | .le => x ≤ y
  | .gt => y < x
  | .ge => y ≤ x
  | .eq => x == y
  | .ne => x != y

def order (op : CompOp) (left right : Object) : Except Fault Bool :=
  match Num.ofObject? left, Num.ofObject? right with
  | some (.int x), some (.int y) => .ok (orderInts op x y)
  | some a, some b => .ok (orderFloats op a.toFloat b.toFloat)
  | _, _ => .error (.cannotCompare op left.tag right.tag)

end Object

namespace Value

def arith (op : ArithOp) (left right : Value) : Action Value := do
  Action.make (← Action.ofExcept (Object.arith op (← Action.load left) (← Action.load right)))

def negate (operand : Value) : Action Value := do
  Action.make (← Action.ofExcept (Object.negate (← Action.load operand)))

/-- Equality is defined for all values, the order for numbers. -/
def compare (op : CompOp) (left right : Value) : Action Bool := do
  match op with
  | .eq => Action.read fun s => equal s left right
  | .ne => Action.read fun s => !equal s left right
  | op => Action.ofExcept (Object.order op (← Action.load left) (← Action.load right))

end Value

end Stencil
