import Stencil.Operator
import Stencil.Position

/-!
The tree of a program. Template text and reference blocks are statements like
any other, so that the bodies of statements can hold code and text in any mix.
Each level of binary operators keeps its first operand and the list of the
operators and operands that follow, which are combined from left to right.
-/

namespace Stencil

mutual

inductive Expr
  | nil
  | bool (value : Bool)
  | int (value : Int64)
  | float (value : Float)
  | str (content : String)
  | ident (name : String) (pos : Position)
  | array (items : List Expr) (pos : Position)
  | dict (entries : List (Expr × Expr)) (pos : Position)
  /-- The word `super`, which means something only when it is called. -/
  | super (pos : Position)
  /-- A head followed by attributes, calls and indexes. -/
  | chain (head : Expr) (links : List Link)
  | negative (operand : Expr) (pos : Position)
  | arith (first : Expr) (rest : List (ArithOp × Expr × Position))
  /-- A place that is combined with operands and assigned the result. -/
  | augment (target : Expr) (rest : List (ArithOp × Expr × Position))
  | comparison (first : Expr) (rest : List (CompOp × Expr × Position))
  | not (operand : Expr) (pos : Position)
  | and (items : List Expr)
  | or (items : List Expr)

inductive Link
  | attr (name : String) (pos : Position)
  | call (args : List Expr) (pos : Position)
  | index (key : Expr) (pos : Position)

end

/-- Where an expression begins, as far as it remembers. -/
def Expr.pos? : Expr → Option Position
  | .ident _ pos | .array _ pos | .dict _ pos | .super pos | .negative _ pos | .not _ pos =>
    some pos
  | .chain head _ => head.pos?
  | .arith first _ | .augment first _ | .comparison first _ => first.pos?
  | .and (item :: _) | .or (item :: _) => item.pos?
  | _ => none

inductive Formula
  /-- `a = b = 1, c = 2`: chains of targets that end in a value. -/
  | assignments (chains : List (List Expr))
  /-- `a, b = 1, 2`: lists of targets and last the list of values. One list
  alone is a plain expression. -/
  | parallel (lists : List (List Expr))

structure ImportName where
  name : String
  rename : Option String

def ImportName.bound (n : ImportName) : String := n.rename.getD n.name

inductive Stmt
  | text (content : String)
  /-- A formula whose value is written to the output. -/
  | reference (formula : Formula) (pos : Position)
  | formula (formula : Formula) (pos : Position)
  | cond (branches : List (Expr × List Stmt)) (otherwise : Option (List Stmt)) (pos : Position)
  | loop (init test update : Option Formula) (body : List Stmt) (pos : Position)
  | break (pos : Position)
  | continue (pos : Position)
  | return (value : Option Formula) (pos : Position)
  | importAs (path name : String) (pos : Position)
  | importFrom (path : String) (names : List ImportName) (pos : Position)
  /-- A function; a method is handed its receiver as the first argument. -/
  | function (name : String) (params : List String) (base : Option String) (isMethod : Bool)
      (body : List Stmt) (pos : Position)
  | struct (name : String) (body : List Stmt) (pos : Position)
  | block (name : String) (body : List Stmt) (pos : Position)
  | inject (name : String) (body : List Stmt) (pos : Position)

abbrev Program := List Stmt

structure FunctionDef where
  name : String
  params : List String
  base : Option String
  isMethod : Bool
  body : List Stmt

structure StructDef where
  name : String
  body : List Stmt

end Stencil
