import Stencil.Program.Basic

/-!
The blocks that a function's body declares. They are looked for wherever
statements run in the function's own frame: in branches, loops, blocks and
injected bodies, but not in definitions inside the body.
-/

namespace Stencil

def addName (names : List String) (name : String) : List String :=
  if names.contains name then names else names ++ [name]

mutual

def Stmt.blocksFrom (names : List String) : Stmt → List String
  | .block name body _ => blocksOfBody (addName names name) body
  | .cond branches otherwise _ => blocksOfElse (blocksOfBranches names branches) otherwise
  | .loop _ _ _ body _ => blocksOfBody names body
  | .inject _ body _ => blocksOfBody names body
  | _ => names

def blocksOfBody (names : List String) : List Stmt → List String
  | [] => names
  | stmt :: rest => blocksOfBody (stmt.blocksFrom names) rest

def blocksOfBranches (names : List String) : List (Expr × List Stmt) → List String
  | [] => names
  | (_, body) :: rest => blocksOfBranches (blocksOfBody names body) rest

def blocksOfElse (names : List String) : Option (List Stmt) → List String
  | none => names
  | some body => blocksOfBody names body

end

def declaredBlocks (body : List Stmt) : List String := blocksOfBody [] body

def FunctionDef.blocks (d : FunctionDef) : List String := declaredBlocks d.body

end Stencil
