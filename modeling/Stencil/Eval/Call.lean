import Stencil.Eval.Builtin
import Stencil.Value.Method

/-!
Calls of any value. An ordinary call starts without overriding bodies.
-/

namespace Stencil.Eval

def callValue (ex : Executor) (callee : Value) (args : List Value) (pos : Position) :
    Eval Value := do
  match ← load callee with
  | .function _ => callFunction ex callee args pos .empty
  | .method receiver (.function target) => callFunction ex target (receiver :: args) pos .empty
  | .method receiver (.builtin name) => act pos (Method.call name receiver args)
  | .builtin function => callBuiltin ex function args pos
  | .struct _ => instantiate ex callee args pos
  | .type tag => act pos (tag.construct args)
  | object => fail (.cannotCall object.tag) pos

end Stencil.Eval
