import Stencil.Eval.Function
import Stencil.Grammar.Statement

/-!
Modules. A path is tried as it stands, beside the importing file, and in the
library. A module is run once in a context, in a table of its own, and is entered
among the known modules before it runs, so that modules may import each other;
one that fails is forgotten again.
-/

namespace Stencil

namespace Machine

/-- Where a module is looked for, in this order. -/
def candidates (m : Machine) (path : String) : List String :=
  let beside := (m.frame.file.bind Path.parent?).map (Path.join · path)
  path :: (beside.toList ++ [Path.join m.library path])

def resolve? (m : Machine) (path : String) : Option String :=
  match (m.candidates path).find? m.store.files.isFile with
  | some found => some ((m.store.files.canonical? found).getD found)
  | none => none

end Machine

namespace Eval

def remember (file : String) (v : Value) : Eval Unit :=
  modifyContext fun c => { c with modules := c.modules.insert file v }

def forget (file : String) : Eval Unit :=
  modifyContext fun c => { c with modules := c.modules.erase file }

def orElse {α : Type} (x : Eval α) (undo : Eval Unit) : Eval α := fun m =>
  match x m with
  | .done a m => .done a m
  | .starved m => .starved m
  | .fail d m =>
    match undo m with
    | .done _ m => .fail d m
    | .fail _ m => .fail d m
    | .starved m => .starved m

/-- Reports that the text of a module is malformed, with an entry for the module
itself and one for the importing frame. -/
def failInModule {α : Type} (d : Diagnostic) (file : String) (pos : Position) : Eval α := fun m =>
  let inModule := d.push (some file) d.line Frame.mainName
  .fail (inModule.push m.frame.file pos.line m.frame.name) m

def runModule (ex : Executor) (path file : String) (program : Program) (pos : Position) :
    Eval Value := do
  let scope ← newScope .empty
  let v ← make (.module path scope)
  remember file v
  orElse (runBody ex (.top scope (some file)) program pos) (forget file)
  return v

def importModule (ex : Executor) (path : String) (pos : Position) : Eval Value := do
  match ← read (·.resolve? path) with
  | none => failWith (.importing (.notFound path)) (some pos)
  | some file =>
    match ← read (·.context.modules.get? file) with
    | some v => return v
    | none =>
      match ← read (·.store.files.readText? file) with
      | none => failWith (.importing (.unreadable file)) (some pos)
      | some source =>
        match Program.ofSource source with
        | .error d => failInModule d file pos
        | .ok program => runModule ex path file program pos

def bindNames (scope : ScopeId) (path : String) (pos : Position) : List ImportName → Eval Unit
  | [] => pure ()
  | name :: rest => do
    match ← read (·.store.lookup scope name.name) with
    | none => fail (.notInModule name.name path) pos
    | some v =>
      bindLocal name.bound v
      bindNames scope path pos rest

def importAs (ex : Executor) (path name : String) (pos : Position) : Eval Unit := do
  bindLocal name (← importModule ex path pos)

def importFrom (ex : Executor) (path : String) (names : List ImportName) (pos : Position) :
    Eval Unit := do
  match ← load (← importModule ex path pos) with
  | .module _ scope => bindNames scope path pos names
  | _ => fail (.notAModule path) pos

end Eval

end Stencil
