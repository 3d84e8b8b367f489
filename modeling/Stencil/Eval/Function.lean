import Stencil.Eval.Machine

/-!
Calls of functions and struct types. A function runs in a frame with a new table
that holds its parameters; the names it does not bind are looked for in the
module that defined it, never at its caller. A struct type runs its body again
for each instance.
-/

namespace Stencil

namespace Frame

def ofCall (callee : Value) (f : Function) (locals : ScopeId) (injections : Dict Injection) :
    Frame :=
  { locals, globals := f.globals, function := some callee, name := f.definition.name, injections,
    file := f.file }

def ofStruct (name : String) (fields globals : ScopeId) (file : Option String) : Frame :=
  { locals := fields, globals, function := none, name, injections := .empty, file }

end Frame

/-- The values that positional arguments of an instance replace: all but
functions and struct types. -/
def Store.isDatum (s : Store) (v : Value) : Bool :=
  match s.get v with
  | .function _ | .struct _ => false
  | _ => true

def Store.dataFields (s : Store) (fields : ScopeId) : List String :=
  ((s.scope fields).toList.filter fun entry => s.isDatum entry.2).map Prod.fst

namespace Eval

def runBody (ex : Executor) (frame : Frame) (body : List Stmt) (pos : Position) : Eval Unit :=
  enter frame pos do settle (← ex body)

def returned : Flow → Eval Value
  | .next => make .nil
  | .return v _ => pure v
  | .break pos => fail .strayBreak pos
  | .continue pos => fail .strayContinue pos

def callFunction (ex : Executor) (callee : Value) (args : List Value) (pos : Position)
    (injections : Dict Injection) : Eval Value := do
  match ← load callee with
  | .function f =>
    let params := f.definition.params
    if args.length = params.length then
      let locals ← newScope (.ofList (params.zip args))
      enter (.ofCall callee f locals injections) pos do returned (← ex f.definition.body)
    else fail (.wrongArity f.definition.name params.length args.length) pos
  | object => fail (.cannotCall object.tag) pos

/-- Runs the struct body into new fields and gives the leading data fields the
arguments. Arguments may be missing or left over. -/
def instantiate (ex : Executor) (callee : Value) (args : List Value) (pos : Position) :
    Eval Value := do
  match ← load callee with
  | .struct type =>
    let fields ← newScope .empty
    runBody ex (.ofStruct type.definition.name fields type.globals type.file)
      type.definition.body pos
    let names ← read (·.store.dataFields fields)
    modifyStore (·.updateScope fields (·.insertAll (names.zip args)))
    make (.instance callee fields)
  | object => fail (.cannotCall object.tag) pos

end Eval

end Stencil
