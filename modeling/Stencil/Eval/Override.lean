import Stencil.Eval.Function

/-!
Functions that extend others. A function names the one it extends, which is
looked up in the module that defined it each time it is needed. Before it calls
the extended function through `super`, it may register bodies for the blocks
declared there; a registered body takes the place of the block's own and runs in
the frame of the function that registered it. The table of registered bodies is
handed from function to function along `super`, and what is in it stays.
-/

namespace Stencil

namespace Store

def baseOf (s : Store) (f : Function) : Except Fault Value :=
  match f.definition.base with
  | none => .error (.noBase f.definition.name)
  | some name =>
    match s.lookup f.globals name with
    | none => .error (.baseUndefined name)
    | some v =>
      match s.get v with
      | .function _ => .ok v
      | _ => .error (.baseNotFunction name)

def declaresBlock (s : Store) (v : Value) (block : String) : Bool :=
  match s.get v with
  | .function f => f.definition.blocks.contains block
  | _ => false

/-- Whether one of the functions that a function extends, directly or through
others, declares a block. At most so many are looked at. -/
def ancestorDeclares (s : Store) (block : String) : Nat → Value → Except Fault Bool
  | 0, _ => .ok false
  | generations + 1, v =>
    match s.get v with
    | .function f =>
      if f.definition.base.isNone then .ok false
      else
        match s.baseOf f with
        | .ok base =>
          if s.declaresBlock base block then .ok true
          else s.ancestorDeclares block generations base
        | .error fault => .error fault
    | _ => .ok false

end Store

/-- The frame of an overriding body: that of its own function, with the bodies
registered where the block stands. -/
def Frame.ofInjection (injection : Injection) (injections : Dict Injection) : Frame :=
  { locals := injection.locals, globals := injection.globals, function := injection.function,
    name := injection.name, injections, file := injection.file }

def Frame.injection (frame : Frame) (body : List Stmt) : Injection :=
  { body, locals := frame.locals, globals := frame.globals, function := frame.function,
    name := frame.name, file := frame.file }

namespace Eval

def runBlock (ex : Executor) (name : String) (body : List Stmt) (pos : Position) :
    Eval Flow := do
  let injections ← read (·.frame.injections)
  match injections.get? name with
  | none => ex body
  | some injection => enter (.ofInjection injection injections) pos (ex injection.body)

/-- Adds an overriding body to the active frame; one that is there already
stays. -/
def addInjection (name : String) (body : List Stmt) : Eval Unit :=
  modify fun m =>
    if m.frame.injections.contains name then m
    else
      { m with
        frame := { m.frame with
          injections := m.frame.injections.insert name (m.frame.injection body) } }

def registerInjection (name : String) (body : List Stmt) (pos : Position) : Eval Unit := do
  match ← read (·.frame.function) with
  | none => fail .injectOutsideFunction pos
  | some function =>
    match ← read (·.store.ancestorDeclares name depthLimit function) with
    | .error fault => fail fault pos
    | .ok false => fail (.noSuchBlock name) pos
    | .ok true => addInjection name body

/-- Calls the function that the active one extends, and hands it the registered
bodies. -/
def callSuper (ex : Executor) (args : List Value) (pos : Position) : Eval Value := do
  match ← read (·.frame.function) with
  | none => fail .superOutsideFunction pos
  | some function =>
    match ← load function with
    | .function f =>
      match ← read (·.store.baseOf f) with
      | .ok base => callFunction ex base args pos (← read (·.frame.injections))
      | .error fault => fail fault pos
    | _ => fail .superOutsideFunction pos

end Eval

end Stencil
