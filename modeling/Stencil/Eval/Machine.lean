import Stencil.Context
import Stencil.Diagnostic

/-!
The state of a running program and the computations on it. Exactly one frame is
active; it says in which tables names are looked up and which bodies override
the blocks of the function that runs. A computation ends with a result, with a
diagnostic, or because its fuel is spent, and always hands back the machine as
it then stands.
-/

namespace Stencil

/-- How deep calls, struct bodies, injected bodies and imports may be nested. -/
def depthLimit : Nat := 1024

/-- A body that overrides a block, with the frame it was written in. -/
structure Injection where
  body : List Stmt
  locals : ScopeId
  globals : ScopeId
  function : Option Value
  name : String
  file : Option String

structure Frame where
  locals : ScopeId
  globals : ScopeId
  /-- The function that runs in the frame. -/
  function : Option Value
  /-- The name that traces show. -/
  name : String
  /-- Overriding bodies by the name of their block. -/
  injections : Dict Injection
  file : Option String

namespace Frame

def mainName : String := "<main>"

/-- The frame of a program or module, whose locals are its globals. -/
def top (globals : ScopeId) (file : Option String) : Frame :=
  { locals := globals, globals, function := none, name := mainName, injections := .empty, file }

end Frame

structure Machine where
  store : Store
  context : Context
  frame : Frame
  depth : Nat
  /-- Whether the formula of a reference block is being evaluated. -/
  inReference : Bool
  /-- The directory in which modules are looked for last. -/
  library : String

inductive Outcome (α : Type)
  | done (result : α) (machine : Machine)
  | fail (diagnostic : Diagnostic) (machine : Machine)
  | starved (machine : Machine)

namespace Machine

def diagnose (m : Machine) (cause : Cause) (pos : Option Position) : Diagnostic :=
  Diagnostic.push ⟨cause, pos, []⟩ m.frame.file ((pos.map Position.line).getD 0) m.frame.name

def pass (m : Machine) (d : Diagnostic) (pos : Position) : Diagnostic :=
  Diagnostic.push { d with pos := d.pos.or (some pos) } m.frame.file pos.line m.frame.name

end Machine

def Eval (α : Type) := Machine → Outcome α

namespace Eval

@[always_inline, inline]
def pure {α : Type} (a : α) : Eval α := fun m => .done a m

@[always_inline, inline]
def bind {α β : Type} (x : Eval α) (f : α → Eval β) : Eval β := fun m =>
  match x m with
  | .done a m => f a m
  | .fail d m => .fail d m
  | .starved m => .starved m

@[always_inline]
instance : Monad Eval where
  pure := Eval.pure
  bind := Eval.bind

def starve {α : Type} : Eval α := fun m => .starved m

def failWith {α : Type} (cause : Cause) (pos : Option Position) : Eval α := fun m =>
  .fail (m.diagnose cause pos) m

def fail {α : Type} (fault : Fault) (pos : Position) : Eval α :=
  failWith (.runtime fault) (some pos)

def failAt? {α : Type} (fault : Fault) (pos : Option Position) : Eval α :=
  failWith (.runtime fault) pos

@[inline]
def read {α : Type} (f : Machine → α) : Eval α := fun m => .done (f m) m

@[inline]
def modify (f : Machine → Machine) : Eval Unit := fun m => .done () (f m)

@[inline]
def act {α : Type} (pos : Position) (action : Action α) : Eval α := fun m =>
  let ⟨store, context, frame, depth, inReference, library⟩ := m
  match action store with
  | (.ok a, store) => .done a ⟨store, context, frame, depth, inReference, library⟩
  | (.error fault, store) =>
    let m : Machine := ⟨store, context, frame, depth, inReference, library⟩
    .fail (m.diagnose (.runtime fault) (some pos)) m

@[inline]
def load (v : Value) : Eval Object := fun m => .done (m.store.get v) m

@[inline]
def make (object : Object) : Eval Value := fun m =>
  let ⟨store, context, frame, depth, inReference, library⟩ := m
  let (v, store) := store.alloc object
  .done v ⟨store, context, frame, depth, inReference, library⟩

@[inline]
def newScope (names : Dict Value) : Eval ScopeId := fun m =>
  let ⟨store, context, frame, depth, inReference, library⟩ := m
  let (id, store) := store.newScope names
  .done id ⟨store, context, frame, depth, inReference, library⟩

@[inline]
def modifyStore (f : Store → Store) : Eval Unit := fun m =>
  let ⟨store, context, frame, depth, inReference, library⟩ := m
  .done () ⟨f store, context, frame, depth, inReference, library⟩

@[inline]
def modifyContext (f : Context → Context) : Eval Unit := fun m =>
  let ⟨store, context, frame, depth, inReference, library⟩ := m
  .done () ⟨store, f context, frame, depth, inReference, library⟩

@[inline]
def frame : Eval Frame := fun m => .done m.frame m

def bindLocal (name : String) (v : Value) : Eval Unit := fun m =>
  let ⟨store, context, frame, depth, inReference, library⟩ := m
  .done () ⟨store.bindName frame.locals name v, context, frame, depth, inReference, library⟩

def writeOut (text : String) : Eval Unit := modifyContext (·.writeOut text)

def writeErr (text : String) : Eval Unit := modifyContext (·.writeErr text)

def isTruthy (v : Value) : Eval Bool := fun m => .done (m.store.get v).truthy m

end Eval

inductive Flow
  | next
  | break (pos : Position)
  | continue (pos : Position)
  | return (value : Value) (pos : Position)

namespace Eval

/-- A signal that nothing has caught is an error where it arrives. -/
def settle : Flow → Eval Unit
  | .next => pure ()
  | .break pos => fail .strayBreak pos
  | .continue pos => fail .strayContinue pos
  | .return _ pos => fail .strayReturn pos

/-- Runs a computation in a frame of its own, one level deeper. The caller's
frame is back afterwards on every path, and a diagnostic that comes out gets an
entry for the place of the call. -/
def enter {α : Type} (frame : Frame) (pos : Position) (body : Eval α) : Eval α := fun m =>
  if m.depth < depthLimit then
    let ⟨store, context, caller, depth, inReference, library⟩ := m
    match body ⟨store, context, frame, depth + 1, false, library⟩ with
    | .done a m => .done a ⟨m.store, m.context, caller, m.depth - 1, inReference, m.library⟩
    | .fail d m =>
      .fail (d.push caller.file pos.line caller.name)
        ⟨m.store, m.context, caller, m.depth - 1, inReference, m.library⟩
    | .starved m => .starved m
  else fail .tooDeep pos m

def inReferenceBlock {α : Type} (x : Eval α) : Eval α := fun m =>
  let outside := m.inReference
  match x { m with inReference := true } with
  | .done a m => .done a { m with inReference := outside }
  | .fail d m => .fail d { m with inReference := outside }
  | .starved m => .starved m

end Eval

abbrev Evaluator := Expr → Eval Value

abbrev Executor := List Stmt → Eval Flow

end Stencil
