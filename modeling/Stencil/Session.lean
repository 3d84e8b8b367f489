import Stencil.Eval.Run

/-!
A session: programs that run one after the other in one context. Variables,
output, shortcuts and imported modules stay from program to program until the
session is cleared. The failure of the last program and its source are kept, so
that the failure can be shown with the line it happened in.
-/

namespace Stencil

structure Source where
  text : String
  file : Option String

structure Session where
  store : Store
  context : Context
  /-- The directory in which modules are looked for last. -/
  library : String
  failure : Option Diagnostic
  /-- The program that ran last. -/
  source : Option Source

namespace Session

def start (files : FileTree) (library : String) (lineEnding : LineEnding) (options : Options) :
    Session :=
  let (globals, store) := (Store.ofFiles files).newScope .empty
  { store, context := .fresh globals lineEnding options, library, failure := none, source := none }

def files (s : Session) : FileTree := s.store.files

def setFiles (s : Session) (files : FileTree) : Session := { s with store := s.store.setFiles files }

/-- Forgets variables, output, shortcuts, modules and the last failure. Files,
options and the line end stay. The old objects are left in the store. -/
def clear (s : Session) : Session :=
  let (globals, store) := s.store.restart.newScope .empty
  { s with
    store, context := .fresh globals s.context.lineEnding s.context.options, failure := none }

def modifyContext (s : Session) (f : Context → Context) : Session :=
  { s with context := f s.context }

def clearOutput (s : Session) : Session := s.modifyContext (·.clearOutput)

def setArgs (s : Session) (args : List String) : Session :=
  s.modifyContext fun c => { c with options := .ofArgs args }

def setLineEnding (s : Session) (lineEnding : LineEnding) : Session :=
  s.modifyContext fun c => { c with lineEnding := lineEnding }

/-! Variables -/

def globals (s : Session) : Dict Value := s.store.scope s.context.globals

def global? (s : Session) (name : String) : Option Value := s.globals.get? name

def setVariable (s : Session) (name : String) (v : Value) : Session :=
  { s with store := s.store.bindName s.context.globals name v }

/-! Programs -/

def machine (s : Session) (file : Option String) : Machine :=
  { store := s.store, context := s.context, frame := .top s.context.globals file, depth := 0,
    inReference := false, library := s.library }

def adopt (s : Session) (m : Machine) (failure : Option Diagnostic) : Session :=
  { s with store := m.store, context := m.context, failure }

def runProgram (fuel : Nat) (s : Session) (program : Program) (file : Option String) :
    Option Session :=
  match Eval.runProgram fuel program (s.machine file) with
  | .done _ m => some (s.adopt m none)
  | .fail d m => some (s.adopt m (some d))
  | .starved _ => none

/-- Reads and runs a program. Arguments replace those of the session if there are
any. -/
def run (fuel : Nat) (s : Session) (source : Source) (args : List String) : Option Session :=
  let s := { if args.isEmpty then s else s.setArgs args with source := some source }
  match Program.ofSource source.text with
  | .ok program => s.runProgram fuel program source.file
  | .error d => some { s with failure := some (d.push source.file d.line Frame.mainName) }

def runFile (fuel : Nat) (s : Session) (path : String) (args : List String) : Option Session :=
  match s.files.readText? path with
  | some text => s.run fuel ⟨text, some path⟩ args
  | none =>
    some { s with failure := some ⟨.importing (.noProgram path), none, []⟩, source := none }

/-! Failures -/

def exitStatus? (s : Session) : Option Int32 := s.failure.bind Diagnostic.exitStatus?

/-- The source that a failure is shown with: that of the last program, if the
failure arose in it. -/
def sourceOf? (s : Session) (d : Diagnostic) : Option String :=
  match s.source with
  | none => none
  | some source =>
    match d.trace with
    | [] => some source.text
    | entry :: _ => if entry.file = source.file then some source.text else none

/-- The failure of the last program as text; a requested exit is none. -/
def report (s : Session) (detailed : Bool) : String :=
  match s.failure with
  | none => ""
  | some d => if d.exitStatus?.isSome then "" else d.render (s.sourceOf? d) detailed

end Session

end Stencil
