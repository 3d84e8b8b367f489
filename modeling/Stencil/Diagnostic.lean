import Stencil.Fault
import Stencil.Grammar.Fault
import Stencil.Text.Blank
import Stencil.Token.Fault

/-!
Reports of failure. A diagnostic has a cause, a place in the source where one is
known, and a trace with one entry for each frame that was active, the innermost
first. Rendering lists the trace and, given the source, shows the line of the
place with a caret under its column.
-/

namespace Stencil

inductive ImportFault
  | notFound (path : String)
  | unreadable (path : String)
  | noProgram (path : String)
deriving DecidableEq

def ImportFault.message : ImportFault → String
  | notFound path => s!"\"{path}\" is not found"
  | unreadable path => s!"failed to read \"{path}\": stream did not contain valid UTF-8"
  | noProgram path => s!"not found \"{path}\""

inductive DiagnosticKind
  | lexical
  | grammar
  | runtime
  | importing
  | exit
deriving DecidableEq

inductive Cause
  | lexical (fault : LexFault)
  | grammar (fault : GrammarFault)
  | runtime (fault : Fault)
  | importing (fault : ImportFault)
  | exit (status : Int32)
  /-- What an embedding program reports in its own words. -/
  | host (kind : DiagnosticKind) (words : String)

namespace Cause

def kind : Cause → DiagnosticKind
  | .lexical _ => .lexical
  | .grammar _ => .grammar
  | .runtime _ => .runtime
  | .importing _ => .importing
  | .exit _ => .exit
  | .host kind _ => kind

def message : Cause → String
  | .lexical fault => fault.message
  | .grammar fault => fault.message
  | .runtime fault => fault.message
  | .importing fault => fault.message
  | .exit status => s!"exit with status {status.toInt}"
  | .host _ words => words

def exitStatus? : Cause → Option Int32
  | .exit status => some status
  | _ => none

end Cause

/-- One active frame at the time of a failure: the file of its code, if it has
one, the line reached in it, and the name of the function. -/
structure TraceEntry where
  file : Option String
  line : Nat
  function : String
  message : String
deriving DecidableEq

structure Diagnostic where
  cause : Cause
  pos : Option Position
  trace : List TraceEntry

namespace Diagnostic

def ofLexFault (fault : LexFault) (pos : Position) : Diagnostic :=
  ⟨.lexical fault, some pos, []⟩

def ofGrammarFault (fault : GrammarFault) (pos : Position) : Diagnostic :=
  ⟨.grammar fault, some pos, []⟩

def kind (d : Diagnostic) : DiagnosticKind := d.cause.kind

def message (d : Diagnostic) : String := d.cause.message

def exitStatus? (d : Diagnostic) : Option Int32 := d.cause.exitStatus?

def line (d : Diagnostic) : Nat := (d.pos.map Position.line).getD 0

def push (d : Diagnostic) (file : Option String) (line : Nat) (function : String) : Diagnostic :=
  { d with trace := d.trace ++ [⟨file, line, function, d.message⟩] }

end Diagnostic

namespace Excerpt

/-- The characters on both sides of a byte offset that falls between two, those
before it nearest first; `before` holds the ones already passed. -/
def splitAtByteFrom (before : List Char) : Nat → List Char → Option (List Char × List Char)
  | 0, cs => some (before, cs)
  | _ + 1, [] => none
  | offset + 1, c :: rest =>
    if c.utf8Size ≤ offset + 1 then
      splitAtByteFrom (c :: before) (offset + 1 - c.utf8Size) rest
    else none

/-- The line around an offset and a caret under its column. -/
def pointer? (source : String) (offset : Nat) : Option String :=
  (splitAtByteFrom [] offset source.toList).map fun (before, after) =>
    let start := (before.takeWhile (· != '\n')).reverse
    let line := Text.dropEnd (· = '\r') (start ++ after.takeWhile (· != '\n'))
    "    " ++ String.ofList line ++ "\n    " ++ String.ofList (List.replicate start.length ' ')
      ++ "^\n"

end Excerpt

namespace Diagnostic

/-- One line of a trace; the detailed form also names the function. -/
def entryLine (detailed : Bool) (entry : TraceEntry) : String :=
  let file := entry.file.getD "(unknown module)"
  if detailed then s!"    {file}: {entry.line}: {entry.function}: {entry.message}\n"
  else s!"    {file}: {entry.line}: {entry.message}\n"

def traceLines (d : Diagnostic) (detailed : Bool) : String :=
  if d.trace.isEmpty then s!"    (unknown module): {d.line}: {d.message}\n"
  else String.join (d.trace.map (entryLine detailed))

def excerpt (d : Diagnostic) (source : Option String) : String :=
  match source, d.pos with
  | some text, some pos =>
    match Excerpt.pointer? text pos.offset with
    | some pointer => "\n" ++ pointer
    | none => ""
  | _, _ => ""

def render (d : Diagnostic) (source : Option String) (detailed : Bool) : String :=
  "Stack trace:\n" ++ d.traceLines detailed ++ d.excerpt source

end Diagnostic

end Stencil
