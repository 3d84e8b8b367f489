import Stencil.CommandLine
import Stencil.Session
import Stencil.Settings

/-!
What the command does with an invocation: it loads the settings, makes the
application's directory, and runs one program, from a file or from the standard
input.
-/

namespace Stencil

structure Surroundings where
  files : FileTree
  home : Option String
  /-- A library directory from the environment. -/
  library : Option String
  input : ByteArray

structure Aftermath where
  status : Nat
  out : String
  err : String
  files : FileTree

namespace Aftermath

def refusal (files : FileTree) (words : String) : Aftermath := ⟨1, "", words, files⟩

/-- The end of a session; of a requested status the lowest eight bits count. -/
def ofSession (s : Session) (debug : Bool) : Aftermath :=
  let status := match s.exitStatus? with
    | some code => (code.toInt % 256).toNat
    | none => if s.failure.isSome then 1 else 0
  ⟨status, s.context.out, s.context.err ++ s.report debug, s.files⟩

end Aftermath

namespace Invocation

def settings (i : Invocation) (around : Surroundings) : Settings :=
  let (s, _) := Settings.load around.files around.home around.library
  { s with library := i.library.getD s.library }

def session (i : Invocation) (around : Surroundings) : Session :=
  let settings := i.settings around
  let files := (settings.deploy around.files).getD around.files
  .start files settings.library settings.lineEnding .none

/-- Runs the program. Without a result the fuel was spent. -/
def launch (fuel : Nat) (i : Invocation) (around : Surroundings) : Option Aftermath :=
  let s := i.session around
  match i.file with
  | some path =>
    if s.files.isFile path then
      (s.runFile fuel path i.programArgs).map fun s => .ofSession s i.debug
    else some (.refusal s.files s!"not found \"{path}\"\n")
  | none =>
    match Text.ofUtf8? around.input with
    | some text => (s.run fuel ⟨text, none⟩ i.programArgs).map fun s => .ofSession s i.debug
    | none =>
      some (.refusal s.files
        "pad: failed to read program from stdin: stream did not contain valid UTF-8\n")

end Invocation

end Stencil
