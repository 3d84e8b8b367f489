import Stencil.File.Tree
import Stencil.LineEnding

/-!
The settings of the application. They start from the application's directory and
are changed line by line by the text of a settings file. A line that cannot be
used is reported with its number and changes nothing.
-/

namespace Stencil

structure Settings where
  /-- The application's own directory. -/
  appDir : String
  /-- The directory in which modules are looked for last. -/
  library : String
  lineEnding : LineEnding

inductive SettingFault
  | malformed (line : String)
  | unknownKey (key : String)
  | invalidLineEnding (words : String)

def SettingFault.message : SettingFault → String
  | malformed line => s!"expected key = value, got \"{line}\""
  | unknownKey key => s!"unknown key \"{key}\""
  | invalidLineEnding words => words

structure BadLine where
  number : Nat
  fault : SettingFault

def BadLine.display (bad : BadLine) : String := s!"line {bad.number}: {bad.fault.message}"

namespace Settings

def ofAppDir (appDir : String) : Settings :=
  { appDir, library := Path.join appDir "stdlib", lineEnding := .lf }

/-- The settings of a user. Without a home directory they are kept in the working
directory. -/
def ofHome (home : Option String) : Settings :=
  ofAppDir (match home with
    | some home => Path.join home ".pad"
    | none => ".pad")

def file (s : Settings) : String := Path.join s.appDir "config"

/-- A path whose leading `~/` stands for the home directory, if there is one. -/
def expandHome (home : Option String) (path : String) : String :=
  match path.toList, home with
  | '~' :: '/' :: rest, some home => Path.join home (String.ofList rest)
  | _, _ => path

def setKey (home : Option String) (s : Settings) (key value : String) :
    Except SettingFault Settings :=
  if key = "stdlib" then .ok { s with library := expandHome home value }
  else if key = "line_encoding" then
    match LineEnding.ofName value with
    | .ok lineEnding => .ok { s with lineEnding := lineEnding }
    | .error words => .error (.invalidLineEnding words)
  else .error (.unknownKey key)

/-- Blank lines and comments change nothing. -/
def applyLine (home : Option String) (s : Settings) (raw : String) :
    Except SettingFault Settings :=
  let line := Text.trim raw
  if line.isEmpty || line.toList.head? = some '#' then .ok s
  else match Text.cutAt? '=' line.toList with
    | none => .error (.malformed line)
    | some (key, value) =>
      s.setKey home (Text.trim (String.ofList key)) (Text.trim (String.ofList value))

def applyLines (home : Option String) (s : Settings) (number : Nat) :
    List String → Settings × List BadLine
  | [] => (s, [])
  | line :: rest =>
    match s.applyLine home line with
    | .ok changed => applyLines home changed (number + 1) rest
    | .error fault =>
      let (changed, bad) := applyLines home s (number + 1) rest
      (changed, ⟨number, fault⟩ :: bad)

def applyText (home : Option String) (s : Settings) (text : String) : Settings × List BadLine :=
  s.applyLines home 1 (Text.pieces "\n" text)

/-- The settings of a user: the defaults, changed by the settings file, and a
library directory from the environment, which wins. -/
def load (files : FileTree) (home : Option String) (library : Option String) :
    Settings × List BadLine :=
  let defaults := ofHome home
  let (s, bad) := match files.readText? defaults.file with
    | some text => defaults.applyText home text
    | none => (defaults, [])
  ({ s with library := library.getD s.library }, bad)

def deploy (s : Settings) (files : FileTree) : Option FileTree :=
  if files.isDirectory s.appDir then some files else files.makeDirectories s.appDir

end Settings

end Stencil
