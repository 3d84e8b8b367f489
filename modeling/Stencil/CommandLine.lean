import Stencil.Text.Pieces

/-!
The command line: flags, one option with a value, the program file, and the
arguments of the program. Flags may stand before or after the file. After the
file a word that looks like a flag but is none belongs to the program, and from
the first argument of the program on nothing is looked at any more. The value of
an option and the file are checked when the next thing is read, so that of two
mistakes the one that is met first is reported.
-/

namespace Stencil

structure Invocation where
  debug : Bool
  verbosity : Nat
  library : Option String
  file : Option String
  args : List String

inductive UsageStop
  | unknownArgument
  | invalidValue
  | unneededValue
  | repeated
  | help
  | version
deriving DecidableEq

def UsageStop.message : UsageStop → String
  | .unknownArgument => "error: unexpected argument found"
  | .invalidValue => "error: a value is required but none was supplied"
  | .unneededValue => "error: unexpected value for a flag"
  | .repeated => "error: the argument cannot be used multiple times"
  | .help => "help requested"
  | .version => "version requested"

namespace Invocation

def empty : Invocation := ⟨false, 0, none, none, []⟩

def greatestVerbosity : Nat := 255

def directive (i : Invocation) : String :=
  if 2 ≤ i.verbosity then "pad=trace"
  else if i.debug || i.verbosity = 1 then "pad=debug"
  else "pad=warn"

/-- The arguments as the program sees them, its own name first. -/
def programArgs (i : Invocation) : List String := i.file.getD "-" :: i.args

end Invocation

namespace CommandLine

def usage : String := "Usage: pad [-d] [-v...] [--stdlib <DIR>] [FILE] [ARGS]..."

def version : String := "pad 0.1.0"

inductive Pending
  | nothing
  /-- The option for the library, whose value may still be missing. -/
  | library (value : Option String)
  | file (path : String)

structure Reading where
  invocation : Invocation
  pending : Pending

namespace Reading

def settled (invocation : Invocation) : Reading := ⟨invocation, .nothing⟩

def settle (r : Reading) : Except UsageStop Invocation :=
  match r.pending with
  | .nothing => .ok r.invocation
  | .library none => .error .invalidValue
  | .library (some dir) =>
    if r.invocation.library.isSome then .error .repeated
    else if dir.isEmpty then .error .invalidValue
    else .ok { r.invocation with library := some dir }
  | .file path =>
    if path.isEmpty then .error .invalidValue
    else .ok { r.invocation with file := some path }

def hasFile (r : Reading) : Bool :=
  match r.pending with
  | .file _ => true
  | _ => r.invocation.file.isSome

def awaitsValue (r : Reading) : Bool :=
  match r.pending with
  | .library none => true
  | _ => false

end Reading

inductive Flag
  | debug
  | verbose
  | help
  | version

namespace Flag

def ofName? : String → Option Flag
  | "debug" => some .debug
  | "verbose" => some .verbose
  | "help" => some .help
  | "version" => some .version
  | _ => none

def ofLetter? : Char → Option Flag
  | 'd' => some .debug
  | 'v' => some .verbose
  | 'h' => some .help
  | 'V' => some .version
  | _ => none

def apply (i : Invocation) : Flag → Except UsageStop Invocation
  | .debug => if i.debug then .error .repeated else .ok { i with debug := true }
  | .verbose =>
    .ok { i with verbosity := min Invocation.greatestVerbosity (i.verbosity + 1) }
  | .help => .error .help
  | .version => .error .version

end Flag

inductive Word
  | divider
  | long (name : String) (value : Option String)
  | cluster (letters : List Char)
  | plain

def splitValue (cs : List Char) : String × Option String :=
  match Text.cutAt? '=' cs with
  | none => (String.ofList cs, none)
  | some (name, value) => (String.ofList name, some (String.ofList value))

/-- Hyphens in front make a word an option or a cluster of flags; a single
hyphen alone does not. -/
def formOf (word : String) : Word :=
  match word.toList with
  | ['-', '-'] => .divider
  | '-' :: '-' :: rest => let (name, value) := splitValue rest; .long name value
  | '-' :: letter :: rest => .cluster (letter :: rest)
  | _ => .plain

def isKnownName (name : String) : Bool := name = "stdlib" || (Flag.ofName? name).isSome

/-- What a word is where it stands: after the file, options that do not exist
are plain words. -/
def classify (r : Reading) (word : String) : Word :=
  match formOf word with
  | .long name value => if r.hasFile && !isKnownName name then .plain else .long name value
  | .cluster letters =>
    if r.hasFile && letters.any (fun c => (Flag.ofLetter? c).isNone) then .plain
    else .cluster letters
  | form => form

def readFlag (r : Reading) (flag : Flag) : Except UsageStop Reading := do
  return .settled (← flag.apply (← r.settle))

def readLetters (r : Reading) : List Char → Except UsageStop Reading
  | [] => .ok r
  | c :: rest => do
    match Flag.ofLetter? c with
    | none => .error .unknownArgument
    | some flag => readLetters (← readFlag r flag) rest

def readLibrary (r : Reading) (value : Option String) : Except UsageStop Reading := do
  let i ← r.settle
  match value with
  | none => return ⟨i, .library none⟩
  | some dir => return .settled (← Reading.settle ⟨i, .library (some dir)⟩)

def readLong (r : Reading) (name : String) (value : Option String) : Except UsageStop Reading :=
  if name = "stdlib" then readLibrary r value
  else match Flag.ofName? name, value with
    | none, _ => .error .unknownArgument
    | some _, some _ => .error .unneededValue
    | some flag, none => readFlag r flag

def readArgs (r : Reading) (words : List String) : Except UsageStop Invocation := do
  return { ← r.settle with args := words }

def readPlain (r : Reading) (words : List String) : Except UsageStop Invocation :=
  match words with
  | [] => r.settle
  | word :: rest => do
    if r.hasFile then readArgs r (word :: rest)
    else readArgs ⟨← r.settle, .file word⟩ rest

def readFrom (r : Reading) : List String → Except UsageStop Invocation
  | [] => r.settle
  | word :: rest =>
    match classify r word with
    | .divider => readPlain r rest
    | .long name value => do readFrom (← readLong r name value) rest
    | .cluster letters => do readFrom (← readLetters r letters) rest
    | .plain =>
      if r.awaitsValue then readFrom { r with pending := .library (some word) } rest
      else if r.hasFile then readArgs r (word :: rest)
      else do readFrom ⟨← r.settle, .file word⟩ rest

def read (words : List String) : Except UsageStop Invocation :=
  readFrom (.settled .empty) words.tail

end CommandLine

end Stencil
