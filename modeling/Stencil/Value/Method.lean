import Stencil.Text.Alphabetic
import Stencil.Text.Blank
import Stencil.Text.Pieces
import Stencil.Text.WordCase
import Stencil.Value.Basic

/-!
The methods that texts, arrays, dicts and files have by nature. Taking such an
attribute gives a method bound to its receiver; calling it looks the name up
again among the methods of the receiver's kind.
-/

namespace Stencil.Method

def textMethods : List String :=
  ["upper", "lower", "capitalize", "snake", "camel", "hacker", "split", "strip", "lstrip",
    "rstrip", "isdigit", "isalpha", "isspace"]

def names : TypeTag → List String
  | .string => textMethods
  | .array => ["push", "pop"]
  | .dict => ["get", "pop"]
  | .file => ["read", "write", "close"]
  | _ => []

def has (receiver : TypeTag) (name : String) : Bool := (names receiver).contains name

/-- Characters that stripping removes when none are given. -/
def blankChars : String := " \r\n\t"

def textForm? : String → Option (String → String)
  | "upper" => some Text.toUpper
  | "lower" => some Text.toLower
  | "capitalize" => some Text.capitalize
  | "snake" => some Text.snake
  | "camel" => some Text.camel
  | "hacker" => some Text.hacker
  | _ => none

def charTest? : String → Option (Char → Bool)
  | "isdigit" => some Char.isDigit
  | "isalpha" => some Text.isAlphabetic
  | "isspace" => some Text.isBlank
  | _ => none

def stripper? : String → Option ((Char → Bool) → List Char → List Char)
  | "strip" => some Text.dropEnds
  | "lstrip" => some Text.dropStart
  | "rstrip" => some Text.dropEnd
  | _ => none

/-- The pieces between separators, empty ones left out. -/
def split (content : String) (separator : Option Object) : Action Value :=
  match separator.bind Object.text? with
  | none => Action.fail .invalidArgument
  | some mark =>
    if mark.isEmpty then Action.fail .emptySeparator
    else Action.makeArrayOf (((Text.pieces mark content).filter (!·.isEmpty)).map .str)

def strip (ends : (Char → Bool) → List Char → List Char) (content : String)
    (chars : Option Object) : Action Value :=
  let stripped (unwanted : String) : Action Value :=
    Action.make (.str (String.ofList (ends (unwanted.toList.contains ·) content.toList)))
  match chars with
  | none => stripped blankChars
  | some (.str unwanted) => stripped unwanted
  | some _ => Action.fail .invalidArgument

def callText (name content : String) (args : List Value) : Action Value := do
  match textForm? name with
  | some form =>
    if args.isEmpty then Action.make (.str (form content))
    else Action.fail (.takesNoArguments name)
  | none =>
    match charTest? name with
    | some test => Action.make (.bool (content.toList.all test))
    | none =>
      let first ← Action.read fun s => args.head?.map s.get
      match stripper? name with
      | some ends => strip ends content first
      | none =>
        if name = "split" then split content first else Action.fail (.notAMethod name .string)

def pushItem (v : Value) : Object → Object
  | .array items => .array (items.push v)
  | held => held

def popItem : Object → Object
  | .array items => .array items.pop
  | held => held

def lastItem? : Object → Option Value
  | .array items => items.back?
  | _ => none

def callArray (name : String) (receiver : Value) (args : List Value) : Action Value := do
  match name with
  | "push" =>
    match args with
    | [v] =>
      Action.update receiver (pushItem v)
      return receiver
    | _ => Action.fail .pushNeedsOne
  | "pop" =>
    match ← Action.read fun s => lastItem? (s.get receiver) with
    | some v =>
      Action.update receiver popItem
      return v
    | none => Action.nil
  | _ => Action.fail (.notAMethod name .array)

def removeKey (key : String) : Object → Object
  | .dict entries => .dict (entries.erase key)
  | held => held

/-- The value that a search found, or the default that was given, or nil. -/
def foundOr (found default? : Option Value) : Action Value :=
  match found.or default? with
  | some v => return v
  | none => Action.nil

def callDict (name : String) (receiver : Value) (args : List Value) : Action Value := do
  let search (key : String) : Action (Option Value) := Action.read fun s =>
    match s.get receiver with
    | .dict entries => entries.get? key
    | _ => none
  let run (keyValue : Value) (default? : Option Value) : Action Value := do
    match ← Action.load keyValue with
    | .str key =>
      match name with
      | "get" => foundOr (← search key) default?
      | "pop" =>
        let found ← search key
        Action.update receiver (removeKey key)
        foundOr found default?
      | _ => Action.fail (.notAMethod name .dict)
    | _ => Action.fail .invalidKey
  match args with
  | [key] => run key none
  | [key, fallback] => run key (some fallback)
  | _ => Action.fail (.dictMethodCount name)

def setHandle (handle : Option FileHandle) : Object → Object
  | .file path _ => .file path handle
  | held => held

def readFile (receiver : Value) (handle : FileHandle) : Action Value := do
  match ← Action.read fun s => s.files.readRest handle with
  | none => Action.fail .readFailed
  | some (bytes, moved) =>
    Action.update receiver (setHandle (some moved))
    match Text.ofUtf8? bytes with
    | some content => Action.make (.str content)
    | none => Action.fail .readFailed

def writeFile (receiver : Value) (handle : FileHandle) (text : Value) : Action Value := do
  match ← Action.load text with
  | .str content =>
    match ← Action.read fun s => s.files.writeBytes handle content.toUTF8 with
    | some (moved, files) =>
      Action.modify (·.setFiles files)
      Action.update receiver (setHandle (some moved))
      Action.nil
    | none => Action.fail .writeFailed
  | _ => Action.fail .fileTextNotText

def callFile (name : String) (receiver : Value) (path : String) (handle : Option FileHandle)
    (args : List Value) : Action Value := do
  if name = "close" then
    Action.update receiver (setHandle none)
    Action.nil
  else match handle with
    | none => Action.fail (.fileClosed name path)
    | some handle =>
      match name, args with
      | "read", [] => readFile receiver handle
      | "read", _ => Action.fail .fileMethodCount
      | "write", [text] => writeFile receiver handle text
      | "write", _ => Action.fail .fileMethodCount
      | _, _ => Action.fail (.notAMethod name .file)

def call (name : String) (receiver : Value) (args : List Value) : Action Value := do
  match ← Action.load receiver with
  | .str content => callText name content args
  | .array _ => callArray name receiver args
  | .dict _ => callDict name receiver args
  | .file path handle => callFile name receiver path handle args
  | _ => Action.fail (.noMethods name)

end Stencil.Method
