import Stencil.Value.Construct

/-!
The built-in functions that need nothing but the store. Those that write
output, run programs or touch the frame belong to the evaluator.
-/

namespace Stencil

/-- The type of a value: struct types and built-in functions stand for
themselves, and an instance has its struct as its type. -/
def Value.typeOf (v : Value) : Action Value := do
  match ← Action.load v with
  | .struct _ | .builtin _ => return v
  | .instance struct _ => return struct
  | held => Action.make (.type held.tag)

namespace Builtin

def lengthOf : Object → Except Fault Nat
  | .str content => .ok content.length
  | .array items => .ok items.size
  | .dict entries => .ok entries.size
  | held => .error (.noLength held.tag)

def codeOf : Object → Except Fault Object
  | .str content =>
    match content.toList with
    | c :: _ => .ok (.int (Int64.ofNat c.toNat))
    | [] => .error .emptyText
  | _ => .error .invalidType

def char? (n : Int64) : Option Char :=
  if n < 0 then none
  else
    let code := n.toInt.toNat
    if code.isValidChar then some (Char.ofNat code) else none

def charOf : Object → Except Fault Object
  | .int n =>
    match char? n with
    | some c => .ok (.str (String.singleton c))
    | none => .error .invalidCodePoint
  | _ => .error .invalidType

def attributeOf (owner key : Value) : Action (ScopeId × String) := do
  match (← Action.load owner).namespace? with
  | none => Action.fail .noNamespace
  | some scope =>
    match (← Action.load key).text? with
    | none => Action.fail .invalidKey
    | some name => return (scope, name)

def setAttribute (owner key v : Value) : Action Value := do
  let (scope, name) ← attributeOf owner key
  Action.bindName scope name v
  return owner

def getAttribute (owner key : Value) : Action Value := do
  let (scope, name) ← attributeOf owner key
  match ← Action.lookup scope name with
  | some v => return v
  | none => Action.nil

def openNamed (path mode : Value) : Action Value := do
  match (← Action.load path).text? with
  | none => Action.fail .fileNameNotText
  | some name =>
    match (← Action.load mode).text? with
    | none => Action.fail .fileModeNotText
    | some letters =>
      match OpenMode.of? letters with
      | none => Action.fail (.invalidFileMode letters)
      | some how =>
        match ← Action.read fun s => s.files.openFile name how with
        | none => Action.fail .openFailed
        | some (handle, files) =>
          Action.modify (·.setFiles files)
          Action.make (.file name (some handle))

def castTo (v target : Value) : Action Value := do
  match ← Action.load target with
  | .type tag => tag.construct [v]
  | _ => Action.fail .castNeedsType

/-- Runs a function on its arguments, if it is one that needs only the store. -/
def callPlain? (function : Builtin) (args : List Value) : Option (Action Value) :=
  let one (body : Value → Action Value) : Option (Action Value) := some <|
    match args with
    | [v] => body v
    | _ => Action.fail (.argumentCount function)
  match function with
  | .len => one fun v => do
    Action.make (.int (Int64.ofNat (← Action.ofExcept (lengthOf (← Action.load v)))))
  | .type => one Value.typeOf
  | .copy => one Value.copy
  | .deepcopy => one Value.deepCopy
  | .id => one fun v => do Action.make (.int (← Action.read (·.identity v)))
  | .assert => one fun v => do
    if (← Action.load v).truthy then Action.nil else Action.fail .assertionFailed
  | .ord => one fun v => do Action.make (← Action.ofExcept (codeOf (← Action.load v)))
  | .chr => one fun v => do Action.make (← Action.ofExcept (charOf (← Action.load v)))
  | .cast => some <| match args with
    | [v, target] => castTo v target
    | _ => Action.fail (.argumentCount .cast)
  | .setattr => some <| match args with
    | [owner, key, v] => setAttribute owner key v
    | _ => Action.fail (.argumentCount .setattr)
  | .getattr => some <| match args with
    | [owner, key] => getAttribute owner key
    | _ => Action.fail (.argumentCount .getattr)
  | .openFile => some <| match args with
    | path :: mode :: _ => openNamed path mode
    | _ => Action.fail (.argumentCount .openFile)
  | _ => none

end Builtin

end Stencil
