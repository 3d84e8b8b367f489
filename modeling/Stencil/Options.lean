import Stencil.Dict

/-!
The arguments of a program as options. The first argument is the program's own
name. After it an argument with one or two leading hyphens is a flag; a word
right after a flag is the flag's value and any other word is a positional
argument. A flag without a value has the empty one.
-/

namespace Stencil

structure Options where
  flags : Dict String
  positionals : List String

namespace Options

def none : Options := ⟨.empty, []⟩

def flag? (arg : String) : Option String :=
  match arg.toList with
  | '-' :: '-' :: rest => some (String.ofList rest)
  | '-' :: rest => some (String.ofList rest)
  | _ => Option.none

def setFlag (o : Options) (name value : String) : Options :=
  { o with flags := o.flags.insert name value }

def addPositional (o : Options) (arg : String) : Options :=
  { o with positionals := o.positionals ++ [arg] }

/-- Reads the arguments one by one, remembering a flag that may still get a
value. -/
def readFrom (o : Options) : Option String → List String → Options
  | some pending, [] => o.setFlag pending ""
  | .none, [] => o
  | pending, arg :: rest =>
    match flag? arg, pending with
    | some name, some previous => readFrom (o.setFlag previous "") (some name) rest
    | some name, .none => readFrom o (some name) rest
    | .none, some name => readFrom (o.setFlag name arg) .none rest
    | .none, .none => readFrom (o.addPositional arg) .none rest

def ofArgs : List String → Options
  | [] => none
  | program :: rest => readFrom (none.addPositional program) .none rest

def get? (o : Options) (name : String) : Option String := o.flags.get? name

def has (o : Options) (name : String) : Bool := o.flags.contains name

/-- The positional argument at an index; the program's name has index zero. -/
def positional? (o : Options) (index : Int64) : Option String :=
  if index < 0 then .none else o.positionals[index.toInt.toNat]?

def positionalCount (o : Options) : Nat := o.positionals.length

end Options

end Stencil
