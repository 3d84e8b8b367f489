/-!
The functions that every scope offers, and the two modules `alias` and `opts`
whose functions are named with the module in front.
-/

namespace Stencil

inductive Builtin
  | puts
  | eputs
  | len
  | type
  | copy
  | deepcopy
  | id
  | assert
  | extract
  | setattr
  | getattr
  | dance
  | ord
  | chr
  | cast
  | die
  | exit
  | openFile
  | aliasSet
  | optsGet
  | optsHas
  | optsArgs
deriving DecidableEq

namespace Builtin

def name : Builtin → String
  | .puts => "puts"
  | .eputs => "eputs"
  | .len => "len"
  | .type => "type"
  | .copy => "copy"
  | .deepcopy => "deepcopy"
  | .id => "id"
  | .assert => "assert"
  | .extract => "extract"
  | .setattr => "setattr"
  | .getattr => "getattr"
  | .dance => "dance"
  | .ord => "ord"
  | .chr => "chr"
  | .cast => "cast"
  | .die => "die"
  | .exit => "exit"
  | .openFile => "open"
  | .aliasSet => "alias.set"
  | .optsGet => "opts.get"
  | .optsHas => "opts.has"
  | .optsArgs => "opts.args"

def free : List Builtin :=
  [.puts, .eputs, .len, .type, .copy, .deepcopy, .id, .assert, .extract, .setattr, .getattr,
    .dance, .ord, .chr, .cast, .die, .exit, .openFile]

/-- The functions of a built-in module under the names they have there. -/
def members : String → List (String × Builtin)
  | "alias" => [("set", .aliasSet)]
  | "opts" => [("get", .optsGet), ("has", .optsHas), ("args", .optsArgs)]
  | _ => []

def isModule (name : String) : Bool := name = "alias" || name = "opts"

def ofName? (name : String) : Option Builtin := free.find? (·.name = name)

def all : List Builtin := free ++ [.aliasSet, .optsGet, .optsHas, .optsArgs]

end Builtin

end Stencil
