/-!
The kinds of values, as programs see them through `type`.
-/

namespace Stencil

inductive TypeTag
  | nil
  | bool
  | int
  | float
  | string
  | array
  | dict
  | function
  | struct
  | object
  | module
  | type
  | builtin
  | method
  | file
deriving DecidableEq

namespace TypeTag

def name : TypeTag → String
  | .nil => "nil"
  | .bool => "bool"
  | .int => "int"
  | .float => "float"
  | .string => "string"
  | .array => "array"
  | .dict => "dict"
  | .function => "function"
  | .struct => "struct"
  | .object => "object"
  | .module => "module"
  | .type => "type"
  | .builtin => "builtin-function"
  | .method => "method"
  | .file => "file"

def all : List TypeTag :=
  [.nil, .bool, .int, .float, .string, .array, .dict, .function, .struct, .object, .module,
    .type, .builtin, .method, .file]

def ofName? (name : String) : Option TypeTag := all.find? (·.name = name)

def ofConstructor? : String → Option TypeTag
  | "Array" => some .array
  | "Dict" => some .dict
  | "String" => some .string
  | "Int" => some .int
  | "Float" => some .float
  | "Bool" => some .bool
  | _ => none

end TypeTag

end Stencil
