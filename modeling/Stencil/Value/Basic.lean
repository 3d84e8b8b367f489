import Stencil.Builtin
import Stencil.Dict
import Stencil.Fault
import Stencil.File.Handle
import Stencil.Number.Fixed
import Stencil.Program.Blocks

/-!
Values and the store they live in. A value is a reference to an object, so that
assigning it shares the object, and every object keeps its identity for the
life of the store. Arrays and dicts change in place; the attributes of struct
types, instances and modules and the variables of frames are scope tables,
which are referred to in the same way. Nothing is ever removed from the store.
-/

namespace Stencil

structure Value where
  index : Nat
deriving DecidableEq

instance : Inhabited Value := ⟨⟨0⟩⟩

structure ScopeId where
  index : Nat
deriving DecidableEq

instance : Inhabited ScopeId := ⟨⟨0⟩⟩

/-- A function of a program. Names in its body fall back to the globals of the
module that defined it. -/
structure Function where
  definition : FunctionDef
  globals : ScopeId
  file : Option String

structure StructType where
  definition : StructDef
  fields : ScopeId
  globals : ScopeId
  file : Option String

inductive MethodTarget
  /-- A method of a struct. -/
  | function (value : Value)
  /-- A method that values of some kind have by nature. -/
  | builtin (name : String)

inductive Object
  | nil
  | bool (value : Bool)
  | int (value : Int64)
  | float (value : Float)
  | str (content : String)
  | array (items : Array Value)
  | dict (entries : Dict Value)
  | function (value : Function)
  | struct (value : StructType)
  | instance (type : Value) (fields : ScopeId)
  | module (name : String) (scope : ScopeId)
  | builtin (value : Builtin)
  | method (receiver : Value) (target : MethodTarget)
  | type (tag : TypeTag)
  /-- A file under the path it was opened with; without a handle it is closed. -/
  | file (path : String) (handle : Option FileHandle)

namespace Object

def tag : Object → TypeTag
  | .nil => .nil
  | .bool _ => .bool
  | .int _ => .int
  | .float _ => .float
  | .str _ => .string
  | .array _ => .array
  | .dict _ => .dict
  | .function _ => .function
  | .struct _ => .struct
  | .instance .. => .object
  | .module .. => .module
  | .builtin _ => .builtin
  | .method .. => .method
  | .type _ => .type
  | .file .. => .file

/-- Nil, false, zero and the empty text are false; all else is true, empty
arrays and dicts included. -/
def truthy : Object → Bool
  | .nil => false
  | .bool value => value
  | .int value => value != 0
  | .float value => !(value == 0.0)
  | .str content => !content.isEmpty
  | _ => true

def text? : Object → Option String
  | .str content => some content
  | _ => none

def ofBool (b : Bool) : Int64 := if b then 1 else 0

/-- Numbers without a fraction, truth values among them. -/
def int? : Object → Option Int64
  | .bool value => some (ofBool value)
  | .int value => some value
  | _ => none

def namespace? : Object → Option ScopeId
  | .struct value => some value.fields
  | .instance _ fields => some fields
  | .module _ scope => some scope
  | _ => none

def display : Object → String
  | .nil => "nil"
  | .bool value => if value then "true" else "false"
  | .int value => toString value.toInt
  | .float value => Number.display value
  | .str content => content
  | object => "(" ++ object.tag.name ++ ")"

end Object

structure Store where
  objects : Array Object
  scopes : Array (Dict Value)
  files : FileTree
  /-- The index from which identities are counted. -/
  first : Nat := 0

namespace Store

def ofFiles (files : FileTree) : Store := ⟨#[], #[], files, 0⟩

/-- Counts identities anew, from the values that are made next. A program can tell nothing
from an identity but whether two values are the same, so this is a choice of the model: with
it, a session that has been cleared gives the same numbers as a new one. -/
def restart (s : Store) : Store := { s with first := s.objects.size }

/-- The number that tells a value from all others made since counting began. Where values are
places in memory, their addresses serve; the model has none and takes the order in which
values are made. -/
def identity (s : Store) (v : Value) : Int64 := Int64.ofInt (v.index + 1 - s.first)

def get (s : Store) (v : Value) : Object := s.objects.getD v.index .nil

def tag (s : Store) (v : Value) : TypeTag := (s.get v).tag

def alloc (s : Store) (object : Object) : Value × Store :=
  let v : Value := ⟨s.objects.size⟩
  (v, { s with objects := s.objects.push object })

def update (s : Store) (v : Value) (f : Object → Object) : Store :=
  { s with objects := s.objects.modify v.index f }

def scope (s : Store) (id : ScopeId) : Dict Value := s.scopes.getD id.index .empty

def newScope (s : Store) (names : Dict Value) : ScopeId × Store :=
  let id : ScopeId := ⟨s.scopes.size⟩
  (id, { s with scopes := s.scopes.push names })

def updateScope (s : Store) (id : ScopeId) (f : Dict Value → Dict Value) : Store :=
  { s with scopes := s.scopes.modify id.index f }

def lookup (s : Store) (id : ScopeId) (name : String) : Option Value := (s.scope id).get? name

def bindName (s : Store) (id : ScopeId) (name : String) (v : Value) : Store :=
  s.updateScope id (·.insert name v)

def allocAll (s : Store) : List Object → List Value × Store
  | [] => ([], s)
  | object :: rest =>
    let (v, s) := s.alloc object
    let (vs, s) := s.allocAll rest
    (v :: vs, s)

def setFiles (s : Store) (files : FileTree) : Store := { s with files := files }

end Store

/-- What works on the store and may fail. The store of a failure is kept. -/
def Action (α : Type) := Store → Except Fault α × Store

namespace Action

@[always_inline, inline]
def pure {α : Type} (a : α) : Action α := fun s => (.ok a, s)

@[always_inline, inline]
def bind {α β : Type} (x : Action α) (f : α → Action β) : Action β := fun s =>
  match x s with
  | (.ok a, s) => f a s
  | (.error fault, s) => (.error fault, s)

@[always_inline]
instance : Monad Action where
  pure := Action.pure
  bind := Action.bind

@[inline]
def fail {α : Type} (fault : Fault) : Action α := fun s => (.error fault, s)

@[inline]
def load (v : Value) : Action Object := fun s => (.ok (s.get v), s)

@[inline]
def make (object : Object) : Action Value := fun s =>
  let (v, s) := s.alloc object
  (.ok v, s)

@[inline]
def modify (f : Store → Store) : Action Unit := fun s => (.ok (), f s)

@[inline]
def update (v : Value) (f : Object → Object) : Action Unit := modify (·.update v f)

@[inline]
def newScope (names : Dict Value) : Action ScopeId := fun s =>
  let (id, s) := s.newScope names
  (.ok id, s)

@[inline]
def scope (id : ScopeId) : Action (Dict Value) := fun s => (.ok (s.scope id), s)

@[inline]
def lookup (id : ScopeId) (name : String) : Action (Option Value) := fun s =>
  (.ok (s.lookup id name), s)

@[inline]
def bindName (id : ScopeId) (name : String) (v : Value) : Action Unit :=
  modify (·.bindName id name v)

@[inline]
def ofExcept {α : Type} (x : Except Fault α) : Action α := fun s => (x, s)

@[inline]
def read {α : Type} (f : Store → α) : Action α := fun s => (.ok (f s), s)

def nil : Action Value := make .nil

def makeArrayOf (objects : List Object) : Action Value := fun s =>
  let (items, s) := s.allocAll objects
  make (.array items.toArray) s

end Action

end Stencil
