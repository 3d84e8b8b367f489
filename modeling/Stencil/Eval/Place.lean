import Stencil.Eval.Machine
import Stencil.Value.Method

/-!
Names, attributes and indexes. A name is looked for in the locals of the active
frame, then in its globals, then among what every scope offers. Attributes of
struct types, instances and modules are entries of their tables; all other
values have methods only. A place is what an assignment writes to: it is worked
out once and can then be read and written.
-/

namespace Stencil

def Machine.bound? (m : Machine) (name : String) : Option Value :=
  (m.store.lookup m.frame.locals name).or (m.store.lookup m.frame.globals name)

namespace Eval

def memberTable (module : String) : Eval (Dict Value) :=
  (Builtin.members module).foldlM
    (fun table entry => do return table.insert entry.1 (← make (.builtin entry.2))) .empty

/-- What every scope offers under a name: built-in functions, type constructors
and the built-in modules. -/
def offered? (name : String) : Eval (Option Value) :=
  match Builtin.ofName? name, TypeTag.ofConstructor? name with
  | some function, _ => return some (← make (.builtin function))
  | none, some tag => return some (← make (.type tag))
  | none, none =>
    if Builtin.isModule name then do
      let scope ← newScope (← memberTable name)
      return some (← make (.module name scope))
    else return none

def lookup (name : String) : Eval (Option Value) := do
  match ← read (·.bound? name) with
  | some v => return some v
  | none => offered? name

def readName (name : String) (pos : Position) : Eval Value := do
  match ← lookup name with
  | some v => return v
  | none =>
    if ← read (·.inReference) then fail (.undefinedInReference name) pos
    else fail (.undefined name) pos

end Eval

namespace Store

def instanceField? (s : Store) (struct : Value) (fields : ScopeId) (name : String) : Option Value :=
  (s.lookup fields name).or
    ((s.get struct).namespace?.bind fun scope => s.lookup scope name)

def isMethod (s : Store) (v : Value) : Bool :=
  match s.get v with
  | .function f => f.definition.isMethod
  | _ => false

end Store

namespace Eval

/-- A method that is reached through an instance is bound to it. -/
def bindReceiver (receiver v : Value) : Eval Value := do
  if ← read (·.store.isMethod v) then make (.method receiver (.function v)) else return v

def getAttr (owner : Value) (name : String) (pos : Position) : Eval Value := do
  let missing {α : Type} (tag : TypeTag) : Eval α := fail (.noAttribute name tag) pos
  match ← load owner with
  | .module _ scope =>
    match ← read (·.store.lookup scope name) with
    | some v => return v
    | none => missing .module
  | .struct type =>
    match ← read (·.store.lookup type.fields name) with
    | some v => return v
    | none => missing .struct
  | .instance struct fields =>
    match ← read (·.store.instanceField? struct fields name) with
    | some v => bindReceiver owner v
    | none => missing .object
  | object =>
    if Method.has object.tag name then make (.method owner (.builtin name))
    else missing object.tag

def setAttr (owner : Value) (name : String) (v : Value) (pos : Position) : Eval Unit := do
  let object ← load owner
  match object.namespace? with
  | some scope => modifyStore (·.bindName scope name v)
  | none => fail (.fixedAttributes name object.tag) pos

end Eval

/-- The slot that an index means in a sequence; a negative index counts from the
end. -/
def slotOf (key : Object) (size : Nat) : Except Fault Nat :=
  match key with
  | .int i =>
    let slot := if i < 0 then i + Int64.ofNat size else i
    if slot < 0 || Int64.ofNat size ≤ slot then .error .indexOutOfRange else .ok slot.toInt.toNat
  | key => .error (.indexNotInt key.tag)

def keyOf (key : Object) : Except Fault String :=
  match key with
  | .str content => .ok content
  | _ => .error .keyNotText

namespace Value

def elementAt (owner key : Value) : Action Value := do
  match ← Action.load owner with
  | .array items =>
    let slot ← Action.ofExcept (slotOf (← Action.load key) items.size)
    match items[slot]? with
    | some v => return v
    | none => Action.fail .indexOutOfRange
  | .str content =>
    let chars := content.toList
    let slot ← Action.ofExcept (slotOf (← Action.load key) chars.length)
    Action.make (.str ((chars[slot]?.map String.singleton).getD ""))
  | .dict entries =>
    let name ← Action.ofExcept (keyOf (← Action.load key))
    match entries.get? name with
    | some v => return v
    | none => Action.fail (.keyNotFound name)
  | object => Action.fail (.cannotIndex object.tag)

def setElementAt (owner key v : Value) : Action Unit := do
  match ← Action.load owner with
  | .array items =>
    let slot ← Action.ofExcept (slotOf (← Action.load key) items.size)
    Action.update owner fun
      | .array items => .array (items.setIfInBounds slot v)
      | object => object
  | .dict _ =>
    let name ← Action.ofExcept (keyOf (← Action.load key))
    Action.update owner fun
      | .dict entries => .dict (entries.insert name v)
      | object => object
  | object => Action.fail (.cannotAssignIndex object.tag)

end Value

inductive Place
  | named (name : String) (pos : Position)
  | attr (owner : Value) (name : String) (pos : Position)
  | index (owner key : Value) (pos : Position)

namespace Place

def get : Place → Eval Value
  | .named name pos => do
    match ← Eval.lookup name with
    | some v => return v
    | none => Eval.fail (.undefined name) pos
  | .attr owner name pos => Eval.getAttr owner name pos
  | .index owner key pos => Eval.act pos (owner.elementAt key)

/-- Variables are always bound in the locals of the active frame. -/
def set (v : Value) : Place → Eval Unit
  | .named name _ => Eval.bindLocal name v
  | .attr owner name pos => Eval.setAttr owner name v pos
  | .index owner key pos => Eval.act pos (owner.setElementAt key v)

end Place

end Stencil
