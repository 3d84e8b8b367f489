import Stencil.Value.Basic

/-!
Copies of values. A shallow copy has its own object with the same contents; a
deep copy has its own containers all the way down. A container that is reached
twice is copied once, so that the copy has the shape of the value, cycles
included: its copy is entered as an empty container before its contents are
copied and is filled afterwards.
-/

namespace Stencil.Value

/-- A new object with the same contents. Functions, types, modules and files are
shared. -/
def copy (v : Value) : Action Value := do
  match ← Action.load v with
  | .instance type fields =>
    let own ← Action.newScope (← Action.scope fields)
    Action.make (.instance type own)
  | .function _ | .struct _ | .module .. | .builtin _ | .method .. | .type _ | .file .. =>
    return v
  | object => Action.make object

abbrev Copies := List (Value × Value)

structure CopyState where
  store : Store
  copies : Copies

def copyEach (copyOne : Value → CopyState → Value × CopyState) :
    List Value → CopyState → List Value × CopyState
  | [], st => ([], st)
  | v :: rest, st =>
    let (w, st) := copyOne v st
    let (ws, st) := copyEach copyOne rest st
    (w :: ws, st)

def copyTable (copyOne : Value → CopyState → Value × CopyState) (table : Dict Value)
    (st : CopyState) : Dict Value × CopyState :=
  let (ws, st) := copyEach copyOne table.values st
  (.ofList (table.keys.zip ws), st)

def CopyState.enter (st : CopyState) (v : Value) (object : Object) : Value × CopyState :=
  let (w, store) := st.store.alloc object
  (w, ⟨store, (v, w) :: st.copies⟩)

def CopyState.fill (st : CopyState) (w : Value) (object : Object) : CopyState :=
  { st with store := st.store.update w fun _ => object }

def copyScalar (v : Value) (st : CopyState) : Value × CopyState :=
  match st.store.get v with
  | .nil | .bool _ | .int _ | .float _ | .str _ =>
    let (w, store) := st.store.alloc (st.store.get v)
    (w, { st with store := store })
  | _ => (v, st)

/-- The budget is the number of containers that may still be entered inside one
another. -/
def deepCopyFrom : Nat → Value → CopyState → Value × CopyState
  | 0, v, st => (v, st)
  | budget + 1, v, st =>
    match st.copies.lookup v with
    | some w => (w, st)
    | none =>
      match st.store.get v with
      | .array items =>
        let (w, st) := st.enter v (.array #[])
        let (ws, st) := copyEach (deepCopyFrom budget) items.toList st
        (w, st.fill w (.array ws.toArray))
      | .dict entries =>
        let (w, st) := st.enter v (.dict .empty)
        let (table, st) := copyTable (deepCopyFrom budget) entries st
        (w, st.fill w (.dict table))
      | .instance type fields =>
        let (own, store) := st.store.newScope .empty
        let (w, st) := CopyState.enter { st with store := store } v (.instance type own)
        let (table, st) := copyTable (deepCopyFrom budget) (st.store.scope fields) st
        (w, { st with store := st.store.updateScope own fun _ => table })
      | _ => copyScalar v st

/-- Every container can be entered once. -/
def deepCopy (v : Value) : Action Value := fun s =>
  let (w, st) := deepCopyFrom (s.objects.size + 1) v ⟨s, []⟩
  (.ok w, st.store)

end Stencil.Value
