import Stencil.Proofs.Eval.Ownership
import Stencil.Proofs.Scope.Freezing

/-!
Slots. What an assignment writes is a slot of the store: a name in a table, an element
of an array or a key of a dict. A slot that was written holds the value, and every other
slot holds what it held. No object changes its kind by that, and no array its size. And
what is made afterwards is what would have been made before.
-/

namespace Stencil

/-- Something of the store that holds a value of its own. -/
inductive Slot
  | binding (table : ScopeId) (name : String)
  | element (array : Value) (index : Nat)
  | entry (dict : Value) (key : String)
deriving DecidableEq

namespace Object

def element? : Object → Nat → Option Value
  | .array items, index => items[index]?
  | _, _ => none

def valueOf? : Object → String → Option Value
  | .dict entries, key => entries.get? key
  | _, _ => none

def setElement (index : Nat) (v : Value) : Object → Object
  | .array items => .array (items.setIfInBounds index v)
  | object => object

def setEntry (key : String) (v : Value) : Object → Object
  | .dict entries => .dict (entries.insert key v)
  | object => object

variable {object : Object} {index : Nat} {key : String} {v : Value}

theorem element?_setElement_of_ne {other : Nat} (hne : other ≠ index) :
    (object.setElement index v).element? other = object.element? other := by
  cases object with
  | array items => exact Array.getElem?_setIfInBounds_ne hne.symm
  | _ => rfl

theorem valueOf?_setEntry_of_ne {other : String} (hne : other ≠ key) :
    (object.setEntry key v).valueOf? other = object.valueOf? other := by
  cases object with
  | dict entries =>
    change (entries.insert key v).get? other = entries.get? other
    rw [Dict.get?_insert, if_neg hne]
  | _ => rfl

theorem valueOf?_setElement : (object.setElement index v).valueOf? key = object.valueOf? key := by
  cases object with
  | _ => rfl

theorem element?_setEntry : (object.setEntry key v).element? index = object.element? index := by
  cases object with
  | _ => rfl

end Object

/-- Objects that differ at most in the elements of an array or in the entries of a dict. -/
inductive Object.Akin : Object → Object → Prop
  | same (object : Object) : Akin object object
  | array {items items' : Array Value} : items'.size = items.size →
      Akin (.array items) (.array items')
  | dict (entries entries' : Dict Value) : Akin (.dict entries) (.dict entries')

namespace Object.Akin

variable {object object' : Object}

theorem tag_eq (h : object.Akin object') : object'.tag = object.tag := by
  cases h with
  | same => rfl
  | array _ => rfl
  | dict => rfl

theorem namespace?_eq (h : object.Akin object') : object'.namespace? = object.namespace? := by
  cases h with
  | same => rfl
  | array _ => rfl
  | dict => rfl

theorem slotOf_eq (h : object.Akin object') (size : Nat) :
    slotOf object' size = slotOf object size := by
  cases h with
  | same => rfl
  | array _ => rfl
  | dict => rfl

theorem keyOf_eq (h : object.Akin object') : keyOf object' = keyOf object := by
  cases h with
  | same => rfl
  | array _ => rfl
  | dict => rfl

end Object.Akin

namespace Store

variable {s : Store} {v w : Value} {f : Object → Object}

theorem get_update_of_lt (hv : v.index < s.objects.size) :
    (s.update v f).get v = f (s.get v) := by
  simp [get, update, Array.getElem_modify, hv]

/-- A change of one object that keeps its kind keeps the kinds of all. -/
theorem akin_update (hf : ∀ object : Object, object.Akin (f object)) (w : Value) :
    (s.get w).Akin ((s.update v f).get w) := by
  rcases s.get_update v w f with h | h
  · rw [h]
    exact hf _
  · rw [h]
    exact .same _

/-- What comes last does not mind what is changed before it. -/
theorem push_modify {α : Type} {xs : Array α} {i : Nat} (hi : i < xs.size) (g : α → α) (a : α) :
    (xs.modify i g).push a = (xs.push a).modify i g := by
  apply Array.ext
  · simp
  · intro j hj hj'
    simp only [Array.getElem_push, Array.getElem_modify, Array.size_modify]
    by_cases hlt : j < xs.size
    · simp [hlt]
    · have hne : i ≠ j := by omega
      simp [hlt, hne]

/-- A new object does not mind what was changed before it. -/
theorem update_alloc (hv : v.index < s.objects.size) (object : Object) :
    (s.update v f).alloc object = ((s.alloc object).1, (s.alloc object).2.update v f) := by
  simp only [alloc, update, push_modify hv, Array.size_modify]

/-- A new table does not mind what was changed before it. -/
theorem updateScope_newScope {id : ScopeId} (hid : id.index < s.scopes.size)
    (g : Dict Value → Dict Value) (names : Dict Value) :
    (s.updateScope id g).newScope names =
      ((s.newScope names).1, (s.newScope names).2.updateScope id g) := by
  simp only [newScope, updateScope, push_modify hid, Array.size_modify]

end Store

namespace Slot

def content? (s : Store) : Slot → Option Value
  | binding table name => s.lookup table name
  | element array index => (s.get array).element? index
  | entry dict key => (s.get dict).valueOf? key

def write (v : Value) (s : Store) : Slot → Store
  | binding table name => s.bindName table name v
  | element array index => s.update array (·.setElement index v)
  | entry dict key => s.update dict (·.setEntry key v)

def In (s : Store) : Slot → Prop
  | binding table _ => table.index < s.scopes.size
  | element array index => ∃ items, s.get array = .array items ∧ index < items.size
  | entry dict _ => ∃ entries, s.get dict = .dict entries

variable {s : Store} {slot other : Slot} {v : Value}

/-- A write to a slot keeps the kinds of all objects. -/
theorem akin_write (slot : Slot) (v : Value) (s : Store) (w : Value) :
    (s.get w).Akin ((slot.write v s).get w) := by
  cases slot with
  | binding table name => exact .same _
  | element array index =>
    refine s.akin_update (fun object => ?_) w
    cases object with
    | array items => exact .array (Array.size_setIfInBounds ..)
    | _ => exact .same _
  | entry dict key =>
    refine s.akin_update (fun object => ?_) w
    cases object with
    | dict entries => exact .dict _ _
    | _ => exact .same _

theorem In.array_lt {array : Value} {index : Nat} (h : (element array index).In s) :
    array.index < s.objects.size := by
  obtain ⟨items, hget, -⟩ := h
  exact s.lt_size_of_get_ne_nil (by rw [hget]; nofun)

theorem In.dict_lt {dict : Value} {key : String} (h : (entry dict key).In s) :
    dict.index < s.objects.size := by
  obtain ⟨entries, hget⟩ := h
  exact s.lt_size_of_get_ne_nil (by rw [hget]; nofun)

theorem isMethod_write (w : Value) : (slot.write v s).isMethod w = s.isMethod w := by
  have hakin := slot.akin_write v s w
  unfold Store.isMethod
  generalize s.get w = object, (slot.write v s).get w = object' at hakin ⊢
  cases hakin with
  | same => rfl
  | array _ => rfl
  | dict => rfl

/-- Read over write, of the slot itself. -/
theorem content?_write_self (h : slot.In s) : slot.content? (slot.write v s) = some v := by
  cases slot with
  | binding table name => exact (Store.lookup_bindName h name).trans (if_pos rfl)
  | element array index =>
    have harray := h.array_lt
    obtain ⟨items, hget, hindex⟩ := h
    change ((s.update array _).get array).element? index = some v
    rw [Store.get_update_of_lt harray, hget]
    exact Array.getElem?_setIfInBounds_self_of_lt hindex
  | entry dict key =>
    have hdict := h.dict_lt
    obtain ⟨entries, hget⟩ := h
    change ((s.update dict _).get dict).valueOf? key = some v
    rw [Store.get_update_of_lt hdict, hget]
    exact (Dict.get?_insert ..).trans (if_pos rfl)

/-- A write to one slot leaves every other one as it is. Slots of different kinds never meet, and
of one kind they differ in the owner or in the key. -/
theorem content?_write_of_ne (hne : other ≠ slot) :
    other.content? (slot.write v s) = other.content? s := by
  cases slot with
  | binding table name =>
    cases other with
    | binding table' name' =>
      by_cases htable : table' = table
      · subst htable
        have hname : name' ≠ name := fun h => hne (by rw [h])
        exact s.lookup_bindName_of_ne table' v hname
      · exact congrArg (Dict.get? · name') (s.scope_updateScope_of_ne htable _)
    | element array index => rfl
    | entry dict key => rfl
  | element array index =>
    cases other with
    | binding table name => rfl
    | element array' index' =>
      change ((s.update array _).get array').element? index' = (s.get array').element? index'
      by_cases harray : array' = array
      · subst harray
        have hindex : index' ≠ index := fun h => hne (by rw [h])
        rcases s.get_update array' array' (·.setElement index v) with h | h
        · rw [h, Object.element?_setElement_of_ne hindex]
        · rw [h]
      · rw [s.get_update_of_ne harray]
    | entry dict key =>
      change ((s.update array _).get dict).valueOf? key = (s.get dict).valueOf? key
      rcases s.get_update array dict (·.setElement index v) with h | h
      · rw [h, Object.valueOf?_setElement]
      · rw [h]
  | entry dict key =>
    cases other with
    | binding table name => rfl
    | element array index =>
      change ((s.update dict _).get array).element? index = (s.get array).element? index
      rcases s.get_update dict array (·.setEntry key v) with h | h
      · rw [h, Object.element?_setEntry]
      · rw [h]
    | entry dict' key' =>
      change ((s.update dict _).get dict').valueOf? key' = (s.get dict').valueOf? key'
      by_cases hdict : dict' = dict
      · subst hdict
        have hkey : key' ≠ key := fun h => hne (by rw [h])
        rcases s.get_update dict' dict' (·.setEntry key v) with h | h
        · rw [h, Object.valueOf?_setEntry_of_ne hkey]
        · rw [h]
      · rw [s.get_update_of_ne hdict]

/-! What is made after a write could have been made before it. -/

/-- Writing commutes with making an object. -/
theorem alloc_write (h : slot.In s) (object : Object) :
    (slot.write v s).alloc object = ((s.alloc object).1, slot.write v (s.alloc object).2) := by
  cases slot with
  | binding table name => rfl
  | element array index => exact Store.update_alloc h.array_lt object
  | entry dict key => exact Store.update_alloc h.dict_lt object

/-- Writing commutes with making a table. -/
theorem newScope_write (h : slot.In s) (names : Dict Value) :
    (slot.write v s).newScope names = ((s.newScope names).1, slot.write v (s.newScope names).2) := by
  cases slot with
  | binding table name => exact Store.updateScope_newScope h _ names
  | element array index => rfl
  | entry dict key => rfl

/-- A slot stays in a store that grows. -/
theorem In.extends {s' : Store} (h : slot.In s) (hs : s.Extends s') : slot.In s' := by
  cases slot with
  | binding table name => exact Nat.lt_of_lt_of_le h hs.scopes_le
  | element array index =>
    have harray := h.array_lt
    obtain ⟨items, hget, hindex⟩ := h
    exact ⟨items, (hs.get_eq array harray).trans hget, hindex⟩
  | entry dict key =>
    have hdict := h.dict_lt
    obtain ⟨entries, hget⟩ := h
    exact ⟨entries, (hs.get_eq dict hdict).trans hget⟩

end Slot

def Machine.write (m : Machine) (slot : Slot) (v : Value) : Machine :=
  { m with store := slot.write v m.store }

theorem Machine.akin_write (m : Machine) (slot : Slot) (v w : Value) :
    (m.store.get w).Akin ((m.write slot v).store.get w) :=
  slot.akin_write v m.store w

def Outcome.inMachine {α : Type} (f : Machine → Machine) : Outcome α → Outcome α
  | .done a m => .done a (f m)
  | .fail d m => .fail d (f m)
  | .starved m => .starved (f m)

namespace Eval

variable {α β : Type} {slot : Slot} {v : Value}

/-- The computation does not look at the slot: it is all the same whether the value is
written before it or after it. -/
def Ignores (slot : Slot) (v : Value) (x : Eval α) : Prop :=
  ∀ m : Machine, slot.In m.store →
    x (m.write slot v) = (x m).inMachine (·.write slot v) ∧ (x m).EndsIn (slot.In ·.store)

theorem ignores_pure (a : α) : Ignores slot v (Pure.pure a) := fun _ h => ⟨rfl, h⟩

theorem ignores_fail (fault : Fault) (pos : Position) :
    Ignores slot v (Eval.fail fault pos : Eval α) := fun _ h => ⟨rfl, h⟩

theorem ignores_make (object : Object) : Ignores slot v (Eval.make object) := by
  intro m h
  have hmade := Slot.alloc_write (v := v) h object
  refine ⟨?_, h.extends (m.store.extends_alloc object)⟩
  change Outcome.done ((slot.write v m.store).alloc object).1 { m with
    store := ((slot.write v m.store).alloc object).2 } = _
  rw [hmade]
  rfl

theorem ignores_newScope (names : Dict Value) : Ignores slot v (Eval.newScope names) := by
  intro m h
  have hmade := Slot.newScope_write (v := v) h names
  refine ⟨?_, h.extends (m.store.extends_newScope names)⟩
  change Outcome.done ((slot.write v m.store).newScope names).1 { m with
    store := ((slot.write v m.store).newScope names).2 } = _
  rw [hmade]
  rfl

/-- A sequence does not look at the slot if its parts do not. -/
theorem Ignores.bind {x : Eval α} {f : α → Eval β} (hx : Ignores slot v x)
    (hf : ∀ a, Ignores slot v (f a)) : Ignores slot v (x >>= f) := by
  intro m h
  obtain ⟨hsame, hend⟩ := hx m h
  change Eval.bind x f _ = (Eval.bind x f m).inMachine _ ∧ (Eval.bind x f m).EndsIn _
  unfold Eval.bind
  rw [hsame]
  cases hrun : x m with
  | done a m₁ =>
    rw [hrun] at hend
    exact hf a m₁ hend
  | fail d m₁ =>
    rw [hrun] at hend
    exact ⟨rfl, hend⟩
  | starved m₁ => exact ⟨rfl, trivial⟩

theorem ignores_memberTable (module : String) : Ignores slot v (Eval.memberTable module) := by
  unfold Eval.memberTable
  generalize (Dict.empty : Dict Value) = table
  induction Builtin.members module generalizing table with
  | nil => exact ignores_pure _
  | cons entry rest ih =>
    rw [List.foldlM_cons]
    exact ((ignores_make _).bind fun _ => ignores_pure _).bind ih

theorem ignores_offered? (name : String) : Ignores slot v (Eval.offered? name) := by
  unfold Eval.offered?
  split
  · exact (ignores_make _).bind fun _ => ignores_pure _
  · exact (ignores_make _).bind fun _ => ignores_pure _
  · split
    · refine (ignores_memberTable name).bind fun table => ?_
      refine (ignores_newScope table).bind fun scope => ?_
      exact (ignores_make _).bind fun _ => ignores_pure _
    · exact ignores_pure _

/-- No function becomes a method by a write. -/
theorem ignores_bindReceiver (receiver w : Value) :
    Ignores slot v (Eval.bindReceiver receiver w) := by
  intro m h
  unfold Eval.bindReceiver
  rw [read_bind, read_bind]
  have hmethod : (m.write slot v).store.isMethod w = m.store.isMethod w := Slot.isMethod_write w
  rw [hmethod]
  cases m.store.isMethod w with
  | true => exact ignores_make _ m h
  | false => exact ignores_pure w m h

end Eval

end Stencil
