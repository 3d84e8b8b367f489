import Mathlib.Data.List.Forall2
import Mathlib.Order.Defs.PartialOrder
import Stencil.Context
import Stencil.Proofs.Value.Equal
import Stencil.Value.Arith

/-!
Data up to the names of references. A renaming says which references of one store stand
for which of another. It links data of two runs if they are alike but for references,
and references in the same places are linked. All data that holds references can be
linked, and what is linked stays linked when the renaming grows.
-/

namespace Stencil

/-- Which references of one store stand for which of another. -/
structure Renaming where
  value : Value → Value → Prop
  scope : ScopeId → ScopeId → Prop

/-- A renaming grows by linking more references. -/
instance : Preorder Renaming where
  le r r' := (∀ v v', r.value v v' → r'.value v v') ∧ ∀ id id', r.scope id id' → r'.scope id id'
  le_refl _ := ⟨fun _ _ h => h, fun _ _ h => h⟩
  le_trans _ _ _ h h' :=
    ⟨fun v v' hv => h'.1 v v' (h.1 v v' hv), fun id id' hid => h'.2 id id' (h.2 id id' hid)⟩

/-- Data that a renaming may link. -/
class Renamable (α : Type) where
  Linked : Renaming → α → α → Prop
  mono : ∀ {r r' : Renaming}, r ≤ r' → ∀ {a a' : α}, Linked r a a' → Linked r' a a'

namespace Renaming

def Links (r : Renaming) {α : Type} [Renamable α] (a a' : α) : Prop := Renamable.Linked r a a'

/-- What is linked stays linked as the renaming grows. -/
theorem Links.mono {r r' : Renaming} {α : Type} [Renamable α] {a a' : α} (h : r.Links a a')
    (hle : r ≤ r') : r'.Links a a' :=
  Renamable.mono hle h

end Renaming

/-! References and data without any. -/

instance : Renamable Value where
  Linked r := r.value
  mono hle := hle.1 _ _

instance : Renamable ScopeId where
  Linked r := r.scope
  mono hle := hle.2 _ _

@[reducible]
def Renamable.discrete (α : Type) : Renamable α where
  Linked _ a a' := a = a'
  mono _ _ _ h := h

instance : Renamable Unit := .discrete Unit

instance : Renamable Bool := .discrete Bool

instance : Renamable String := .discrete String

/-! Collections. -/

section Collections

variable {α β : Type} [Renamable α] [Renamable β]

inductive LinkedOption (r : Renaming) : Option α → Option α → Prop
  | none : LinkedOption r none none
  | some {a a' : α} : r.Links a a' → LinkedOption r (some a) (some a')

instance : Renamable (Option α) where
  Linked := LinkedOption
  mono hle _ _ h := by
    cases h with
    | none => exact .none
    | some h => exact .some (h.mono hle)

inductive LinkedExcept (r : Renaming) : Except Fault α → Except Fault α → Prop
  | error (fault : Fault) : LinkedExcept r (.error fault) (.error fault)
  | ok {a a' : α} : r.Links a a' → LinkedExcept r (.ok a) (.ok a')

instance : Renamable (Except Fault α) where
  Linked := LinkedExcept
  mono hle _ _ h := by
    cases h with
    | error fault => exact .error fault
    | ok h => exact .ok (h.mono hle)

instance : Renamable (α × β) where
  Linked r p p' := r.Links p.1 p'.1 ∧ r.Links p.2 p'.2
  mono hle _ _ h := ⟨h.1.mono hle, h.2.mono hle⟩

instance : Renamable (List α) where
  Linked r := List.Forall₂ r.Links
  mono hle _ _ h := List.Forall₂.imp (fun _ _ h => h.mono hle) h

instance : Renamable (Array α) where
  Linked r items items' := r.Links items.toList items'.toList
  mono hle _ _ h := h.mono hle

instance : Renamable (Dict α) where
  Linked r d d' := r.Links d.toList d'.toList
  mono hle _ _ h := h.mono hle

end Collections

namespace Renaming

variable {r : Renaming} {α : Type} [Renamable α]

section Lists

theorem links_nil : r.Links ([] : List α) [] := List.Forall₂.nil

theorem links_cons {a a' : α} {rest rest' : List α} (h : r.Links a a')
    (hrest : r.Links rest rest') :
    r.Links (a :: rest) (a' :: rest') :=
  List.Forall₂.cons h hrest

theorem Links.length {xs xs' : List α} (h : r.Links xs xs') : xs'.length = xs.length :=
  (List.Forall₂.length_eq h).symm

theorem Links.getElem? {xs xs' : List α} (h : r.Links xs xs') (i : Nat) :
    r.Links xs[i]? xs'[i]? := by
  induction h generalizing i with
  | nil => exact .none
  | cons h _ ih =>
    cases i with
    | zero => exact .some h
    | succ i => exact ih i

theorem Links.set {xs xs' : List α} (h : r.Links xs xs') (i : Nat) {a a' : α} (ha : r.Links a a') :
    r.Links (xs.set i a) (xs'.set i a') := by
  induction h generalizing i with
  | nil => exact links_nil
  | cons h hrest ih =>
    cases i with
    | zero => exact links_cons ha hrest
    | succ i => exact links_cons h (ih i)

theorem Links.append {xs xs' ys ys' : List α} (h : r.Links xs xs') (h' : r.Links ys ys') :
    r.Links (xs ++ ys) (xs' ++ ys') := by
  induction h with
  | nil => exact h'
  | cons h _ ih => exact links_cons h ih

theorem Links.dropLast {xs xs' : List α} (h : r.Links xs xs') :
    r.Links xs.dropLast xs'.dropLast := by
  rw [List.dropLast_eq_take, List.dropLast_eq_take, h.length]
  exact List.forall₂_take _ h

theorem Links.getLast? {xs xs' : List α} (h : r.Links xs xs') :
    r.Links xs.getLast? xs'.getLast? := by
  rw [List.getLast?_eq_getElem?, List.getLast?_eq_getElem?, h.length]
  exact h.getElem? _

theorem Links.zip {β : Type} [Renamable β] {xs xs' : List α} (h : r.Links xs xs')
    {ys ys' : List β} (h' : r.Links ys ys') : r.Links (xs.zip ys) (xs'.zip ys') := by
  induction h generalizing ys ys' with
  | nil => exact links_nil
  | cons h _ ih =>
    cases h' with
    | nil => exact links_nil
    | cons h' hrest' => exact links_cons ⟨h, h'⟩ (ih hrest')

/-- Mapping takes linked lists to linked lists. -/
theorem Links.map {β : Type} [Renamable β] {xs xs' : List α} (h : r.Links xs xs')
    {f f' : α → β} (hf : ∀ {a a'}, r.Links a a' → r.Links (f a) (f' a')) :
    r.Links (xs.map f) (xs'.map f') := by
  induction h with
  | nil => exact links_nil
  | cons h _ ih => exact links_cons (hf h) ih

theorem links_strings (names : List String) : r.Links names names :=
  List.forall₂_same.mpr fun _ _ => rfl

end Lists

section Arrays

variable {items items' : Array α}

theorem Links.size (h : r.Links items items') : items'.size = items.size := by
  rw [← Array.length_toList, ← Array.length_toList]
  exact Links.length h

theorem Links.back? (h : r.Links items items') : r.Links items.back? items'.back? := by
  rw [← Array.getLast?_toList, ← Array.getLast?_toList]
  exact Links.getLast? h

theorem Links.push (h : r.Links items items') {a a' : α} (ha : r.Links a a') :
    r.Links (items.push a) (items'.push a') := by
  change r.Links (items.push a).toList (items'.push a').toList
  rw [Array.toList_push, Array.toList_push]
  exact Links.append h (links_cons ha links_nil)

theorem Links.pop (h : r.Links items items') : r.Links items.pop items'.pop := by
  change r.Links items.pop.toList items'.pop.toList
  rw [Array.toList_pop, Array.toList_pop]
  exact Links.dropLast h

theorem Links.slot (h : r.Links items items') (i : Nat) : r.Links items[i]? items'[i]? := by
  rw [← Array.getElem?_toList, ← Array.getElem?_toList]
  exact Links.getElem? h i

theorem Links.setIfInBounds (h : r.Links items items') (i : Nat) {a a' : α} (ha : r.Links a a') :
    r.Links (items.setIfInBounds i a) (items'.setIfInBounds i a') := by
  change r.Links (items.setIfInBounds i a).toList (items'.setIfInBounds i a').toList
  rw [Array.toList_setIfInBounds, Array.toList_setIfInBounds]
  exact Links.set h i ha

theorem links_toArray {xs xs' : List α} (h : r.Links xs xs') : r.Links xs.toArray xs'.toArray := h

end Arrays

section Dicts

variable {entries entries' : List (String × α)} {d d' : Dict α}

/-- Linked entries have the same name. -/
theorem Links.entry {entry entry' : String × α} (h : r.Links entry entry') :
    ∃ name a a', entry = (name, a) ∧ entry' = (name, a') ∧ r.Links a a' := by
  obtain ⟨name, a⟩ := entry
  obtain ⟨name', a'⟩ := entry'
  obtain ⟨rfl, ha⟩ : name = name' ∧ r.Links a a' := h
  exact ⟨name, a, a', rfl, rfl, ha⟩

theorem links_map_fst (h : r.Links entries entries') :
    entries'.map Prod.fst = entries.map Prod.fst := by
  induction h with
  | nil => rfl
  | cons h _ ih =>
    obtain ⟨name, a, a', rfl, rfl, _⟩ := h.entry
    rw [List.map_cons, List.map_cons, ih]

theorem links_lookup (h : r.Links entries entries') (name : String) :
    r.Links (entries.lookup name) (entries'.lookup name) := by
  induction h with
  | nil => exact .none
  | cons h _ ih =>
    obtain ⟨key, a, a', rfl, rfl, ha⟩ := h.entry
    rw [Dict.lookup_cons_eq, Dict.lookup_cons_eq]
    split
    · exact .some ha
    · exact ih

/-- Linked tables stay linked when a linked value is entered under the same name. -/
theorem links_put (h : r.Links entries entries') (name : String) {a a' : α} (ha : r.Links a a') :
    r.Links (Dict.put name a entries) (Dict.put name a' entries') := by
  induction h with
  | nil => exact links_cons ⟨rfl, ha⟩ links_nil
  | cons h hrest ih =>
    obtain ⟨key, b, b', rfl, rfl, hb⟩ := h.entry
    unfold Dict.put
    split
    · exact links_cons ⟨rfl, ha⟩ hrest
    · exact links_cons ⟨rfl, hb⟩ ih

/-- What a test of the name leaves. -/
theorem links_filter (h : r.Links entries entries') (p : String → Bool) :
    r.Links (entries.filter fun entry => p entry.1) (entries'.filter fun entry => p entry.1) := by
  induction h with
  | nil => exact links_nil
  | cons h _ ih =>
    obtain ⟨key, a, a', rfl, rfl, ha⟩ := h.entry
    rw [List.filter_cons, List.filter_cons]
    split
    · exact links_cons ⟨rfl, ha⟩ ih
    · exact ih

theorem links_empty : r.Links (Dict.empty : Dict α) Dict.empty := links_nil

theorem Links.toList (h : r.Links d d') : r.Links d.toList d'.toList := h

theorem Links.keys (h : r.Links d d') : d'.keys = d.keys := links_map_fst h

theorem Links.values (h : r.Links d d') : r.Links d.values d'.values :=
  h.toList.map fun hentry => hentry.2

theorem Links.dictSize (h : r.Links d d') : d'.size = d.size := by
  rw [← d'.length_keys, ← d.length_keys, h.keys]

theorem Links.get? (h : r.Links d d') (name : String) : r.Links (d.get? name) (d'.get? name) :=
  links_lookup h name

theorem Links.insert (h : r.Links d d') (name : String) {a a' : α} (ha : r.Links a a') :
    r.Links (d.insert name a) (d'.insert name a') :=
  links_put h name ha

theorem Links.erase (h : r.Links d d') (name : String) : r.Links (d.erase name) (d'.erase name) :=
  links_filter h fun key => key != name

theorem links_isSome {found found' : Option α} (h : r.Links found found') :
    found'.isSome = found.isSome := by
  cases h with
  | none => rfl
  | some _ => rfl

theorem Links.contains (h : r.Links d d') (name : String) : d'.contains name = d.contains name :=
  links_isSome (h.get? name)

theorem Links.insertAll (h : r.Links d d') {pairs pairs' : List (String × α)}
    (hpairs : r.Links pairs pairs') : r.Links (d.insertAll pairs) (d'.insertAll pairs') := by
  induction hpairs generalizing d d' with
  | nil => exact h
  | @cons pair pair' _ _ hpair _ ih =>
    obtain ⟨key, a⟩ := pair
    obtain ⟨key', a'⟩ := pair'
    obtain ⟨rfl, ha⟩ : key = key' ∧ r.Links a a' := hpair
    exact ih (h.insert key ha)

theorem links_ofList {pairs pairs' : List (String × α)} (h : r.Links pairs pairs') :
    r.Links (Dict.ofList pairs) (Dict.ofList pairs') :=
  links_empty.insertAll h

end Dicts

end Renaming

/-! Objects. -/

inductive LinkedObject (r : Renaming) : Object → Object → Prop
  | nil : LinkedObject r .nil .nil
  | bool (value : Bool) : LinkedObject r (.bool value) (.bool value)
  | int (value : Int64) : LinkedObject r (.int value) (.int value)
  | float (value : Float) : LinkedObject r (.float value) (.float value)
  | str (content : String) : LinkedObject r (.str content) (.str content)
  | array {items items' : Array Value} :
      r.Links items items' → LinkedObject r (.array items) (.array items')
  | dict {entries entries' : Dict Value} :
      r.Links entries entries' → LinkedObject r (.dict entries) (.dict entries')
  | function {globals globals' : ScopeId} (definition : FunctionDef) (file : Option String) :
      r.Links globals globals' →
      LinkedObject r (.function ⟨definition, globals, file⟩)
        (.function ⟨definition, globals', file⟩)
  | struct {fields fields' globals globals' : ScopeId} (definition : StructDef)
      (file : Option String) : r.Links fields fields' → r.Links globals globals' →
      LinkedObject r (.struct ⟨definition, fields, globals, file⟩)
        (.struct ⟨definition, fields', globals', file⟩)
  | instance {type type' : Value} {fields fields' : ScopeId} : r.Links type type' →
      r.Links fields fields' → LinkedObject r (.instance type fields) (.instance type' fields')
  | module {scope scope' : ScopeId} (name : String) :
      r.Links scope scope' → LinkedObject r (.module name scope) (.module name scope')
  | builtin (value : Builtin) : LinkedObject r (.builtin value) (.builtin value)
  | method {receiver receiver' value value' : Value} :
      r.Links receiver receiver' → r.Links value value' →
      LinkedObject r (.method receiver (.function value)) (.method receiver' (.function value'))
  | byNature {receiver receiver' : Value} (name : String) : r.Links receiver receiver' →
      LinkedObject r (.method receiver (.builtin name)) (.method receiver' (.builtin name))
  | type (tag : TypeTag) : LinkedObject r (.type tag) (.type tag)
  | file (path : String) (handle : Option FileHandle) :
      LinkedObject r (.file path handle) (.file path handle)

instance : Renamable Object where
  Linked := LinkedObject
  mono hle _ _ h := by
    cases h with
    | array h => exact .array (h.mono hle)
    | dict h => exact .dict (h.mono hle)
    | function definition file h => exact .function definition file (h.mono hle)
    | struct definition file h h' => exact .struct definition file (h.mono hle) (h'.mono hle)
    | «instance» h h' => exact .instance (h.mono hle) (h'.mono hle)
    | module name h => exact .module name (h.mono hle)
    | method h h' => exact .method (h.mono hle) (h'.mono hle)
    | byNature name h => exact .byNature name (h.mono hle)
    | _ => constructor

/-- Objects that refer to others; no operator knows what to do with them. -/
def Object.isCompound : Object → Bool
  | .array _ | .dict _ | .function _ | .struct _ | .instance .. | .module .. | .method .. => true
  | _ => false

namespace Object

variable {left right : Object}

theorem arith_of_isCompound (h : left.isCompound = true ∨ right.isCompound = true)
    (op : ArithOp) : arith op left right = .error (.cannotCombine op left.tag right.tag) := by
  rcases h with h | h
  · cases left with
    | array _ | dict _ | function _ | struct _ | «instance» _ _ | module _ _ | method _ _ =>
      cases op <;> rfl
    | _ => cases h
  · cases right with
    | array _ | dict _ | function _ | struct _ | «instance» _ _ | module _ _ | method _ _ =>
      cases op <;> cases left <;> rfl
    | _ => cases h

theorem negate_of_isCompound (h : left.isCompound = true) :
    negate left = .error (.cannotNegate left.tag) := by
  cases left with
  | array _ | dict _ | function _ | struct _ | «instance» _ _ | module _ _ | method _ _ => rfl
  | _ => cases h

theorem ofObject?_of_isCompound (h : left.isCompound = true) : Num.ofObject? left = none := by
  cases left with
  | array _ | dict _ | function _ | struct _ | «instance» _ _ | module _ _ | method _ _ => rfl
  | _ => cases h

theorem order_of_isCompound (h : left.isCompound = true ∨ right.isCompound = true)
    (op : CompOp) : order op left right = .error (.cannotCompare op left.tag right.tag) := by
  unfold order
  rcases h with h | h
  · rw [ofObject?_of_isCompound h]
  · rw [ofObject?_of_isCompound h]
    cases Num.ofObject? left with
    | none => rfl
    | some n => cases n <;> rfl

theorem scalarEqual_of_isCompound (h : left.isCompound = true ∨ right.isCompound = true) :
    Value.scalarEqual left right = false := by
  rcases h with h | h
  · cases left with
    | array _ | dict _ | function _ | struct _ | «instance» _ _ | module _ _ | method _ _ => rfl
    | _ => cases h
  · cases right with
    | array _ | dict _ | function _ | struct _ | «instance» _ _ | module _ _ | method _ _ =>
      cases left <;> rfl
    | _ => cases h

end Object

namespace Renaming

variable {r : Renaming} {object object' : Object}

/-- Linked objects are equal, or both refer to others. -/
theorem Links.eq_or (h : r.Links object object') :
    object' = object ∨ object.isCompound = true ∧ object'.isCompound = true := by
  cases h with
  | array _ | dict _ | function _ _ _ | struct _ _ _ _ | «instance» _ _ | module _ _ | method _ _
  | byNature _ _ => exact Or.inr ⟨rfl, rfl⟩
  | _ => exact Or.inl rfl

/-- An object that refers to no other is linked with itself. -/
theorem links_of_isCompound (h : object.isCompound = false) : r.Links object object := by
  cases object with
  | array _ | dict _ | function _ | struct _ | «instance» _ _ | module _ _ | method _ _ => cases h
  | _ => constructor

theorem links_of_isScalar (h : object.isScalar = true) : r.Links object object := by
  cases object with
  | nil | bool _ | int _ | float _ | str _ => constructor
  | _ => cases h

/-- Linked objects have the same type. -/
theorem Links.tag (h : r.Links object object') : object'.tag = object.tag := by cases h <;> rfl

theorem Links.truthy (h : r.Links object object') : object'.truthy = object.truthy := by
  cases h <;> rfl

/-- Linked objects are scalars together. -/
theorem Links.isScalar (h : r.Links object object') : object'.isScalar = object.isScalar := by
  cases h <;> rfl

/-- Linked objects are displayed alike. -/
theorem Links.display (h : r.Links object object') : object'.display = object.display := by
  cases h <;> rfl

theorem Links.text? (h : r.Links object object') : object'.text? = object.text? := by
  cases h <;> rfl

theorem Links.namespace? (h : r.Links object object') :
    r.Links object.namespace? object'.namespace? := by
  cases h with
  | struct _ _ h _ => exact .some h
  | «instance» _ h => exact .some h
  | module _ h => exact .some h
  | _ => exact .none

end Renaming

end Stencil
