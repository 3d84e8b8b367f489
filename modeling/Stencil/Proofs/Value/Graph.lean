import Mathlib.Logic.Relation
import Stencil.Value.Basic

/-!
The store as a graph. Its nodes with edges are the containers: arrays, dicts and
instances. A container has a shape, which is what can be seen of it without
looking at its parts, and the parts in the order of their positions or names. A
store that extends another has new objects and tables only; what was allocated
before keeps its shape and its parts.
-/

namespace Stencil

/-- A container without its parts. -/
inductive Shape
  | array (length : Nat)
  | dict (keys : List String)
  | object (type : Value) (names : List String)
deriving DecidableEq

def Object.isScalar : Object → Bool
  | .nil | .bool _ | .int _ | .float _ | .str _ => true
  | _ => false

namespace Store

def shape? (s : Store) (v : Value) : Option Shape :=
  match s.get v with
  | .array items => some (.array items.size)
  | .dict entries => some (.dict entries.keys)
  | .instance type fields => some (.object type (s.scope fields).keys)
  | _ => none

def parts (s : Store) (v : Value) : List Value :=
  match s.get v with
  | .array items => items.toList
  | .dict entries => entries.values
  | .instance _ fields => (s.scope fields).values
  | _ => []

def values (s : Store) : List Value := (List.range s.objects.size).map Value.mk

def IsContainer (s : Store) (v : Value) : Prop := (s.shape? v).isSome = true

def Reaches (s : Store) : Value → Value → Prop :=
  Relation.ReflTransGen fun v w => w ∈ s.parts v

structure Allocated (s : Store) (v : Value) : Prop where
  object : v.index < s.objects.size
  table : ∀ type fields, s.get v = .instance type fields → fields.index < s.scopes.size

/-- No reference that is reached from the value leads out of the store. References
come from allocation only, so a running program has no others. -/
def Grounded (s : Store) (v : Value) : Prop := ∀ w, s.Reaches v w → s.Allocated w

structure Extends (s s' : Store) : Prop where
  objects_le : s.objects.size ≤ s'.objects.size
  scopes_le : s.scopes.size ≤ s'.scopes.size
  get_eq : ∀ v : Value, v.index < s.objects.size → s'.get v = s.get v
  scope_eq : ∀ id : ScopeId, id.index < s.scopes.size → s'.scope id = s.scope id
  files_eq : s'.files = s.files

structure SameAt (s s' : Store) (v : Value) : Prop where
  get_eq : s'.get v = s.get v
  scope_eq : ∀ type fields, s.get v = .instance type fields → s'.scope fields = s.scope fields

/-- The value was allocated after the first store, its table of fields included. -/
structure Newer (s s' : Store) (v : Value) : Prop extends s'.Allocated v where
  index_ge : s.objects.size ≤ v.index
  table_ge : ∀ type fields, s'.get v = .instance type fields → s.scopes.size ≤ fields.index

section Operations

variable (s : Store)

theorem get_alloc_of_lt (object : Object) {v : Value} (hv : v.index < s.objects.size) :
    (s.alloc object).2.get v = s.get v := by
  simp [get, alloc, Array.getElem?_push_lt hv, hv]

@[simp]
theorem get_alloc_self (object : Object) : (s.alloc object).2.get ⟨s.objects.size⟩ = object := by
  simp [get, alloc]

@[simp]
theorem size_alloc (object : Object) : (s.alloc object).2.objects.size = s.objects.size + 1 :=
  Array.size_push _

theorem scope_newScope_of_lt (names : Dict Value) {id : ScopeId} (hid : id.index < s.scopes.size) :
    (s.newScope names).2.scope id = s.scope id := by
  simp [scope, newScope, Array.getElem?_push_lt hid, hid]

@[simp]
theorem size_newScope (names : Dict Value) :
    (s.newScope names).2.scopes.size = s.scopes.size + 1 :=
  Array.size_push _

@[simp]
theorem size_update (v : Value) (f : Object → Object) :
    (s.update v f).objects.size = s.objects.size :=
  Array.size_modify

theorem get_update_self {v : Value} (hv : v.index < s.objects.size) (object : Object) :
    (s.update v fun _ => object).get v = object := by
  simp [get, update, Array.getElem_modify, hv]

theorem get_update_of_ne {v w : Value} (hvw : w ≠ v) (f : Object → Object) :
    (s.update v f).get w = s.get w := by
  have hindex : v.index ≠ w.index := fun h => hvw (by cases v; cases w; simp_all)
  simp [get, update, Array.getElem?_modify, hindex]

@[simp]
theorem size_updateScope (id : ScopeId) (f : Dict Value → Dict Value) :
    (s.updateScope id f).scopes.size = s.scopes.size :=
  Array.size_modify

theorem scope_updateScope_self {id : ScopeId} (hid : id.index < s.scopes.size)
    (f : Dict Value → Dict Value) : (s.updateScope id f).scope id = f (s.scope id) := by
  simp [scope, updateScope, Array.getElem_modify, hid]

theorem scope_of_size_le {id : ScopeId} (hid : s.scopes.size ≤ id.index) :
    s.scope id = .empty := by
  simp [scope, hid]

/-- A table changes as a whole, if it is there. -/
theorem scope_updateScope_cases (id other : ScopeId) (f : Dict Value → Dict Value) :
    (s.updateScope id f).scope other = s.scope other ∨
      other = id ∧ (s.updateScope id f).scope other = f (s.scope other) := by
  simp only [scope, updateScope, Array.getD_eq_getD_getElem?, Array.getElem?_modify]
  by_cases hindex : id.index = other.index
  · cases hfound : s.scopes[other.index]? with
    | none => simp [hindex]
    | some table =>
      refine Or.inr ⟨?_, by simp [hindex]⟩
      cases id
      cases other
      simp_all
  · simp [hindex]

theorem scope_updateScope_of_ne {id other : ScopeId} (hne : other ≠ id)
    (f : Dict Value → Dict Value) : (s.updateScope id f).scope other = s.scope other := by
  have hindex : id.index ≠ other.index := fun h => hne (by cases id; cases other; simp_all)
  simp [scope, updateScope, Array.getElem?_modify, hindex]

theorem extends_alloc (object : Object) : s.Extends (s.alloc object).2 where
  objects_le := by simp
  scopes_le := Nat.le_refl _
  get_eq _ hv := s.get_alloc_of_lt object hv
  scope_eq _ _ := rfl
  files_eq := rfl

theorem extends_newScope (names : Dict Value) : s.Extends (s.newScope names).2 where
  objects_le := Nat.le_refl _
  scopes_le := by simp
  get_eq _ _ := rfl
  scope_eq _ hid := s.scope_newScope_of_lt names hid
  files_eq := rfl

end Operations

variable {s s' s'' : Store} {v w : Value}

theorem isContainer_of_mem_parts (h : w ∈ s.parts v) : s.IsContainer v := by
  unfold parts at h
  unfold IsContainer shape?
  split at h
  · rfl
  · rfl
  · rfl
  · cases h

theorem shape?_eq_none (harray : ∀ items, s.get v ≠ .array items)
    (hdict : ∀ entries, s.get v ≠ .dict entries)
    (hinstance : ∀ type fields, s.get v ≠ .instance type fields) : s.shape? v = none := by
  unfold shape?
  split
  · next items heq => exact absurd heq (harray items)
  · next entries heq => exact absurd heq (hdict entries)
  · next type fields heq => exact absurd heq (hinstance type fields)
  · rfl

theorem not_isScalar_of_isContainer (h : s.IsContainer v) : (s.get v).isScalar = false := by
  unfold IsContainer shape? at h
  split at h
  · next heq => rw [heq]; rfl
  · next heq => rw [heq]; rfl
  · next heq => rw [heq]; rfl
  · cases h

/-- A value of the shape of an array is one, and its items are its parts. -/
theorem eq_array_of_shape? {length : Nat} (h : s.shape? v = some (.array length)) :
    ∃ items, s.get v = .array items ∧ items.size = length ∧ s.parts v = items.toList := by
  unfold shape? at h
  split at h
  · next items hget =>
    cases h
    exact ⟨items, hget, rfl, by rw [parts, hget]⟩
  · cases h
  · cases h
  · cases h

theorem eq_dict_of_shape? {keys : List String} (h : s.shape? v = some (.dict keys)) :
    ∃ entries, s.get v = .dict entries ∧ entries.keys = keys ∧ s.parts v = entries.values := by
  unfold shape? at h
  split at h
  · cases h
  · next entries hget =>
    cases h
    exact ⟨entries, hget, rfl, by rw [parts, hget]⟩
  · cases h
  · cases h

theorem eq_instance_of_shape? {type : Value} {names : List String}
    (h : s.shape? v = some (.object type names)) : ∃ fields, s.get v = .instance type fields := by
  unfold shape? at h
  split at h
  · cases h
  · cases h
  · next type' fields hget =>
    cases h
    exact ⟨fields, hget⟩
  · cases h

theorem lt_size_of_get_ne_nil (h : s.get v ≠ .nil) : v.index < s.objects.size := by
  apply Decidable.byContradiction
  intro hge
  exact h (by simp [get, hge])

/-- Only objects of the store are containers. -/
theorem lt_size_of_isContainer (h : s.IsContainer v) : v.index < s.objects.size := by
  apply lt_size_of_get_ne_nil
  intro hnil
  simp [IsContainer, shape?, hnil] at h

theorem mem_values (h : v.index < s.objects.size) : v ∈ s.values :=
  List.mem_map.mpr ⟨v.index, List.mem_range.mpr h, rfl⟩

theorem length_values (s : Store) : s.values.length = s.objects.size := by
  rw [values, List.length_map, List.length_range]

theorem Grounded.allocated (h : s.Grounded v) : s.Allocated v := h v .refl

/-- The parts of a grounded value are grounded. -/
theorem Grounded.of_mem_parts (h : s.Grounded v) (hw : w ∈ s.parts v) : s.Grounded w := by
  intro x hx
  exact h x (.head hw hx)

theorem Extends.refl (s : Store) : s.Extends s :=
  ⟨Nat.le_refl _, Nat.le_refl _, fun _ _ => rfl, fun _ _ => rfl, rfl⟩

theorem Extends.trans (h : s.Extends s') (h' : s'.Extends s'') : s.Extends s'' where
  objects_le := Nat.le_trans h.objects_le h'.objects_le
  scopes_le := Nat.le_trans h.scopes_le h'.scopes_le
  get_eq v hv := (h'.get_eq v (Nat.lt_of_lt_of_le hv h.objects_le)).trans (h.get_eq v hv)
  scope_eq id hid := (h'.scope_eq id (Nat.lt_of_lt_of_le hid h.scopes_le)).trans (h.scope_eq id hid)
  files_eq := h'.files_eq.trans h.files_eq

/-- What was allocated before is the same afterwards. -/
theorem Extends.sameAt (h : s.Extends s') (hv : s.Allocated v) : s.SameAt s' v where
  get_eq := h.get_eq v hv.object
  scope_eq type fields hget := h.scope_eq fields (hv.table type fields hget)

theorem Allocated.of_extends (hv : s.Allocated v) (h : s.Extends s') : s'.Allocated v where
  object := Nat.lt_of_lt_of_le hv.object h.objects_le
  table type fields hget := by
    rw [h.get_eq v hv.object] at hget
    exact Nat.lt_of_lt_of_le (hv.table type fields hget) h.scopes_le

theorem Newer.of_extends (hv : s.Newer s' v) (h : s'.Extends s'') : s.Newer s'' v where
  toAllocated := hv.toAllocated.of_extends h
  index_ge := hv.index_ge
  table_ge type fields hget := by
    rw [h.get_eq v hv.object] at hget
    exact hv.table_ge type fields hget

theorem Newer.of_later (hv : s'.Newer s'' v) (h : s.Extends s') : s.Newer s'' v where
  toAllocated := hv.toAllocated
  index_ge := Nat.le_trans h.objects_le hv.index_ge
  table_ge type fields hget := Nat.le_trans h.scopes_le (hv.table_ge type fields hget)

theorem SameAt.shape?_eq (h : s.SameAt s' v) : s'.shape? v = s.shape? v := by
  unfold shape?
  rw [h.get_eq]
  split
  · rfl
  · rfl
  · next type fields hget => rw [h.scope_eq type fields hget]
  · rfl

/-- What is the same at a value has the same parts. -/
theorem SameAt.parts_eq (h : s.SameAt s' v) : s'.parts v = s.parts v := by
  unfold parts
  rw [h.get_eq]
  split
  · rfl
  · rfl
  · next type fields hget => rw [h.scope_eq type fields hget]
  · rfl

end Store

end Stencil
