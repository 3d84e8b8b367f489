import Stencil.Proofs.Value.Graph

/-!
Tables of names and who may touch them. A policy names some of the tables that a
store has: secret ones, which no value refers to, hidden ones, which are never
read, and frozen ones, which are never written. Two stores are alike under a
policy when they differ at most in the hidden tables. An action honours the
policy if it does the same on alike stores, leaves them alike and writes to no
frozen table; whatever is put together from such actions honours it too.

Hidden tables have to be secret, since a table that a value refers to can be read
through it. So have frozen ones, unless no code sets attributes.
-/

namespace Stencil

namespace Object

def tables : Object → List ScopeId
  | .function f => [f.globals]
  | .struct made => [made.fields, made.globals]
  | .instance _ fields => [fields]
  | .module _ scope => [scope]
  | _ => []

def isData : Object → Bool
  | .function _ | .struct _ | .instance .. | .module .. | .builtin _ => false
  | _ => true

theorem tables_of_isData {object : Object} (h : object.isData = true) : object.tables = [] := by
  cases object with
  | function f => cases h
  | struct made => cases h
  | «instance» type fields => cases h
  | module name scope => cases h
  | _ => rfl

theorem mem_tables_of_namespace? {object : Object} {scope : ScopeId}
    (h : object.namespace? = some scope) : scope ∈ object.tables := by
  cases object with
  | struct made => exact List.mem_cons.mpr (Or.inl (Option.some.inj h).symm)
  | «instance» type fields => exact List.mem_singleton.mpr (Option.some.inj h).symm
  | module name table => exact List.mem_singleton.mpr (Option.some.inj h).symm
  | _ => cases h

end Object

/-- What is assumed of code and of values. -/
inductive Mode
  /-- No code sets attributes, and values refer to any table. -/
  | sealed
  /-- Code does as it likes, but values refer to no secret table. -/
  | separate
  /-- Code is stopped before it sets an attribute, and values refer to any table. -/
  | guarded
deriving DecidableEq

def Mode.Allows (mode : Mode) (test : Bool) : Prop := mode = .sealed → test = true

theorem Mode.allows_and {mode : Mode} {a b : Bool} :
    mode.Allows (a && b) ↔ mode.Allows a ∧ mode.Allows b := by
  cases mode <;> simp [Mode.Allows]

/-- Restrictions on the first tables of a store. -/
structure Policy (mode : Mode) where
  /-- All tables from here on are unrestricted. -/
  base : Nat
  secret : ScopeId → Prop
  hidden : ScopeId → Prop
  frozen : ScopeId → Prop
  below : ∀ id, secret id ∨ hidden id ∨ frozen id → id.index < base
  secret_of_hidden : ∀ id, hidden id → mode = .separate ∧ secret id
  secret_of_frozen : ∀ id, frozen id → mode = .separate → secret id

namespace Policy

variable {mode : Mode} (p : Policy mode)

def Links (n : Nat) (id : ScopeId) : Prop := mode = .separate → id.index < n ∧ ¬p.secret id

structure Admits (n : Nat) (object : Object) : Prop where
  links : ∀ id ∈ object.tables, p.Links n id
  builtin : mode = .sealed → ∀ function, object = .builtin function → function ≠ .setattr

/-- Stores that differ at most in hidden tables. -/
structure AlikeStores (s₁ s₂ : Store) : Prop where
  objects : s₂.objects = s₁.objects
  files : s₂.files = s₁.files
  first : s₂.first = s₁.first
  size : s₂.scopes.size = s₁.scopes.size
  base_le : p.base ≤ s₁.scopes.size
  scope : ∀ id, ¬p.hidden id → s₂.scope id = s₁.scope id
  admits : ∀ v, p.Admits s₁.scopes.size (s₁.get v)

structure KeepsStore (s s' : Store) : Prop where
  size_le : s.scopes.size ≤ s'.scopes.size
  scope : ∀ id, p.frozen id → s'.scope id = s.scope id

variable {p}

theorem Links.mono {n n' : Nat} {id : ScopeId} (h : p.Links n id) (hle : n ≤ n') :
    p.Links n' id :=
  fun hmode => ⟨Nat.lt_of_lt_of_le (h hmode).1 hle, (h hmode).2⟩

theorem Links.not_hidden {n : Nat} {id : ScopeId} (h : p.Links n id) : ¬p.hidden id := by
  intro hhidden
  obtain ⟨hmode, hsecret⟩ := p.secret_of_hidden id hhidden
  exact (h hmode).2 hsecret

theorem Links.not_frozen {n : Nat} {id : ScopeId} (h : p.Links n id) (hmode : mode = .separate) :
    ¬p.frozen id :=
  fun hfrozen => (h hmode).2 (p.secret_of_frozen id hfrozen hmode)

theorem not_secret_of_base_le {id : ScopeId} (h : p.base ≤ id.index) : ¬p.secret id :=
  fun hsecret => absurd (p.below id (Or.inl hsecret)) (Nat.not_lt.mpr h)

theorem not_hidden_of_base_le {id : ScopeId} (h : p.base ≤ id.index) : ¬p.hidden id :=
  fun hhidden => absurd (p.below id (Or.inr (Or.inl hhidden))) (Nat.not_lt.mpr h)

theorem not_frozen_of_base_le {id : ScopeId} (h : p.base ≤ id.index) : ¬p.frozen id :=
  fun hfrozen => absurd (p.below id (Or.inr (Or.inr hfrozen))) (Nat.not_lt.mpr h)

/-- A table that the store has and the policy does not know. -/
theorem links_of_base_le {n : Nat} {id : ScopeId} (h : p.base ≤ id.index) (hlt : id.index < n) :
    p.Links n id :=
  fun _ => ⟨hlt, not_secret_of_base_le h⟩

theorem Admits.mono {n n' : Nat} {object : Object} (h : p.Admits n object) (hle : n ≤ n') :
    p.Admits n' object :=
  ⟨fun id hid => (h.links id hid).mono hle, h.builtin⟩

/-- Data is admitted, for it refers to no table. -/
theorem admits_data {n : Nat} {object : Object} (h : object.isData = true) :
    p.Admits n object := by
  constructor
  · intro id hid
    rw [Object.tables_of_isData h] at hid
    cases hid
  · rintro - function rfl
    cases h

theorem admits_builtin {n : Nat} {function : Builtin}
    (h : mode = .sealed → function ≠ .setattr) : p.Admits n (.builtin function) := by
  constructor
  · intro id hid
    cases hid
  · rintro hmode function' heq
    cases heq
    exact h hmode

/-- An object that refers to one table. -/
theorem admits_of_tables_eq {n : Nat} {object : Object} {id : ScopeId}
    (htables : object.tables = [id]) (h : p.Links n id) : p.Admits n object := by
  constructor
  · intro other hother
    rw [htables, List.mem_singleton] at hother
    rw [hother]
    exact h
  · rintro - function rfl
    cases htables

/-- What is admitted has a namespace that is linked. -/
theorem Admits.links_namespace {n : Nat} {object : Object} {scope : ScopeId}
    (h : p.Admits n object) (hscope : object.namespace? = some scope) : p.Links n scope :=
  h.links scope (Object.mem_tables_of_namespace? hscope)

theorem KeepsStore.refl (s : Store) : p.KeepsStore s s := ⟨Nat.le_refl _, fun _ _ => rfl⟩

theorem KeepsStore.trans {s s' s'' : Store} (h : p.KeepsStore s s') (h' : p.KeepsStore s' s'') :
    p.KeepsStore s s'' :=
  ⟨Nat.le_trans h.size_le h'.size_le, fun id hid => (h'.scope id hid).trans (h.scope id hid)⟩

namespace AlikeStores

variable {s₁ s₂ : Store} (h : p.AlikeStores s₁ s₂)

include h

/-- The objects of alike stores are the same. -/
theorem get (v : Value) : s₂.get v = s₁.get v := by
  simp only [Store.get, h.objects]

/-- What is not hidden is read alike. -/
theorem lookup {id : ScopeId} (hid : ¬p.hidden id) (name : String) :
    s₂.lookup id name = s₁.lookup id name := by
  simp only [Store.lookup, h.scope id hid]

/-- The policy holds of one store alone. -/
theorem right : p.AlikeStores s₂ s₂ where
  objects := rfl
  files := rfl
  first := rfl
  size := rfl
  base_le := h.size ▸ h.base_le
  scope _ _ := rfl
  admits v := by
    rw [h.size, h.get v]
    exact h.admits v

theorem alloc_value (object : Object) : (s₂.alloc object).1 = (s₁.alloc object).1 := by
  simp only [Store.alloc, h.objects]

theorem newScope_id (names : Dict Value) : (s₂.newScope names).1 = (s₁.newScope names).1 := by
  simp only [Store.newScope, h.size]

/-- An object that is admitted may be added to both stores, which number it alike. -/
theorem alloc {object : Object} (hobject : p.Admits s₁.scopes.size object) :
    p.AlikeStores (s₁.alloc object).2 (s₂.alloc object).2 where
  objects := by simp only [Store.alloc, h.objects]
  files := h.files
  first := h.first
  size := h.size
  base_le := h.base_le
  scope := h.scope
  admits v := by
    change p.Admits s₁.scopes.size _
    by_cases hlt : v.index < s₁.objects.size
    · rw [Store.get_alloc_of_lt s₁ object hlt]
      exact h.admits v
    · by_cases heq : v.index = s₁.objects.size
      · obtain rfl : v = ⟨s₁.objects.size⟩ := by
          cases v
          exact congrArg Value.mk heq
        rw [Store.get_alloc_self]
        exact hobject
      · have hnil : (s₁.alloc object).2.get v = .nil := by
          have hge : s₁.objects.size + 1 ≤ v.index := by omega
          simp [Store.get, Store.alloc, Array.getElem?_push, heq, hlt]
        rw [hnil]
        exact admits_data rfl

/-- A change that keeps to what is admitted may be made in both stores. -/
theorem update (v : Value) {f : Object → Object}
    (hf : ∀ object, p.Admits s₁.scopes.size object → p.Admits s₁.scopes.size (f object)) :
    p.AlikeStores (s₁.update v f) (s₂.update v f) where
  objects := by simp only [Store.update, h.objects]
  files := h.files
  first := h.first
  size := h.size
  base_le := h.base_le
  scope := h.scope
  admits w := by
    change p.Admits s₁.scopes.size _
    by_cases hw : w = v
    · subst hw
      by_cases hlt : w.index < s₁.objects.size
      · have hget : (s₁.update w f).get w = f (s₁.get w) := by
          simp [Store.get, Store.update, Array.getElem_modify, hlt]
        rw [hget]
        exact hf _ (h.admits w)
      · have hnil : (s₁.update w f).get w = .nil := by
          simp [Store.get, Store.update, hlt]
        rw [hnil]
        exact admits_data rfl
    · rw [Store.get_update_of_ne s₁ hw f]
      exact h.admits w

theorem newScope (names : Dict Value) :
    p.AlikeStores (s₁.newScope names).2 (s₂.newScope names).2 where
  objects := h.objects
  files := h.files
  first := h.first
  size := by simp only [Store.size_newScope, h.size]
  base_le := by
    rw [Store.size_newScope]
    exact Nat.le_succ_of_le h.base_le
  scope id hid := by
    have hscope := h.scope id hid
    simp only [Store.scope, Store.newScope, Array.getD_eq_getD_getElem?, Array.getElem?_push,
      h.size] at hscope ⊢
    split
    · rfl
    · exact hscope
  admits v := by
    rw [Store.size_newScope]
    exact (h.admits v).mono (Nat.le_succ _)

/-- A change to a table, as long as it is hidden or the change is the same. -/
theorem updateScope (id : ScopeId) (f : Dict Value → Dict Value) :
    p.AlikeStores (s₁.updateScope id f) (s₂.updateScope id f) where
  objects := h.objects
  files := h.files
  first := h.first
  size := by simp only [Store.size_updateScope, h.size]
  base_le := by
    rw [Store.size_updateScope]
    exact h.base_le
  scope other hother := by
    have hscope := h.scope other hother
    by_cases heq : other = id
    · subst heq
      simp only [Store.scope, Store.updateScope, Array.getD_eq_getD_getElem?,
        Array.getElem?_modify, if_true] at hscope ⊢
      by_cases hlt : other.index < s₁.scopes.size
      · have hlt' : other.index < s₂.scopes.size := h.size ▸ hlt
        simp only [Array.getElem?_eq_getElem hlt, Array.getElem?_eq_getElem hlt',
          Option.getD_some, Option.map_some] at hscope ⊢
        rw [hscope]
      · have hlt' : ¬other.index < s₂.scopes.size := h.size ▸ hlt
        simp [hlt, hlt']
    · rw [Store.scope_updateScope_of_ne s₁ heq, Store.scope_updateScope_of_ne s₂ heq]
      exact hscope
  admits v := by
    rw [Store.size_updateScope]
    exact h.admits v

theorem setFiles (files : FileTree) : p.AlikeStores (s₁.setFiles files) (s₂.setFiles files) where
  objects := h.objects
  files := rfl
  first := h.first
  size := h.size
  base_le := h.base_le
  scope := h.scope
  admits := h.admits

theorem keepsStore_newScope (names : Dict Value) : p.KeepsStore s₁ (s₁.newScope names).2 where
  size_le := by
    rw [Store.size_newScope]
    exact Nat.le_succ _
  scope id hid := by
    have hlt : id.index < s₁.scopes.size :=
      Nat.lt_of_lt_of_le (p.below id (Or.inr (Or.inr hid))) h.base_le
    exact Store.scope_newScope_of_lt s₁ names hlt

end AlikeStores

theorem keepsStore_alloc (s : Store) (object : Object) : p.KeepsStore s (s.alloc object).2 :=
  ⟨Nat.le_refl _, fun _ _ => rfl⟩

/-- A table that is not frozen may be changed. -/
theorem keepsStore_updateScope (s : Store) {id : ScopeId} (hid : ¬p.frozen id)
    (f : Dict Value → Dict Value) : p.KeepsStore s (s.updateScope id f) where
  size_le := Nat.le_of_eq (Store.size_updateScope s id f).symm
  scope other hother := by
    have hne : other ≠ id := by
      rintro rfl
      exact hid hother
    exact Store.scope_updateScope_of_ne s hne f

end Policy

end Stencil
