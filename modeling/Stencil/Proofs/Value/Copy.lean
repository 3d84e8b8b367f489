import Mathlib.Data.List.Forall2
import Stencil.Proofs.Dict
import Stencil.Proofs.Value.Graph
import Stencil.Value.Copy

/-!
Deep copies. Copying works on a growing store and a growing table of containers
and their copies. Between entering a container and filling its copy the table has
a copy without parts, so nothing can be said of all its entries; but every entry
that a run of copying has added is finished when that run is over, and a run
changes nothing that was there when it started. Each container is entered once,
which bounds the depth of the recursion.
-/

namespace Stencil.Value

/-- What stands for a value in a copy, given the copies of the containers: the
copy of a container, a new object with the same contents for a scalar, and the
value itself for all else. -/
inductive Copied (s s' : Store) (C : Value → Value → Prop) (x y : Value) : Prop
  | container (h : s.IsContainer x) (hC : C x y)
  | scalar (h : (s.get x).isScalar = true) (hget : s'.get y = s.get x)
      (hnew : s.objects.size ≤ y.index) (hlt : y.index < s'.objects.size)
  | shared (h : ¬ s.IsContainer x) (hscalar : (s.get x).isScalar = false) (heq : y = x)

/-- A value stands for another in any later store that has the same object there. -/
theorem Copied.imp {s s₁ s₂ : Store} {C C' : Value → Value → Prop} {x y : Value}
    (h : Copied s s₁ C x y) (hC : C x y → C' x y) (hsize : s₁.objects.size ≤ s₂.objects.size)
    (hget : y.index < s₁.objects.size → (s₁.get y).isScalar = true → s₂.get y = s₁.get y) :
    Copied s s₂ C' x y := by
  cases h with
  | container h hxy => exact .container h (hC hxy)
  | scalar h hxy hnew hlt =>
    refine .scalar h ?_ hnew (Nat.lt_of_lt_of_le hlt hsize)
    rw [hget hlt (by rw [hxy, h]), hxy]
  | shared h hscalar heq => exact .shared h hscalar heq

def CopyState.Has (st : CopyState) (x y : Value) : Prop := st.copies.lookup x = some y

structure Finished (s : Store) (st : CopyState) (x y : Value) : Prop where
  shape?_eq : st.store.shape? y = s.shape? x
  parts : List.Forall₂ (Copied s st.store st.Has) (s.parts x) (st.store.parts y)

/-- What holds of every state of copying values of a store: old objects and tables
are as they were, and every entered container has a copy of its own. -/
structure Copying (s : Store) (st : CopyState) : Prop where
  store : s.Extends st.store
  nodup : (st.copies.map Prod.fst).Nodup
  container : ∀ x ∈ st.copies.map Prod.fst, s.IsContainer x
  bounded : ∀ x y, st.Has x y → y.index < st.store.objects.size
  injective : ∀ x x' y, st.Has x y → st.Has x' y → x = x'

/-- What a run of copying leaves behind: nothing that was there has changed, and
the copies it has added are new and finished. -/
structure Grown (s : Store) (st st' : CopyState) : Prop where
  store : st.store.Extends st'.store
  has : ∀ x y, st.Has x y → st'.Has x y
  length_le : st.copies.length ≤ st'.copies.length
  added : ∀ x y, st'.Has x y →
    st.Has x y ∨ (st.store.Newer st'.store y ∧ Finished s st' x y)

variable {s : Store} {st st' st'' : CopyState} {x y v w : Value}

theorem Copied.of_grown (h : Copied s st.store st.Has x y) (hgrown : Grown s st st') :
    Copied s st'.store st'.Has x y :=
  h.imp (hgrown.has x y) hgrown.store.objects_le fun hlt _ => hgrown.store.get_eq y hlt

theorem Finished.transfer (h : Finished s st x y) (hsame : st.store.SameAt st'.store y)
    (hcopied : ∀ a b, Copied s st.store st.Has a b → Copied s st'.store st'.Has a b) :
    Finished s st' x y where
  shape?_eq := hsame.shape?_eq.trans h.shape?_eq
  parts := by
    rw [hsame.parts_eq]
    exact h.parts.imp fun a b hab => hcopied a b hab

theorem Grown.refl (s : Store) (st : CopyState) : Grown s st st :=
  ⟨.refl _, fun _ _ h => h, Nat.le_refl _, fun _ _ h => Or.inl h⟩

/-- What was finished first stays finished. -/
theorem Grown.trans (h : Grown s st st') (h' : Grown s st' st'') : Grown s st st'' where
  store := h.store.trans h'.store
  has x y hxy := h'.has x y (h.has x y hxy)
  length_le := Nat.le_trans h.length_le h'.length_le
  added x y hxy := by
    rcases h'.added x y hxy with hxy | ⟨hnewer, hfinished⟩
    · rcases h.added x y hxy with hxy | ⟨hnewer, hfinished⟩
      · exact Or.inl hxy
      · refine Or.inr ⟨hnewer.of_extends h'.store, ?_⟩
        exact hfinished.transfer (h'.store.sameAt hnewer.toAllocated)
          fun a b hab => hab.of_grown h'
    · exact Or.inr ⟨hnewer.of_later h.store, hfinished⟩

/-- There are only so many containers to enter. -/
theorem Copying.length_le (h : Copying s st) : st.copies.length ≤ s.objects.size := by
  have hsub : st.copies.map Prod.fst ⊆ s.values := fun x hx =>
    Store.mem_values (Store.lt_size_of_isContainer (h.container x hx))
  have hlength := h.nodup.length_le_of_subset hsub
  rwa [List.length_map, Store.length_values] at hlength

theorem Copying.isContainer_of_has (h : Copying s st) (hxy : st.Has x y) : s.IsContainer x := by
  obtain ⟨before, after, hcopies, -⟩ := List.lookup_eq_some_iff.mp hxy
  apply h.container x
  simp [hcopies]

theorem Copying.isContainer_iff (h : Copying s st) (hv : s.Allocated v) :
    st.store.IsContainer v ↔ s.IsContainer v := by
  rw [Store.IsContainer, Store.IsContainer, (h.store.sameAt hv).shape?_eq]

theorem Copying.grounded_of_mem_parts (h : Copying s st) (hv : s.Grounded v)
    (hx : x ∈ st.store.parts v) : s.Grounded x := by
  rw [(h.store.sameAt hv.allocated).parts_eq] at hx
  exact hv.of_mem_parts hx

section Each

variable {copyOne : Value → CopyState → Value × CopyState} {P : CopyState → Prop}

/-- What a run of copying does for each value of a list, it does for the list. -/
theorem copyEach_spec
    (hone : ∀ v st, s.Grounded v → P st →
      P (copyOne v st).2 ∧ Grown s st (copyOne v st).2 ∧
        Copied s (copyOne v st).2.store (copyOne v st).2.Has v (copyOne v st).1)
    (vs : List Value) (hvs : ∀ v ∈ vs, s.Grounded v) (hst : P st) :
    P (copyEach copyOne vs st).2 ∧ Grown s st (copyEach copyOne vs st).2 ∧
      List.Forall₂ (Copied s (copyEach copyOne vs st).2.store (copyEach copyOne vs st).2.Has)
        vs (copyEach copyOne vs st).1 := by
  induction vs generalizing st with
  | nil => exact ⟨hst, .refl s st, .nil⟩
  | cons v rest ih =>
    obtain ⟨hst₁, hgrown₁, hcopied⟩ := hone v st (hvs v List.mem_cons_self) hst
    obtain ⟨hst₂, hgrown₂, hrest⟩ := ih (fun x hx => hvs x (List.mem_cons_of_mem _ hx)) hst₁
    exact ⟨hst₂, hgrown₁.trans hgrown₂, .cons (hcopied.of_grown hgrown₂) hrest⟩

theorem copyEach_congr {copyOne' : Value → CopyState → Value × CopyState}
    (hone : ∀ v st, s.Grounded v → P st →
      copyOne v st = copyOne' v st ∧ P (copyOne' v st).2)
    (vs : List Value) (hvs : ∀ v ∈ vs, s.Grounded v) (hst : P st) :
    copyEach copyOne vs st = copyEach copyOne' vs st := by
  induction vs generalizing st with
  | nil => rfl
  | cons v rest ih =>
    obtain ⟨heq, hst₁⟩ := hone v st (hvs v List.mem_cons_self) hst
    simp only [copyEach, heq]
    rw [ih (fun x hx => hvs x (List.mem_cons_of_mem _ hx)) hst₁]

end Each

section Entering

def CopyState.opened (st : CopyState) (v : Value) : CopyState :=
  match st.store.get v with
  | .array _ => (st.enter v (.array #[])).2
  | .dict _ => (st.enter v (.dict .empty)).2
  | .instance type _ =>
    let (own, store) := st.store.newScope .empty
    (CopyState.enter { st with store := store } v (.instance type own)).2
  | _ => st

def CopyState.closed (st : CopyState) (v : Value) (ws : List Value) (st₂ : CopyState) :
    CopyState :=
  match st.store.get v with
  | .array _ => st₂.fill ⟨st.store.objects.size⟩ (.array ws.toArray)
  | .dict entries =>
    st₂.fill ⟨st.store.objects.size⟩ (.dict (.ofList (entries.keys.zip ws)))
  | .instance _ fields =>
    let table := Dict.ofList ((st.store.scope fields).keys.zip ws)
    { st₂ with store := st₂.store.updateScope ⟨st.store.scopes.size⟩ fun _ => table }
  | _ => st₂

theorem scope_opened (st : CopyState) (v : Value) (id : ScopeId) :
    (st.opened v).store.scope id = st.store.scope id := by
  unfold CopyState.opened
  split
  · rfl
  · rfl
  · simp only [CopyState.enter, Store.alloc, Store.newScope, Store.scope,
      Array.getD_eq_getD_getElem?, Array.getElem?_push]
    split
    · next heq => simp [heq]
    · rfl
  · rfl

/-- A container that has not been entered is entered, its parts are copied, and they
are put into its copy. -/
theorem deepCopyFrom_succ (budget : Nat) (v : Value) (st : CopyState) :
    deepCopyFrom (budget + 1) v st =
      match st.copies.lookup v with
      | some w => (w, st)
      | none =>
        if (st.store.shape? v).isSome then
          let (ws, st₂) := copyEach (deepCopyFrom budget) (st.store.parts v) (st.opened v)
          (⟨st.store.objects.size⟩, st.closed v ws st₂)
        else copyScalar v st := by
  rw [deepCopyFrom]
  cases st.copies.lookup v with
  | some w => rfl
  | none =>
    dsimp only
    split
    · next items hget =>
      simp [CopyState.opened, CopyState.closed, Store.shape?, Store.parts, hget, CopyState.enter,
        Store.alloc]
    · next entries hget =>
      simp [CopyState.opened, CopyState.closed, Store.shape?, Store.parts, hget, CopyState.enter,
        Store.alloc, copyTable]
    · next type fields hget =>
      have hscope := scope_opened st v fields
      simp only [CopyState.opened, hget] at hscope
      simp only [CopyState.opened, CopyState.closed, Store.shape?, Store.parts, hget, hscope,
        copyTable, Option.isSome_some, if_true]
      rfl
    · next harray hdict hinstance => simp [Store.shape?_eq_none harray hdict hinstance]

/-- A copy without parts has been entered for the container. -/
structure Opens (st : CopyState) (v w : Value) (st₁ : CopyState) : Prop where
  store : st.store.Extends st₁.store
  copies : st₁.copies = (v, w) :: st.copies
  newer : st.store.Newer st₁.store w
  container : st₁.store.IsContainer w

structure Closes (st st₁ st₂ : CopyState) (w : Value) (shape : Option Shape) (ws : List Value)
    (st₃ : CopyState) : Prop where
  copies : st₃.copies = st₂.copies
  objects_size : st₃.store.objects.size = st₂.store.objects.size
  store : st.store.Extends st₃.store
  newer : st.store.Newer st₃.store w
  sameAt : ∀ y, st₁.store.Newer st₂.store y →
    st₂.store.SameAt st₃.store y ∧ st₁.store.Newer st₃.store y
  scalar : ∀ y, (st₂.store.get y).isScalar = true → st₃.store.get y = st₂.store.get y
  shape?_eq : st₃.store.shape? w = shape
  parts_eq : st₃.store.parts w = ws

theorem opens_enter {object : Object} (hobject : ∀ type fields, object ≠ .instance type fields)
    (hcontainer : ∀ s : Store, s.get ⟨st.store.objects.size⟩ = object →
      s.IsContainer ⟨st.store.objects.size⟩) :
    Opens st v ⟨st.store.objects.size⟩ (st.enter v object).2 where
  store := st.store.extends_alloc object
  copies := rfl
  newer := by
    have hget := st.store.get_alloc_self object
    refine ⟨⟨?_, ?_⟩, Nat.le_refl _, ?_⟩
    · change _ < (st.store.alloc object).2.objects.size
      simp
    · intro type fields hinstance
      exact absurd (hget.symm.trans hinstance) (hobject type fields)
    · intro type fields hinstance
      exact absurd (hget.symm.trans hinstance) (hobject type fields)
  container := hcontainer _ (st.store.get_alloc_self object)

theorem opens_enter_instance (type : Value) :
    Opens st v ⟨st.store.objects.size⟩
      (CopyState.enter { st with store := (st.store.newScope .empty).2 } v
        (.instance type ⟨st.store.scopes.size⟩)).2 := by
  let store := (st.store.newScope .empty).2
  have hget := store.get_alloc_self (.instance type ⟨st.store.scopes.size⟩)
  refine ⟨?_, rfl, ⟨⟨?_, ?_⟩, Nat.le_refl _, ?_⟩, ?_⟩
  · exact (st.store.extends_newScope .empty).trans (store.extends_alloc _)
  · change _ < (store.alloc _).2.objects.size
    rw [Store.size_alloc]
    exact Nat.lt_succ_self _
  · intro type' fields hinstance
    cases hget.symm.trans hinstance
    change _ < (st.store.newScope .empty).2.scopes.size
    simp
  · intro type' fields hinstance
    cases hget.symm.trans hinstance
    exact Nat.le_refl _
  · change ((store.alloc _).2.shape? ⟨store.objects.size⟩).isSome = true
    simp [Store.shape?, hget]

theorem opens_opened (h : st.store.IsContainer v) :
    Opens st v ⟨st.store.objects.size⟩ (st.opened v) := by
  unfold CopyState.opened
  split
  · refine opens_enter (by simp) fun s hget => ?_
    simp [Store.IsContainer, Store.shape?, hget]
  · refine opens_enter (by simp) fun s hget => ?_
    simp [Store.IsContainer, Store.shape?, hget]
  · next type fields hget => exact opens_enter_instance type
  · next harray hdict hinstance =>
    simp [Store.IsContainer, Store.shape?_eq_none harray hdict hinstance] at h

theorem closes_fill {st₁ st₂ : CopyState} {ws : List Value} {shape : Option Shape}
    (hopens : Opens st v w st₁) (hst₂ : st₁.store.Extends st₂.store) {object : Object}
    (hobject : ∀ type fields, object ≠ .instance type fields)
    (hcontents : ∀ s : Store, s.get w = object → s.shape? w = shape ∧ s.parts w = ws) :
    Closes st st₁ st₂ w shape ws (st₂.fill w object) := by
  have hw : w.index < st₂.store.objects.size :=
    Nat.lt_of_lt_of_le hopens.newer.object hst₂.objects_le
  have hself : (st₂.fill w object).store.get w = object := Store.get_update_self _ hw object
  have hother : ∀ y, y ≠ w → (st₂.fill w object).store.get y = st₂.store.get y :=
    fun y hy => Store.get_update_of_ne _ hy _
  have hsize : (st₂.fill w object).store.objects.size = st₂.store.objects.size :=
    Store.size_update _ _ _
  have hbefore := hopens.store.trans hst₂
  constructor
  · rfl
  · exact hsize
  · refine ⟨hsize ▸ hbefore.objects_le, hbefore.scopes_le, ?_, hbefore.scope_eq,
      hbefore.files_eq⟩
    intro x hx
    have hne : x ≠ w := by
      rintro rfl
      exact Nat.not_lt_of_le hopens.newer.index_ge hx
    rw [hother x hne, hbefore.get_eq x hx]
  · refine ⟨⟨hsize ▸ hw, ?_⟩, hopens.newer.index_ge, ?_⟩
    · intro type fields hinstance
      exact absurd (hself.symm.trans hinstance) (hobject type fields)
    · intro type fields hinstance
      exact absurd (hself.symm.trans hinstance) (hobject type fields)
  · intro y hy
    have hne : y ≠ w := by
      rintro rfl
      exact Nat.not_lt_of_le hy.index_ge hopens.newer.object
    refine ⟨⟨hother y hne, fun _ _ _ => rfl⟩, ⟨⟨hsize ▸ hy.object, ?_⟩, hy.index_ge, ?_⟩⟩
    · rw [hother y hne]
      exact hy.table
    · rw [hother y hne]
      exact hy.table_ge
  · intro y hy
    apply hother
    rintro rfl
    rw [hst₂.get_eq y hopens.newer.object,
      Store.not_isScalar_of_isContainer hopens.container] at hy
    cases hy
  · exact (hcontents _ hself).1
  · exact (hcontents _ hself).2

theorem closes_fields {st₁ st₂ : CopyState} {type : Value} (table : Dict Value)
    (hopens : Opens st v w st₁) (hget : st₁.store.get w = .instance type ⟨st.store.scopes.size⟩)
    (hst₂ : st₁.store.Extends st₂.store) :
    Closes st st₁ st₂ w (some (.object type table.keys)) table.values
      { st₂ with store := st₂.store.updateScope ⟨st.store.scopes.size⟩ fun _ => table } := by
  let own : ScopeId := ⟨st.store.scopes.size⟩
  have hown : own.index < st₁.store.scopes.size := hopens.newer.table _ _ hget
  have hbefore := hopens.store.trans hst₂
  have hw : st₂.store.get w = .instance type own :=
    (hst₂.get_eq w hopens.newer.object).trans hget
  have htable : (st₂.store.updateScope own fun _ => table).scope own = table :=
    Store.scope_updateScope_self _ (Nat.lt_of_lt_of_le hown hst₂.scopes_le) _
  have hother : ∀ id : ScopeId, id.index ≠ own.index →
      (st₂.store.updateScope own fun _ => table).scope id = st₂.store.scope id := by
    intro id hid
    exact Store.scope_updateScope_of_ne _ (fun heq => hid (congrArg ScopeId.index heq)) _
  have hsize : (st₂.store.updateScope own fun _ => table).scopes.size = st₂.store.scopes.size :=
    Store.size_updateScope _ _ _
  constructor
  · rfl
  · rfl
  · refine ⟨hbefore.objects_le, hsize ▸ hbefore.scopes_le, hbefore.get_eq, ?_, hbefore.files_eq⟩
    intro id hid
    exact (hother id (Nat.ne_of_lt hid)).trans (hbefore.scope_eq id hid)
  · refine ⟨⟨Nat.lt_of_lt_of_le hopens.newer.object hst₂.objects_le, ?_⟩,
      hopens.newer.index_ge, ?_⟩
    · intro type' fields hinstance
      cases hw.symm.trans hinstance
      exact hsize ▸ Nat.lt_of_lt_of_le hown hst₂.scopes_le
    · intro type' fields hinstance
      cases hw.symm.trans hinstance
      exact Nat.le_refl _
  · intro y hy
    refine ⟨⟨rfl, ?_⟩, ⟨⟨hy.object, ?_⟩, hy.index_ge, hy.table_ge⟩⟩
    · intro type' fields hinstance
      have hge := hy.table_ge type' fields hinstance
      exact hother fields (by omega)
    · intro type' fields hinstance
      exact hsize ▸ hy.table type' fields hinstance
  · exact fun _ _ => rfl
  · change (st₂.store.updateScope own fun _ => table).shape? w = _
    have hw' : (st₂.store.updateScope own fun _ => table).get w = .instance type own := hw
    simp only [Store.shape?, hw', htable]
  · change (st₂.store.updateScope own fun _ => table).parts w = _
    have hw' : (st₂.store.updateScope own fun _ => table).get w = .instance type own := hw
    simp only [Store.parts, hw', htable]

/-- Filling the copy of a container makes it a container of the same shape. -/
theorem closes_closed {st₂ : CopyState} (h : st.store.IsContainer v)
    (hst₂ : (st.opened v).store.Extends st₂.store) {ws : List Value}
    (hlength : ws.length = (st.store.parts v).length) :
    Closes st (st.opened v) st₂ ⟨st.store.objects.size⟩ (st.store.shape? v) ws
      (st.closed v ws st₂) := by
  have hopens := opens_opened h
  unfold CopyState.closed
  split
  · next items hget =>
    refine closes_fill hopens hst₂ (by simp) fun s' hget' => ?_
    simp only [Store.parts, hget, Array.length_toList] at hlength
    simp [Store.shape?, Store.parts, hget, hget', hlength]
  · next entries hget =>
    refine closes_fill hopens hst₂ (by simp) fun s' hget' => ?_
    simp only [Store.parts, hget, Dict.length_values] at hlength
    simp only [Store.shape?, Store.parts, hget, hget',
      Dict.keys_ofList_zip entries.nodup_keys hlength,
      Dict.values_ofList_zip entries.nodup_keys hlength, and_self]
  · next type fields hget =>
    simp only [Store.parts, hget, Dict.length_values] at hlength
    have hkeys := Dict.keys_ofList_zip (st.store.scope fields).nodup_keys hlength
    have hvalues := Dict.values_ofList_zip (st.store.scope fields).nodup_keys hlength
    have hempty : (st.opened v).store.get ⟨st.store.objects.size⟩ =
        .instance type ⟨st.store.scopes.size⟩ := by
      simp only [CopyState.opened, hget]
      exact Store.get_alloc_self _ _
    have hcloses := closes_fields (.ofList ((st.store.scope fields).keys.zip ws)) hopens hempty hst₂
    rw [hkeys, hvalues] at hcloses
    simpa only [Store.shape?, hget] using hcloses
  · next harray hdict hinstance =>
    simp [Store.IsContainer, Store.shape?_eq_none harray hdict hinstance] at h

end Entering

section Run

theorem Opens.has_iff {st₁ : CopyState} (h : Opens st v w st₁) (x y : Value) :
    st₁.Has x y ↔ if x = v then w = y else st.Has x y := by
  unfold CopyState.Has
  rw [h.copies, Dict.lookup_cons_eq]
  split
  · exact Option.some_inj
  · exact Iff.rfl

theorem Copying.opens {st₁ : CopyState} (hst : Copying s st) (hopens : Opens st v w st₁)
    (hnone : st.copies.lookup v = none) (hv : s.IsContainer v) : Copying s st₁ := by
  have habsent : v ∉ st.copies.map Prod.fst := by
    intro hmem
    obtain ⟨⟨x, y⟩, hxy, rfl⟩ := List.mem_map.mp hmem
    have hne := List.lookup_eq_none_iff.mp hnone (x, y) hxy
    simp at hne
  refine ⟨hst.store.trans hopens.store, ?_, ?_, ?_, ?_⟩
  · rw [hopens.copies, List.map_cons]
    exact List.nodup_cons.mpr ⟨habsent, hst.nodup⟩
  · rw [hopens.copies, List.map_cons, List.forall_mem_cons]
    exact ⟨hv, hst.container⟩
  · intro x y hxy
    rw [hopens.has_iff] at hxy
    split at hxy
    · exact hxy ▸ hopens.newer.object
    · exact Nat.lt_of_lt_of_le (hst.bounded x y hxy) hopens.store.objects_le
  · have hfresh : ∀ x, ¬ st.Has x w := fun x hx =>
      Nat.not_lt_of_le hopens.newer.index_ge (hst.bounded x w hx)
    intro x x' y hxy hxy'
    rw [hopens.has_iff] at hxy hxy'
    split at hxy
    · next hx =>
      split at hxy'
      · next hx' => rw [hx, hx']
      · exact absurd (hxy ▸ hxy') (hfresh x')
    · split at hxy'
      · exact absurd (hxy' ▸ hxy) (hfresh x)
      · exact hst.injective x x' y hxy hxy'

section Closing

variable {st₁ st₂ st₃ : CopyState} {shape : Option Shape} {ws : List Value}

theorem Closes.has_iff (h : Closes st st₁ st₂ w shape ws st₃) (x y : Value) :
    st₃.Has x y ↔ st₂.Has x y := by
  unfold CopyState.Has
  rw [h.copies]

theorem Copying.closes (hst : Copying s st) (hst₂ : Copying s st₂)
    (h : Closes st st₁ st₂ w shape ws st₃) : Copying s st₃ := by
  refine ⟨hst.store.trans h.store, h.copies ▸ hst₂.nodup, h.copies ▸ hst₂.container, ?_, ?_⟩
  · intro x y hxy
    rw [h.objects_size]
    exact hst₂.bounded x y ((h.has_iff x y).mp hxy)
  · intro x x' y hxy hxy'
    exact hst₂.injective x x' y ((h.has_iff x y).mp hxy) ((h.has_iff x' y).mp hxy')

/-- With its copy filled, a container that was entered is finished as well. Its own entry is the
one that is new. -/
theorem grown_of_closes (hopens : Opens st v w st₁) (hgrown : Grown s st₁ st₂)
    (hcloses : Closes st st₁ st₂ w (s.shape? v) ws st₃) (hnone : st.copies.lookup v = none)
    (hparts : List.Forall₂ (Copied s st₂.store st₂.Has) (s.parts v) ws) :
    Grown s st st₃ ∧ st₃.Has v w := by
  have hcopied : ∀ a b, Copied s st₂.store st₂.Has a b → Copied s st₃.store st₃.Has a b := by
    intro a b hab
    refine hab.imp (hcloses.has_iff a b).mpr (Nat.le_of_eq hcloses.objects_size.symm) ?_
    exact fun _ hscalar => hcloses.scalar b hscalar
  have hvw : st₃.Has v w := by
    rw [hcloses.has_iff]
    exact hgrown.has v w ((hopens.has_iff v w).mpr (by rw [if_pos rfl]))
  refine ⟨⟨hcloses.store, ?_, ?_, ?_⟩, hvw⟩
  · intro x y hxy
    have hne : x ≠ v := by
      rintro rfl
      cases hnone.symm.trans hxy
    rw [hcloses.has_iff]
    exact hgrown.has x y ((hopens.has_iff x y).mpr (by rwa [if_neg hne]))
  · have hlength := hgrown.length_le
    rw [hopens.copies, List.length_cons] at hlength
    rw [hcloses.copies]
    omega
  · intro x y hxy
    rw [hcloses.has_iff] at hxy
    rcases hgrown.added x y hxy with hxy | ⟨hnewer, hfinished⟩
    · rw [hopens.has_iff] at hxy
      split at hxy
      · next hx =>
        subst hx hxy
        refine Or.inr ⟨hcloses.newer, hcloses.shape?_eq, ?_⟩
        rw [hcloses.parts_eq]
        exact hparts.imp fun a b hab => hcopied a b hab
      · exact Or.inl hxy
    · obtain ⟨hsame, hnewer⟩ := hcloses.sameAt y hnewer
      exact Or.inr ⟨hnewer.of_later hopens.store, hfinished.transfer hsame hcopied⟩

end Closing

theorem copyScalar_eq (v : Value) (st : CopyState) :
    copyScalar v st =
      if (st.store.get v).isScalar then
        (⟨st.store.objects.size⟩, { st with store := (st.store.alloc (st.store.get v)).2 })
      else (v, st) := by
  unfold copyScalar
  cases st.store.get v <;> rfl

/-- What is no container is copied to a new object if it is a scalar, and stands for itself
otherwise. -/
theorem copyScalar_spec (hst : Copying s st) (hv : s.Allocated v) (h : ¬ s.IsContainer v) :
    Copying s (copyScalar v st).2 ∧ Grown s st (copyScalar v st).2 ∧
      Copied s (copyScalar v st).2.store (copyScalar v st).2.Has v (copyScalar v st).1 := by
  have hget := hst.store.get_eq v hv.object
  rw [copyScalar_eq, hget]
  split
  · next hscalar =>
    have hextends := st.store.extends_alloc (s.get v)
    refine ⟨⟨hst.store.trans hextends, hst.nodup, hst.container, ?_, hst.injective⟩, ?_, ?_⟩
    · intro x y hxy
      exact Nat.lt_of_lt_of_le (hst.bounded x y hxy) hextends.objects_le
    · exact ⟨hextends, fun _ _ hxy => hxy, Nat.le_refl _, fun _ _ hxy => Or.inl hxy⟩
    · refine .scalar hscalar (Store.get_alloc_self _ _) hst.store.objects_le ?_
      simp
  · next hscalar =>
    refine ⟨hst, .refl s st, .shared h ?_ rfl⟩
    simpa using hscalar

/-- A state of copying with a budget for all containers not entered yet. -/
structure Ready (s : Store) (budget : Nat) (st : CopyState) : Prop extends Copying s st where
  budget_lt : s.objects.size < budget + st.copies.length

theorem ready_nil {budget : Nat} (h : s.objects.size < budget) : Ready s budget ⟨s, []⟩ := by
  refine ⟨⟨.refl s, List.nodup_nil, by simp, by simp [CopyState.Has], by simp [CopyState.Has]⟩, ?_⟩
  simpa using h

theorem Ready.not_zero (h : Ready s 0 st) : False := by
  have hlength := h.length_le
  have hbudget := h.budget_lt
  omega

theorem Ready.of_grown {budget : Nat} (h : Ready s budget st) (hst' : Copying s st')
    (hgrown : Grown s st st') : Ready s budget st' := by
  refine ⟨hst', ?_⟩
  have hlength := hgrown.length_le
  have hbudget := h.budget_lt
  omega

/-- Entering a container pays for one unit of the budget. -/
theorem Ready.opens {budget : Nat} {st₁ : CopyState} (h : Ready s (budget + 1) st)
    (hopens : Opens st v w st₁) (hnone : st.copies.lookup v = none)
    (hv : s.IsContainer v) : Ready s budget st₁ := by
  refine ⟨h.toCopying.opens hopens hnone hv, ?_⟩
  have hbudget := h.budget_lt
  rw [hopens.copies, List.length_cons]
  omega

/-- A run of copying gives what stands for the value in the copy. Each container that is entered
uses one unit of the budget, and there is one for each container that has not been. -/
theorem deepCopyFrom_spec (budget : Nat) (v : Value) (st : CopyState) (hv : s.Grounded v)
    (hst : Ready s budget st) :
    Copying s (deepCopyFrom budget v st).2 ∧ Grown s st (deepCopyFrom budget v st).2 ∧
      Copied s (deepCopyFrom budget v st).2.store (deepCopyFrom budget v st).2.Has v
        (deepCopyFrom budget v st).1 := by
  induction budget generalizing v st with
  | zero => exact hst.not_zero.elim
  | succ budget ih =>
    have hsame := hst.store.sameAt hv.allocated
    have hcontainer := hst.isContainer_iff hv.allocated
    rw [deepCopyFrom_succ]
    split
    · next w hw =>
      exact ⟨hst.toCopying, .refl s st, .container (hst.isContainer_of_has hw) hw⟩
    · next hnone =>
      split
      · next h =>
        have hopens := opens_opened h
        have hparts : ∀ x ∈ st.store.parts v, s.Grounded x :=
          fun x hx => hst.grounded_of_mem_parts hv hx
        have hready := hst.opens hopens hnone (hcontainer.mp h)
        obtain ⟨hready₂, hgrown₂, hcopied₂⟩ := copyEach_spec (fun x st' hx hst' => by
          obtain ⟨hcopying, hgrown, hcopied⟩ := ih x st' hx hst'
          exact ⟨hst'.of_grown hcopying hgrown, hgrown, hcopied⟩) (st.store.parts v) hparts hready
        have hcloses := closes_closed h hgrown₂.store hcopied₂.length_eq.symm
        rw [hsame.shape?_eq] at hcloses
        obtain ⟨hgrown, hvw⟩ := grown_of_closes hopens hgrown₂ hcloses hnone
          (by rw [← hsame.parts_eq]; exact hcopied₂)
        refine ⟨hst.toCopying.closes hready₂.toCopying hcloses, hgrown, ?_⟩
        exact .container (hcontainer.mp h) hvw
      · next h => exact copyScalar_spec hst.toCopying hv.allocated fun h' => h (hcontainer.mpr h')

/-- No run of copying uses up a budget for all containers that are left. -/
theorem deepCopyFrom_add (budget extra : Nat) (v : Value) (st : CopyState) (hv : s.Grounded v)
    (hst : Ready s budget st) :
    deepCopyFrom (budget + extra) v st = deepCopyFrom budget v st := by
  induction budget generalizing v st with
  | zero => exact hst.not_zero.elim
  | succ budget ih =>
    rw [Nat.add_right_comm, deepCopyFrom_succ, deepCopyFrom_succ]
    split
    · rfl
    · next hnone =>
      split
      · next h =>
        have hready := hst.opens (opens_opened h) hnone ((hst.isContainer_iff hv.allocated).mp h)
        rw [copyEach_congr (fun x st' hx hst' => by
          obtain ⟨hcopying, hgrown, -⟩ := deepCopyFrom_spec budget x st' hx hst'
          exact ⟨ih x st' hx hst', hst'.of_grown hcopying hgrown⟩) (st.store.parts v) ?_ hready]
        exact fun x hx => hst.grounded_of_mem_parts hv hx
      · rfl

end Run

end Stencil.Value
