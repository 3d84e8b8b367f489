import Stencil.Proofs.Value.Copy

/-!
Tables of attributes. Objects change in place only by what they hold: an array, a dict
and a file stay what they are, and all else stays the same. Whatever makes an object
with a table makes the table along with it. So as a store grows, each table of a new
object is new, and no two of the objects share one.
-/

namespace Stencil

def Object.outline : Object → Object
  | .array _ => .array #[]
  | .dict _ => .dict .empty
  | .file path _ => .file path none
  | object => object

theorem Object.namespace?_outline (object : Object) :
    object.outline.namespace? = object.namespace? := by
  cases object with
  | _ => rfl

theorem Object.eq_function_of_outline {object : Object} {f : Function}
    (h : object.outline = .function f) : object = .function f := by
  cases object with
  | function g => exact h
  | _ => cases h

namespace Store

def namespace? (s : Store) (v : Value) : Option ScopeId := (s.get v).namespace?

/-- Every table of attributes is one of the store, and belongs to one object only. -/
structure Tidy (s : Store) : Prop where
  bounded : ∀ v id, s.namespace? v = some id → id.index < s.scopes.size
  distinct : ∀ v w id, s.namespace? v = some id → s.namespace? w = some id → v = w

structure Free (s : Store) (id : ScopeId) : Prop where
  index_lt : id.index < s.scopes.size
  unowned : ∀ v, s.namespace? v ≠ some id

/-- The second store comes from the first. What was there has kept its outline, tables have
only got longer, and the tables of new objects are new, each of them for one object. -/
structure Grows (s s' : Store) : Prop where
  objects_le : s.objects.size ≤ s'.objects.size
  scopes_le : s.scopes.size ≤ s'.scopes.size
  outline_eq : ∀ v : Value, v.index < s.objects.size → (s'.get v).outline = (s.get v).outline
  /-- No name is taken away, and new ones come after those that are there. -/
  keys_prefix : ∀ id, (s.scope id).keys <+: (s'.scope id).keys
  newer : ∀ (v : Value) id, s.objects.size ≤ v.index → s'.namespace? v = some id →
    s.scopes.size ≤ id.index ∧ id.index < s'.scopes.size
  apart : ∀ (v w : Value) id, s.objects.size ≤ v.index → s.objects.size ≤ w.index →
    s'.namespace? v = some id → s'.namespace? w = some id → v = w

variable {s s' s'' : Store}

theorem lt_size_of_namespace? {v : Value} {id : ScopeId} (h : s.namespace? v = some id) :
    v.index < s.objects.size := by
  refine lt_size_of_get_ne_nil fun hnil => ?_
  rw [namespace?, hnil] at h
  cases h

theorem tidy_ofFiles (files : FileTree) : (ofFiles files).Tidy := by
  have hnone : ∀ v, (ofFiles files).namespace? v = none := fun v => by
    simp [namespace?, get, ofFiles, Object.namespace?]
  constructor
  · intro v id hid
    rw [hnone] at hid
    cases hid
  · intro v w id hid _
    rw [hnone] at hid
    cases hid

theorem Grows.namespace?_eq (h : s.Grows s') {v : Value} (hv : v.index < s.objects.size) :
    s'.namespace? v = s.namespace? v := by
  rw [namespace?, ← Object.namespace?_outline, h.outline_eq v hv, Object.namespace?_outline]
  rfl

theorem Grows.get_function (h : s.Grows s') {v : Value} {f : Function}
    (hget : s.get v = .function f) : s'.get v = .function f := by
  have hv : v.index < s.objects.size := lt_size_of_get_ne_nil (by rw [hget]; nofun)
  refine Object.eq_function_of_outline ?_
  rw [h.outline_eq v hv, hget]
  rfl

theorem Grows.of_objects_eq (hobjects : s'.objects = s.objects)
    (hscopes : s.scopes.size ≤ s'.scopes.size)
    (hkeys : ∀ id, (s.scope id).keys <+: (s'.scope id).keys) : s.Grows s' := by
  have hget : ∀ v, s'.get v = s.get v := fun v => by rw [get, get, hobjects]
  have hsame : ∀ v, s'.namespace? v = s.namespace? v := fun v => by rw [namespace?, hget]; rfl
  refine ⟨Nat.le_of_eq (by rw [hobjects]), hscopes, fun v _ => by rw [hget], hkeys, ?_, ?_⟩
  · intro v id hv hid
    rw [hsame] at hid
    exact absurd (lt_size_of_namespace? hid) (Nat.not_lt.mpr hv)
  · intro v w id hv _ hid _
    rw [hsame] at hid
    exact absurd (lt_size_of_namespace? hid) (Nat.not_lt.mpr hv)

theorem Grows.refl (s : Store) : s.Grows s :=
  .of_objects_eq rfl (Nat.le_refl _) fun _ => List.prefix_rfl

/-- Tables and their owners that are kept in two steps are kept. -/
theorem Grows.trans (h : s.Grows s') (h' : s'.Grows s'') : s.Grows s'' where
  objects_le := Nat.le_trans h.objects_le h'.objects_le
  scopes_le := Nat.le_trans h.scopes_le h'.scopes_le
  outline_eq v hv :=
    (h'.outline_eq v (Nat.lt_of_lt_of_le hv h.objects_le)).trans (h.outline_eq v hv)
  keys_prefix id := (h.keys_prefix id).trans (h'.keys_prefix id)
  newer v id hv hid := by
    by_cases hlt : v.index < s'.objects.size
    · rw [h'.namespace?_eq hlt] at hid
      obtain ⟨hge, hbound⟩ := h.newer v id hv hid
      exact ⟨hge, Nat.lt_of_lt_of_le hbound h'.scopes_le⟩
    · obtain ⟨hge, hbound⟩ := h'.newer v id (Nat.not_lt.mp hlt) hid
      exact ⟨Nat.le_trans h.scopes_le hge, hbound⟩
  apart v w id hv hw hid hid' := by
    have hmixed : ∀ {x y : Value}, s.objects.size ≤ x.index → x.index < s'.objects.size →
        s'.objects.size ≤ y.index → s''.namespace? x = some id → s''.namespace? y ≠ some id := by
      intro x y hx hlt hy hxid hyid
      rw [h'.namespace?_eq hlt] at hxid
      exact absurd (h.newer x id hx hxid).2 (Nat.not_lt.mpr (h'.newer y id hy hyid).1)
    by_cases hlt : v.index < s'.objects.size
    · by_cases hlt' : w.index < s'.objects.size
      · rw [h'.namespace?_eq hlt] at hid
        rw [h'.namespace?_eq hlt'] at hid'
        exact h.apart v w id hv hw hid hid'
      · exact absurd hid' (hmixed hv hlt (Nat.not_lt.mp hlt') hid)
    · by_cases hlt' : w.index < s'.objects.size
      · exact absurd hid (hmixed hw hlt' (Nat.not_lt.mp hlt) hid')
      · exact h'.apart v w id (Nat.not_lt.mp hlt) (Nat.not_lt.mp hlt') hid hid'

/-- Tables stay with one owner as the store grows. -/
theorem Tidy.grows (hs : s.Tidy) (h : s.Grows s') : s'.Tidy where
  bounded v id hid := by
    by_cases hlt : v.index < s.objects.size
    · rw [h.namespace?_eq hlt] at hid
      exact Nat.lt_of_lt_of_le (hs.bounded v id hid) h.scopes_le
    · exact (h.newer v id (Nat.not_lt.mp hlt) hid).2
  distinct v w id hid hid' := by
    have hmixed : ∀ {x y : Value}, x.index < s.objects.size → s.objects.size ≤ y.index →
        s'.namespace? x = some id → s'.namespace? y ≠ some id := by
      intro x y hx hy hxid hyid
      rw [h.namespace?_eq hx] at hxid
      exact absurd (hs.bounded x id hxid) (Nat.not_lt.mpr (h.newer y id hy hyid).1)
    by_cases hlt : v.index < s.objects.size
    · by_cases hlt' : w.index < s.objects.size
      · rw [h.namespace?_eq hlt] at hid
        rw [h.namespace?_eq hlt'] at hid'
        exact hs.distinct v w id hid hid'
      · exact absurd hid' (hmixed hlt (Nat.not_lt.mp hlt') hid)
    · by_cases hlt' : w.index < s.objects.size
      · exact absurd hid (hmixed hlt' (Nat.not_lt.mp hlt) hid')
      · exact h.apart v w id (Nat.not_lt.mp hlt) (Nat.not_lt.mp hlt') hid hid'

theorem Free.grows {id : ScopeId} (hid : s.Free id) (h : s.Grows s') : s'.Free id where
  index_lt := Nat.lt_of_lt_of_le hid.index_lt h.scopes_le
  unowned v hv := by
    by_cases hlt : v.index < s.objects.size
    · exact hid.unowned v ((h.namespace?_eq hlt).symm.trans hv)
    · exact absurd hid.index_lt (Nat.not_lt.mpr (h.newer v id (Nat.not_lt.mp hlt) hv).1)

/-- A new table belongs to no object yet. -/
theorem Tidy.free_newScope (hs : s.Tidy) (names : Dict Value) :
    (s.newScope names).2.Free (s.newScope names).1 where
  index_lt := by
    rw [size_newScope]
    exact Nat.lt_succ_self _
  unowned v hv := Nat.lt_irrefl _ (hs.bounded v ⟨s.scopes.size⟩ hv)

/-! What happens to a store. -/

theorem grows_newScope (s : Store) (names : Dict Value) : s.Grows (s.newScope names).2 := by
  refine .of_objects_eq rfl (by rw [size_newScope]; exact Nat.le_succ _) fun id => ?_
  by_cases hlt : id.index < s.scopes.size
  · have hsame := s.scope_newScope_of_lt names hlt
    simp only [hsame, List.prefix_rfl]
  · rw [s.scope_of_size_le (Nat.not_lt.mp hlt)]
    exact List.nil_prefix

/-- A table that has only got longer, or one that the earlier store did not have. -/
theorem Grows.updateScope (h : s.Grows s') {id : ScopeId} {f : Dict Value → Dict Value}
    (hf : s.scopes.size ≤ id.index ∨ ∀ table, table.keys <+: (f table).keys) :
    s.Grows (s'.updateScope id f) where
  objects_le := h.objects_le
  scopes_le := by
    rw [size_updateScope]
    exact h.scopes_le
  outline_eq := h.outline_eq
  keys_prefix other := by
    rcases s'.scope_updateScope_cases id other f with hsame | ⟨rfl, hnew⟩
    · rw [hsame]
      exact h.keys_prefix other
    · rcases hf with hlater | hlonger
      · rw [s.scope_of_size_le hlater]
        exact List.nil_prefix
      · rw [hnew]
        exact (h.keys_prefix other).trans (hlonger _)
  newer v id hv hid := by
    rw [size_updateScope]
    exact h.newer v id hv hid
  apart := h.apart

theorem grows_updateScope (s : Store) (id : ScopeId) {f : Dict Value → Dict Value}
    (hf : ∀ table, table.keys <+: (f table).keys) : s.Grows (s.updateScope id f) :=
  (Grows.refl s).updateScope (Or.inr hf)

theorem grows_bindName (s : Store) (id : ScopeId) (name : String) (v : Value) :
    s.Grows (s.bindName id name v) :=
  s.grows_updateScope id fun table => table.keys_prefix_insert name v

theorem grows_setFiles (s : Store) (files : FileTree) : s.Grows (s.setFiles files) :=
  .of_objects_eq rfl (Nat.le_refl _) fun _ => List.prefix_rfl

/-- Only the new object is new. -/
theorem get_alloc_cases (s : Store) (object : Object) (v : Value) :
    (v = ⟨s.objects.size⟩ ∧ (s.alloc object).2.get v = object) ∨
      (s.alloc object).2.get v = s.get v := by
  by_cases hlt : v.index < s.objects.size
  · exact Or.inr (s.get_alloc_of_lt object hlt)
  · by_cases heq : v.index = s.objects.size
    · left
      obtain ⟨index⟩ := v
      obtain rfl : index = s.objects.size := heq
      exact ⟨rfl, s.get_alloc_self object⟩
    · right
      have hge : s.objects.size ≤ v.index := Nat.not_lt.mp hlt
      simp [get, alloc, Array.getElem?_push, heq, hge]

theorem outline_alloc {object : Object} {v : Value} (hv : v.index < s.objects.size) :
    ((s.alloc object).2.get v).outline = (s.get v).outline := by
  rw [s.get_alloc_of_lt object hv]

theorem grows_alloc (s : Store) {object : Object} (h : object.namespace? = none) :
    s.Grows (s.alloc object).2 := by
  have hnone : ∀ v : Value, s.objects.size ≤ v.index → (s.alloc object).2.namespace? v = none := by
    intro v hv
    unfold namespace?
    rcases s.get_alloc_cases object v with ⟨-, hget⟩ | hget
    · rw [hget, h]
    · rw [hget]
      by_contra hsome
      obtain ⟨id, hid⟩ := Option.ne_none_iff_exists'.mp hsome
      exact absurd (lt_size_of_namespace? hid) (Nat.not_lt.mpr hv)
  refine ⟨by rw [size_alloc]; exact Nat.le_succ _, Nat.le_refl _, fun v => outline_alloc,
    fun _ => List.prefix_rfl, ?_, ?_⟩
  · intro v id hv hid
    rw [hnone v hv] at hid
    cases hid
  · intro v w id hv _ hid _
    rw [hnone v hv] at hid
    cases hid

/-- A table is made, and after other things have happened an object that has it. Until then no
object has it, so the owner is the only one. -/
theorem Grows.alloc_owner {names : Dict Value} (h : (s.newScope names).2.Grows s')
    {object : Object} (hobject : object.namespace? = some (s.newScope names).1) :
    s.Grows (s'.alloc object).2 := by
  have hs := (s.grows_newScope names).trans h
  have hbound : s.scopes.size < s'.scopes.size := by
    have hle := h.scopes_le
    rwa [size_newScope] at hle
  have hfree : ∀ v : Value, s.objects.size ≤ v.index →
      s'.namespace? v ≠ some (s.newScope names).1 := by
    intro v hv hid
    have hge := (h.newer v _ hv hid).1
    rw [size_newScope] at hge
    exact Nat.not_succ_le_self _ hge
  have hcases : ∀ (v : Value) id, s.objects.size ≤ v.index →
      (s'.alloc object).2.namespace? v = some id →
      v = ⟨s'.objects.size⟩ ∧ id = (s.newScope names).1 ∨ s'.namespace? v = some id := by
    intro v id _ hid
    unfold namespace? at hid
    rcases s'.get_alloc_cases object v with ⟨hv, hget⟩ | hget
    · rw [hget, hobject] at hid
      exact Or.inl ⟨hv, (Option.some.inj hid).symm⟩
    · rw [hget] at hid
      exact Or.inr hid
  refine ⟨?_, hs.scopes_le, ?_, hs.keys_prefix, ?_, ?_⟩
  · rw [size_alloc]
    exact Nat.le_succ_of_le hs.objects_le
  · intro v hv
    rw [outline_alloc (Nat.lt_of_lt_of_le hv hs.objects_le)]
    exact hs.outline_eq v hv
  · intro v id hv hid
    rcases hcases v id hv hid with ⟨-, rfl⟩ | hid
    · exact ⟨Nat.le_refl _, hbound⟩
    · exact hs.newer v id hv hid
  · intro v w id hv hw hid hid'
    rcases hcases v id hv hid with ⟨rfl, rfl⟩ | hid
    · rcases hcases w _ hw hid' with ⟨rfl, -⟩ | hid'
      · rfl
      · exact absurd hid' (hfree w hw)
    · rcases hcases w id hw hid' with ⟨rfl, rfl⟩ | hid'
      · exact absurd hid (hfree v hv)
      · exact hs.apart v w id hv hw hid hid'

theorem grows_update (s : Store) (v : Value) {f : Object → Object}
    (hf : (f (s.get v)).outline = (s.get v).outline) : s.Grows (s.update v f) := by
  have houtline : ∀ w, ((s.update v f).get w).outline = (s.get w).outline := by
    intro w
    by_cases hne : w = v
    · subst hne
      by_cases hlt : w.index < s.objects.size
      · have hget : (s.update w f).get w = f (s.get w) := by
          simp [get, update, Array.getElem_modify, hlt]
        rw [hget, hf]
      · have hget : (s.update w f).get w = s.get w := by simp [get, update, hlt]
        rw [hget]
    · rw [s.get_update_of_ne hne]
  have hsame : ∀ w, (s.update v f).namespace? w = s.namespace? w := fun w => by
    rw [namespace?, ← Object.namespace?_outline, houtline, Object.namespace?_outline]
    rfl
  refine ⟨Nat.le_of_eq (s.size_update v f).symm, Nat.le_refl _, fun w _ => houtline w,
    fun _ => List.prefix_rfl, ?_, ?_⟩
  · intro w id hw hid
    rw [hsame] at hid
    exact absurd (lt_size_of_namespace? hid) (Nat.not_lt.mpr hw)
  · intro w x id hw _ hid _
    rw [hsame] at hid
    exact absurd (lt_size_of_namespace? hid) (Nat.not_lt.mpr hw)

end Store

/-! Copies. -/

namespace Value

theorem grows_copyEach {copyOne : Value → CopyState → Value × CopyState}
    (hone : ∀ v (st : CopyState), st.store.Grows (copyOne v st).2.store) (vs : List Value)
    (st : CopyState) : st.store.Grows (copyEach copyOne vs st).2.store := by
  induction vs generalizing st with
  | nil => exact .refl _
  | cons v rest ih => exact (hone v st).trans (ih _)

theorem grows_opened (st : CopyState) (v : Value) : st.store.Grows (st.opened v).store := by
  unfold CopyState.opened
  split
  · exact st.store.grows_alloc rfl
  · exact st.store.grows_alloc rfl
  · exact (Store.Grows.refl (st.store.newScope .empty).2).alloc_owner rfl
  · exact .refl _

/-- The copy that is filled is the empty one that was opened. -/
theorem grows_closed {st st₂ : CopyState} {v : Value} (h : (st.opened v).store.Grows st₂.store)
    (ws : List Value) : st.store.Grows (st.closed v ws st₂).store := by
  have hcopied := (grows_opened st v).trans h
  have hfill : ∀ empty object : Object, (st.opened v).store = (st.store.alloc empty).2 →
      object.outline = empty.outline →
      st.store.Grows (st₂.fill ⟨st.store.objects.size⟩ object).store := by
    intro empty object hopened houtline
    rw [hopened] at h
    refine hcopied.trans (st₂.store.grows_update _ ?_)
    rw [h.outline_eq ⟨st.store.objects.size⟩ (by rw [Store.size_alloc]; exact Nat.lt_succ_self _),
      st.store.get_alloc_self]
    exact houtline
  unfold CopyState.closed
  split
  · next items hget =>
    exact hfill (.array #[]) _ (by simp only [CopyState.opened, hget, CopyState.enter]) rfl
  · next entries hget =>
    exact hfill (.dict .empty) _ (by simp only [CopyState.opened, hget, CopyState.enter]) rfl
  · exact hcopied.updateScope (Or.inl (Nat.le_refl _))
  · exact hcopied

theorem grows_copyScalar (v : Value) (st : CopyState) :
    st.store.Grows (copyScalar v st).2.store := by
  unfold copyScalar
  split
  · next hget => exact st.store.grows_alloc (by rw [hget]; rfl)
  · next hget => exact st.store.grows_alloc (by rw [hget]; rfl)
  · next hget => exact st.store.grows_alloc (by rw [hget]; rfl)
  · next hget => exact st.store.grows_alloc (by rw [hget]; rfl)
  · next hget => exact st.store.grows_alloc (by rw [hget]; rfl)
  · exact .refl _

/-- The copy of an instance gets a table of its own. -/
theorem grows_deepCopyFrom (budget : Nat) (v : Value) (st : CopyState) :
    st.store.Grows (deepCopyFrom budget v st).2.store := by
  induction budget generalizing v st with
  | zero => exact .refl _
  | succ budget ih =>
    rw [deepCopyFrom_succ]
    split
    · exact .refl _
    · split
      · have hparts := grows_copyEach ih (st.store.parts v) (st.opened v)
        exact grows_closed hparts _
      · exact grows_copyScalar v st

end Value

end Stencil
