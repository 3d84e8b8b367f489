import Stencil.Proofs.Renaming.Basic
import Stencil.Proofs.Value.Copy

/-!
Stores up to the names of references. Two stores are alike under a renaming if it is one
to one, leads into both stores, and links the objects and tables of linked references.
Objects and tables that it does not link may be anything: nothing in the linked part
leads to them. Allocation links the new references, all changes of linked objects and
tables keep the stores alike, and so does copying. Identities are counted from where
the two stores were last restarted, so that linked values have the same.
-/

namespace Stencil

namespace Renaming

def addValue (r : Renaming) (v v' : Value) : Renaming :=
  { r with value := fun w w' => r.value w w' ∨ w = v ∧ w' = v' }

def addScope (r : Renaming) (id id' : ScopeId) : Renaming :=
  { r with scope := fun other other' => r.scope other other' ∨ other = id ∧ other' = id' }

variable {r : Renaming}

theorem le_addValue (v v' : Value) : r ≤ r.addValue v v' :=
  ⟨fun _ _ h => Or.inl h, fun _ _ h => h⟩

theorem le_addScope (id id' : ScopeId) : r ≤ r.addScope id id' :=
  ⟨fun _ _ h => h, fun _ _ h => Or.inl h⟩

theorem links_addValue (v v' : Value) : (r.addValue v v').Links v v' := Or.inr ⟨rfl, rfl⟩

theorem links_addScope (id id' : ScopeId) : (r.addScope id id').Links id id' := Or.inr ⟨rfl, rfl⟩

/-- The stores are alike where the renaming leads. -/
structure Stores (r : Renaming) (s s' : Store) : Prop where
  value_lt : ∀ {v v' : Value}, r.Links v v' →
    v.index < s.objects.size ∧ v'.index < s'.objects.size
  scope_lt : ∀ {id id' : ScopeId}, r.Links id id' →
    id.index < s.scopes.size ∧ id'.index < s'.scopes.size
  value_iff : ∀ {v v' w w' : Value}, r.Links v v' → r.Links w w' → (v = w ↔ v' = w')
  scope_iff : ∀ {id id' other other' : ScopeId}, r.Links id id' → r.Links other other' →
    (id = other ↔ id' = other')
  get : ∀ {v v' : Value}, r.Links v v' → r.Links (s.get v) (s'.get v')
  scope : ∀ {id id' : ScopeId}, r.Links id id' → r.Links (s.scope id) (s'.scope id')
  files : s'.files = s.files
  identity : ∀ {v v' : Value}, r.Links v v' → (v'.index - s'.first : Int) = v.index - s.first
  next : (s'.objects.size - s'.first : Int) = s.objects.size - s.first

namespace Stores

variable {s s' : Store} (h : r.Stores s s')

include h

/-- Linked values have the same number in alike stores. -/
theorem identity_eq {v v' : Value} (hv : r.Links v v') : s'.identity v' = s.identity v := by
  have hindex := h.identity hv
  unfold Store.identity
  congr 1
  omega

theorem lookup {id id' : ScopeId} (hid : r.Links id id') (name : String) :
    r.Links (s.lookup id name) (s'.lookup id' name) :=
  (h.scope hid).get? name

/-- A new object is linked with its counterpart. A pair of the renaming that results is an old
one or that of the two new values. -/
theorem alloc {object object' : Object} (hobject : r.Links object object') :
    ∃ r', r ≤ r' ∧ r'.Stores (s.alloc object).2 (s'.alloc object').2 ∧
      r'.Links (s.alloc object).1 (s'.alloc object').1 := by
  let v : Value := ⟨s.objects.size⟩
  let v' : Value := ⟨s'.objects.size⟩
  have hle : r ≤ r.addValue v v' := le_addValue v v'
  have hnew : ∀ {w w' : Value}, r.Links w w' → w ≠ v ∧ w' ≠ v' := by
    intro w w' hw
    obtain ⟨hlt, hlt'⟩ := h.value_lt hw
    exact ⟨fun heq => Nat.lt_irrefl _ (heq ▸ hlt), fun heq => Nat.lt_irrefl _ (heq ▸ hlt')⟩
  refine ⟨r.addValue v v', hle, ?_, links_addValue v v'⟩
  constructor
  case value_lt =>
    rw [Store.size_alloc, Store.size_alloc]
    rintro w w' (hw | ⟨rfl, rfl⟩)
    · have hlt := h.value_lt hw
      omega
    · exact ⟨Nat.lt_succ_self _, Nat.lt_succ_self _⟩
  case scope_lt => exact h.scope_lt
  case value_iff =>
    rintro w₁ w₁' w₂ w₂' (hw₁ | ⟨rfl, rfl⟩) (hw₂ | ⟨rfl, rfl⟩)
    · exact h.value_iff hw₁ hw₂
    · exact iff_of_false (hnew hw₁).1 (hnew hw₁).2
    · exact iff_of_false (hnew hw₂).1.symm (hnew hw₂).2.symm
    · exact iff_of_true rfl rfl
  case scope_iff => exact h.scope_iff
  case get =>
    rintro w w' (hw | ⟨rfl, rfl⟩)
    · obtain ⟨hlt, hlt'⟩ := h.value_lt hw
      rw [s.get_alloc_of_lt object hlt, s'.get_alloc_of_lt object' hlt']
      exact (h.get hw).mono hle
    · rw [s.get_alloc_self object, s'.get_alloc_self object']
      exact hobject.mono hle
  case scope => exact fun hid => (h.scope hid).mono hle
  case files => exact h.files
  case identity =>
    rintro w w' (hw | ⟨rfl, rfl⟩)
    · exact h.identity hw
    · exact h.next
  case next =>
    rw [Store.size_alloc, Store.size_alloc]
    have hnext := h.next
    change ((s'.objects.size + 1 : Nat) - s'.first : Int) = (s.objects.size + 1 : Nat) - s.first
    omega

/-- A new table is linked with its counterpart. -/
theorem newScope {names names' : Dict Value} (hnames : r.Links names names') :
    ∃ r', r ≤ r' ∧ r'.Stores (s.newScope names).2 (s'.newScope names').2 ∧
      r'.Links (s.newScope names).1 (s'.newScope names').1 := by
  let id : ScopeId := ⟨s.scopes.size⟩
  let id' : ScopeId := ⟨s'.scopes.size⟩
  have hle : r ≤ r.addScope id id' := le_addScope id id'
  have hnew : ∀ {other other' : ScopeId}, r.Links other other' → other ≠ id ∧ other' ≠ id' := by
    intro other other' hother
    obtain ⟨hlt, hlt'⟩ := h.scope_lt hother
    exact ⟨fun heq => Nat.lt_irrefl _ (heq ▸ hlt), fun heq => Nat.lt_irrefl _ (heq ▸ hlt')⟩
  refine ⟨r.addScope id id', hle, ?_, links_addScope id id'⟩
  constructor
  case value_lt => exact h.value_lt
  case scope_lt =>
    rw [Store.size_newScope, Store.size_newScope]
    rintro other other' (hother | ⟨rfl, rfl⟩)
    · have hlt := h.scope_lt hother
      omega
    · exact ⟨Nat.lt_succ_self _, Nat.lt_succ_self _⟩
  case value_iff => exact h.value_iff
  case scope_iff =>
    rintro o₁ o₁' o₂ o₂' (ho₁ | ⟨rfl, rfl⟩) (ho₂ | ⟨rfl, rfl⟩)
    · exact h.scope_iff ho₁ ho₂
    · exact iff_of_false (hnew ho₁).1 (hnew ho₁).2
    · exact iff_of_false (hnew ho₂).1.symm (hnew ho₂).2.symm
    · exact iff_of_true rfl rfl
  case get => exact fun hv => (h.get hv).mono hle
  case scope =>
    rintro other other' (hother | ⟨rfl, rfl⟩)
    · obtain ⟨hlt, hlt'⟩ := h.scope_lt hother
      rw [s.scope_newScope_of_lt names hlt, s'.scope_newScope_of_lt names' hlt']
      exact (h.scope hother).mono hle
    · have hself : ∀ (t : Store) (table : Dict Value),
          (t.newScope table).2.scope ⟨t.scopes.size⟩ = table := by
        intro t table
        simp [Store.scope, Store.newScope]
      rw [hself s names, hself s' names']
      exact hnames.mono hle
  case files => exact h.files
  case identity => exact h.identity
  case next => exact h.next

/-- Linked objects are changed in place. The renaming is one to one, so an object is the one that
is changed on both sides or on none. -/
theorem update {v v' : Value} (hv : r.Links v v') {f f' : Object → Object}
    (hf : ∀ {object object'}, r.Links object object' → r.Links (f object) (f' object')) :
    r.Stores (s.update v f) (s'.update v' f') := by
  obtain ⟨hlt, hlt'⟩ := h.value_lt hv
  have hself : ∀ {t : Store} {u : Value} (g : Object → Object), u.index < t.objects.size →
      (t.update u g).get u = g (t.get u) := by
    intro t u g hu
    simp [Store.get, Store.update, Array.getElem_modify, hu]
  constructor
  case value_lt =>
    rw [Store.size_update, Store.size_update]
    exact h.value_lt
  case scope_lt => exact h.scope_lt
  case value_iff => exact h.value_iff
  case scope_iff => exact h.scope_iff
  case get =>
    intro w w' hw
    by_cases heq : w = v
    · obtain rfl := heq
      obtain rfl : w' = v' := (h.value_iff hw hv).mp rfl
      rw [hself f hlt, hself f' hlt']
      exact hf (h.get hv)
    · have hne' : w' ≠ v' := fun heq' => heq ((h.value_iff hw hv).mpr heq')
      rw [s.get_update_of_ne heq f, s'.get_update_of_ne hne' f']
      exact h.get hw
  case scope => exact h.scope
  case files => exact h.files
  case identity => exact h.identity
  case next =>
    rw [Store.size_update, Store.size_update]
    exact h.next

/-- Linked tables are changed in place. -/
theorem updateScope {id id' : ScopeId} (hid : r.Links id id') {f f' : Dict Value → Dict Value}
    (hf : ∀ {table table'}, r.Links table table' → r.Links (f table) (f' table')) :
    r.Stores (s.updateScope id f) (s'.updateScope id' f') := by
  obtain ⟨hlt, hlt'⟩ := h.scope_lt hid
  have hself : ∀ {t : Store} {u : ScopeId} (g : Dict Value → Dict Value),
      u.index < t.scopes.size → (t.updateScope u g).scope u = g (t.scope u) := by
    intro t u g hu
    simp [Store.scope, Store.updateScope, Array.getElem_modify, hu]
  constructor
  case value_lt => exact h.value_lt
  case scope_lt =>
    rw [Store.size_updateScope, Store.size_updateScope]
    exact h.scope_lt
  case value_iff => exact h.value_iff
  case scope_iff => exact h.scope_iff
  case get => exact h.get
  case scope =>
    intro other other' hother
    by_cases heq : other = id
    · obtain rfl := heq
      obtain rfl : other' = id' := (h.scope_iff hother hid).mp rfl
      rw [hself f hlt, hself f' hlt']
      exact hf (h.scope hid)
    · have hne' : other' ≠ id' := fun heq' => heq ((h.scope_iff hother hid).mpr heq')
      rw [s.scope_updateScope_of_ne heq f, s'.scope_updateScope_of_ne hne' f']
      exact h.scope hother
  case files => exact h.files
  case identity => exact h.identity
  case next => exact h.next

theorem bindName {id id' : ScopeId} (hid : r.Links id id') (name : String) {v v' : Value}
    (hv : r.Links v v') : r.Stores (s.bindName id name v) (s'.bindName id' name v') :=
  h.updateScope hid fun htable => htable.insert name hv

theorem setFiles (files : FileTree) : r.Stores (s.setFiles files) (s'.setFiles files) :=
  { h with files := rfl }

/-! Reachability: what a linked value leads to is linked, so that nothing leads out of
the stores. -/

theorem parts {v v' : Value} (hv : r.Links v v') : r.Links (s.parts v) (s'.parts v') := by
  have hget := h.get hv
  unfold Store.parts
  generalize s.get v = object at hget
  generalize s'.get v' = object' at hget
  cases hget with
  | array hitems => exact hitems
  | dict hentries => exact hentries.values
  | «instance» _ hfields => exact (h.scope hfields).values
  | _ => exact links_nil

/-- Whatever can be reached from a linked value is linked with something. -/
theorem reaches_left {v v' w : Value} (hv : r.Links v v') (hreach : s.Reaches v w) :
    ∃ w', r.Links w w' := by
  induction hreach with
  | refl => exact ⟨v', hv⟩
  | tail _ hpart ih =>
    obtain ⟨u', hu⟩ := ih
    obtain ⟨i, hi⟩ := List.mem_iff_getElem?.mp hpart
    have hlinked := (h.parts hu).getElem? i
    rw [hi] at hlinked
    generalize (s'.parts u')[i]? = found' at hlinked
    cases hlinked with
    | some hw => exact ⟨_, hw⟩

theorem reaches_right {v v' w' : Value} (hv : r.Links v v') (hreach : s'.Reaches v' w') :
    ∃ w, r.Links w w' := by
  induction hreach with
  | refl => exact ⟨v, hv⟩
  | tail _ hpart ih =>
    obtain ⟨u, hu⟩ := ih
    obtain ⟨i, hi⟩ := List.mem_iff_getElem?.mp hpart
    have hlinked := (h.parts hu).getElem? i
    rw [hi] at hlinked
    generalize (s.parts u)[i]? = found at hlinked
    cases hlinked with
    | some hw => exact ⟨_, hw⟩

theorem allocated {v v' : Value} (hv : r.Links v v') : s.Allocated v ∧ s'.Allocated v' := by
  obtain ⟨hlt, hlt'⟩ := h.value_lt hv
  have hget := h.get hv
  refine ⟨⟨hlt, fun type fields heq => ?_⟩, ⟨hlt', fun type fields heq => ?_⟩⟩
  · rw [heq] at hget
    generalize s'.get v' = object' at hget
    cases hget with
    | «instance» _ hfields => exact (h.scope_lt hfields).1
  · rw [heq] at hget
    generalize s.get v = object at hget
    cases hget with
    | «instance» _ hfields => exact (h.scope_lt hfields).2

theorem grounded {v v' : Value} (hv : r.Links v v') : s.Grounded v ∧ s'.Grounded v' := by
  refine ⟨fun w hreach => ?_, fun w' hreach => ?_⟩
  · obtain ⟨w', hw⟩ := h.reaches_left hv hreach
    exact (h.allocated hw).1
  · obtain ⟨w, hw⟩ := h.reaches_right hv hreach
    exact (h.allocated hw).2

/-! Equality. -/

omit h

theorem pairing {left left' right right' : Object} (hleft : r.Links left left')
    (hright : r.Links right right') :
    r.Links (Value.pairing left right) (Value.pairing left' right') := by
  cases hleft with
  | array hxs =>
    cases hright with
    | array hys =>
      refine .some ⟨?_, Links.zip hxs (Links.map hys fun hy => .some hy)⟩
      change decide _ = decide _
      rw [hxs.size, hys.size]
    | _ => exact .none
  | dict hxs =>
    cases hright with
    | dict hys =>
      refine .some ⟨?_, hxs.toList.map fun hentry => ?_⟩
      · change decide _ = decide _
        rw [hxs.dictSize, hys.dictSize]
      · obtain ⟨key, x, x', rfl, rfl, hx⟩ := hentry.entry
        exact ⟨hx, hys.get? key⟩
    | _ => exact .none
  | _ => exact .none

theorem scalarEqual {left left' right right' : Object} (hleft : r.Links left left')
    (hright : r.Links right right') :
    Value.scalarEqual left' right' = Value.scalarEqual left right := by
  rcases hleft.eq_or with rfl | ⟨hcompound, hcompound'⟩
  · rcases hright.eq_or with rfl | ⟨hcompound, hcompound'⟩
    · rfl
    · rw [Object.scalarEqual_of_isCompound (Or.inr hcompound),
        Object.scalarEqual_of_isCompound (Or.inr hcompound')]
  · rw [Object.scalarEqual_of_isCompound (Or.inl hcompound),
      Object.scalarEqual_of_isCompound (Or.inl hcompound')]

include h

theorem mem_pairs {a a' b b' : Value} (ha : r.Links a a') (hb : r.Links b b')
    {seen seen' : Value.Pairs} (hseen : r.Links seen seen') : (a, b) ∈ seen ↔ (a', b') ∈ seen' := by
  induction hseen with
  | nil => simp only [List.not_mem_nil]
  | @cons pair pair' _ _ hpair _ ih =>
    obtain ⟨x, y⟩ := pair
    obtain ⟨x', y'⟩ := pair'
    have hhead : (a, b) = (x, y) ↔ (a', b') = (x', y') := by
      rw [Prod.mk.injEq, Prod.mk.injEq, h.value_iff ha hpair.1, h.value_iff hb hpair.2]
    rw [List.mem_cons, List.mem_cons, hhead, ih]

omit h in
theorem allEqual {equal equal' : Value.Pairs → Value → Value → Bool × Value.Pairs}
    (hequal : ∀ {seen seen' a a' b b'}, r.Links seen seen' → r.Links a a' → r.Links b b' →
      r.Links (equal seen a b) (equal' seen' a' b'))
    {items items' : List (Value × Option Value)} (hitems : r.Links items items')
    {seen seen' : Value.Pairs} (hseen : r.Links seen seen') :
    r.Links (Value.allEqual equal seen items) (Value.allEqual equal' seen' items') := by
  induction hitems generalizing seen seen' with
  | nil => exact ⟨rfl, hseen⟩
  | @cons item item' _ _ hitem _ ih =>
    obtain ⟨a, b⟩ := item
    obtain ⟨a', b'⟩ := item'
    obtain ⟨ha, hb⟩ : r.Links a a' ∧ r.Links b b' := hitem
    cases hb with
    | none => exact ⟨rfl, hseen⟩
    | @some b b' hb =>
      have hend := hequal hseen ha hb
      unfold Value.allEqual
      generalize equal seen a b = result at hend
      generalize equal' seen' a' b' = result' at hend
      obtain ⟨same, seen₁⟩ := result
      obtain ⟨same', seen₁'⟩ := result'
      obtain ⟨rfl, hseen₁⟩ : same = same' ∧ r.Links seen₁ seen₁' := hend
      cases same with
      | true => exact ih hseen₁
      | false => exact ⟨rfl, hseen₁⟩

/-- Equality gives linked answers on linked values. -/
theorem equalFrom (budget : Nat) {seen seen' : Value.Pairs} (hseen : r.Links seen seen')
    {a a' b b' : Value} (ha : r.Links a a') (hb : r.Links b b') :
    r.Links (Value.equalFrom s budget seen a b) (Value.equalFrom s' budget seen' a' b') := by
  induction budget generalizing seen seen' a a' b b' with
  | zero => exact ⟨rfl, hseen⟩
  | succ budget ih =>
    rw [Value.equalFrom_succ, Value.equalFrom_succ]
    simp only [h.value_iff ha hb]
    split
    · exact ⟨rfl, hseen⟩
    · have hpairing := pairing (h.get ha) (h.get hb)
      generalize Value.pairing (s.get a) (s.get b) = found at hpairing
      generalize Value.pairing (s'.get a') (s'.get b') = found' at hpairing
      cases hpairing with
      | none => exact ⟨(scalarEqual (h.get ha) (h.get hb)).symm, hseen⟩
      | @some pair pair' hpair =>
        obtain ⟨sameSize, items⟩ := pair
        obtain ⟨sameSize', items'⟩ := pair'
        obtain ⟨rfl, hitems⟩ : sameSize = sameSize' ∧ r.Links items items' := hpair
        simp only [h.mem_pairs ha hb hseen]
        split
        · exact ⟨rfl, hseen⟩
        · split
          · exact allEqual (fun hseen ha hb => ih hseen ha hb) hitems
              (links_cons ⟨ha, hb⟩ hseen)
          · exact ⟨rfl, hseen⟩

/-- A budget for both stores serves each of them. -/
theorem equal {a a' b b' : Value} (ha : r.Links a a') (hb : r.Links b b') :
    Value.equal s' a' b' = Value.equal s a b := by
  let budget := s.objects.size * s.objects.size + 1
  let budget' := s'.objects.size * s'.objects.size + 1
  have hleft : Value.equalFrom s (budget + budget') [] a b = Value.equalFrom s budget [] a b :=
    Value.equalFrom_add budget budget' a b (.nil (Nat.lt_succ_self _))
  have hright : Value.equalFrom s' (budget' + budget) [] a' b' =
      Value.equalFrom s' budget' [] a' b' :=
    Value.equalFrom_add budget' budget a' b' (.nil (Nat.lt_succ_self _))
  have hboth := (h.equalFrom (budget + budget') links_nil ha hb).1
  rw [hleft, Nat.add_comm, hright] at hboth
  exact hboth.symm

end Stores

/-! Copies. -/

structure CopyStates (r : Renaming) (st st' : Value.CopyState) : Prop where
  store : r.Stores st.store st'.store
  copies : r.Links st.copies st'.copies

namespace CopyStates

open Value

variable {st st' : CopyState} (h : r.CopyStates st st') {v v' : Value} (hv : r.Links v v')

include h hv

theorem lookup : r.Links (st.copies.lookup v) (st'.copies.lookup v') := by
  have hcopies := h.copies
  generalize st.copies = copies at hcopies
  generalize st'.copies = copies' at hcopies
  induction hcopies with
  | nil => exact .none
  | @cons pair pair' _ _ hpair _ ih =>
    obtain ⟨x, w⟩ := pair
    obtain ⟨x', w'⟩ := pair'
    obtain ⟨hx, hw⟩ : r.Links x x' ∧ r.Links w w' := hpair
    rw [Dict.lookup_cons_eq, Dict.lookup_cons_eq]
    simp only [h.store.value_iff hv hx]
    split
    · exact .some hw
    · exact ih

theorem enter {object object' : Object} (hobject : r.Links object object') :
    ∃ r', r ≤ r' ∧ r'.CopyStates (st.enter v object).2 (st'.enter v' object').2 ∧
      r'.Links (st.enter v object).1 (st'.enter v' object').1 := by
  obtain ⟨r', hle, hstore, hw⟩ := h.store.alloc hobject
  exact ⟨r', hle, ⟨hstore, links_cons ⟨hv.mono hle, hw⟩ (h.copies.mono hle)⟩, hw⟩

theorem fill {object object' : Object} (hobject : r.Links object object') :
    r.CopyStates (st.fill v object) (st'.fill v' object') :=
  ⟨h.store.update hv fun _ => hobject, h.copies⟩

theorem copyScalar :
    ∃ r', r ≤ r' ∧ r'.CopyStates (copyScalar v st).2 (copyScalar v' st').2 ∧
      r'.Links (copyScalar v st).1 (copyScalar v' st').1 := by
  have hget := h.store.get hv
  rw [copyScalar_eq, copyScalar_eq, hget.isScalar]
  split
  · obtain ⟨r', hle, hstore, hw⟩ := h.store.alloc hget
    exact ⟨r', hle, ⟨hstore, h.copies.mono hle⟩, hw⟩
  · exact ⟨r, le_refl r, h, hv⟩

omit hv

theorem copyEach {copyOne : Value → CopyState → Value × CopyState}
    (hone : ∀ {r : Renaming} {st st' : CopyState}, r.CopyStates st st' →
      ∀ {v v' : Value}, r.Links v v' → ∃ r', r ≤ r' ∧
        r'.CopyStates (copyOne v st).2 (copyOne v' st').2 ∧
        r'.Links (copyOne v st).1 (copyOne v' st').1)
    {vs vs' : List Value} (hvs : r.Links vs vs') :
    ∃ r', r ≤ r' ∧ r'.CopyStates (copyEach copyOne vs st).2 (copyEach copyOne vs' st').2 ∧
      r'.Links (copyEach copyOne vs st).1 (copyEach copyOne vs' st').1 := by
  induction vs generalizing r st st' vs' with
  | nil =>
    cases hvs
    exact ⟨r, le_refl r, h, links_nil⟩
  | cons v rest ih =>
    cases hvs with
    | cons hv hrest =>
      obtain ⟨r₁, hle₁, hst₁, hw⟩ := hone h hv
      obtain ⟨r₂, hle₂, hst₂, hws⟩ := ih hst₁ (Links.mono hrest hle₁)
      exact ⟨r₂, le_trans hle₁ hle₂, hst₂, links_cons (hw.mono hle₂) hws⟩

theorem copyTable {copyOne : Value → CopyState → Value × CopyState}
    (hone : ∀ {r : Renaming} {st st' : CopyState}, r.CopyStates st st' →
      ∀ {v v' : Value}, r.Links v v' → ∃ r', r ≤ r' ∧
        r'.CopyStates (copyOne v st).2 (copyOne v' st').2 ∧
        r'.Links (copyOne v st).1 (copyOne v' st').1)
    {table table' : Dict Value} (htable : r.Links table table') :
    ∃ r', r ≤ r' ∧ r'.CopyStates (copyTable copyOne table st).2 (copyTable copyOne table' st').2 ∧
      r'.Links (copyTable copyOne table st).1 (copyTable copyOne table' st').1 := by
  obtain ⟨r', hle, hst, hws⟩ := h.copyEach hone htable.values
  refine ⟨r', hle, hst, ?_⟩
  change r'.Links (Dict.ofList _) (Dict.ofList _)
  rw [htable.keys]
  exact links_ofList ((links_strings _).zip hws)

/-- Linked values are copied alike, with a renaming that each copy extends. -/
theorem deepCopyFrom (budget : Nat) {v v' : Value} (hv : r.Links v v') :
    ∃ r', r ≤ r' ∧ r'.CopyStates (deepCopyFrom budget v st).2 (deepCopyFrom budget v' st').2 ∧
      r'.Links (deepCopyFrom budget v st).1 (deepCopyFrom budget v' st').1 := by
  induction budget generalizing r st st' v v' with
  | zero => exact ⟨r, le_refl r, h, hv⟩
  | succ budget ih =>
    rw [Value.deepCopyFrom, Value.deepCopyFrom]
    have hfound := h.lookup hv
    generalize st.copies.lookup v = found at hfound
    generalize st'.copies.lookup v' = found' at hfound
    cases hfound with
    | some hw => exact ⟨r, le_refl r, h, hw⟩
    | none =>
      have hget := h.store.get hv
      have hscalar := h.copyScalar hv
      generalize st.store.get v = object at hget
      generalize st'.store.get v' = object' at hget
      cases hget with
      | array hitems =>
        obtain ⟨r₁, hle₁, hst₁, hw⟩ := h.enter hv (.array links_nil)
        obtain ⟨r₂, hle₂, hst₂, hws⟩ := hst₁.copyEach ih (Links.mono hitems hle₁)
        have hw₂ := hw.mono hle₂
        exact ⟨r₂, le_trans hle₁ hle₂, hst₂.fill hw₂ (.array (links_toArray hws)), hw₂⟩
      | dict hentries =>
        obtain ⟨r₁, hle₁, hst₁, hw⟩ := h.enter hv (.dict links_empty)
        obtain ⟨r₂, hle₂, hst₂, htable⟩ := hst₁.copyTable ih (hentries.mono hle₁)
        have hw₂ := hw.mono hle₂
        exact ⟨r₂, le_trans hle₁ hle₂, hst₂.fill hw₂ (.dict htable), hw₂⟩
      | «instance» htype hfields =>
        obtain ⟨r₁, hle₁, hstore₁, hown⟩ := h.store.newScope links_empty
        have hst₁ : r₁.CopyStates { st with store := _ } { st' with store := _ } :=
          ⟨hstore₁, h.copies.mono hle₁⟩
        obtain ⟨r₂, hle₂, hst₂, hw⟩ := hst₁.enter (hv.mono hle₁)
          (.instance (htype.mono hle₁) hown)
        obtain ⟨r₃, hle₃, hst₃, htable⟩ := hst₂.copyTable ih
          (hst₂.store.scope (hfields.mono (le_trans hle₁ hle₂)))
        have hown₃ := hown.mono (le_trans hle₂ hle₃)
        exact ⟨r₃, le_trans hle₁ (le_trans hle₂ hle₃),
          ⟨hst₃.store.updateScope hown₃ fun _ => htable, hst₃.copies⟩, hw.mono hle₃⟩
      | _ => exact hscalar

end CopyStates

/-- A budget for both stores serves each of them, since nothing leads out of them. -/
theorem Stores.deepCopy {s s' : Store} (h : r.Stores s s') {v v' : Value} (hv : r.Links v v') :
    ∃ r' w w' t t', r ≤ r' ∧ r'.Stores t t' ∧ r'.Links w w' ∧
      Value.deepCopy v s = (.ok w, t) ∧ Value.deepCopy v' s' = (.ok w', t') := by
  have hstart : r.CopyStates ⟨s, []⟩ ⟨s', []⟩ := ⟨h, links_nil⟩
  obtain ⟨hgrounded, hgrounded'⟩ := h.grounded hv
  let budget := s.objects.size + 1
  let budget' := s'.objects.size + 1
  have hleft : Value.deepCopyFrom (budget + budget') v ⟨s, []⟩ =
      Value.deepCopyFrom budget v ⟨s, []⟩ :=
    Value.deepCopyFrom_add budget budget' v _ hgrounded (Value.ready_nil (Nat.lt_succ_self _))
  have hright : Value.deepCopyFrom (budget' + budget) v' ⟨s', []⟩ =
      Value.deepCopyFrom budget' v' ⟨s', []⟩ :=
    Value.deepCopyFrom_add budget' budget v' _ hgrounded' (Value.ready_nil (Nat.lt_succ_self _))
  obtain ⟨r', hle, hst, hw⟩ := hstart.deepCopyFrom (budget + budget') hv
  rw [hleft, Nat.add_comm, hright] at hst hw
  exact ⟨r', _, _, _, _, hle, hst.store, hw, rfl, rfl⟩

end Renaming

end Stencil
