import Stencil.Proofs.Scope.Policy
import Stencil.Proofs.Value.Copy

/-!
Actions that honour a policy. What an action is put together from refers to tables
through objects only, which the policy admits, or makes a new table. Copying is
one such action: the copy of an instance has a table of its own, which is filled
after its parts have been copied.
-/

namespace Stencil

namespace Policy

variable {mode : Mode} {p : Policy mode} {α β : Type}

/-- The action does the same on both stores and leaves them alike. -/
structure Honours (p : Policy mode) (x : Action α) (s₁ s₂ : Store) (post : α → Store → Prop) :
    Prop where
  result : (x s₂).1 = (x s₁).1
  alike : p.AlikeStores (x s₁).2 (x s₂).2
  keeps : p.KeepsStore s₁ (x s₁).2
  post : ∀ a, (x s₁).1 = .ok a → post a (x s₁).2

def Honoured (p : Policy mode) (x : Action α) : Prop :=
  ∀ s₁ s₂, p.AlikeStores s₁ s₂ → p.Honours x s₁ s₂ fun _ _ => True

/-- A sequence honours the policy if its parts do. The second part may rely on what the first has
left. -/
theorem Honours.bind {x : Action α} {f : α → Action β} {s₁ s₂ : Store}
    {post : α → Store → Prop} {post' : β → Store → Prop} (hx : p.Honours x s₁ s₂ post)
    (hf : ∀ a s₁' s₂', p.AlikeStores s₁' s₂' → p.KeepsStore s₁ s₁' → post a s₁' →
      p.Honours (f a) s₁' s₂' post') :
    p.Honours (x >>= f) s₁ s₂ post' := by
  obtain ⟨hresult, halike, hkeeps, hpost⟩ := hx
  have hbind : ∀ s, (x >>= f) s = Action.bind x f s := fun _ => rfl
  generalize hleft : x s₁ = left at hresult halike hkeeps hpost
  generalize hright : x s₂ = right at hresult halike
  obtain ⟨r, t₁⟩ := left
  obtain ⟨r', t₂⟩ := right
  obtain rfl : r' = r := hresult
  cases r' with
  | error fault =>
    constructor
    · simp only [hbind, Action.bind, hleft, hright]
    · simpa only [hbind, Action.bind, hleft, hright] using halike
    · simpa only [hbind, Action.bind, hleft] using hkeeps
    · simp [hbind, Action.bind, hleft]
  | ok a =>
    have hnext := hf a t₁ t₂ halike hkeeps (hpost a rfl)
    constructor
    · simpa only [hbind, Action.bind, hleft, hright] using hnext.result
    · simpa only [hbind, Action.bind, hleft, hright] using hnext.alike
    · simpa only [hbind, Action.bind, hleft] using hkeeps.trans hnext.keeps
    · simpa only [hbind, Action.bind, hleft] using hnext.post

theorem Honoured.bind {x : Action α} {f : α → Action β} (hx : p.Honoured x)
    (hf : ∀ a, p.Honoured (f a)) : p.Honoured (x >>= f) :=
  fun s₁ s₂ h => (hx s₁ s₂ h).bind fun a s₁' s₂' h' _ _ => hf a s₁' s₂' h'

theorem honoured_pure (a : α) : p.Honoured (pure a) :=
  fun s₁ _ h => ⟨rfl, h, .refl s₁, fun _ _ => trivial⟩

theorem honoured_fail (fault : Fault) : p.Honoured (Action.fail fault : Action α) :=
  fun s₁ _ h => ⟨rfl, h, .refl s₁, fun _ _ => trivial⟩

theorem honours_ofExcept {s₁ s₂ : Store} (h : p.AlikeStores s₁ s₂) (x : Except Fault α) :
    p.Honours (Action.ofExcept x) s₁ s₂ fun a _ => x = .ok a :=
  ⟨rfl, h, .refl s₁, fun _ hx => hx⟩

theorem honoured_ofExcept (x : Except Fault α) : p.Honoured (Action.ofExcept x) :=
  fun s₁ _ h => ⟨rfl, h, .refl s₁, fun _ _ => trivial⟩

/-- What is loaded is admitted. -/
theorem honours_load {s₁ s₂ : Store} (h : p.AlikeStores s₁ s₂) (v : Value) :
    p.Honours (Action.load v) s₁ s₂ fun object s => p.Admits s.scopes.size object where
  result := congrArg Except.ok (h.get v)
  alike := h
  keeps := .refl s₁
  post object hobject := by
    obtain rfl := Except.ok.inj hobject
    exact h.admits v

theorem honoured_load (v : Value) : p.Honoured (Action.load v) :=
  fun s₁ _ h => ⟨congrArg Except.ok (h.get v), h, .refl s₁, fun _ _ => trivial⟩

theorem honoured_read {f : Store → α}
    (hf : ∀ s₁ s₂, p.AlikeStores s₁ s₂ → f s₂ = f s₁) : p.Honoured (Action.read f) :=
  fun s₁ s₂ h => ⟨congrArg Except.ok (hf s₁ s₂ h), h, .refl s₁, fun _ _ => trivial⟩

/-- A new object must be admitted. -/
theorem honours_make {s₁ s₂ : Store} (h : p.AlikeStores s₁ s₂) {object : Object}
    (hobject : p.Admits s₁.scopes.size object) :
    p.Honours (Action.make object) s₁ s₂ fun _ _ => True where
  result := congrArg Except.ok (h.alloc_value object)
  alike := h.alloc hobject
  keeps := keepsStore_alloc s₁ object
  post _ _ := trivial

theorem honoured_make {object : Object} (hobject : object.isData = true) :
    p.Honoured (Action.make object) :=
  fun _ _ h => honours_make h (admits_data hobject)

theorem honoured_nil : p.Honoured Action.nil := honoured_make rfl

theorem honoured_update (v : Value) {f : Object → Object}
    (hf : ∀ n object, p.Admits n object → p.Admits n (f object)) :
    p.Honoured (Action.update v f) :=
  fun _ _ h =>
    ⟨rfl, h.update v (hf _), ⟨Nat.le_refl _, fun _ _ => rfl⟩, fun _ _ => trivial⟩

theorem honoured_setFiles (files : FileTree) :
    p.Honoured (Action.modify (·.setFiles files)) :=
  fun _ _ h => ⟨rfl, h.setFiles files, ⟨Nat.le_refl _, fun _ _ => rfl⟩, fun _ _ => trivial⟩

/-- A new table is unrestricted. -/
theorem honours_newScope {s₁ s₂ : Store} (h : p.AlikeStores s₁ s₂) (names : Dict Value) :
    p.Honours (Action.newScope names) s₁ s₂ fun id s => p.base ≤ id.index ∧
      id.index < s.scopes.size where
  result := congrArg Except.ok (h.newScope_id names)
  alike := h.newScope names
  keeps := h.keepsStore_newScope names
  post id hid := by
    obtain rfl : ScopeId.mk s₁.scopes.size = id := Except.ok.inj hid
    refine ⟨h.base_le, ?_⟩
    change s₁.scopes.size < (s₁.newScope names).2.scopes.size
    rw [Store.size_newScope]
    exact Nat.lt_succ_self _

theorem honours_scope {s₁ s₂ : Store} (h : p.AlikeStores s₁ s₂) {id : ScopeId}
    (hid : ¬p.hidden id) : p.Honours (Action.scope id) s₁ s₂ fun _ _ => True :=
  ⟨congrArg Except.ok (h.scope id hid), h, .refl s₁, fun _ _ => trivial⟩

theorem honours_lookup {s₁ s₂ : Store} (h : p.AlikeStores s₁ s₂) {id : ScopeId}
    (hid : ¬p.hidden id) (name : String) :
    p.Honours (Action.lookup id name) s₁ s₂ fun _ _ => True :=
  ⟨congrArg Except.ok (h.lookup hid name), h, .refl s₁, fun _ _ => trivial⟩

/-- A name may be bound in a table that is not frozen. -/
theorem honours_bindName {s₁ s₂ : Store} (h : p.AlikeStores s₁ s₂) {id : ScopeId}
    (hid : ¬p.frozen id) (name : String) (v : Value) :
    p.Honours (Action.bindName id name v) s₁ s₂ fun _ _ => True :=
  ⟨rfl, h.updateScope id _, keepsStore_updateScope s₁ hid _, fun _ _ => trivial⟩

theorem honoured_makeArrayOf {objects : List Object}
    (h : ∀ object ∈ objects, object.isData = true) : p.Honoured (Action.makeArrayOf objects) := by
  have hall : ∀ s₁ s₂, p.AlikeStores s₁ s₂ →
      (s₂.allocAll objects).1 = (s₁.allocAll objects).1 ∧
        p.AlikeStores (s₁.allocAll objects).2 (s₂.allocAll objects).2 ∧
        p.KeepsStore s₁ (s₁.allocAll objects).2 := by
    induction objects with
    | nil => exact fun s₁ s₂ halike => ⟨rfl, halike, .refl s₁⟩
    | cons object rest ih =>
      intro s₁ s₂ halike
      have hmade := halike.alloc (admits_data (h object (List.mem_cons_self ..)))
      obtain ⟨hrest, halike', hkeeps⟩ :=
        ih (fun o ho => h o (List.mem_cons_of_mem _ ho)) _ _ hmade
      refine ⟨?_, halike', ?_⟩
      · change (s₂.alloc object).1 :: ((s₂.alloc object).2.allocAll rest).1 =
          (s₁.alloc object).1 :: ((s₁.alloc object).2.allocAll rest).1
        rw [halike.alloc_value object, hrest]
      · have hstep : p.KeepsStore s₁ (s₁.alloc object).2 := keepsStore_alloc s₁ object
        exact hstep.trans hkeeps
  intro s₁ s₂ halike
  obtain ⟨hresult, halike', hkeeps⟩ := hall s₁ s₂ halike
  have harray : (Object.array (s₁.allocAll objects).1.toArray).isData = true := rfl
  obtain ⟨hmade, hlast, hkeeps', hpost⟩ := honours_make halike' (admits_data harray)
  have hrun : ∀ s, Action.makeArrayOf objects s =
      Action.make (.array (s.allocAll objects).1.toArray) (s.allocAll objects).2 := fun _ => rfl
  refine ⟨?_, ?_, ?_, fun _ _ => trivial⟩
  · rw [hrun, hrun, hresult, hmade]
  · rw [hrun, hrun, hresult]
    exact hlast
  · rw [hrun]
    exact hkeeps.trans hkeeps'

/-! Copies. -/

namespace AlikeStores

variable {s₁ s₂ : Store} (h : p.AlikeStores s₁ s₂)

include h

/-- The fields of an instance can be read. -/
theorem scope_of_instance {v type : Value} {fields : ScopeId}
    (hget : s₁.get v = .instance type fields) : s₂.scope fields = s₁.scope fields := by
  have hadmits := h.admits v
  rw [hget] at hadmits
  exact h.scope fields (hadmits.links_namespace rfl).not_hidden

theorem shape? (v : Value) : s₂.shape? v = s₁.shape? v := by
  unfold Store.shape?
  rw [h.get v]
  split
  · rfl
  · rfl
  · next hget => rw [h.scope_of_instance hget]
  · rfl

theorem parts (v : Value) : s₂.parts v = s₁.parts v := by
  unfold Store.parts
  rw [h.get v]
  split
  · rfl
  · rfl
  · next hget => rw [h.scope_of_instance hget]
  · rfl

end AlikeStores

section Copy

open Value

/-- Two states of copying that differ at most in hidden tables. -/
structure AlikeCopying (p : Policy mode) (st₁ st₂ : CopyState) : Prop where
  store : p.AlikeStores st₁.store st₂.store
  copies : st₂.copies = st₁.copies

structure CopiesAlike (p : Policy mode) (st₁ st₂ : CopyState) (r₁ r₂ : α × CopyState) : Prop where
  result : r₂.1 = r₁.1
  alike : p.AlikeCopying r₁.2 r₂.2
  keeps : p.KeepsStore st₁.store r₁.2.store

theorem copiesAlike_each {copyOne : Value → CopyState → Value × CopyState}
    (hone : ∀ v st₁ st₂, p.AlikeCopying st₁ st₂ →
      p.CopiesAlike st₁ st₂ (copyOne v st₁) (copyOne v st₂))
    (vs : List Value) {st₁ st₂ : CopyState} (h : p.AlikeCopying st₁ st₂) :
    p.CopiesAlike st₁ st₂ (copyEach copyOne vs st₁) (copyEach copyOne vs st₂) := by
  induction vs generalizing st₁ st₂ with
  | nil => exact ⟨rfl, h, .refl _⟩
  | cons v rest ih =>
    have hfirst := hone v st₁ st₂ h
    have hrest := ih hfirst.alike
    refine ⟨?_, hrest.alike, hfirst.keeps.trans hrest.keeps⟩
    exact congrArg₂ List.cons hfirst.result hrest.result

theorem alikeCopying_enter {st₁ st₂ : CopyState} (h : p.AlikeCopying st₁ st₂) (v : Value)
    {object : Object} (hobject : p.Admits st₁.store.scopes.size object) :
    p.AlikeCopying (st₁.enter v object).2 (st₂.enter v object).2 where
  store := h.store.alloc hobject
  copies := by
    change (v, (st₂.store.alloc object).1) :: st₂.copies = (v, (st₁.store.alloc object).1) :: _
    rw [h.store.alloc_value, h.copies]

theorem alikeCopying_opened {st₁ st₂ : CopyState} (h : p.AlikeCopying st₁ st₂) (v : Value) :
    p.AlikeCopying (st₁.opened v) (st₂.opened v) ∧
      p.KeepsStore st₁.store (st₁.opened v).store := by
  unfold CopyState.opened
  rw [h.store.get v]
  split
  · exact ⟨alikeCopying_enter h v (admits_data rfl), keepsStore_alloc _ _⟩
  · exact ⟨alikeCopying_enter h v (admits_data rfl), keepsStore_alloc _ _⟩
  · next type fields hget =>
    have hscope : p.AlikeCopying ⟨(st₁.store.newScope .empty).2, st₁.copies⟩
        ⟨(st₂.store.newScope .empty).2, st₂.copies⟩ := ⟨h.store.newScope .empty, h.copies⟩
    have hown : p.Admits (st₁.store.newScope .empty).2.scopes.size
        (.instance type (st₁.store.newScope .empty).1) := by
      refine admits_of_tables_eq rfl (links_of_base_le h.store.base_le ?_)
      rw [Store.size_newScope]
      exact Nat.lt_succ_self _
    refine ⟨?_, (h.store.keepsStore_newScope .empty).trans (keepsStore_alloc _ _)⟩
    dsimp only
    rw [h.store.newScope_id]
    exact alikeCopying_enter hscope v hown
  · exact ⟨h, .refl _⟩

/-- Filling a copy writes to its own object or to its own table. -/
theorem alikeCopying_closed {st₁ st₂ st₁' st₂' : CopyState} (h : p.AlikeCopying st₁ st₂)
    (h' : p.AlikeCopying st₁' st₂') (v : Value) (ws : List Value) :
    p.AlikeCopying (st₁.closed v ws st₁') (st₂.closed v ws st₂') ∧
      p.KeepsStore st₁'.store (st₁.closed v ws st₁').store := by
  unfold CopyState.closed
  rw [h.store.get v, h.store.objects, h.store.size]
  split
  · exact ⟨⟨h'.store.update _ fun _ _ => admits_data rfl, h'.copies⟩,
      ⟨Nat.le_refl _, fun _ _ => rfl⟩⟩
  · exact ⟨⟨h'.store.update _ fun _ _ => admits_data rfl, h'.copies⟩,
      ⟨Nat.le_refl _, fun _ _ => rfl⟩⟩
  · next hget =>
    rw [h.store.scope_of_instance hget]
    exact ⟨⟨h'.store.updateScope _ _, h'.copies⟩,
      keepsStore_updateScope _ (not_frozen_of_base_le h.store.base_le) _⟩
  · exact ⟨h', .refl _⟩

theorem copiesAlike_scalar {st₁ st₂ : CopyState} (h : p.AlikeCopying st₁ st₂) (v : Value) :
    p.CopiesAlike st₁ st₂ (copyScalar v st₁) (copyScalar v st₂) := by
  have hmade : p.CopiesAlike st₁ st₂
      ((st₁.store.alloc (st₁.store.get v)).1,
        { st₁ with store := (st₁.store.alloc (st₁.store.get v)).2 })
      ((st₂.store.alloc (st₁.store.get v)).1,
        { st₂ with store := (st₂.store.alloc (st₁.store.get v)).2 }) :=
    ⟨h.store.alloc_value (st₁.store.get v), ⟨h.store.alloc (h.store.admits v), h.copies⟩,
      keepsStore_alloc _ _⟩
  unfold copyScalar
  rw [h.store.get v]
  split
  · exact hmade
  · exact hmade
  · exact hmade
  · exact hmade
  · exact hmade
  · exact ⟨rfl, h, .refl _⟩

/-- Copies are alike, since containers are copied from objects and from tables that are not
hidden. -/
theorem copiesAlike_deepCopyFrom (budget : Nat) (v : Value) {st₁ st₂ : CopyState}
    (h : p.AlikeCopying st₁ st₂) :
    p.CopiesAlike st₁ st₂ (deepCopyFrom budget v st₁) (deepCopyFrom budget v st₂) := by
  induction budget generalizing v st₁ st₂ with
  | zero => exact ⟨rfl, h, .refl _⟩
  | succ budget ih =>
    rw [deepCopyFrom_succ, deepCopyFrom_succ, h.copies, h.store.shape? v, h.store.parts v]
    split
    · exact ⟨rfl, h, .refl _⟩
    · split
      · obtain ⟨hopened, hkeeps⟩ := alikeCopying_opened h v
        have heach := copiesAlike_each (fun v _ _ h => ih v h) (st₁.store.parts v) hopened
        obtain ⟨hclosed, hkeeps'⟩ := alikeCopying_closed h heach.alike v
          (copyEach (deepCopyFrom budget) (st₁.store.parts v) (st₁.opened v)).1
        refine ⟨?_, ?_, hkeeps.trans (heach.keeps.trans hkeeps')⟩
        · change Value.mk st₂.store.objects.size = Value.mk st₁.store.objects.size
          rw [h.store.objects]
        · dsimp only
          rw [heach.result]
          exact hclosed
      · exact copiesAlike_scalar h v

theorem honoured_deepCopy (v : Value) : p.Honoured (deepCopy v) := by
  intro s₁ s₂ h
  have hcopies := copiesAlike_deepCopyFrom (s₁.objects.size + 1) v
    (show p.AlikeCopying ⟨s₁, []⟩ ⟨s₂, []⟩ from ⟨h, rfl⟩)
  have hrun : ∀ s, deepCopy v s = (.ok (deepCopyFrom (s.objects.size + 1) v ⟨s, []⟩).1,
      (deepCopyFrom (s.objects.size + 1) v ⟨s, []⟩).2.store) := fun _ => rfl
  rw [← h.objects] at hcopies
  constructor
  · rw [hrun, hrun, ← h.objects]
    exact congrArg Except.ok hcopies.result
  · rw [hrun, hrun, ← h.objects]
    exact hcopies.alike.store
  · rw [hrun, ← h.objects]
    exact hcopies.keeps
  · exact fun _ _ => trivial

theorem honoured_copy (v : Value) : p.Honoured (copy v) := by
  intro s₁ s₂ h
  refine (honours_load h v).bind fun object s₁' s₂' h' _ hadmits => ?_
  cases object with
  | «instance» type fields =>
    refine (honours_scope h' (hadmits.links_namespace rfl).not_hidden).bind ?_
    intro table t₁ t₂ ht _ _
    refine (honours_newScope ht table).bind ?_
    rintro own u₁ u₂ hu - ⟨hbase, hlt⟩
    exact honours_make hu (admits_of_tables_eq rfl (links_of_base_le hbase hlt))
  | nil | bool value | int value | float value | str content | array items | dict entries =>
    exact honours_make h' (admits_data rfl)
  | _ => exact honoured_pure v _ _ h'

end Copy

end Policy

end Stencil
