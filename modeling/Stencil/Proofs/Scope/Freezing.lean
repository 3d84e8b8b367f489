import Stencil.Proofs.Scope.Construct

/-!
Tables that are left as they are. A policy may freeze all tables that there are, some apart.
A run that keeps to it leaves the frozen ones with what they held.
-/

namespace Stencil

/-- Tables that exist hold what they held, some apart. -/
def Machine.KeepsTables (m : Machine) (except : ScopeId → Prop) (m' : Machine) : Prop :=
  ∀ id : ScopeId, id.index < m.store.scopes.size → ¬except id →
    m'.store.scope id = m.store.scope id

theorem Store.lookup_bindName_of_ne (s : Store) (id : ScopeId) {name other : String} (v : Value)
    (h : other ≠ name) : (s.bindName id name v).lookup id other = s.lookup id other := by
  unfold Store.lookup Store.bindName
  by_cases hlt : id.index < s.scopes.size
  · have hscope : (s.updateScope id (·.insert name v)).scope id = (s.scope id).insert name v := by
      simp [Store.scope, Store.updateScope, Array.getElem_modify, hlt]
    rw [hscope, Dict.get?_insert, if_neg h]
  · simp [Store.scope, Store.updateScope, hlt]

namespace Policy

/-- All of the first tables are frozen, some apart, where values may refer to them. -/
def freezing {mode : Mode} (hmode : mode ≠ .separate) (n : Nat) (except : ScopeId → Prop) :
    Policy mode where
  base := n
  secret _ := False
  hidden _ := False
  frozen id := id.index < n ∧ ¬except id
  below id h := by
    rcases h with hfalse | hfalse | hfrozen
    · exact hfalse.elim
    · exact hfalse.elim
    · exact hfrozen.1
  secret_of_hidden _ hfalse := hfalse.elim
  secret_of_frozen _ _ hseparate := absurd hseparate hmode

/-- What a run that keeps to the policy has left alone. -/
theorem Runs.keepsTables {mode : Mode} {hmode : mode ≠ .separate} {m : Machine}
    {except : ScopeId → Prop} {rule : FrameRule} {α : Type} {x : Eval α}
    {post : α → Machine → Prop}
    (hrun : (freezing hmode m.store.scopes.size except).Runs rule x m m post) :
    (x m).EndsIn (m.KeepsTables except) := by
  unfold Runs at hrun
  generalize x m = outcome at hrun
  cases hrun with
  | done hready hkeeps _ => exact fun id hlt hid => hkeeps.store.scope id ⟨hlt, hid⟩
  | fail hready hkeeps => exact fun id hlt hid => hkeeps.store.scope id ⟨hlt, hid⟩
  | starved => exact trivial

end Policy

end Stencil
