import Stencil.Proofs.Scope.Action
import Stencil.Proofs.Value.Code

/-!
The operators, the methods and the built-in functions that work on the store
honour every policy. The one that writes to a table through a value is the
attribute function, which is left out where no code sets attributes.
-/

namespace Stencil

theorem Object.isData_of_isScalar {object : Object} (h : object.isScalar = true) :
    object.isData = true := by
  cases object with
  | nil | bool value | int value | float value | str content => rfl
  | _ => cases h

namespace Value

/-- Equality looks at objects only. -/
theorem equalFrom_congr {s₁ s₂ : Store} (h : ∀ v, s₂.get v = s₁.get v) (budget : Nat)
    (seen : Pairs) (a b : Value) : equalFrom s₂ budget seen a b = equalFrom s₁ budget seen a b := by
  induction budget generalizing seen a b with
  | zero => rfl
  | succ budget ih =>
    have hall : equalFrom s₂ budget = equalFrom s₁ budget := by
      funext seen a b
      exact ih seen a b
    simp only [equalFrom, h, hall]

end Value

namespace Policy

variable {mode : Mode} {p : Policy mode}

theorem honoured_makeExcept {x : Except Fault Object} (hx : Object.Yields x) :
    p.Honoured (do Action.make (← Action.ofExcept x)) := by
  intro s₁ s₂ h
  refine (honours_ofExcept h x).bind fun object s₁' s₂' h' _ hobject => ?_
  exact honoured_make (Object.isData_of_isScalar (hx.scalar object hobject)) s₁' s₂' h'

section Operator

open Value

theorem honoured_arith (op : ArithOp) (left right : Value) :
    p.Honoured (Value.arith op left right) := by
  refine (honoured_load left).bind fun x => (honoured_load right).bind fun y => ?_
  exact honoured_makeExcept (Object.yields_arith op x y)

theorem honoured_negate (operand : Value) : p.Honoured (Value.negate operand) := by
  refine (honoured_load operand).bind fun x => ?_
  exact honoured_makeExcept (Object.yields_negate x)

theorem honoured_compare (op : CompOp) (left right : Value) :
    p.Honoured (Value.compare op left right) := by
  have hequal : ∀ s₁ s₂, p.AlikeStores s₁ s₂ → equal s₂ left right = equal s₁ left right := by
    intro s₁ s₂ h
    rw [equal, equal, equalFrom_congr h.get, h.objects]
  have horder : ∀ op, p.Honoured (do
      Action.ofExcept (Object.order op (← Action.load left) (← Action.load right))) := fun op =>
    (honoured_load left).bind fun x => (honoured_load right).bind fun y => honoured_ofExcept _
  cases op with
  | eq => exact honoured_read hequal
  | ne => exact honoured_read fun s₁ s₂ h => congrArg (!·) (hequal s₁ s₂ h)
  | lt | le | gt | ge => exact horder _

theorem honoured_elementAt (owner key : Value) : p.Honoured (owner.elementAt key) := by
  refine (honoured_load owner).bind fun object => ?_
  cases object with
  | array items =>
    refine (honoured_load key).bind fun k => (honoured_ofExcept _).bind fun slot => ?_
    split
    · exact honoured_pure _
    · exact honoured_fail _
  | str content =>
    refine (honoured_load key).bind fun k => (honoured_ofExcept _).bind fun slot => ?_
    exact honoured_make rfl
  | dict entries =>
    refine (honoured_load key).bind fun k => (honoured_ofExcept _).bind fun name => ?_
    split
    · exact honoured_pure _
    · exact honoured_fail _
  | _ => exact honoured_fail _

theorem honoured_setElementAt (owner key v : Value) :
    p.Honoured (owner.setElementAt key v) := by
  refine (honoured_load owner).bind fun object => ?_
  cases object with
  | array items =>
    refine (honoured_load key).bind fun k => (honoured_ofExcept _).bind fun slot => ?_
    refine honoured_update owner fun n object hobject => ?_
    split
    · exact admits_data rfl
    · exact hobject
  | dict entries =>
    refine (honoured_load key).bind fun k => (honoured_ofExcept _).bind fun name => ?_
    refine honoured_update owner fun n object hobject => ?_
    split
    · exact admits_data rfl
    · exact hobject
  | _ => exact honoured_fail _

end Operator

/-! Methods. -/

section Method

open Method

theorem honoured_split (content : String) (separator : Option Object) :
    p.Honoured (split content separator) := by
  unfold split
  split
  · exact honoured_fail _
  · split
    · exact honoured_fail _
    · refine honoured_makeArrayOf fun object hobject => ?_
      obtain ⟨piece, -, rfl⟩ := List.mem_map.mp hobject
      rfl

theorem honoured_strip (ends : (Char → Bool) → List Char → List Char) (content : String)
    (chars : Option Object) : p.Honoured (strip ends content chars) := by
  unfold strip
  dsimp only
  split
  · exact honoured_make rfl
  · exact honoured_make rfl
  · exact honoured_fail _

theorem honoured_callText (name content : String) (args : List Value) :
    p.Honoured (callText name content args) := by
  unfold callText
  split
  · split
    · exact honoured_make rfl
    · exact honoured_fail _
  · split
    · exact honoured_make rfl
    · refine (honoured_read ?_).bind fun first => ?_
      · intro s₁ s₂ h
        rw [funext h.get]
      · split
        · exact honoured_strip _ content first
        · split
          · exact honoured_split content first
          · exact honoured_fail _

theorem honoured_callArray (name : String) (receiver : Value) (args : List Value) :
    p.Honoured (callArray name receiver args) := by
  unfold callArray
  split
  · split
    · refine (honoured_update receiver ?_).bind fun _ => honoured_pure _
      intro n object hobject
      unfold pushItem
      split
      · exact admits_data rfl
      · exact hobject
    · exact honoured_fail _
  · refine (honoured_read ?_).bind fun found => ?_
    · intro s₁ s₂ h
      rw [h.get]
    · split
      · refine (honoured_update receiver ?_).bind fun _ => honoured_pure _
        intro n object hobject
        unfold popItem
        split
        · exact admits_data rfl
        · exact hobject
      · exact honoured_nil
  · exact honoured_fail _

theorem honoured_foundOr (found default? : Option Value) :
    p.Honoured (foundOr found default?) := by
  unfold foundOr
  split
  · exact honoured_pure _
  · exact honoured_nil

theorem honoured_callDict (name : String) (receiver : Value) (args : List Value) :
    p.Honoured (callDict name receiver args) := by
  have hremove : ∀ key : String, p.Honoured (Action.update receiver (removeKey key)) := by
    intro key
    refine honoured_update receiver fun n object hobject => ?_
    unfold removeKey
    split
    · exact admits_data rfl
    · exact hobject
  unfold callDict
  extract_lets search run
  have hsearch : ∀ key, p.Honoured (search key) := by
    intro key
    refine honoured_read fun s₁ s₂ h => ?_
    rw [h.get]
  have hrun : ∀ keyValue default?, p.Honoured (run keyValue default?) := by
    intro keyValue default?
    refine (honoured_load keyValue).bind fun object => ?_
    split
    · split
      · exact (hsearch _).bind fun found => honoured_foundOr found default?
      · refine (hsearch _).bind fun found => (hremove _).bind fun _ => ?_
        exact honoured_foundOr found default?
      · exact honoured_fail _
    · exact honoured_fail _
  split
  · exact hrun _ none
  · exact hrun _ (some _)
  · exact honoured_fail _

theorem honoured_setHandle (receiver : Value) (handle : Option FileHandle) :
    p.Honoured (Action.update receiver (setHandle handle)) := by
  refine honoured_update receiver fun n object hobject => ?_
  unfold setHandle
  split
  · exact admits_data rfl
  · exact hobject

theorem honoured_callFile (name : String) (receiver : Value) (path : String)
    (handle : Option FileHandle) (args : List Value) :
    p.Honoured (callFile name receiver path handle args) := by
  unfold callFile
  split
  · exact (honoured_setHandle receiver none).bind fun _ => honoured_nil
  · split
    · exact honoured_fail _
    · next handle =>
      split
      · refine (honoured_read ?_).bind fun found => ?_
        · intro s₁ s₂ h
          rw [h.files]
        · split
          · exact honoured_fail _
          · refine (honoured_setHandle receiver _).bind fun _ => ?_
            split
            · exact honoured_make rfl
            · exact honoured_fail _
      · exact honoured_fail _
      · refine (honoured_load _).bind fun object => ?_
        split
        · refine (honoured_read ?_).bind fun found => ?_
          · intro s₁ s₂ h
            rw [h.files]
          · split
            · refine (honoured_setFiles _).bind fun _ => ?_
              exact (honoured_setHandle receiver _).bind fun _ => honoured_nil
            · exact honoured_fail _
        · exact honoured_fail _
      · exact honoured_fail _
      · exact honoured_fail _

/-- Every method of a value honours the policy, since it writes to objects and not to tables. -/
theorem honoured_method (name : String) (receiver : Value) (args : List Value) :
    p.Honoured (Method.call name receiver args) := by
  refine (honoured_load receiver).bind fun object => ?_
  cases object with
  | str content => exact honoured_callText name content args
  | array items => exact honoured_callArray name receiver args
  | dict entries => exact honoured_callDict name receiver args
  | file path handle => exact honoured_callFile name receiver path handle args
  | _ => exact honoured_fail _

end Method

/-! Types and built-in functions. -/

theorem honoured_convert (target : TypeTag) (v : Value) : p.Honoured (target.convert v) := by
  intro s₁ s₂ h
  refine (honours_load h v).bind fun object s₁' s₂' h' _ hadmits => ?_
  split
  · exact honoured_pure _ _ _ h'
  · exact honoured_make rfl _ _ h'
  · exact honoured_make rfl _ _ h'
  · next content => exact honoured_makeExcept (TypeTag.yields_readInt content) _ _ h'
  · exact honoured_pure _ _ _ h'
  · exact honoured_make rfl _ _ h'
  · exact honoured_make rfl _ _ h'
  · next content => exact honoured_makeExcept (TypeTag.yields_readFloat content) _ _ h'
  · exact honoured_make rfl _ _ h'
  · exact honoured_make rfl _ _ h'
  · exact honoured_copy v _ _ h'
  · refine honoured_makeArrayOf (fun object hobject => ?_) _ _ h'
    obtain ⟨c, -, rfl⟩ := List.mem_map.mp hobject
    rfl
  · refine honoured_makeArrayOf (fun object hobject => ?_) _ _ h'
    obtain ⟨key, -, rfl⟩ := List.mem_map.mp hobject
    rfl
  · exact honoured_copy v _ _ h'
  · refine (honours_scope h' (hadmits.links_namespace rfl).not_hidden).bind ?_
    exact fun table t₁ t₂ ht _ _ => honoured_make rfl _ _ ht
  · exact honoured_fail _ _ _ h'

theorem honoured_construct (target : TypeTag) (args : List Value) :
    p.Honoured (target.construct args) := by
  unfold TypeTag.construct
  split
  · split
    · next object hempty =>
      refine honoured_make ?_
      cases target <;> cases hempty <;> rfl
    · exact honoured_fail _
  · exact honoured_convert target _
  · exact honoured_fail _

theorem honoured_typeOf (v : Value) : p.Honoured v.typeOf := by
  refine (honoured_load v).bind fun object => ?_
  cases object with
  | struct type => exact honoured_pure _
  | builtin function => exact honoured_pure _
  | «instance» struct fields => exact honoured_pure _
  | _ => exact honoured_make rfl

section Builtin

open Builtin

/-- The table that an attribute function is about belongs to a value. -/
theorem honours_attributeOf {s₁ s₂ : Store} (h : p.AlikeStores s₁ s₂) (owner key : Value) :
    p.Honours (attributeOf owner key) s₁ s₂ fun found s => p.Links s.scopes.size found.1 := by
  refine (honours_load h owner).bind fun object s₁' s₂' h' _ hadmits => ?_
  split
  · exact ⟨rfl, h', .refl _, nofun⟩
  · next scope hscope =>
    refine (honours_load h' key).bind fun name t₁ t₂ ht hkeeps _ => ?_
    split
    · exact ⟨rfl, ht, .refl _, nofun⟩
    · refine ⟨rfl, ht, .refl _, fun found hfound => ?_⟩
      cases hfound
      exact (hadmits.links_namespace hscope).mono hkeeps.size_le

/-- An attribute is set only in a mode that allows it. -/
theorem honoured_setAttribute (hmode : mode = .separate) (owner key v : Value) :
    p.Honoured (setAttribute owner key v) := by
  intro s₁ s₂ h
  refine (honours_attributeOf h owner key).bind fun found t₁ t₂ ht _ hlinks => ?_
  obtain ⟨scope, name⟩ := found
  refine (honours_bindName ht (hlinks.not_frozen hmode) name v).bind ?_
  exact fun _ u₁ u₂ hu _ _ => honoured_pure _ _ _ hu

theorem honoured_getAttribute (owner key : Value) : p.Honoured (getAttribute owner key) := by
  intro s₁ s₂ h
  refine (honours_attributeOf h owner key).bind fun found t₁ t₂ ht _ hlinks => ?_
  obtain ⟨scope, name⟩ := found
  refine (honours_lookup ht hlinks.not_hidden name).bind fun value u₁ u₂ hu _ _ => ?_
  split
  · exact honoured_pure _ _ _ hu
  · exact honoured_nil _ _ hu

theorem honoured_openNamed (path how : Value) : p.Honoured (openNamed path how) := by
  refine (honoured_load path).bind fun object => ?_
  split
  · exact honoured_fail _
  · refine (honoured_load how).bind fun object => ?_
    split
    · exact honoured_fail _
    · split
      · exact honoured_fail _
      · refine (honoured_read ?_).bind fun opened => ?_
        · intro s₁ s₂ h
          rw [h.files]
        · split
          · exact honoured_fail _
          · exact (honoured_setFiles _).bind fun _ => honoured_make rfl

theorem honoured_castTo (v target : Value) : p.Honoured (castTo v target) := by
  refine (honoured_load target).bind fun object => ?_
  split
  · exact honoured_construct _ _
  · exact honoured_fail _

theorem honoured_ofOne {function : Builtin} {args : List Value} {body : Value → Action Value}
    (hbody : ∀ v, p.Honoured (body v)) :
    p.Honoured (match args with
      | [v] => body v
      | _ => Action.fail (.argumentCount function)) := by
  split
  · exact hbody _
  · exact honoured_fail _

/-- The built-in functions that work on the store honour the policy, but for the one that sets
attributes. -/
theorem honoured_callPlain? {function : Builtin}
    (hsetattr : mode ≠ .separate → function ≠ .setattr) {args : List Value}
    {action : Action Value} (haction : function.callPlain? args = some action) :
    p.Honoured action := by
  unfold callPlain? at haction
  cases function with
  | len =>
    cases haction
    refine honoured_ofOne fun v => (honoured_load v).bind fun object => ?_
    exact (honoured_ofExcept _).bind fun n => honoured_make rfl
  | type =>
    cases haction
    exact honoured_ofOne honoured_typeOf
  | copy =>
    cases haction
    exact honoured_ofOne honoured_copy
  | deepcopy =>
    cases haction
    exact honoured_ofOne honoured_deepCopy
  | id =>
    cases haction
    refine honoured_ofOne fun v => ?_
    have hidentity : ∀ {s₁ s₂ : Store}, p.AlikeStores s₁ s₂ → s₂.identity v = s₁.identity v := by
      intro s₁ s₂ h
      rw [Store.identity, Store.identity, h.first]
    exact (honoured_read fun s₁ s₂ h => hidentity h).bind fun n => honoured_make rfl
  | assert =>
    cases haction
    refine honoured_ofOne fun v => (honoured_load v).bind fun object => ?_
    split
    · exact honoured_nil
    · exact honoured_fail _
  | ord =>
    cases haction
    refine honoured_ofOne fun v => (honoured_load v).bind fun held => ?_
    exact honoured_makeExcept (yields_codeOf held)
  | chr =>
    cases haction
    refine honoured_ofOne fun v => (honoured_load v).bind fun held => ?_
    exact honoured_makeExcept (yields_charOf held)
  | cast =>
    cases haction
    split
    · exact honoured_castTo _ _
    · exact honoured_fail _
  | setattr =>
    have hmode : mode = .separate := by
      by_contra hne
      exact hsetattr hne rfl
    cases haction
    split
    · exact honoured_setAttribute hmode _ _ _
    · exact honoured_fail _
  | getattr =>
    cases haction
    split
    · exact honoured_getAttribute _ _
    · exact honoured_fail _
  | openFile =>
    cases haction
    split
    · exact honoured_openNamed _ _
    · exact honoured_fail _
  | _ => cases haction

end Builtin

end Policy

end Stencil
