import Stencil.Eval.Place
import Stencil.Proofs.Renaming.Store
import Stencil.Proofs.Value.Code

/-!
Actions up to the names of references. Two actions go together under a renaming if in
stores that are alike they end with the same fault or with linked results, in stores
that are alike under a renaming that has grown. All operators, methods, conversions and
built-in functions on the store go together with themselves on linked values.
-/

namespace Stencil

namespace Renaming

def Acts (r : Renaming) {α : Type} [Renamable α] (x x' : Action α) : Prop :=
  ∀ s s', r.Stores s s' →
    ∃ r', r ≤ r' ∧ r'.Stores (x s).2 (x' s').2 ∧ r'.Links (x s).1 (x' s').1

section Basic

variable {r : Renaming} {α β : Type} [Renamable α] [Renamable β]

/-- A sequence acts alike if its parts do. The second part acts under the renaming that the first
one led to. -/
theorem Acts.bind {x x' : Action α} {f f' : α → Action β} (hx : r.Acts x x')
    (hf : ∀ r', r ≤ r' → ∀ a a', r'.Links a a' → r'.Acts (f a) (f' a')) :
    r.Acts (x >>= f) (x' >>= f') := by
  intro s s' hs
  obtain ⟨r₁, hle₁, hs₁, ha⟩ := hx s s' hs
  change ∃ r', r ≤ r' ∧ r'.Stores (Action.bind x f s).2 (Action.bind x' f' s').2 ∧
    r'.Links (Action.bind x f s).1 (Action.bind x' f' s').1
  unfold Action.bind
  generalize x s = end₁ at hs₁ ha
  generalize x' s' = end₁' at hs₁ ha
  obtain ⟨result, s₁⟩ := end₁
  obtain ⟨result', s₁'⟩ := end₁'
  cases ha with
  | error fault => exact ⟨r₁, hle₁, hs₁, .error fault⟩
  | @ok a a' ha =>
    obtain ⟨r₂, hle₂, hs₂, hb⟩ := hf r₁ hle₁ a a' ha s₁ s₁' hs₁
    exact ⟨r₂, le_trans hle₁ hle₂, hs₂, hb⟩

theorem acts_pure {a a' : α} (h : r.Links a a') : r.Acts (pure a) (pure a') :=
  fun _ _ hs => ⟨r, le_refl r, hs, .ok h⟩

theorem acts_fail (fault : Fault) : r.Acts (Action.fail fault : Action α) (Action.fail fault) :=
  fun _ _ hs => ⟨r, le_refl r, hs, .error fault⟩

/-- What is read off alike stores is linked. -/
theorem acts_read {f f' : Store → α}
    (hf : ∀ s s', r.Stores s s' → r.Links (f s) (f' s')) :
    r.Acts (Action.read f) (Action.read f') :=
  fun s s' hs => ⟨r, le_refl r, hs, .ok (hf s s' hs)⟩

/-- What is read off the stores is the same. -/
theorem acts_read_bind {γ : Type} {f : Store → γ} (hf : ∀ s s', r.Stores s s' → f s' = f s)
    {k k' : γ → Action β} (hk : ∀ c, r.Acts (k c) (k' c)) :
    r.Acts (Action.read f >>= k) (Action.read f >>= k') := by
  intro s s' hs
  have hend := hk (f s) s s' hs
  change ∃ r', r ≤ r' ∧ r'.Stores (k (f s) s).2 (k' (f s') s').2 ∧
    r'.Links (k (f s) s).1 (k' (f s') s').1
  rw [hf s s' hs]
  exact hend

/-- A computation without effects that is the same in both. -/
theorem acts_ofExcept_bind {γ : Type} (x : Except Fault γ) {k k' : γ → Action β}
    (hk : ∀ c, r.Acts (k c) (k' c)) :
    r.Acts (Action.ofExcept x >>= k) (Action.ofExcept x >>= k') := by
  cases x with
  | error fault => exact acts_fail fault
  | ok c => exact hk c

theorem acts_ofExcept {x : Except Fault Bool} :
    r.Acts (Action.ofExcept x) (Action.ofExcept x) := by
  intro s s' hs
  cases x with
  | error fault => exact ⟨r, le_refl r, hs, .error fault⟩
  | ok b => exact ⟨r, le_refl r, hs, .ok rfl⟩

/-- Linked values hold linked objects. -/
theorem acts_load {v v' : Value} (hv : r.Links v v') : r.Acts (Action.load v) (Action.load v') :=
  fun _ _ hs => ⟨r, le_refl r, hs, .ok (hs.get hv)⟩

/-- A new object is linked with its counterpart by extending the renaming. -/
theorem acts_make {object object' : Object} (h : r.Links object object') :
    r.Acts (Action.make object) (Action.make object') := by
  intro s s' hs
  obtain ⟨r', hle, hs', hv⟩ := hs.alloc h
  exact ⟨r', hle, hs', .ok hv⟩

theorem acts_nil : r.Acts Action.nil Action.nil := acts_make .nil

theorem acts_update {v v' : Value} (hv : r.Links v v') {f f' : Object → Object}
    (hf : ∀ {object object'}, r.Links object object' → r.Links (f object) (f' object')) :
    r.Acts (Action.update v f) (Action.update v' f') :=
  fun _ _ hs => ⟨r, le_refl r, hs.update hv hf, .ok rfl⟩

/-- A new table is linked with its counterpart by extending the renaming. -/
theorem acts_newScope {names names' : Dict Value} (h : r.Links names names') :
    r.Acts (Action.newScope names) (Action.newScope names') := by
  intro s s' hs
  obtain ⟨r', hle, hs', hid⟩ := hs.newScope h
  exact ⟨r', hle, hs', .ok hid⟩

theorem acts_scope {id id' : ScopeId} (hid : r.Links id id') :
    r.Acts (Action.scope id) (Action.scope id') :=
  fun _ _ hs => ⟨r, le_refl r, hs, .ok (hs.scope hid)⟩

theorem acts_lookup {id id' : ScopeId} (hid : r.Links id id') (name : String) :
    r.Acts (Action.lookup id name) (Action.lookup id' name) :=
  fun _ _ hs => ⟨r, le_refl r, hs, .ok (hs.lookup hid name)⟩

theorem acts_bindName {id id' : ScopeId} (hid : r.Links id id') (name : String) {v v' : Value}
    (hv : r.Links v v') : r.Acts (Action.bindName id name v) (Action.bindName id' name v') :=
  fun _ _ hs => ⟨r, le_refl r, hs.bindName hid name hv, .ok rfl⟩

theorem acts_setFiles (files : FileTree) :
    r.Acts (Action.modify (·.setFiles files)) (Action.modify (·.setFiles files)) :=
  fun _ _ hs => ⟨r, le_refl r, hs.setFiles files, .ok rfl⟩

theorem Stores.allocAll {s s' : Store} (h : r.Stores s s') {objects : List Object}
    (hobjects : ∀ object ∈ objects, object.isCompound = false) :
    ∃ r', r ≤ r' ∧ r'.Stores (s.allocAll objects).2 (s'.allocAll objects).2 ∧
      r'.Links (s.allocAll objects).1 (s'.allocAll objects).1 := by
  induction objects generalizing r s s' with
  | nil => exact ⟨r, le_refl r, h, links_nil⟩
  | cons object rest ih =>
    obtain ⟨hobject, hrest⟩ := List.forall_mem_cons.mp hobjects
    obtain ⟨r₁, hle₁, hs₁, hv⟩ := h.alloc (links_of_isCompound hobject)
    obtain ⟨r₂, hle₂, hs₂, hvs⟩ := ih hs₁ hrest
    exact ⟨r₂, le_trans hle₁ hle₂, hs₂, links_cons (hv.mono hle₂) hvs⟩

theorem acts_makeArrayOf {objects : List Object}
    (h : ∀ object ∈ objects, object.isCompound = false) :
    r.Acts (Action.makeArrayOf objects) (Action.makeArrayOf objects) := by
  intro s s' hs
  obtain ⟨r₁, hle₁, hs₁, hvs⟩ := hs.allocAll h
  obtain ⟨r₂, hle₂, hs₂, hv⟩ := acts_make (.array (links_toArray hvs)) _ _ hs₁
  exact ⟨r₂, le_trans hle₁ hle₂, hs₂, hv⟩

/-- A text for each item. -/
theorem acts_makeTexts {γ : Type} (items : List γ) (f : γ → String) :
    r.Acts (Action.makeArrayOf (items.map fun c => .str (f c)))
      (Action.makeArrayOf (items.map fun c => .str (f c))) := by
  refine acts_makeArrayOf fun object hobject => ?_
  obtain ⟨c, -, rfl⟩ := List.mem_map.mp hobject
  rfl

/-- A new object that a computation without effects gives. -/
theorem acts_makeExcept {x : Except Fault Object} (h : Object.Yields x) :
    r.Acts (do Action.make (← Action.ofExcept x)) (do Action.make (← Action.ofExcept x)) := by
  cases x with
  | error fault => exact acts_fail fault
  | ok object => exact acts_make (links_of_isScalar (h.scalar object rfl))

end Basic

/-! Copies, operators and elements. -/

section Operator

variable {r : Renaming} {v v' w w' : Value}

theorem acts_copy (hv : r.Links v v') : r.Acts v.copy v'.copy := by
  refine (acts_load hv).bind fun r₁ hle object object' hobject => ?_
  have hv₁ := hv.mono hle
  cases hobject with
  | «instance» htype hfields =>
    refine (acts_scope hfields).bind fun r₂ hle₂ table table' htable => ?_
    refine (acts_newScope htable).bind fun r₃ hle₃ own own' hown => ?_
    exact acts_make (.instance (htype.mono (le_trans hle₂ hle₃)) hown)
  | function _ _ _ | struct _ _ _ _ | module _ _ | builtin _ | method _ _ | byNature _ _ | type _
  | file _ _ => exact acts_pure hv₁
  | array hitems => exact acts_make (.array hitems)
  | dict hentries => exact acts_make (.dict hentries)
  | _ => exact acts_make (by constructor)

/-- Linked values have linked copies. -/
theorem acts_deepCopy (hv : r.Links v v') : r.Acts v.deepCopy v'.deepCopy := by
  intro s s' hs
  obtain ⟨r', u, u', t, t', hle, ht, hu, heq, heq'⟩ := hs.deepCopy hv
  rw [heq, heq']
  exact ⟨r', hle, ht, .ok hu⟩

theorem acts_typeOf (hv : r.Links v v') : r.Acts v.typeOf v'.typeOf := by
  refine (acts_load hv).bind fun r₁ hle object object' hobject => ?_
  cases hobject with
  | struct _ _ _ _ | builtin _ => exact acts_pure (hv.mono hle)
  | «instance» htype _ => exact acts_pure htype
  | _ => exact acts_make (.type _)

theorem links_arith {left left' right right' : Object} (hleft : r.Links left left')
    (hright : r.Links right right') (op : ArithOp) :
    Object.arith op left' right' = Object.arith op left right := by
  rcases hleft.eq_or with rfl | ⟨hcompound, hcompound'⟩
  · rcases hright.eq_or with rfl | ⟨hcompound, hcompound'⟩
    · rfl
    · rw [Object.arith_of_isCompound (Or.inr hcompound),
        Object.arith_of_isCompound (Or.inr hcompound'), hright.tag]
  · rw [Object.arith_of_isCompound (Or.inl hcompound),
      Object.arith_of_isCompound (Or.inl hcompound'), hleft.tag, hright.tag]

theorem links_order {left left' right right' : Object} (hleft : r.Links left left')
    (hright : r.Links right right') (op : CompOp) :
    Object.order op left' right' = Object.order op left right := by
  rcases hleft.eq_or with rfl | ⟨hcompound, hcompound'⟩
  · rcases hright.eq_or with rfl | ⟨hcompound, hcompound'⟩
    · rfl
    · rw [Object.order_of_isCompound (Or.inr hcompound),
        Object.order_of_isCompound (Or.inr hcompound'), hright.tag]
  · rw [Object.order_of_isCompound (Or.inl hcompound),
      Object.order_of_isCompound (Or.inl hcompound'), hleft.tag, hright.tag]

theorem links_negate {operand operand' : Object} (h : r.Links operand operand') :
    Object.negate operand' = Object.negate operand := by
  rcases h.eq_or with rfl | ⟨hcompound, hcompound'⟩
  · rfl
  · rw [Object.negate_of_isCompound hcompound, Object.negate_of_isCompound hcompound', h.tag]

theorem acts_arith (op : ArithOp) (hv : r.Links v v') (hw : r.Links w w') :
    r.Acts (Value.arith op v w) (Value.arith op v' w') := by
  refine (acts_load hv).bind fun r₁ hle left left' hleft => ?_
  refine (acts_load (hw.mono hle)).bind fun r₂ hle₂ right right' hright => ?_
  rw [links_arith (hleft.mono hle₂) hright]
  exact acts_makeExcept (Object.yields_arith op left right)

theorem acts_negate (hv : r.Links v v') : r.Acts v.negate v'.negate := by
  refine (acts_load hv).bind fun r₁ hle operand operand' hoperand => ?_
  rw [links_negate hoperand]
  exact acts_makeExcept (Object.yields_negate operand)

/-- Comparisons do not see the difference. -/
theorem acts_compare (op : CompOp) (hv : r.Links v v') (hw : r.Links w w') :
    r.Acts (Value.compare op v w) (Value.compare op v' w') := by
  have horder : ∀ op, r.Acts
      (do Action.ofExcept (Object.order op (← Action.load v) (← Action.load w)))
      (do Action.ofExcept (Object.order op (← Action.load v') (← Action.load w'))) := by
    intro op
    refine (acts_load hv).bind fun r₁ hle left left' hleft => ?_
    refine (acts_load (hw.mono hle)).bind fun r₂ hle₂ right right' hright => ?_
    rw [links_order (hleft.mono hle₂) hright]
    exact acts_ofExcept
  cases op with
  | eq => exact acts_read fun s s' hs => (hs.equal hv hw).symm
  | ne => exact acts_read fun s s' hs => congrArg (!·) (hs.equal hv hw).symm
  | lt | le | gt | ge => exact horder _

theorem links_slotOf {key key' : Object} (h : r.Links key key') (size : Nat) :
    slotOf key' size = slotOf key size := by
  cases h <;> rfl

theorem links_keyOf {key key' : Object} (h : r.Links key key') : keyOf key' = keyOf key := by
  cases h <;> rfl

/-- The value that has been found, or a fault. -/
theorem acts_found {found found' : Option Value} (fault : Fault) : r.Links found found' →
    r.Acts (match found with | some v => pure v | none => Action.fail fault)
      (match found' with | some v => pure v | none => Action.fail fault) := by
  intro h
  cases h with
  | none => exact acts_fail fault
  | some hv => exact acts_pure hv

theorem acts_elementAt {key key' : Value} (hv : r.Links v v') (hkey : r.Links key key') :
    r.Acts (v.elementAt key) (v'.elementAt key') := by
  refine (acts_load hv).bind fun r₁ hle object object' hobject => ?_
  have hkey₁ := hkey.mono hle
  cases hobject with
  | array hitems =>
    refine (acts_load hkey₁).bind fun r₂ hle₂ k k' hk => ?_
    rw [links_slotOf hk, hitems.size]
    refine acts_ofExcept_bind _ fun slot => ?_
    exact acts_found _ ((hitems.mono hle₂).slot slot)
  | str content =>
    refine (acts_load hkey₁).bind fun r₂ hle₂ k k' hk => ?_
    rw [links_slotOf hk]
    exact acts_ofExcept_bind _ fun slot => acts_make (.str _)
  | dict hentries =>
    refine (acts_load hkey₁).bind fun r₂ hle₂ k k' hk => ?_
    rw [links_keyOf hk]
    refine acts_ofExcept_bind _ fun name => ?_
    exact acts_found _ ((hentries.mono hle₂).get? name)
  | _ => exact acts_fail _

theorem acts_setElementAt {key key' : Value} (hv : r.Links v v') (hkey : r.Links key key')
    (hw : r.Links w w') : r.Acts (v.setElementAt key w) (v'.setElementAt key' w') := by
  refine (acts_load hv).bind fun r₁ hle object object' hobject => ?_
  have hkey₁ := hkey.mono hle
  cases hobject with
  | array hitems =>
    refine (acts_load hkey₁).bind fun r₂ hle₂ k k' hk => ?_
    rw [links_slotOf hk, hitems.size]
    refine acts_ofExcept_bind _ fun slot => ?_
    refine acts_update (hv.mono (le_trans hle hle₂)) fun {held held'} hheld => ?_
    have hw₂ := hw.mono (le_trans hle hle₂)
    cases hheld with
    | array hitems => exact .array (Links.setIfInBounds hitems slot hw₂)
    | _ => constructor <;> assumption
  | dict hentries =>
    refine (acts_load hkey₁).bind fun r₂ hle₂ k k' hk => ?_
    rw [links_keyOf hk]
    refine acts_ofExcept_bind _ fun name => ?_
    refine acts_update (hv.mono (le_trans hle hle₂)) fun {held held'} hheld => ?_
    have hw₂ := hw.mono (le_trans hle hle₂)
    cases hheld with
    | dict hentries => exact .dict (hentries.insert name hw₂)
    | _ => constructor <;> assumption
  | _ => exact acts_fail _

end Operator

/-! Methods. -/

section Method

open Method

variable {r : Renaming} {receiver receiver' : Value}

theorem acts_split (content : String) {separator separator' : Option Object}
    (h : r.Links separator separator') :
    r.Acts (split content separator) (split content separator') := by
  have htext : separator'.bind Object.text? = separator.bind Object.text? := by
    cases h with
    | none => rfl
    | some h => exact h.text?
  unfold split
  rw [htext]
  split
  · exact acts_fail _
  · split
    · exact acts_fail _
    · exact acts_makeTexts _ id

theorem acts_strip (ends : (Char → Bool) → List Char → List Char) (content : String)
    {chars chars' : Option Object} (h : r.Links chars chars') :
    r.Acts (strip ends content chars) (strip ends content chars') := by
  unfold strip
  cases h with
  | none => exact acts_make (.str _)
  | some h =>
    cases h with
    | str unwanted => exact acts_make (.str _)
    | _ => exact acts_fail _

theorem acts_callText (name content : String) {args args' : List Value}
    (h : r.Links args args') :
    r.Acts (callText name content args) (callText name content args') := by
  have hempty : args'.isEmpty = args.isEmpty := by cases h <;> rfl
  unfold callText
  rw [hempty]
  split
  · split
    · exact acts_make (.str _)
    · exact acts_fail _
  · split
    · exact acts_make (.bool _)
    · have hfirst : r.Acts (Action.read fun s => args.head?.map s.get)
          (Action.read fun s => args'.head?.map s.get) := by
        refine acts_read fun s s' hs => ?_
        cases h with
        | nil => exact .none
        | cons hv _ => exact .some (hs.get hv)
      refine hfirst.bind fun r₁ hle first first' hfirst => ?_
      split
      · exact acts_strip _ content hfirst
      · split
        · exact acts_split content hfirst
        · exact acts_fail _

theorem links_pushItem {v v' : Value} (hv : r.Links v v') {object object' : Object}
    (h : r.Links object object') : r.Links (pushItem v object) (pushItem v' object') := by
  cases h with
  | array hitems => exact .array (Links.push hitems hv)
  | _ => constructor <;> assumption

theorem links_popItem {object object' : Object} (h : r.Links object object') :
    r.Links (popItem object) (popItem object') := by
  cases h with
  | array hitems => exact .array (Links.pop hitems)
  | _ => constructor <;> assumption

theorem links_lastItem? {object object' : Object} (h : r.Links object object') :
    r.Links (lastItem? object) (lastItem? object') := by
  cases h with
  | array hitems => exact Links.back? hitems
  | _ => exact .none

theorem links_removeKey (key : String) {object object' : Object} (h : r.Links object object') :
    r.Links (removeKey key object) (removeKey key object') := by
  cases h with
  | dict hentries => exact .dict (hentries.erase key)
  | _ => constructor <;> assumption

theorem links_setHandle (handle : Option FileHandle) {object object' : Object}
    (h : r.Links object object') :
    r.Links (setHandle handle object) (setHandle handle object') := by
  cases h with
  | file path _ => exact .file path handle
  | _ => constructor <;> assumption

/-- An array method acts alike on linked arrays. Which method is meant is told apart by its name
first, for the name is the same in both. -/
theorem acts_callArray (name : String) (hreceiver : r.Links receiver receiver')
    {args args' : List Value} (h : r.Links args args') :
    r.Acts (callArray name receiver args) (callArray name receiver' args') := by
  by_cases hpush : name = "push"
  · subst hpush
    have hcount : r.Acts (Action.fail .pushNeedsOne : Action Value) (Action.fail .pushNeedsOne) :=
      acts_fail _
    cases h with
    | nil => exact hcount
    | cons hv hrest =>
      cases hrest with
      | nil =>
        refine (acts_update hreceiver fun hobject => links_pushItem hv hobject).bind ?_
        exact fun r₁ hle _ _ _ => acts_pure (hreceiver.mono hle)
      | cons _ _ => exact hcount
  · by_cases hpop : name = "pop"
    · subst hpop
      have hlast : r.Acts (Action.read fun s => lastItem? (s.get receiver))
          (Action.read fun s => lastItem? (s.get receiver')) :=
        acts_read fun s s' hs => links_lastItem? (hs.get hreceiver)
      refine hlast.bind fun r₁ hle found found' hfound => ?_
      cases hfound with
      | none => exact acts_nil
      | some hv =>
        refine (acts_update (hreceiver.mono hle) links_popItem).bind ?_
        exact fun r₂ hle₂ _ _ _ => acts_pure (hv.mono hle₂)
    · have hunknown : ∀ u us, callArray name u us = Action.fail (.notAMethod name .array) := by
        intro u us
        unfold callArray
        split
        · exact absurd rfl hpush
        · exact absurd rfl hpop
        · rfl
      rw [hunknown, hunknown]
      exact acts_fail _

theorem acts_foundOr {found found' default? default?' : Option Value}
    (hfound : r.Links found found') (hdefault : r.Links default? default?') :
    r.Acts (foundOr found default?) (foundOr found' default?') := by
  unfold foundOr
  cases hfound with
  | some hv => exact acts_pure hv
  | none =>
    cases hdefault with
    | some hv => exact acts_pure hv
    | none => exact acts_nil

theorem acts_callDict (name : String) (hreceiver : r.Links receiver receiver')
    {args args' : List Value} (h : r.Links args args') :
    r.Acts (callDict name receiver args) (callDict name receiver' args') := by
  unfold callDict
  extract_lets search run search' run'
  have hsearch : ∀ {r : Renaming} (key : String), r.Links receiver receiver' →
      r.Acts (search key) (search' key) := by
    intro r key hreceiver
    refine acts_read fun s s' hs => ?_
    have hget := hs.get hreceiver
    generalize s.get receiver = object at hget
    generalize s'.get receiver' = object' at hget
    cases hget with
    | dict hentries => exact hentries.get? key
    | _ => exact .none
  have hrun : ∀ {key key' : Value} {default? default?' : Option Value}, r.Links key key' →
      r.Links default? default?' → r.Acts (run key default?) (run' key' default?') := by
    intro key key' default? default?' hkey hdefault
    refine (acts_load hkey).bind fun r₁ hle object object' hobject => ?_
    have hreceiver₁ := hreceiver.mono hle
    cases hobject with
    | str content =>
      by_cases hget : name = "get"
      · subst hget
        refine (hsearch content hreceiver₁).bind fun r₂ hle₂ found found' hfound => ?_
        exact acts_foundOr hfound (hdefault.mono (le_trans hle hle₂))
      · by_cases hpop : name = "pop"
        · subst hpop
          refine (hsearch content hreceiver₁).bind fun r₂ hle₂ found found' hfound => ?_
          refine (acts_update (hreceiver₁.mono hle₂) (links_removeKey content)).bind ?_
          intro r₃ hle₃ _ _ _
          exact acts_foundOr (hfound.mono hle₃)
            (hdefault.mono (le_trans hle (le_trans hle₂ hle₃)))
        · dsimp only
          split
          · exact absurd rfl hget
          · exact absurd rfl hpop
          · exact acts_fail _
    | _ => exact acts_fail _
  cases h with
  | nil => exact acts_fail _
  | cons hkey hrest =>
    cases hrest with
    | nil => exact hrun hkey .none
    | cons hdefault hrest =>
      cases hrest with
      | nil => exact hrun hkey (.some hdefault)
      | cons _ _ => exact acts_fail _

theorem acts_setHandle (hreceiver : r.Links receiver receiver') (handle : Option FileHandle) :
    r.Acts (Action.update receiver (setHandle handle))
      (Action.update receiver' (setHandle handle)) :=
  acts_update hreceiver (links_setHandle handle)

theorem acts_readFile (hreceiver : r.Links receiver receiver') (handle : FileHandle) :
    r.Acts (readFile receiver handle) (readFile receiver' handle) := by
  refine acts_read_bind (fun s s' hs => by rw [hs.files]) fun found => ?_
  split
  · exact acts_fail _
  · refine (acts_setHandle hreceiver _).bind fun r₁ hle _ _ _ => ?_
    split
    · exact acts_make (.str _)
    · exact acts_fail _

theorem acts_writeFile (hreceiver : r.Links receiver receiver') (handle : FileHandle)
    {text text' : Value} (htext : r.Links text text') :
    r.Acts (writeFile receiver handle text) (writeFile receiver' handle text') := by
  refine (acts_load htext).bind fun r₁ hle object object' hobject => ?_
  cases hobject with
  | str content =>
    refine acts_read_bind (fun s s' hs => by rw [hs.files]) fun found => ?_
    split
    · refine (acts_setFiles _).bind fun r₂ hle₂ _ _ _ => ?_
      refine (acts_setHandle (hreceiver.mono (le_trans hle hle₂)) _).bind fun r₃ _ _ _ _ => ?_
      exact acts_nil
    · exact acts_fail _
  | _ => exact acts_fail _

theorem acts_callFile (name path : String) (handle : Option FileHandle)
    (hreceiver : r.Links receiver receiver') {args args' : List Value} (h : r.Links args args') :
    r.Acts (callFile name receiver path handle args)
      (callFile name receiver' path handle args') := by
  unfold callFile
  split
  · exact (acts_setHandle hreceiver none).bind fun _ _ _ _ _ => acts_nil
  · cases handle with
    | none => exact acts_fail _
    | some handle =>
      by_cases hread : name = "read"
      · subst hread
        cases h with
        | nil => exact acts_readFile hreceiver handle
        | cons _ _ => exact acts_fail _
      · by_cases hwrite : name = "write"
        · subst hwrite
          cases h with
          | nil => exact acts_fail _
          | cons htext hrest =>
            cases hrest with
            | nil => exact acts_writeFile hreceiver handle htext
            | cons _ _ => exact acts_fail _
        · dsimp only
          split
          · exact absurd rfl hread
          · exact absurd rfl hread
          · exact absurd rfl hwrite
          · exact absurd rfl hwrite
          · split
            · exact absurd rfl hread
            · exact absurd rfl hread
            · exact absurd rfl hwrite
            · exact absurd rfl hwrite
            · exact acts_fail _

/-- Methods act alike on linked receivers. -/
theorem acts_method (name : String) (hreceiver : r.Links receiver receiver')
    {args args' : List Value} (h : r.Links args args') :
    r.Acts (Method.call name receiver args) (Method.call name receiver' args') := by
  refine (acts_load hreceiver).bind fun r₁ hle object object' hobject => ?_
  have hreceiver₁ := hreceiver.mono hle
  have hargs₁ := h.mono hle
  cases hobject with
  | str content => exact acts_callText name content hargs₁
  | array _ => exact acts_callArray name hreceiver₁ hargs₁
  | dict _ => exact acts_callDict name hreceiver₁ hargs₁
  | file path handle => exact acts_callFile name path handle hreceiver₁ hargs₁
  | _ => exact acts_fail _

end Method

/-! Types as functions, and the built-in functions that need only the store. -/

section Function

variable {r : Renaming} {v v' : Value}

theorem acts_convert (target : TypeTag) (hv : r.Links v v') :
    r.Acts (target.convert v) (target.convert v') := by
  refine (acts_load hv).bind fun r₁ hle object object' hobject => ?_
  have hv₁ := hv.mono hle
  have hrefused : r₁.Acts (Action.fail (.cannotCast object.tag target) : Action Value)
      (Action.fail (.cannotCast object'.tag target)) := by
    rw [hobject.tag]
    exact acts_fail _
  cases target with
  | int =>
    cases hobject with
    | int _ => exact acts_pure hv₁
    | bool _ | float _ => exact acts_make (.int _)
    | str content => exact acts_makeExcept (TypeTag.yields_readInt content)
    | _ => exact hrefused
  | float =>
    cases hobject with
    | float _ => exact acts_pure hv₁
    | bool _ | int _ => exact acts_make (.float _)
    | str content => exact acts_makeExcept (TypeTag.yields_readFloat content)
    | _ => exact hrefused
  | string =>
    change r₁.Acts (Action.make (.str object.display)) (Action.make (.str object'.display))
    rw [hobject.display]
    exact acts_make (.str _)
  | bool =>
    change r₁.Acts (Action.make (.bool object.truthy)) (Action.make (.bool object'.truthy))
    rw [hobject.truthy]
    exact acts_make (.bool _)
  | array =>
    cases hobject with
    | array _ => exact acts_copy hv₁
    | str content => exact acts_makeTexts content.toList String.singleton
    | dict hentries =>
      change r₁.Acts (Action.makeArrayOf _) (Action.makeArrayOf _)
      rw [hentries.keys]
      exact acts_makeTexts _ id
    | _ => exact hrefused
  | dict =>
    cases hobject with
    | dict _ => exact acts_copy hv₁
    | «instance» _ hfields =>
      exact (acts_scope hfields).bind fun r₂ _ table table' htable => acts_make (.dict htable)
    | _ => exact hrefused
  | _ => exact hrefused

theorem acts_construct (target : TypeTag) {args args' : List Value} (h : r.Links args args') :
    r.Acts (target.construct args) (target.construct args') := by
  cases h with
  | nil =>
    unfold TypeTag.construct
    cases target with
    | int => exact acts_make (.int _)
    | float => exact acts_make (.float _)
    | string => exact acts_make (.str _)
    | bool => exact acts_make (.bool _)
    | array => exact acts_make (.array links_nil)
    | dict => exact acts_make (.dict links_empty)
    | _ => exact acts_fail _
  | cons hv hrest =>
    cases hrest with
    | nil => exact acts_convert target hv
    | cons _ _ => exact acts_fail _

variable {owner owner' key key' : Value}

theorem acts_attributeOf (howner : r.Links owner owner') (hkey : r.Links key key') :
    r.Acts (Builtin.attributeOf owner key) (Builtin.attributeOf owner' key') := by
  refine (acts_load howner).bind fun r₁ hle object object' hobject => ?_
  have hscope := hobject.namespace?
  generalize object.namespace? = found at hscope
  generalize object'.namespace? = found' at hscope
  cases hscope with
  | none => exact acts_fail _
  | some hscope =>
    refine (acts_load (hkey.mono hle)).bind fun r₂ hle₂ name name' hname => ?_
    rw [hname.text?]
    split
    · exact acts_fail _
    · exact acts_pure ⟨hscope.mono hle₂, rfl⟩

theorem acts_setAttribute (howner : r.Links owner owner') (hkey : r.Links key key')
    (hv : r.Links v v') :
    r.Acts (Builtin.setAttribute owner key v) (Builtin.setAttribute owner' key' v') := by
  refine (acts_attributeOf howner hkey).bind fun r₁ hle place place' hplace => ?_
  obtain ⟨scope, name⟩ := place
  obtain ⟨scope', name'⟩ := place'
  obtain ⟨hscope, rfl⟩ : r₁.Links scope scope' ∧ name = name' := hplace
  refine (acts_bindName hscope name (hv.mono hle)).bind fun r₂ hle₂ _ _ _ => ?_
  exact acts_pure (howner.mono (le_trans hle hle₂))

theorem acts_getAttribute (howner : r.Links owner owner') (hkey : r.Links key key') :
    r.Acts (Builtin.getAttribute owner key) (Builtin.getAttribute owner' key') := by
  refine (acts_attributeOf howner hkey).bind fun r₁ hle place place' hplace => ?_
  obtain ⟨scope, name⟩ := place
  obtain ⟨scope', name'⟩ := place'
  obtain ⟨hscope, rfl⟩ : r₁.Links scope scope' ∧ name = name' := hplace
  refine (acts_lookup hscope name).bind fun r₂ hle₂ found found' hfound => ?_
  cases hfound with
  | none => exact acts_nil
  | some hv => exact acts_pure hv

theorem acts_openNamed {path path' mode mode' : Value} (hpath : r.Links path path')
    (hmode : r.Links mode mode') :
    r.Acts (Builtin.openNamed path mode) (Builtin.openNamed path' mode') := by
  refine (acts_load hpath).bind fun r₁ hle name name' hname => ?_
  rw [hname.text?]
  split
  · exact acts_fail _
  · refine (acts_load (hmode.mono hle)).bind fun r₂ hle₂ letters letters' hletters => ?_
    rw [hletters.text?]
    split
    · exact acts_fail _
    · split
      · exact acts_fail _
      · refine acts_read_bind (fun s s' hs => by rw [hs.files]) fun opened => ?_
        split
        · exact acts_fail _
        · exact (acts_setFiles _).bind fun r₃ _ _ _ _ => acts_make (.file _ _)

theorem acts_castTo {target target' : Value} (hv : r.Links v v')
    (htarget : r.Links target target') :
    r.Acts (Builtin.castTo v target) (Builtin.castTo v' target') := by
  refine (acts_load htarget).bind fun r₁ hle object object' hobject => ?_
  cases hobject with
  | type tag => exact acts_construct tag (links_cons (hv.mono hle) links_nil)
  | _ => exact acts_fail _

theorem links_lengthOf {held held' : Object} (h : r.Links held held') :
    Builtin.lengthOf held' = Builtin.lengthOf held := by
  cases h with
  | array hitems => exact congrArg Except.ok hitems.size
  | dict hentries => exact congrArg Except.ok hentries.dictSize
  | _ => rfl

theorem links_codeOf {held held' : Object} (h : r.Links held held') :
    Builtin.codeOf held' = Builtin.codeOf held := by
  cases h <;> rfl

theorem links_charOf {held held' : Object} (h : r.Links held held') :
    Builtin.charOf held' = Builtin.charOf held := by
  cases h <;> rfl

theorem acts_ofOne (function : Builtin) {body body' : Value → Action Value}
    (hbody : ∀ {v v' : Value}, r.Links v v' → r.Acts (body v) (body' v')) :
    ∀ {args args' : List Value}, r.Links args args' →
      r.Acts (match args with | [v] => body v | _ => Action.fail (.argumentCount function))
        (match args' with | [v] => body' v | _ => Action.fail (.argumentCount function)) := by
  intro args args' h
  cases h with
  | nil => exact acts_fail _
  | cons hv hrest =>
    cases hrest with
    | nil => exact hbody hv
    | cons _ _ => exact acts_fail _

/-- Two calls need only the store and go together, or both need more. -/
inductive ActsAlone (r : Renaming) : Option (Action Value) → Option (Action Value) → Prop
  | none : ActsAlone r none none
  | some {x x' : Action Value} : r.Acts x x' → ActsAlone r (some x) (some x')

/-- Built-in functions without a machine act alike on linked arguments. The result of `id` is
read off the stores, for it is in alike stores only that linked values have the same number. -/
theorem acts_callPlain? (function : Builtin) {args args' : List Value} (h : r.Links args args') :
    r.ActsAlone (function.callPlain? args) (function.callPlain? args') := by
  unfold Builtin.callPlain?
  cases function with
  | len =>
    refine .some (acts_ofOne _ (fun hv => ?_) h)
    refine (acts_load hv).bind fun r₁ _ object object' hobject => ?_
    rw [links_lengthOf hobject]
    exact acts_ofExcept_bind _ fun n => acts_make (.int _)
  | type => exact .some (acts_ofOne _ acts_typeOf h)
  | copy => exact .some (acts_ofOne _ acts_copy h)
  | deepcopy => exact .some (acts_ofOne _ acts_deepCopy h)
  | id =>
    refine .some (acts_ofOne _ (fun {v v'} hv => ?_) h)
    intro s s' hs
    have hmake : r.Acts (Action.make (.int (s.identity v)))
        (Action.make (.int (s'.identity v'))) := by
      rw [hs.identity_eq hv]
      exact acts_make (.int _)
    exact hmake s s' hs
  | assert =>
    refine .some (acts_ofOne _ (fun hv => ?_) h)
    refine (acts_load hv).bind fun r₁ _ object object' hobject => ?_
    rw [hobject.truthy]
    split
    · exact acts_nil
    · exact acts_fail _
  | ord =>
    refine .some (acts_ofOne _ (fun hv => ?_) h)
    refine (acts_load hv).bind fun r₁ _ object object' hobject => ?_
    rw [links_codeOf hobject]
    exact acts_makeExcept (Builtin.yields_codeOf object)
  | chr =>
    refine .some (acts_ofOne _ (fun hv => ?_) h)
    refine (acts_load hv).bind fun r₁ _ object object' hobject => ?_
    rw [links_charOf hobject]
    exact acts_makeExcept (Builtin.yields_charOf object)
  | cast =>
    refine .some ?_
    rcases h with _ | ⟨hv, _ | ⟨htarget, _ | ⟨-, -⟩⟩⟩
    · exact acts_fail _
    · exact acts_fail _
    · exact acts_castTo hv htarget
    · exact acts_fail _
  | setattr =>
    refine .some ?_
    rcases h with _ | ⟨howner, _ | ⟨hkey, _ | ⟨hv, _ | ⟨-, -⟩⟩⟩⟩
    · exact acts_fail _
    · exact acts_fail _
    · exact acts_fail _
    · exact acts_setAttribute howner hkey hv
    · exact acts_fail _
  | getattr =>
    refine .some ?_
    rcases h with _ | ⟨howner, _ | ⟨hkey, _ | ⟨-, -⟩⟩⟩
    · exact acts_fail _
    · exact acts_fail _
    · exact acts_getAttribute howner hkey
    · exact acts_fail _
  | openFile =>
    refine .some ?_
    rcases h with _ | ⟨hpath, _ | ⟨hmode, -⟩⟩
    · exact acts_fail _
    · exact acts_fail _
    · exact acts_openNamed hpath hmode
  | _ => exact .none

end Function

end Renaming

end Stencil
