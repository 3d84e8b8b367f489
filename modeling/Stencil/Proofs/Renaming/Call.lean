import Stencil.Proofs.Renaming.Machine

/-!
Names, attributes and calls of functions up to the names of references: each of them
goes together with itself on linked values, given that the executor of bodies does.
-/

namespace Stencil

namespace Renaming

def Executes (ex : Executor) : Prop := ∀ (r : Renaming) body, r.Runs (ex body) (ex body)

variable {r : Renaming}

/-! Names and attributes. -/

theorem runs_memberTable (module : String) :
    r.Runs (Eval.memberTable module) (Eval.memberTable module) := by
  have hfold : ∀ (entries : List (String × Builtin)) {r : Renaming} {table table' : Dict Value},
      r.Links table table' → r.Runs
        (entries.foldlM (fun table entry => do
          return table.insert entry.1 (← Eval.make (.builtin entry.2))) table)
        (entries.foldlM (fun table entry => do
          return table.insert entry.1 (← Eval.make (.builtin entry.2))) table') := by
    intro entries
    induction entries with
    | nil => exact fun h => runs_pure h
    | cons entry rest ih =>
      intro r table table' h
      rw [List.foldlM_cons, List.foldlM_cons]
      have hbind : r.Runs (do return table.insert entry.1 (← Eval.make (.builtin entry.2)))
          (do return table'.insert entry.1 (← Eval.make (.builtin entry.2))) :=
        (runs_make (.builtin entry.2)).bind fun r₁ hle v v' hv =>
          runs_pure ((h.mono hle).insert entry.1 hv)
      exact hbind.bind fun r₁ hle table table' h => ih h
  exact hfold _ links_empty

theorem runs_offered? (name : String) : r.Runs (Eval.offered? name) (Eval.offered? name) := by
  unfold Eval.offered?
  split
  · exact (runs_make (.builtin _)).bind fun r₁ _ v v' hv => runs_pure (.some hv)
  · exact (runs_make (.type _)).bind fun r₁ _ v v' hv => runs_pure (.some hv)
  · split
    · refine (runs_memberTable name).bind fun r₁ _ table table' htable => ?_
      refine (runs_newScope htable).bind fun r₂ _ scope scope' hscope => ?_
      exact (runs_make (.module name hscope)).bind fun r₃ _ v v' hv => runs_pure (.some hv)
    · exact runs_pure .none

theorem links_or {α : Type} [Renamable α] {found found' other other' : Option α}
    (h : r.Links found found') (h' : r.Links other other') :
    r.Links (found.or other) (found'.or other') := by
  cases h with
  | none => exact h'
  | some h => exact .some h

/-- A name is bound to linked values in machines that are alike. -/
theorem Machines.bound? {m m' : Machine} (h : r.Machines m m') (name : String) :
    r.Links (m.bound? name) (m'.bound? name) :=
  links_or (h.store.lookup h.frame.locals name) (h.store.lookup h.frame.globals name)

theorem runs_lookup (name : String) : r.Runs (Eval.lookup name) (Eval.lookup name) := by
  refine (runs_read fun m m' hm => hm.bound? name).bind fun r₁ _ found found' hfound => ?_
  cases hfound with
  | some hv => exact runs_pure (.some hv)
  | none => exact runs_offered? name

theorem runs_readName (name : String) (pos : Position) :
    r.Runs (Eval.readName name pos) (Eval.readName name pos) := by
  refine (runs_lookup name).bind fun r₁ _ found found' hfound => ?_
  cases hfound with
  | some hv => exact runs_pure hv
  | none =>
    refine runs_read_bind (fun m m' hm => hm.inReference) fun inReference => ?_
    split
    · exact runs_fail _ pos
    · exact runs_fail _ pos

theorem Stores.isMethod {s s' : Store} (h : r.Stores s s') {v v' : Value} (hv : r.Links v v') :
    s'.isMethod v' = s.isMethod v := by
  have hget := h.get hv
  unfold Store.isMethod
  generalize s.get v = object at hget
  generalize s'.get v' = object' at hget
  cases hget <;> rfl

variable {owner owner' v v' : Value}

theorem runs_bindReceiver (howner : r.Links owner owner') (hv : r.Links v v') :
    r.Runs (Eval.bindReceiver owner v) (Eval.bindReceiver owner' v') := by
  refine .bind_same (fun m m' hm => ⟨_, rfl, ?_⟩) fun isMethod => ?_
  · exact congrArg (Outcome.done · m') (hm.store.isMethod hv)
  split
  · exact runs_make (.method howner hv)
  · exact runs_pure hv

theorem Stores.instanceField? {s s' : Store} (h : r.Stores s s') {struct struct' : Value}
    (hstruct : r.Links struct struct') {fields fields' : ScopeId} (hfields : r.Links fields fields')
    (name : String) :
    r.Links (s.instanceField? struct fields name) (s'.instanceField? struct' fields' name) := by
  refine links_or (h.lookup hfields name) ?_
  have hscope := (h.get hstruct).namespace?
  generalize (s.get struct).namespace? = found at hscope
  generalize (s'.get struct').namespace? = found' at hscope
  cases hscope with
  | none => exact .none
  | some hscope => exact h.lookup hscope name

theorem runs_found {found found' : Option Value} (fault : Fault) (pos : Position) :
    r.Links found found' →
    r.Runs (match found with | some v => pure v | none => Eval.fail fault pos)
      (match found' with | some v => pure v | none => Eval.fail fault pos) := by
  intro h
  cases h with
  | none => exact runs_fail fault pos
  | some hv => exact runs_pure hv

theorem runs_getAttr (howner : r.Links owner owner') (name : String) (pos : Position) :
    r.Runs (Eval.getAttr owner name pos) (Eval.getAttr owner' name pos) := by
  refine (runs_load howner).bind fun r₁ hle object object' hobject => ?_
  have howner₁ := howner.mono hle
  have hnatural : ∀ tag : TypeTag, r₁.Runs
      (if Method.has tag name then Eval.make (.method owner (.builtin name))
        else Eval.fail (.noAttribute name tag) pos)
      (if Method.has tag name then Eval.make (.method owner' (.builtin name))
        else Eval.fail (.noAttribute name tag) pos) := by
    intro tag
    split
    · exact runs_make (.byNature name howner₁)
    · exact runs_fail _ pos
  cases hobject with
  | module _ hscope =>
    refine (runs_read fun m m' hm => hm.store.lookup hscope name).bind ?_
    exact fun r₂ _ found found' hfound => runs_found _ pos hfound
  | struct _ _ hfields _ =>
    refine (runs_read fun m m' hm => hm.store.lookup hfields name).bind ?_
    exact fun r₂ _ found found' hfound => runs_found _ pos hfound
  | «instance» hstruct hfields =>
    refine (runs_read fun m m' hm => hm.store.instanceField? hstruct hfields name).bind ?_
    intro r₂ hle₂ found found' hfound
    cases hfound with
    | none => exact runs_fail _ pos
    | some hv => exact runs_bindReceiver (howner₁.mono hle₂) hv
  | _ => exact hnatural _

theorem runs_setAttr (howner : r.Links owner owner') (name : String) (hv : r.Links v v')
    (pos : Position) :
    r.Runs (Eval.setAttr owner name v pos) (Eval.setAttr owner' name v' pos) := by
  refine (runs_load howner).bind fun r₁ hle object object' hobject => ?_
  have hscope := hobject.namespace?
  have hfixed : r₁.Runs (Eval.fail (.fixedAttributes name object.tag) pos : Eval Unit)
      (Eval.fail (.fixedAttributes name object'.tag) pos) := by
    rw [hobject.tag]
    exact runs_fail _ pos
  generalize object.namespace? = found at hscope
  generalize object'.namespace? = found' at hscope
  cases hscope with
  | none => exact hfixed
  | some hscope => exact runs_updateScope hscope fun htable => htable.insert name (hv.mono hle)

/-- Linked places are read alike. -/
theorem runs_placeGet {place place' : Place} (h : r.Links place place') :
    r.Runs place.get place'.get := by
  cases h with
  | named name pos =>
    exact (runs_lookup name).bind fun r₁ _ found found' hfound => runs_found _ pos hfound
  | attr name pos howner => exact runs_getAttr howner name pos
  | index pos howner hkey => exact runs_act (acts_elementAt howner hkey) pos

/-- Linked places are written alike. -/
theorem runs_placeSet {place place' : Place} (h : r.Links place place') (hv : r.Links v v') :
    r.Runs (place.set v) (place'.set v') := by
  cases h with
  | named name pos => exact runs_bindLocal name hv
  | attr name pos howner => exact runs_setAttr howner name hv pos
  | index pos howner hkey => exact runs_act (acts_setElementAt howner hkey hv) pos

/-! Calls. -/

section Calls

variable {ex : Executor} (hex : Executes ex) {callee callee' : Value} {args args' : List Value}

theorem runs_settle {flow flow' : Flow} (h : r.Links flow flow') :
    r.Runs (Eval.settle flow) (Eval.settle flow') := by
  cases h with
  | next => exact runs_pure rfl
  | «break» pos => exact runs_fail _ pos
  | «continue» pos => exact runs_fail _ pos
  | «return» pos _ => exact runs_fail _ pos

theorem runs_returned {flow flow' : Flow} (h : r.Links flow flow') :
    r.Runs (Eval.returned flow) (Eval.returned flow') := by
  cases h with
  | next => exact runs_make .nil
  | «break» pos => exact runs_fail _ pos
  | «continue» pos => exact runs_fail _ pos
  | «return» pos hv => exact runs_pure hv

theorem Stores.isDatum {s s' : Store} (h : r.Stores s s') {v v' : Value} (hv : r.Links v v') :
    s'.isDatum v' = s.isDatum v := by
  have hget := h.get hv
  unfold Store.isDatum
  generalize s.get v = object at hget
  generalize s'.get v' = object' at hget
  cases hget <;> rfl

theorem Stores.dataFields {s s' : Store} (h : r.Stores s s') {fields fields' : ScopeId}
    (hfields : r.Links fields fields') : s'.dataFields fields' = s.dataFields fields := by
  have htable := (h.scope hfields).toList
  unfold Store.dataFields
  generalize (s.scope fields).toList = entries at htable
  generalize (s'.scope fields').toList = entries' at htable
  induction htable with
  | nil => rfl
  | cons hentry _ ih =>
    obtain ⟨name, v, v', rfl, rfl, hv⟩ := hentry.entry
    rw [List.filter_cons, List.filter_cons, h.isDatum hv]
    split
    · rw [List.map_cons, List.map_cons, ih]
    · exact ih

theorem links_top {globals globals' : ScopeId} (h : r.Links globals globals')
    (file : Option String) :
    r.Links (Frame.top globals file) (Frame.top globals' file) :=
  { locals := h
    globals := h
    function := .none
    name := rfl
    injections := links_empty
    file := rfl }

theorem links_ofStruct (name : String) {fields fields' globals globals' : ScopeId}
    (hfields : r.Links fields fields') (hglobals : r.Links globals globals')
    (file : Option String) :
    r.Links (Frame.ofStruct name fields globals file) (Frame.ofStruct name fields' globals' file) :=
  { locals := hfields
    globals := hglobals
    function := .none
    name := rfl
    injections := links_empty
    file := rfl }

include hex

theorem runs_runBody {frame frame' : Frame} (hframe : r.Links frame frame') (body : List Stmt)
    (pos : Position) : r.Runs (Eval.runBody ex frame body pos) (Eval.runBody ex frame' body pos) :=
  .enter hframe pos ((hex r body).bind fun _ _ _ _ hflow => runs_settle hflow)

/-- Linked functions are called alike with linked arguments. -/
theorem runs_callFunction (hcallee : r.Links callee callee') (hargs : r.Links args args')
    (pos : Position) {injections injections' : Dict Injection}
    (hinjections : r.Links injections injections') :
    r.Runs (Eval.callFunction ex callee args pos injections)
      (Eval.callFunction ex callee' args' pos injections') := by
  refine (runs_load hcallee).bind fun r₁ hle object object' hobject => ?_
  cases hobject with
  | function definition file hglobals =>
    dsimp only
    rw [hargs.length]
    split
    · have hnames := links_ofList ((links_strings definition.params).zip (hargs.mono hle))
      refine (runs_newScope hnames).bind fun r₂ hle₂ locals locals' hlocals => ?_
      have hle' := le_trans hle hle₂
      have hframe : r₂.Links (Frame.ofCall callee ⟨definition, _, file⟩ locals injections)
          (Frame.ofCall callee' ⟨definition, _, file⟩ locals' injections') :=
        { locals := hlocals
          globals := hglobals.mono hle₂
          function := .some (hcallee.mono hle')
          name := rfl
          injections := hinjections.mono hle'
          file := rfl }
      refine .enter hframe pos ?_
      exact (hex r₂ _).bind fun _ _ _ _ hflow => runs_returned hflow
    · exact runs_fail _ pos
  | _ => exact runs_fail _ pos

/-- Linked struct types make linked instances. -/
theorem runs_instantiate (hcallee : r.Links callee callee') (hargs : r.Links args args')
    (pos : Position) :
    r.Runs (Eval.instantiate ex callee args pos) (Eval.instantiate ex callee' args' pos) := by
  refine (runs_load hcallee).bind fun r₁ hle object object' hobject => ?_
  cases hobject with
  | struct definition file _ hglobals =>
    refine (runs_newScope links_empty).bind fun r₂ hle₂ fields fields' hfields => ?_
    have hframe := links_ofStruct definition.name hfields (hglobals.mono hle₂) file
    refine (runs_runBody hex hframe definition.body pos).bind fun r₃ hle₃ _ _ _ => ?_
    have hfields₃ := hfields.mono hle₃
    have hargs₃ := hargs.mono (le_trans hle (le_trans hle₂ hle₃))
    have hcallee₃ := hcallee.mono (le_trans hle (le_trans hle₂ hle₃))
    refine .bind_same (fun m m' hm => ⟨_, rfl, ?_⟩) fun names => ?_
    · exact congrArg (Outcome.done · m') (hm.store.dataFields hfields₃)
    refine (runs_updateScope hfields₃ fun htable => ?_).bind fun r₄ hle₄ _ _ _ => ?_
    · exact htable.insertAll ((links_strings names).zip hargs₃)
    · exact runs_make (.instance (hcallee₃.mono hle₄) (hfields₃.mono hle₄))
  | _ => exact runs_fail _ pos

end Calls

/-! Functions that extend others. -/

theorem Stores.baseOf {s s' : Store} (h : r.Stores s s') {globals globals' : ScopeId}
    (hglobals : r.Links globals globals') (definition : FunctionDef) (file : Option String) :
    r.Links (s.baseOf ⟨definition, globals, file⟩) (s'.baseOf ⟨definition, globals', file⟩) := by
  unfold Store.baseOf
  dsimp only
  split
  · exact .error _
  · have hfound := h.lookup hglobals ‹String›
    generalize s.lookup globals _ = found at hfound
    generalize s'.lookup globals' _ = found' at hfound
    cases hfound with
    | none => exact .error _
    | @some v v' hv =>
      have hget := h.get hv
      dsimp only
      generalize s.get v = object at hget
      generalize s'.get v' = object' at hget
      cases hget with
      | function _ _ _ => exact .ok hv
      | _ => exact .error _

theorem Stores.declaresBlock {s s' : Store} (h : r.Stores s s') {v v' : Value} (hv : r.Links v v')
    (block : String) : s'.declaresBlock v' block = s.declaresBlock v block := by
  have hget := h.get hv
  unfold Store.declaresBlock
  generalize s.get v = object at hget
  generalize s'.get v' = object' at hget
  cases hget <;> rfl

theorem Stores.ancestorDeclares {s s' : Store} (h : r.Stores s s') (block : String)
    (generations : Nat) {v v' : Value} (hv : r.Links v v') :
    s'.ancestorDeclares block generations v' = s.ancestorDeclares block generations v := by
  induction generations generalizing v v' with
  | zero => rfl
  | succ generations ih =>
    have hget := h.get hv
    rw [Store.ancestorDeclares, Store.ancestorDeclares]
    generalize s.get v = object at hget
    generalize s'.get v' = object' at hget
    cases hget with
    | function definition file hglobals =>
      dsimp only
      split
      · rfl
      · have hbase := h.baseOf hglobals definition file
        generalize s.baseOf _ = found at hbase
        generalize s'.baseOf _ = found' at hbase
        cases hbase with
        | error fault => rfl
        | ok hbase =>
          dsimp only
          rw [h.declaresBlock hbase, ih hbase]
    | _ => rfl

/-- A call of `super` finds linked ancestors. -/
theorem runs_callSuper {ex : Executor} (hex : Executes ex) {args args' : List Value}
    (hargs : r.Links args args') (pos : Position) :
    r.Runs (Eval.callSuper ex args pos) (Eval.callSuper ex args' pos) := by
  refine (runs_read fun m m' hm => hm.frame.function).bind fun r₁ hle₁ found found' hfound => ?_
  cases hfound with
  | none => exact runs_fail _ pos
  | some hfunction =>
    refine (runs_load hfunction).bind fun r₂ hle₂ object object' hobject => ?_
    cases hobject with
    | function definition file hglobals =>
      refine (runs_read fun m m' hm => hm.store.baseOf hglobals definition file).bind ?_
      intro r₃ hle₃ base base' hbase
      cases hbase with
      | error fault => exact runs_fail _ pos
      | ok hbase =>
        refine (runs_read fun m m' hm => hm.frame.injections).bind ?_
        intro r₄ hle₄ injections injections' hinjections
        have hle := le_trans hle₁ (le_trans hle₂ (le_trans hle₃ hle₄))
        exact runs_callFunction hex (hbase.mono hle₄) (hargs.mono hle) pos hinjections
    | _ => exact runs_fail _ pos

end Renaming

end Stencil
