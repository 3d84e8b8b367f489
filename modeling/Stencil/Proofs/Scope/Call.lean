import Stencil.Eval.Call
import Stencil.Eval.Override
import Stencil.Eval.Place
import Stencil.Proofs.Scope.Operation
import Stencil.Proofs.Scope.Run

/-!
Names, attributes and calls keep to a policy. What names are bound to is read from
the tables of the active frame; attributes are read through values. A function
that is called has a new table for its locals, to which no value refers yet, so
its body runs under a policy by which that table is secret too. Bodies of structs
and danced programs run in a new table as well, but values may come to refer to it.

Calls read no table of the frame they are made in, and write to it only through
`extract`.
-/

namespace Stencil

/-- No module of the library offers `setattr`. -/
theorem Builtin.ne_setattr_of_mem_members {module : String} {entry : String × Builtin}
    (h : entry ∈ Builtin.members module) : entry.2 ≠ .setattr := by
  unfold Builtin.members at h
  split at h <;> simp at h
  · simp [h]
  · rcases h with rfl | rfl | rfl <;> simp

namespace Policy

variable {mode : Mode} {p : Policy mode} {rule : FrameRule} {m₁ m₂ : Machine}

/-! Names and attributes. -/

theorem secures_memberTable (module : String) : p.Secures rule (Eval.memberTable module) := by
  unfold Eval.memberTable
  have hmembers := fun entry => @Builtin.ne_setattr_of_mem_members module entry
  generalize (Dict.empty : Dict Value) = table
  generalize Builtin.members module = entries at hmembers
  induction entries generalizing table with
  | nil => exact secures_pure _
  | cons entry rest ih =>
    rw [List.foldlM_cons]
    refine Secures.bind ?_ fun table' => ?_
    · refine Secures.bind (fun m₁ m₂ h => runs_make h ?_) fun v => secures_pure _
      exact admits_builtin fun _ => hmembers entry (List.mem_cons_self ..)
    · exact ih table' fun e he => hmembers e (List.mem_cons_of_mem _ he)

theorem secures_offered? {name : String} (hname : mode.Allows (name != "setattr")) :
    p.Secures rule (Eval.offered? name) := by
  unfold Eval.offered?
  split
  · next function hfunction =>
    have hadmits : ∀ n, p.Admits n (.builtin function) := by
      refine fun n => admits_builtin fun hmode => ?_
      rintro rfl
      have heq := Builtin.name_of_ofName? hfunction
      have hne := hname hmode
      rw [← heq] at hne
      exact absurd hne (by decide)
    exact Secures.bind (fun m₁ m₂ h => runs_make h (hadmits _)) fun v => secures_pure _
  · exact Secures.bind (secures_make rfl) fun v => secures_pure _
  · split
    · refine Secures.bind (secures_memberTable name) fun table m₁ m₂ h => ?_
      refine (runs_newScope h table).bind fun scope m₁ m₂ h _ hscope => ?_
      have hadmits : p.Admits m₁.store.scopes.size (.module name scope) :=
        admits_of_tables_eq rfl (links_of_base_le hscope.1 hscope.2)
      exact (runs_make h hadmits).bind fun v m₁ m₂ h _ _ => secures_pure _ m₁ m₂ h
    · exact secures_pure _

theorem Ready.bound? (h : p.Ready p.admitting m₁ m₂) (name : String) :
    m₂.bound? name = m₁.bound? name := by
  have hrule : p.AdmitsFrame m₁.store.scopes.size m₁.frame := h.rule
  unfold Machine.bound?
  rw [h.frame, h.store.lookup hrule.own.readable, h.store.lookup hrule.own.globals.not_hidden]

/-- A name may be looked up unless it is the one of `setattr` and attributes may not be set. -/
theorem secures_lookup {name : String} (hname : mode.Allows (name != "setattr")) :
    p.Secures p.admitting (Eval.lookup name) := by
  unfold Eval.lookup
  refine Secures.bind (secures_read fun _ _ h => h.bound? name) fun found => ?_
  cases found with
  | none => exact secures_offered? hname
  | some v => exact secures_pure _

theorem secures_readName {name : String} (hname : mode.Allows (name != "setattr"))
    (pos : Position) : p.Secures p.admitting (Eval.readName name pos) := by
  unfold Eval.readName
  refine Secures.bind (secures_lookup hname) fun found => ?_
  cases found with
  | some v => exact secures_pure _
  | none =>
    refine Secures.bind (secures_read fun _ _ h => h.inReference) fun inReference => ?_
    split
    · exact secures_fail _ pos
    · exact secures_fail _ pos

theorem secures_bindReceiver (receiver v : Value) :
    p.Secures rule (Eval.bindReceiver receiver v) := by
  unfold Eval.bindReceiver
  refine Secures.bind (secures_read fun m₁ m₂ h => ?_) fun isMethod => ?_
  · simp only [Store.isMethod, h.store.get v]
  · split
    · exact secures_make rfl
    · exact secures_pure _

/-- An attribute that is found in a table, or is missing. -/
theorem runs_found (h : p.Ready rule m₁ m₂) {f : Machine → Option Value} (hf : f m₂ = f m₁)
    {present : Value → Eval Value} {missing : Eval Value}
    (hpresent : ∀ v, p.Secures rule (present v)) (hmissing : p.Secures rule missing) :
    p.Runs rule (do
      match ← Eval.read f with
      | some v => present v
      | none => missing) m₁ m₂ fun _ _ => True := by
  refine runs_read_bind hf ?_
  cases f m₁ with
  | some v => exact hpresent v m₁ m₂ h
  | none => exact hmissing m₁ m₂ h

theorem secures_getAttr (owner : Value) (name : String) (pos : Position) :
    p.Secures rule (Eval.getAttr owner name pos) := by
  intro m₁ m₂ h
  refine runs_load_bind h owner fun object hadmits => ?_
  split
  · refine runs_found h (h.store.lookup ?_ name) (fun v => secures_pure v) (secures_fail _ pos)
    exact (hadmits.links_namespace rfl).not_hidden
  · refine runs_found h (h.store.lookup ?_ name) (fun v => secures_pure v) (secures_fail _ pos)
    exact (hadmits.links_namespace rfl).not_hidden
  · next struct fields =>
    refine runs_found h ?_ (secures_bindReceiver owner) (secures_fail _ pos)
    have hstruct := h.store.admits struct
    unfold Store.instanceField?
    rw [h.store.lookup (hadmits.links_namespace rfl).not_hidden, h.store.get struct]
    congr 1
    cases hscope : (m₁.store.get struct).namespace? with
    | none => rfl
    | some scope => exact h.store.lookup (hstruct.links_namespace hscope).not_hidden name
  · split
    · exact secures_make rfl m₁ m₂ h
    · exact secures_fail _ pos m₁ m₂ h

theorem secures_setAttr (hmode : mode = .separate) (owner : Value) (name : String) (v : Value)
    (pos : Position) : p.Secures rule (Eval.setAttr owner name v pos) := by
  intro m₁ m₂ h
  refine runs_load_bind h owner fun object hadmits => ?_
  split
  · next scope hscope =>
    exact runs_updateScope h ((hadmits.links_namespace hscope).not_frozen hmode) _
  · exact secures_fail _ pos m₁ m₂ h

end Policy

def Place.keepsAttributes : Place → Bool
  | .named name _ => name != "setattr"
  | .attr .. => false
  | .index .. => true

def Place.isAttribute : Place → Bool
  | .attr .. => true
  | _ => false

namespace Policy

variable {mode : Mode} {p : Policy mode} {rule : FrameRule} {m₁ m₂ : Machine}

theorem secures_placeGet {place : Place} (hplace : mode.Allows place.keepsAttributes) :
    p.Secures p.admitting place.get := by
  cases place with
  | named name pos =>
    refine Secures.bind (secures_lookup hplace) fun found => ?_
    cases found with
    | some v => exact secures_pure _
    | none => exact secures_fail _ pos
  | attr owner name pos => exact secures_getAttr owner name pos
  | index owner key pos => exact secures_act pos (honoured_elementAt owner key)

/-- An attribute is written only if attributes may be set. -/
theorem secures_placeSet {place : Place} (hplace : place.isAttribute = true → mode = .separate)
    (v : Value) : p.Secures p.admitting (place.set v) := by
  cases place with
  | named name pos => exact secures_bindLocal name v
  | attr owner name pos => exact secures_setAttr (hplace rfl) owner name v pos
  | index owner key pos => exact secures_act pos (honoured_setElementAt owner key v)

/-! Bodies in a table of their own. -/

def Obeyed (mode : Mode) (ex : Executor) : Prop :=
  ∀ body (p : Policy mode), p.Secures p.admitting (ex body)

theorem secures_settle (flow : Flow) : p.Secures rule (Eval.settle flow) := by
  cases flow with
  | next => exact secures_pure _
  | «break» pos => exact secures_fail _ pos
  | «continue» pos => exact secures_fail _ pos
  | «return» v pos => exact secures_fail _ pos

theorem secures_returned (flow : Flow) : p.Secures rule (Eval.returned flow) := by
  cases flow with
  | next => exact secures_make rfl
  | «break» pos => exact secures_fail _ pos
  | «continue» pos => exact secures_fail _ pos
  | «return» v pos => exact secures_pure v

/-- The policy for the body of a call whose locals are the next table. -/
def forCall (p : Policy mode) (n : Nat) : Policy mode where
  base := max p.base (n + 1)
  secret id := p.secret id ∨ id.index = n
  hidden := p.hidden
  frozen := p.frozen
  below id h := by
    rcases h with (hsecret | heq) | hhidden | hfrozen
    · exact Nat.lt_of_lt_of_le (p.below id (Or.inl hsecret)) (Nat.le_max_left ..)
    · omega
    · exact Nat.lt_of_lt_of_le (p.below id (Or.inr (Or.inl hhidden))) (Nat.le_max_left ..)
    · exact Nat.lt_of_lt_of_le (p.below id (Or.inr (Or.inr hfrozen))) (Nat.le_max_left ..)
  secret_of_hidden id h := ⟨(p.secret_of_hidden id h).1, Or.inl (p.secret_of_hidden id h).2⟩
  secret_of_frozen id h hmode := Or.inl (p.secret_of_frozen id h hmode)

theorem refines_forCall (n : Nat) : Refines (p.forCall n) p :=
  ⟨Nat.le_max_left .., fun _ h => Or.inl h, fun _ h => h, fun _ h => h⟩

/-- No value refers to a table that was not there. -/
theorem Links.forCall {n : Nat} {id : ScopeId} (h : p.Links n id) :
    (p.forCall n).Links (n + 1) id := by
  intro hmode
  obtain ⟨hlt, hsecret⟩ := h hmode
  refine ⟨Nat.lt_succ_of_lt hlt, ?_⟩
  rintro (hsecret' | heq)
  · exact hsecret hsecret'
  · omega

/-- Alike stores are alike for a call whose locals are the new table. -/
theorem AlikeStores.forCall {s₁ s₂ : Store} (h : p.AlikeStores s₁ s₂) (names : Dict Value) :
    (p.forCall s₁.scopes.size).AlikeStores (s₁.newScope names).2 (s₂.newScope names).2 where
  objects := h.objects
  files := h.files
  first := h.first
  size := (h.newScope names).size
  base_le := by
    rw [Store.size_newScope]
    exact Nat.max_le.mpr ⟨Nat.le_succ_of_le h.base_le, Nat.le_refl _⟩
  scope := (h.newScope names).scope
  admits v := by
    rw [Store.size_newScope]
    exact ⟨fun id hid => ((h.admits v).links id hid).forCall, (h.admits v).builtin⟩

theorem Hosts.forCall {n : Nat} {locals globals : ScopeId} {function : Option Value}
    (h : p.Hosts n locals globals function) :
    (p.forCall n).Hosts (n + 1) locals globals function :=
  ⟨h.readable, h.writable, h.globals.forCall, fun hmode hsome => Or.inl (h.secret hmode hsome)⟩

theorem admitsInjections_empty (n : Nat) : p.AdmitsInjections n .empty := by
  intro name injection hfound
  cases hfound

theorem admitsFrame_ofCall {n : Nat} (hbase : p.base ≤ n) (callee : Value) {f : Function}
    (hf : p.Admits n (.function f)) {injections : Dict Injection}
    (hinjections : p.AdmitsInjections n injections) :
    (p.forCall n).AdmitsFrame (n + 1) (.ofCall callee f ⟨n⟩ injections) where
  own :=
    { readable := not_hidden_of_base_le (p := p) hbase
      writable := not_frozen_of_base_le (p := p) hbase
      globals := (hf.links _ (List.mem_singleton.mpr rfl)).forCall
      secret := fun _ _ => Or.inr rfl }
  injections name injection hfound := (hinjections name injection hfound).forCall

/-- A table that the policy does not know, for a body that is no function's. -/
theorem admitsFrame_plain {n : Nat} {frame : Frame} (hbase : p.base ≤ frame.locals.index)
    (hglobals : p.Links n frame.globals) (hfunction : frame.function = none)
    (hinjections : frame.injections = .empty) : p.AdmitsFrame n frame where
  own :=
    { readable := not_hidden_of_base_le hbase
      writable := not_frozen_of_base_le hbase
      globals := hglobals
      secret := by simp [hfunction] }
  injections := by
    rw [hinjections]
    exact admitsInjections_empty n

section Call

variable {ex : Executor} (hex : Obeyed mode ex)

include hex

/-- A call keeps to the policy. Its locals are the last table, so no value refers to them when
its body begins. -/
theorem runs_callFunction (h : p.Ready rule m₁ m₂) (callee : Value) (args : List Value)
    (pos : Position) {injections : Dict Injection}
    (hinjections : p.AdmitsInjections m₁.store.scopes.size injections) :
    p.Runs rule (Eval.callFunction ex callee args pos injections) m₁ m₂ fun _ _ => True := by
  refine runs_load_bind h callee fun object hadmits => ?_
  split
  · next f =>
    dsimp only
    split
    · generalize Dict.ofList (f.definition.params.zip args) = names
      have hkeeps := h.store.keepsStore_newScope names
      have hbody := Secures.bind (hex f.definition.body (p.forCall m₁.store.scopes.size))
        fun flow => secures_returned flow
      have hframe := admitsFrame_ofCall h.store.base_le callee hadmits hinjections
      rw [← Store.size_newScope m₁.store names] at hframe
      refine Agrees.after ?_ (.ofStore hkeeps)
      change p.Agrees rule _ _ (Eval.enter _ pos _ _)
        (Eval.enter (.ofCall callee f (m₂.store.newScope names).1 injections) pos _ _)
      rw [h.store.newScope_id]
      refine runs_enter_of_refines (refines_forCall _)
        (h.withStore (h.store.newScope names) hkeeps) _ pos (hbody _ _ ?_)
      exact ⟨⟨h.store.forCall names, h.context, rfl, congrArg (· + 1) h.depth, rfl, h.library⟩,
        hframe⟩
    · exact secures_fail _ pos m₁ m₂ h
  · exact secures_fail _ pos m₁ m₂ h

theorem runs_runBody (h : p.Ready rule m₁ m₂) {frame : Frame} (body : List Stmt) (pos : Position)
    (hframe : p.AdmitsFrame m₁.store.scopes.size frame) :
    p.Runs rule (Eval.runBody ex frame body pos) m₁ m₂ fun _ _ => True :=
  runs_enter h pos hframe (Secures.bind (hex body p) secures_settle)

theorem secures_instantiate (callee : Value) (args : List Value) (pos : Position) :
    p.Secures rule (Eval.instantiate ex callee args pos) := by
  intro m₁ m₂ h
  refine runs_load_bind h callee fun object hadmits => ?_
  split
  · next type =>
    have hglobals : p.Links m₁.store.scopes.size type.globals :=
      hadmits.links _ (List.mem_cons_of_mem _ (List.mem_singleton.mpr rfl))
    refine (runs_newScope h .empty).bind ?_
    rintro fields n₁ n₂ hn hkeeps ⟨hbase, hlt⟩
    have hframe : p.AdmitsFrame n₁.store.scopes.size
        (.ofStruct type.definition.name fields type.globals type.file) :=
      admitsFrame_plain hbase (hglobals.mono hkeeps.store.size_le) rfl rfl
    refine (runs_runBody hex hn _ pos hframe).bind fun _ k₁ k₂ hk hkeeps' _ => ?_
    have hlt' : fields.index < k₁.store.scopes.size :=
      Nat.lt_of_lt_of_le hlt hkeeps'.store.size_le
    have hnames : k₂.store.dataFields fields = k₁.store.dataFields fields := by
      unfold Store.dataFields Store.isDatum
      simp only [hk.store.scope fields (not_hidden_of_base_le hbase), hk.store.get]
    refine runs_read_bind hnames ?_
    refine (runs_updateScope hk (not_frozen_of_base_le hbase) _).bind ?_
    intro _ l₁ l₂ hl hkeeps'' _
    refine runs_make hl (admits_of_tables_eq rfl (links_of_base_le hbase ?_))
    exact Nat.lt_of_lt_of_le hlt' hkeeps''.store.size_le
  · exact secures_fail _ pos m₁ m₂ h

end Call

end Policy

end Stencil
