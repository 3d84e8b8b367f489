import Stencil.Proofs.Scope.Attribute
import Stencil.Proofs.Scope.Builtin

/-!
Every construct of the language keeps to a policy if the evaluator of its operands
and the executor of the bodies it comes to do. Assignments write to the locals of
the active frame, or through values; definitions refer to its globals; a module
has a table of its own. Blocks and injections stay within the tables of the
frames that registered them. By induction on the fuel the whole evaluator keeps
to every policy, on all code if values refer to no secret table, and otherwise on
code that sets no attributes.
-/

namespace Stencil.Policy

variable {mode : Mode} {p : Policy mode} {m₁ m₂ : Machine}

section Expression

variable {ev : Evaluator}
  (hev : ∀ e, mode.Allows e.keepsAttributes → p.Secures p.admitting (ev e))

include hev

theorem secures_evalEach {items : List Expr} (h : ∀ e ∈ items, mode.Allows e.keepsAttributes) :
    p.Secures p.admitting (Eval.evalEach ev items) := by
  induction items with
  | nil => exact secures_pure _
  | cons e rest ih =>
    obtain ⟨he, hrest⟩ := List.forall_mem_cons.mp h
    exact Secures.bind (hev e he) fun v => Secures.bind (ih hrest) fun vs => secures_pure _

theorem secures_evalEntries (pos : Position) (table : Dict Value) {entries : List (Expr × Expr)}
    (h : mode.Allows (Expr.entriesKeep entries)) :
    p.Secures p.admitting (Eval.evalEntries ev pos table entries) := by
  induction entries generalizing table with
  | nil => exact secures_pure _
  | cons entry rest ih =>
    obtain ⟨key, item⟩ := entry
    rw [Expr.entriesKeep, Mode.allows_and, Mode.allows_and] at h
    obtain ⟨⟨hkey, hitem⟩, hrest⟩ := h
    unfold Eval.evalEntries
    refine Secures.bind (hev key hkey) fun k => Secures.bind (secures_load k) fun object => ?_
    split
    · exact secures_failAt? _ _
    · next name _ => exact Secures.bind (hev item hitem) fun v => ih (table.insert name v) hrest

theorem secures_combineAll (acc : Value) {rest : List (ArithOp × Expr × Position)}
    (h : ∀ step ∈ rest, mode.Allows step.2.1.keepsAttributes) :
    p.Secures p.admitting (Eval.combineAll ev acc rest) := by
  induction rest generalizing acc with
  | nil => exact secures_pure _
  | cons step rest ih =>
    obtain ⟨op, operand, pos⟩ := step
    obtain ⟨hstep, hrest⟩ := List.forall_mem_cons.mp h
    refine Secures.bind (hev operand hstep) fun v => ?_
    exact Secures.bind (secures_act pos (honoured_arith op acc v)) fun acc' => ih acc' hrest

theorem secures_compareAll (acc : Value) {rest : List (CompOp × Expr × Position)}
    (h : ∀ step ∈ rest, mode.Allows step.2.1.keepsAttributes) :
    p.Secures p.admitting (Eval.compareAll ev acc rest) := by
  induction rest generalizing acc with
  | nil => exact secures_pure _
  | cons step rest ih =>
    obtain ⟨op, operand, pos⟩ := step
    obtain ⟨hstep, hrest⟩ := List.forall_mem_cons.mp h
    refine Secures.bind (hev operand hstep) fun v => ?_
    refine Secures.bind (secures_act pos (honoured_compare op acc v)) fun holds => ?_
    exact Secures.bind (secures_make rfl) fun acc' => ih acc' hrest

theorem secures_decideAll (stop : Bool) {items : List Expr}
    (h : ∀ e ∈ items, mode.Allows e.keepsAttributes) :
    p.Secures p.admitting (Eval.decideAll ev stop items) := by
  induction items with
  | nil => exact secures_make rfl
  | cons e rest ih =>
    obtain ⟨he, hrest⟩ := List.forall_mem_cons.mp h
    cases rest with
    | nil => exact hev e he
    | cons next rest =>
      unfold Eval.decideAll
      refine Secures.bind (hev e he) fun v => Secures.bind (secures_isTruthy v) fun truthy => ?_
      split
      · exact secures_pure _
      · exact ih hrest

/-! Assignments. -/

/-- A target means a place that is no attribute unless the target is one. -/
theorem runs_placeOf (h : p.Ready p.admitting m₁ m₂) {target : Expr}
    (htarget : mode.Allows target.keepsAsTarget) :
    p.Runs p.admitting (Eval.placeOf ev target) m₁ m₂ fun place _ =>
      mode.Allows place.keepsAttributes ∧
        (place.isAttribute = true → target.isAttribute = true) := by
  rw [Expr.keepsAsTarget, Mode.allows_and] at htarget
  obtain ⟨hkeeps, hattribute⟩ := htarget
  unfold Eval.placeOf
  split
  · next name pos =>
    rw [Expr.keepsAttributes] at hkeeps
    exact .done h (.refl m₁) ⟨hkeeps, fun hset => absurd hset Bool.false_ne_true⟩
  · next head links =>
    rw [Expr.keepsAttributes, Mode.allows_and, Mode.allows_linksKeep] at hkeeps
    obtain ⟨hhead, hlinks⟩ := hkeeps
    split
    · exact runs_failWith h _ _
    · next link hlast =>
      have howner : mode.Allows (Expr.chain head links.dropLast).keepsAttributes := by
        rw [Expr.keepsAttributes, Mode.allows_and, Mode.allows_linksKeep]
        exact ⟨hhead, fun l hl => hlinks l (List.dropLast_subset _ hl)⟩
      refine (hev _ howner m₁ m₂ h).bind fun owner n₁ n₂ hn _ _ => ?_
      have hlink := hlinks link (List.mem_of_getLast? hlast)
      cases link with
      | attr name pos =>
        have hset : (Expr.chain head links).isAttribute = true := by
          simp [Expr.isAttribute, hlast]
        refine .done hn (.refl n₁) ⟨fun hmode => ?_, fun _ => hset⟩
        have hnot := hattribute hmode
        simp [hset] at hnot
      | index key pos =>
        refine (hev key hlink n₁ n₂ hn).bind fun k k₁ k₂ hk _ _ => ?_
        exact .done hk (.refl k₁) ⟨fun _ => rfl, fun hset => absurd hset Bool.false_ne_true⟩
      | call args pos => exact runs_failWith hn _ _
  · exact runs_failWith h _ _

/-- An assignment keeps to the policy if the policy's mode allows the target. -/
theorem secures_assign (v : Value) {target : Expr} (htarget : mode.AllowsTarget target) :
    p.Secures p.admitting (Eval.assign ev v target) := by
  intro m₁ m₂ h
  refine (runs_placeOf hev h htarget.keeps).bind fun place n₁ n₂ hn _ hplace => ?_
  exact secures_placeSet (fun hset => htarget.separate (hplace.2 hset)) v n₁ n₂ hn

theorem secures_assignEach (v : Value) {targets : List Expr}
    (h : ∀ target ∈ targets, mode.AllowsTarget target) :
    p.Secures p.admitting (Eval.assignEach ev v targets) := by
  induction targets with
  | nil => exact secures_pure _
  | cons target rest ih =>
    obtain ⟨htarget, hrest⟩ := List.forall_mem_cons.mp h
    exact Secures.bind (secures_assign hev v htarget) fun _ => ih hrest

theorem secures_assignPairs {pairs : List (Expr × Value)}
    (h : ∀ pair ∈ pairs, mode.AllowsTarget pair.1) :
    p.Secures p.admitting (Eval.assignPairs ev pairs) := by
  induction pairs with
  | nil => exact secures_pure _
  | cons pair rest ih =>
    obtain ⟨target, v⟩ := pair
    obtain ⟨htarget, hrest⟩ := List.forall_mem_cons.mp h
    exact Secures.bind (secures_assign hev v htarget) fun _ => ih hrest

theorem secures_assignSpread {targets : List Expr}
    (h : ∀ target ∈ targets, mode.AllowsTarget target) (v : Value) :
    p.Secures p.admitting (Eval.assignSpread ev targets v) := by
  unfold Eval.assignSpread
  refine Secures.bind (secures_load v) fun object => ?_
  split
  · split
    · refine secures_assignPairs hev fun pair hpair => ?_
      exact h pair.1 (List.of_mem_zip hpair).1
    · exact secures_failAt? _ _
  · exact secures_failAt? _ _

theorem secures_assignList (v : Value) {targets : List Expr}
    (h : ∀ target ∈ targets, mode.AllowsTarget target) :
    p.Secures p.admitting (Eval.assignList ev v targets) := by
  unfold Eval.assignList
  split
  · exact secures_assign hev v (h _ (List.mem_singleton.mpr rfl))
  · exact secures_assignSpread hev h v

theorem secures_assignLists (v : Value) {lists : List (List Expr)}
    (h : ∀ targets ∈ lists, ∀ target ∈ targets, mode.AllowsTarget target) :
    p.Secures p.admitting (Eval.assignLists ev v lists) := by
  induction lists with
  | nil => exact secures_pure _
  | cons targets rest ih =>
    obtain ⟨htargets, hrest⟩ := List.forall_mem_cons.mp h
    exact Secures.bind (secures_assignList hev v htargets) fun _ => ih hrest

theorem secures_evalList {items : List Expr} (h : ∀ e ∈ items, mode.Allows e.keepsAttributes) :
    p.Secures p.admitting (Eval.evalList ev items) := by
  unfold Eval.evalList
  split
  · exact hev _ (h _ (List.mem_singleton.mpr rfl))
  · exact Secures.bind (secures_evalEach hev h) fun vs => secures_make rfl

theorem secures_evalChains (last : Value) {chains : List (List Expr)}
    (h : ∀ chain ∈ chains, (∀ e ∈ chain, mode.Allows e.keepsAttributes) ∧
      ∀ target ∈ chain.dropLast, mode.AllowsTarget target) :
    p.Secures p.admitting (Eval.evalChains ev last chains) := by
  induction chains generalizing last with
  | nil => exact secures_pure _
  | cons chain rest ih =>
    obtain ⟨hchain, hrest⟩ := List.forall_mem_cons.mp h
    unfold Eval.evalChains
    split
    · exact ih last hrest
    · next value hvalue =>
      refine Secures.bind (hev value (hchain.1 value (List.mem_of_getLast? hvalue))) fun v => ?_
      refine Secures.bind (secures_assignEach hev v fun target htarget => ?_) fun _ => ih v hrest
      exact hchain.2 target (List.mem_reverse.mp htarget)

theorem secures_evalFormula {formula : Formula} (h : mode.AllowsFormula formula) :
    p.Secures p.admitting (Eval.evalFormula ev formula) := by
  cases formula with
  | assignments chains =>
    exact Secures.bind (secures_make rfl) fun last => secures_evalChains hev last h
  | parallel lists =>
    simp only [Eval.evalFormula]
    split
    · exact secures_make rfl
    · next values hvalues =>
      refine Secures.bind (secures_evalList hev (h.1 values (List.mem_of_getLast? hvalues))) ?_
      intro v
      refine Secures.bind (secures_assignLists hev v fun targets htargets => ?_) fun _ =>
        secures_pure _
      exact h.2 targets (List.mem_reverse.mp htargets)

theorem secures_runClause {clause : Option Formula} (h : ∀ f ∈ clause, mode.AllowsFormula f) :
    p.Secures p.admitting (Eval.runClause ev clause) := by
  cases clause with
  | none => exact secures_pure _
  | some formula =>
    exact Secures.bind (secures_evalFormula hev (h formula rfl)) fun _ => secures_pure _

theorem secures_goesOn {clause : Option Formula} (h : ∀ f ∈ clause, mode.AllowsFormula f) :
    p.Secures p.admitting (Eval.goesOn ev clause) := by
  cases clause with
  | none => exact secures_pure _
  | some formula => exact Secures.bind (secures_evalFormula hev (h formula rfl)) secures_isTruthy

theorem secures_execReference {formula : Formula} (h : mode.AllowsFormula formula) :
    p.Secures p.admitting (Eval.execReference ev formula) := by
  unfold Eval.execReference
  refine Secures.bind (secures_evalFormula hev h).inReferenceBlock fun v => ?_
  exact Secures.bind (secures_load v) fun object => secures_writeOut _

variable {ex : Executor} (hex : Obeyed mode ex)

include hex

/-- Each link of a chain is allowed for itself, so the induction is on the links. -/
theorem secures_follow (hmode : mode ≠ .guarded) (v : Value) {links : List Link}
    (h : ∀ link ∈ links, mode.allowsLink link) :
    p.Secures p.admitting (Eval.follow ev ex v links) := by
  induction links generalizing v with
  | nil => exact secures_pure _
  | cons link rest ih =>
    obtain ⟨hlink, hrest⟩ := List.forall_mem_cons.mp h
    cases link with
    | attr name pos =>
      exact Secures.bind (secures_getAttr v name pos) fun v' => ih v' hrest
    | index key pos =>
      refine Secures.bind (hev key hlink) fun k => ?_
      exact Secures.bind (secures_act pos (honoured_elementAt v k)) fun v' => ih v' hrest
    | call args pos =>
      refine Secures.bind (secures_evalEach hev hlink) fun vs => ?_
      refine Secures.bind (secures_callValue hex hmode writes_admitting v vs pos) fun v' => ?_
      exact ih v' hrest

theorem secures_evalChain (hmode : mode ≠ .guarded) {head : Expr} {links : List Link}
    (hhead : mode.Allows head.keepsAttributes) (hlinks : ∀ link ∈ links, mode.allowsLink link) :
    p.Secures p.admitting (Eval.evalChain ev ex head links) := by
  unfold Eval.evalChain
  split
  · obtain ⟨hargs, hrest⟩ := List.forall_mem_cons.mp hlinks
    refine Secures.bind (secures_evalEach hev hargs) fun vs => ?_
    exact Secures.bind (secures_callSuper hex vs _) fun v => secures_follow hev hex hmode v hrest
  · exact Secures.bind (hev _ hhead) fun v => secures_follow hev hex hmode v hlinks

theorem secures_evalStep {e : Expr} (hmode : mode = .guarded → e.isInert = true)
    (h : mode.Allows e.keepsAttributes) : p.Secures p.admitting (Eval.evalStep ev ex e) := by
  cases e with
  | nil => exact secures_make rfl
  | bool value => exact secures_make rfl
  | int value => exact secures_make rfl
  | float value => exact secures_make rfl
  | str content => exact secures_make rfl
  | ident name pos =>
    rw [Expr.keepsAttributes] at h
    exact secures_readName h pos
  | array items pos =>
    rw [Expr.keepsAttributes, Mode.allows_itemsKeep] at h
    exact Secures.bind (secures_evalEach hev h) fun vs => secures_make rfl
  | dict entries pos =>
    rw [Expr.keepsAttributes] at h
    exact Secures.bind (secures_evalEntries hev pos .empty h) fun table => secures_make rfl
  | super pos => exact secures_fail _ pos
  | chain head links =>
    rw [Expr.keepsAttributes, Mode.allows_and, Mode.allows_linksKeep] at h
    exact secures_evalChain hev hex (fun hguarded => nomatch hmode hguarded) h.1 h.2
  | negative operand pos =>
    rw [Expr.keepsAttributes] at h
    exact Secures.bind (hev operand h) fun v => secures_act pos (honoured_negate v)
  | arith first rest =>
    rw [Expr.keepsAttributes, Mode.allows_and, Mode.allows_stepsKeep] at h
    exact Secures.bind (hev first h.1) fun v => secures_combineAll hev v h.2
  | augment target rest =>
    rw [Expr.keepsAttributes, Mode.allows_and, Mode.allows_stepsKeep] at h
    have htarget := Mode.allowsTarget_of_keepsAsTarget (fun hguarded => nomatch hmode hguarded) h.1
    intro m₁ m₂ hready
    refine (runs_placeOf hev hready h.1).bind fun place n₁ n₂ hn _ hplace => ?_
    refine Secures.bind (secures_placeGet hplace.1) (fun old => ?_) n₁ n₂ hn
    refine Secures.bind (secures_combineAll hev old h.2) fun v => ?_
    refine Secures.bind (secures_placeSet (fun hset => ?_) v) fun _ => secures_pure _
    exact htarget.separate (hplace.2 hset)
  | comparison first rest =>
    rw [Expr.keepsAttributes, Mode.allows_and, Mode.allows_comparisonsKeep] at h
    exact Secures.bind (hev first h.1) fun v => secures_compareAll hev v h.2
  | not operand pos =>
    rw [Expr.keepsAttributes] at h
    refine Secures.bind (hev operand h) fun v => ?_
    exact Secures.bind (secures_isTruthy v) fun truthy => secures_make rfl
  | and items =>
    rw [Expr.keepsAttributes, Mode.allows_itemsKeep] at h
    exact secures_decideAll hev false h
  | or items =>
    rw [Expr.keepsAttributes, Mode.allows_itemsKeep] at h
    exact secures_decideAll hev true h

end Expression

/-! Modules and definitions. -/

section Definition

variable {rule : FrameRule} {ex : Executor} (hex : Obeyed mode ex)

include hex

theorem secures_runModule (path file : String) (program : Program) (pos : Position) :
    p.Secures rule (Eval.runModule ex path file program pos) := by
  intro m₁ m₂ h
  refine (runs_newScope h .empty).bind ?_
  rintro scope n₁ n₂ hn - ⟨hbase, hlt⟩
  have hscope : p.Links n₁.store.scopes.size scope := links_of_base_le hbase hlt
  refine (runs_make hn (admits_of_tables_eq rfl hscope)).bind fun v k₁ k₂ hk hkeeps _ => ?_
  have hremember : p.Secures rule (Eval.remember file v) := secures_modifyContext _ fun _ => rfl
  have hforget : p.Secures rule (Eval.forget file) := secures_modifyContext _ fun _ => rfl
  refine (hremember k₁ k₂ hk).bind fun _ l₁ l₂ hl hkeeps' _ => ?_
  have hframe : p.AdmitsFrame l₁.store.scopes.size (.top scope (some file)) :=
    admitsFrame_plain hbase (hscope.mono (hkeeps.trans hkeeps').store.size_le) rfl rfl
  have hbody := runs_runBody hex hl program pos hframe
  refine (hbody.orElse hforget).bind fun _ q₁ q₂ hq _ _ => ?_
  exact secures_pure v q₁ q₂ hq

omit hex in
theorem Ready.resolve? (h : p.Ready rule m₁ m₂) (path : String) :
    m₂.resolve? path = m₁.resolve? path := by
  simp only [Machine.resolve?, Machine.candidates, h.frame, h.library, h.store.files]

/-- A module runs in globals of its own. -/
theorem secures_importModule (path : String) (pos : Position) :
    p.Secures rule (Eval.importModule ex path pos) := by
  unfold Eval.importModule
  refine Secures.bind (secures_read fun _ _ h => h.resolve? path) fun found => ?_
  cases found with
  | none => exact secures_failWith _ _
  | some file =>
    refine Secures.bind (secures_read fun _ _ h => by rw [h.context]) fun known => ?_
    cases known with
    | some v => exact secures_pure _
    | none =>
      refine Secures.bind (secures_read fun _ _ h => by rw [h.store.files]) fun source => ?_
      cases source with
      | none => exact secures_failWith _ _
      | some source =>
        dsimp only
        split
        · exact secures_fails fun _ _ h => by rw [h.frame]
        · exact secures_runModule hex path file _ pos

theorem secures_importAs (path name : String) (pos : Position) :
    p.Secures p.admitting (Eval.importAs ex path name pos) := by
  unfold Eval.importAs
  exact Secures.bind (secures_importModule hex path pos) fun v => secures_bindLocal name v

omit hex in
theorem secures_bindNames {scope : ScopeId} (hscope : ¬p.hidden scope) (path : String)
    (pos : Position) (names : List ImportName) :
    p.Secures p.admitting (Eval.bindNames scope path pos names) := by
  induction names with
  | nil => exact secures_pure _
  | cons name rest ih =>
    unfold Eval.bindNames
    refine Secures.bind (secures_read fun _ _ h => h.store.lookup hscope _) fun found => ?_
    cases found with
    | none => exact secures_fail _ pos
    | some v => exact Secures.bind (secures_bindLocal _ v) fun _ => ih

theorem secures_importFrom (path : String) (names : List ImportName) (pos : Position) :
    p.Secures p.admitting (Eval.importFrom ex path names pos) := by
  unfold Eval.importFrom
  refine Secures.bind (secures_importModule hex path pos) fun v m₁ m₂ h => ?_
  refine runs_load_bind h v fun object hadmits => ?_
  split
  · exact secures_bindNames (hadmits.links_namespace rfl).not_hidden path pos names m₁ m₂ h
  · exact secures_fail _ pos m₁ m₂ h

omit hex in
theorem secures_defineFunction (definition : FunctionDef) :
    p.Secures p.admitting (Eval.defineFunction definition) := by
  intro m₁ m₂ h
  refine runs_read_bind h.frame ?_
  have hadmits : p.Admits m₁.store.scopes.size
      (.function { definition, globals := m₁.frame.globals, file := m₁.frame.file }) :=
    admits_of_tables_eq rfl h.rule.own.globals
  exact (runs_make h hadmits).bind fun v n₁ n₂ hn _ _ => secures_bindLocal _ v n₁ n₂ hn

theorem secures_defineStruct (definition : StructDef) (pos : Position) :
    p.Secures p.admitting (Eval.defineStruct ex definition pos) := by
  intro m₁ m₂ h
  refine runs_read_bind h.frame ?_
  have hglobals : p.Links m₁.store.scopes.size m₁.frame.globals := h.rule.own.globals
  refine (runs_newScope h .empty).bind ?_
  rintro fields n₁ n₂ hn hkeeps ⟨hbase, hlt⟩
  have hglobals' := hglobals.mono hkeeps.store.size_le
  have hframe : p.AdmitsFrame n₁.store.scopes.size
      (.ofStruct definition.name fields m₁.frame.globals m₁.frame.file) :=
    admitsFrame_plain hbase hglobals' rfl rfl
  refine (runs_runBody hex hn _ pos hframe).bind ?_
  intro _ k₁ k₂ hk hkeeps' _
  have hadmits : p.Admits k₁.store.scopes.size
      (.struct { definition, fields, globals := m₁.frame.globals, file := m₁.frame.file }) := by
    refine ⟨fun id hid => ?_, nofun⟩
    rcases List.mem_cons.mp hid with rfl | hid
    · exact (links_of_base_le hbase hlt).mono hkeeps'.store.size_le
    · obtain rfl := List.mem_singleton.mp hid
      exact hglobals'.mono hkeeps'.store.size_le
  exact (runs_make hk hadmits).bind fun v l₁ l₂ hl _ _ => secures_bindLocal _ v l₁ l₂ hl

end Definition

/-! Blocks and injections. -/

theorem AlikeStores.ancestorDeclares {s₁ s₂ : Store} (h : p.AlikeStores s₁ s₂) (block : String)
    (generations : Nat) (v : Value) :
    s₂.ancestorDeclares block generations v = s₁.ancestorDeclares block generations v := by
  induction generations generalizing v with
  | zero => rfl
  | succ generations ih =>
    have hadmits := h.admits v
    unfold Store.ancestorDeclares
    rw [h.get v]
    cases hobject : s₁.get v with
    | function f =>
      rw [hobject] at hadmits
      dsimp only
      rw [h.baseOf hadmits]
      cases s₁.baseOf f with
      | error fault => rfl
      | ok base =>
        have hdeclares : s₂.declaresBlock base block = s₁.declaresBlock base block := by
          rw [Store.declaresBlock, Store.declaresBlock, h.get base]
        dsimp only
        rw [hdeclares, ih]
    | _ => rfl

/-- The body that a frame registers runs in the frame's own tables. -/
theorem secures_addInjection (name : String) (body : List Stmt) :
    p.Secures p.admitting (Eval.addInjection name body) := by
  intro m₁ m₂ h
  change p.Agrees p.admitting m₁ _ (.done () (if m₁.frame.injections.contains name then m₁ else _))
    (.done () (if m₂.frame.injections.contains name then m₂ else _))
  rw [h.frame]
  split
  · exact .done h (.refl m₁) trivial
  · refine .done ⟨⟨h.store, h.context, rfl, h.depth, h.inReference, h.library⟩, h.rule.own, ?_⟩
      ⟨.refl _, rfl, rfl⟩ trivial
    intro other injection hfound
    by_cases heq : other = name
    · subst heq
      rw [Dict.get?_insert, if_pos rfl] at hfound
      obtain rfl := Option.some.inj hfound
      exact h.rule.own
    · rw [Dict.get?_insert, if_neg heq] at hfound
      exact h.rule.injections other injection hfound

theorem secures_registerInjection (name : String) (body : List Stmt) (pos : Position) :
    p.Secures p.admitting (Eval.registerInjection name body pos) := by
  unfold Eval.registerInjection
  refine Secures.bind (secures_read fun _ _ h => by rw [h.frame]) fun function => ?_
  cases function with
  | none => exact secures_fail _ pos
  | some function =>
    refine Secures.bind (secures_read fun _ _ h => h.store.ancestorDeclares _ _ _) ?_
    intro declared
    split
    · exact secures_fail _ pos
    · exact secures_fail _ pos
    · exact secures_addInjection name body

/-! Statements. -/

section Statement

variable {ex : Executor} (hex : Obeyed mode ex)

include hex

theorem secures_runBlock (name : String) (body : List Stmt) (pos : Position) :
    p.Secures p.admitting (Eval.runBlock ex name body pos) := by
  intro m₁ m₂ h
  refine runs_read_bind (congrArg Frame.injections h.frame) ?_
  split
  · exact hex body p m₁ m₂ h
  · next injection hfound =>
    exact runs_enter h pos ⟨h.rule.injections name injection hfound, h.rule.injections⟩
      (hex injection.body p)

variable {ev : Evaluator}
  (hev : ∀ e, mode.Allows e.keepsAttributes → p.Secures p.admitting (ev e))

include hev

theorem secures_execBranches (otherwise : Option (List Stmt))
    {branches : List (Expr × List Stmt)} (h : mode.Allows (Stmt.branchesKeep branches)) :
    p.Secures p.admitting (Eval.execBranches ev ex otherwise branches) := by
  induction branches with
  | nil =>
    cases otherwise with
    | none => exact secures_pure _
    | some body => exact hex body p
  | cons branch rest ih =>
    obtain ⟨condition, body⟩ := branch
    rw [Stmt.branchesKeep, Mode.allows_and, Mode.allows_and] at h
    unfold Eval.execBranches
    refine Secures.bind (hev condition h.1.1) fun v => ?_
    refine Secures.bind (secures_isTruthy v) fun truthy => ?_
    split
    · exact hex body p
    · exact ih h.2

theorem secures_execRounds {test update : Option Formula}
    (htest : ∀ f ∈ test, mode.AllowsFormula f) (hupdate : ∀ f ∈ update, mode.AllowsFormula f)
    (body : List Stmt) (rounds : Nat) :
    p.Secures p.admitting (Eval.execRounds ev ex test update body rounds) := by
  induction rounds with
  | zero => exact secures_starve
  | succ rounds ih =>
    unfold Eval.execRounds
    refine Secures.bind (secures_goesOn hev htest) fun going => ?_
    split
    · refine Secures.bind (hex body p) fun flow => ?_
      split
      · exact secures_pure _
      · exact secures_pure _
      · exact Secures.bind (secures_runClause hev hupdate) fun _ => ih
      · exact Secures.bind (secures_runClause hev hupdate) fun _ => ih
    · exact secures_pure _

omit hex hev in
theorem Secures.thenNext {rule : FrameRule} {x : Eval Unit} (hx : p.Secures rule x) :
    p.Secures rule (Eval.thenNext x) :=
  Secures.bind hx fun _ => secures_pure _

/-- A statement keeps to the policy if its expressions do. -/
theorem secures_execStep (rounds : Nat) {stmt : Stmt} (h : mode.Allows stmt.keepsAttributes)
    (hformulas : ∀ f ∈ stmt.formulas, mode.AllowsFormula f) :
    p.Secures p.admitting (Eval.execStep ev ex rounds stmt) := by
  cases stmt with
  | text content => exact (secures_writeOut content).thenNext
  | reference formula pos =>
    have hformula := hformulas formula (List.mem_singleton.mpr rfl)
    exact (secures_execReference hev hformula).thenNext
  | formula formula pos =>
    refine (secures_runClause hev fun f hf => ?_).thenNext
    exact hformulas f (List.mem_singleton.mpr (Option.some.inj hf).symm)
  | cond branches otherwise pos =>
    rw [Stmt.keepsAttributes, Mode.allows_and] at h
    exact secures_execBranches hex hev otherwise h.1
  | loop init test update body pos =>
    simp only [Stmt.formulas, List.mem_append, Option.mem_toList] at hformulas
    refine Secures.bind ?_ fun _ => ?_
    · exact secures_runClause hev fun f hf => hformulas f (Or.inl (Or.inl hf))
    · exact secures_execRounds hex hev (fun f hf => hformulas f (Or.inl (Or.inr hf)))
        (fun f hf => hformulas f (Or.inr hf)) body rounds
  | «break» pos => exact secures_pure _
  | «continue» pos => exact secures_pure _
  | «return» value pos =>
    cases value with
    | none => exact Secures.bind (secures_make rfl) fun v => secures_pure _
    | some formula =>
      have hformula := hformulas formula (List.mem_singleton.mpr rfl)
      exact Secures.bind (secures_evalFormula hev hformula) fun v => secures_pure _
  | importAs path name pos => exact (secures_importAs hex path name pos).thenNext
  | importFrom path names pos => exact (secures_importFrom hex path names pos).thenNext
  | function name params base isMethod body pos => exact (secures_defineFunction _).thenNext
  | struct name body pos => exact (secures_defineStruct hex _ pos).thenNext
  | block name body pos => exact secures_runBlock hex name body pos
  | inject name body pos => exact (secures_registerInjection name body pos).thenNext

omit hex hev in
theorem secures_execEach {step : Stmt → Eval Flow} {body : List Stmt}
    (h : ∀ stmt ∈ body, p.Secures p.admitting (step stmt)) :
    p.Secures p.admitting (Eval.execEach step body) := by
  induction body with
  | nil => exact secures_pure _
  | cons stmt rest ih =>
    obtain ⟨hstmt, hrest⟩ := List.forall_mem_cons.mp h
    unfold Eval.execEach
    refine Secures.bind hstmt fun flow => ?_
    split
    · exact ih hrest
    · exact secures_pure _

/-- A body keeps to the policy if its statements pass the test. -/
theorem secures_body (hmode : mode ≠ .guarded) (rounds : Nat) {body : List Stmt}
    (h : mode.Allows (Stmt.bodyKeeps body)) :
    p.Secures p.admitting (Eval.execEach (Eval.execStep ev ex rounds) body) := by
  rw [Mode.allows_bodyKeeps] at h
  exact secures_execEach fun stmt hstmt => secures_execStep hex hev rounds (h stmt hstmt)
    fun _ hf => Mode.allowsFormula_of_mem_formulas hmode (h stmt hstmt) hf

end Statement

/-- The evaluator keeps to every policy, if the bodies that it runs pass a test that excludes
what the mode does not allow. The induction is for all policies at once, since a call changes the
policy. -/
theorem evalUnder_and_execUnder (hmode : mode ≠ .guarded) {test : List Stmt → Bool}
    (htest : ∀ body, test body = true → mode.Allows (Stmt.bodyKeeps body)) (fuel : Nat) :
    (∀ e, mode.Allows e.keepsAttributes → ∀ p : Policy mode,
      p.Secures p.admitting (Eval.evalUnder test fuel e)) ∧
    Obeyed mode (Eval.execUnder test fuel) := by
  induction fuel with
  | zero => exact ⟨fun _ _ _ => secures_starve, fun _ _ => secures_starve⟩
  | succ fuel ih =>
    obtain ⟨hev, hex⟩ := ih
    constructor
    · intro e he p
      exact secures_evalStep (fun e he => hev e he p) hex (fun h => absurd h hmode) he
    · intro body p
      rw [Eval.execUnder]
      split
      · next hbody => exact secures_body hex (fun e he => hev e he p) hmode fuel (htest body hbody)
      · exact secures_starve

end Stencil.Policy
