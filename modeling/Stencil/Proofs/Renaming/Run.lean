import Stencil.Eval.Run
import Stencil.Proofs.Renaming.Builtin

/-!
Programs up to the names of references. Every construct goes together with itself, given
that the evaluator of smaller expressions and the executor of bodies do. By induction on
the fuel so do all expressions and bodies, and with them whole programs.
-/

namespace Stencil

namespace Renaming

def Evaluates (ev : Evaluator) : Prop := ∀ (r : Renaming) e, r.Runs (ev e) (ev e)

variable {r : Renaming} {v v' : Value}

/-! Expressions. -/

section Expressions

variable {ev : Evaluator} (hev : Evaluates ev) {ex : Executor} (hex : Executes ex)

include hev

theorem runs_evalEach (items : List Expr) :
    r.Runs (Eval.evalEach ev items) (Eval.evalEach ev items) := by
  induction items generalizing r with
  | nil => exact runs_pure links_nil
  | cons e rest ih =>
    refine (hev r e).bind fun r₁ _ v v' hv => ?_
    exact ih.bind fun r₂ hle vs vs' hvs => runs_pure (links_cons (hv.mono hle) hvs)

theorem runs_evalEntries (pos : Position) (entries : List (Expr × Expr)) {table table' : Dict Value}
    (htable : r.Links table table') :
    r.Runs (Eval.evalEntries ev pos table entries) (Eval.evalEntries ev pos table' entries) := by
  induction entries generalizing r table table' with
  | nil => exact runs_pure htable
  | cons entry rest ih =>
    obtain ⟨key, item⟩ := entry
    refine (hev r key).bind fun r₁ hle₁ k k' hk => ?_
    refine (runs_load hk).bind fun r₂ hle₂ object object' hobject => ?_
    rw [hobject.text?]
    split
    · exact runs_failAt? _ _
    · refine (hev r₂ item).bind fun r₃ hle₃ v v' hv => ?_
      exact ih ((htable.mono (le_trans hle₁ (le_trans hle₂ hle₃))).insert _ hv)

theorem runs_combineAll (rest : List (ArithOp × Expr × Position)) (hv : r.Links v v') :
    r.Runs (Eval.combineAll ev v rest) (Eval.combineAll ev v' rest) := by
  induction rest generalizing r v v' with
  | nil => exact runs_pure hv
  | cons step rest ih =>
    obtain ⟨op, operand, pos⟩ := step
    refine (hev r operand).bind fun r₁ hle₁ w w' hw => ?_
    exact (runs_act (acts_arith op (hv.mono hle₁) hw) pos).bind fun r₂ _ u u' hu => ih hu

theorem runs_compareAll (rest : List (CompOp × Expr × Position)) (hv : r.Links v v') :
    r.Runs (Eval.compareAll ev v rest) (Eval.compareAll ev v' rest) := by
  induction rest generalizing r v v' with
  | nil => exact runs_pure hv
  | cons step rest ih =>
    obtain ⟨op, operand, pos⟩ := step
    refine (hev r operand).bind fun r₁ hle₁ w w' hw => ?_
    refine (runs_act (acts_compare op (hv.mono hle₁) hw) pos).bind ?_
    intro r₂ _ holds holds' hholds
    obtain rfl : holds = holds' := hholds
    exact (runs_make (.bool holds)).bind fun r₃ _ u u' hu => ih hu

theorem runs_decideAll (stop : Bool) (items : List Expr) :
    r.Runs (Eval.decideAll ev stop items) (Eval.decideAll ev stop items) := by
  induction items generalizing r with
  | nil => exact runs_make .nil
  | cons e rest ih =>
    cases rest with
    | nil => exact hev r e
    | cons next rest =>
      refine (hev r e).bind fun r₁ _ v v' hv => ?_
      refine (runs_isTruthy hv).bind fun r₂ hle holds holds' hholds => ?_
      obtain rfl : holds = holds' := hholds
      split
      · exact runs_pure (hv.mono hle)
      · exact ih

/-- A target means linked places. -/
theorem runs_placeOf (target : Expr) :
    r.Runs (Eval.placeOf ev target) (Eval.placeOf ev target) := by
  unfold Eval.placeOf
  split
  · exact runs_pure (.named _ _)
  · split
    · exact runs_failAt? _ _
    · refine (hev r _).bind fun r₁ _ owner owner' howner => ?_
      split
      · exact runs_pure (.attr _ _ howner)
      · refine (hev r₁ _).bind fun r₂ hle key key' hkey => ?_
        exact runs_pure (.index _ (howner.mono hle) hkey)
      · exact runs_fail _ _
  · exact runs_failAt? _ _

include hex

/-- Linked values are followed along a chain to linked values. -/
theorem runs_follow (links : List Link) (hv : r.Links v v') :
    r.Runs (Eval.follow ev ex v links) (Eval.follow ev ex v' links) := by
  induction links generalizing r v v' with
  | nil => exact runs_pure hv
  | cons link rest ih =>
    cases link with
    | attr name pos => exact (runs_getAttr hv name pos).bind fun r₁ _ w w' hw => ih hw
    | index key pos =>
      refine (hev r key).bind fun r₁ hle₁ k k' hk => ?_
      exact (runs_act (acts_elementAt (hv.mono hle₁) hk) pos).bind fun r₂ _ w w' hw => ih hw
    | call args pos =>
      refine (runs_evalEach hev args).bind fun r₁ hle₁ vs vs' hvs => ?_
      exact (runs_callValue hex hvs pos (hv.mono hle₁)).bind fun r₂ _ w w' hw => ih hw

theorem runs_evalChain (head : Expr) (links : List Link) :
    r.Runs (Eval.evalChain ev ex head links) (Eval.evalChain ev ex head links) := by
  unfold Eval.evalChain
  split
  · refine (runs_evalEach hev _).bind fun r₁ _ vs vs' hvs => ?_
    exact (runs_callSuper hex hvs _).bind fun r₂ _ v v' hv => runs_follow hev hex _ hv
  · exact (hev r _).bind fun r₁ _ v v' hv => runs_follow hev hex _ hv

/-- An expression evaluates alike if its parts do. -/
theorem runs_evalStep (e : Expr) : r.Runs (Eval.evalStep ev ex e) (Eval.evalStep ev ex e) := by
  cases e with
  | nil => exact runs_make .nil
  | bool value => exact runs_make (.bool value)
  | int value => exact runs_make (.int value)
  | float value => exact runs_make (.float value)
  | str content => exact runs_make (.str content)
  | ident name pos => exact runs_readName name pos
  | array items _ =>
    refine (runs_evalEach hev items).bind fun r₁ _ vs vs' hvs => ?_
    exact runs_make (.array (links_toArray hvs))
  | dict entries pos =>
    refine (runs_evalEntries hev pos entries links_empty).bind fun r₁ _ table table' htable => ?_
    exact runs_make (.dict htable)
  | super pos => exact runs_fail _ pos
  | chain head links => exact runs_evalChain hev hex head links
  | negative operand pos =>
    exact (hev r operand).bind fun r₁ _ v v' hv => runs_act (acts_negate hv) pos
  | arith first rest =>
    exact (hev r first).bind fun r₁ _ v v' hv => runs_combineAll hev rest hv
  | augment target rest =>
    refine (runs_placeOf hev target).bind fun r₁ _ place place' hplace => ?_
    refine (runs_placeGet hplace).bind fun r₂ hle₂ v v' hv => ?_
    refine (runs_combineAll hev rest hv).bind fun r₃ hle₃ w w' hw => ?_
    refine (runs_placeSet (hplace.mono (le_trans hle₂ hle₃)) hw).bind fun r₄ hle₄ _ _ _ => ?_
    exact runs_pure (hw.mono hle₄)
  | comparison first rest =>
    exact (hev r first).bind fun r₁ _ v v' hv => runs_compareAll hev rest hv
  | not operand _ =>
    refine (hev r operand).bind fun r₁ _ v v' hv => ?_
    refine (runs_isTruthy hv).bind fun r₂ _ holds holds' hholds => ?_
    obtain rfl : holds = holds' := hholds
    exact runs_make (.bool _)
  | and items => exact runs_decideAll hev false items
  | or items => exact runs_decideAll hev true items

end Expressions

/-! Formulas. -/

section Formulas

variable {ev : Evaluator} (hev : Evaluates ev)

include hev

theorem runs_assign (target : Expr) (hv : r.Links v v') :
    r.Runs (Eval.assign ev v target) (Eval.assign ev v' target) :=
  (runs_placeOf hev target).bind fun _ hle _ _ hplace => runs_placeSet hplace (hv.mono hle)

theorem runs_assignEach (targets : List Expr) (hv : r.Links v v') :
    r.Runs (Eval.assignEach ev v targets) (Eval.assignEach ev v' targets) := by
  induction targets generalizing r with
  | nil => exact runs_pure rfl
  | cons target rest ih =>
    exact (runs_assign hev target hv).bind fun r₁ hle _ _ _ => ih (hv.mono hle)

theorem runs_assignPairs (targets : List Expr) {vs vs' : List Value} (hvs : r.Links vs vs') :
    r.Runs (Eval.assignPairs ev (targets.zip vs)) (Eval.assignPairs ev (targets.zip vs')) := by
  induction targets generalizing r vs vs' with
  | nil => exact runs_pure rfl
  | cons target rest ih =>
    cases hvs with
    | nil => exact runs_pure rfl
    | cons hv hvs =>
      exact (runs_assign hev target hv).bind fun r₁ hle _ _ _ => ih (Links.mono hvs hle)

theorem runs_assignSpread (targets : List Expr) (hv : r.Links v v') :
    r.Runs (Eval.assignSpread ev targets v) (Eval.assignSpread ev targets v') := by
  refine (runs_load hv).bind fun r₁ _ object object' hobject => ?_
  cases hobject with
  | array hitems =>
    dsimp only
    rw [hitems.size]
    split
    · exact runs_assignPairs hev targets hitems
    · exact runs_failAt? _ _
  | _ => exact runs_failAt? _ _

theorem runs_assignList (targets : List Expr) (hv : r.Links v v') :
    r.Runs (Eval.assignList ev v targets) (Eval.assignList ev v' targets) := by
  unfold Eval.assignList
  split
  · exact runs_assign hev _ hv
  · exact runs_assignSpread hev _ hv

theorem runs_assignLists (lists : List (List Expr)) (hv : r.Links v v') :
    r.Runs (Eval.assignLists ev v lists) (Eval.assignLists ev v' lists) := by
  induction lists generalizing r with
  | nil => exact runs_pure rfl
  | cons targets rest ih =>
    exact (runs_assignList hev targets hv).bind fun r₁ hle _ _ _ => ih (hv.mono hle)

theorem runs_evalList (items : List Expr) :
    r.Runs (Eval.evalList ev items) (Eval.evalList ev items) := by
  unfold Eval.evalList
  split
  · exact hev r _
  · refine (runs_evalEach hev _).bind fun r₁ _ vs vs' hvs => ?_
    exact runs_make (.array (links_toArray hvs))

theorem runs_evalChains (chains : List (List Expr)) (hv : r.Links v v') :
    r.Runs (Eval.evalChains ev v chains) (Eval.evalChains ev v' chains) := by
  induction chains generalizing r v v' with
  | nil => exact runs_pure hv
  | cons chain rest ih =>
    unfold Eval.evalChains
    split
    · exact ih hv
    · refine (hev r _).bind fun r₁ _ w w' hw => ?_
      exact (runs_assignEach hev _ hw).bind fun r₂ hle _ _ _ => ih (hw.mono hle)

theorem runs_evalFormula (formula : Formula) :
    r.Runs (Eval.evalFormula ev formula) (Eval.evalFormula ev formula) := by
  cases formula with
  | assignments chains =>
    exact (runs_make .nil).bind fun r₁ _ v v' hv => runs_evalChains hev chains hv
  | parallel lists =>
    unfold Eval.evalFormula
    dsimp only
    split
    · exact runs_make .nil
    · refine (runs_evalList hev _).bind fun r₁ _ v v' hv => ?_
      exact (runs_assignLists hev _ hv).bind fun r₂ hle _ _ _ => runs_pure (hv.mono hle)

theorem runs_runClause (clause : Option Formula) :
    r.Runs (Eval.runClause ev clause) (Eval.runClause ev clause) := by
  cases clause with
  | none => exact runs_pure rfl
  | some formula => exact (runs_evalFormula hev formula).bind fun _ _ _ _ _ => runs_pure rfl

theorem runs_goesOn (test : Option Formula) :
    r.Runs (Eval.goesOn ev test) (Eval.goesOn ev test) := by
  cases test with
  | none => exact runs_pure rfl
  | some formula => exact (runs_evalFormula hev formula).bind fun _ _ _ _ hv => runs_isTruthy hv

theorem runs_execReference (formula : Formula) :
    r.Runs (Eval.execReference ev formula) (Eval.execReference ev formula) := by
  refine (runs_evalFormula hev formula).inReferenceBlock.bind fun r₁ _ v v' hv => ?_
  refine (runs_load hv).bind fun r₂ _ object object' hobject => ?_
  rw [hobject.display]
  exact runs_writeOut _

end Formulas

/-! Modules and definitions. -/

section Modules

variable {ex : Executor} (hex : Executes ex) (pos : Position)

theorem runs_remember (file : String) (hv : r.Links v v') :
    r.Runs (Eval.remember file v) (Eval.remember file v') :=
  runs_modifyContext fun hc => { hc with modules := hc.modules.insert file hv }

theorem runs_forget (file : String) : r.Runs (Eval.forget file) (Eval.forget file) :=
  runs_modifyContext fun hc => { hc with modules := hc.modules.erase file }

theorem Machines.resolve? {m m' : Machine} (h : r.Machines m m') (path : String) :
    m'.resolve? path = m.resolve? path := by
  unfold Machine.resolve? Machine.candidates
  rw [h.frame.file, h.library, h.store.files]

theorem runs_failInModule (d : Diagnostic) (file : String) :
    r.Runs (Eval.failInModule d file pos : Eval Value) (Eval.failInModule d file pos) := by
  intro m m' hm
  unfold Eval.failInModule
  dsimp only
  rw [hm.frame.file, hm.frame.name]
  exact .fail _ (le_refl r) hm

include hex in
theorem runs_runModule (path file : String) (program : Program) :
    r.Runs (Eval.runModule ex path file program pos) (Eval.runModule ex path file program pos) := by
  refine (runs_newScope links_empty).bind fun r₁ _ scope scope' hscope => ?_
  refine (runs_make (.module path hscope)).bind fun r₂ hle₂ v v' hv => ?_
  refine (runs_remember file hv).bind fun r₃ hle₃ _ _ _ => ?_
  have hframe := links_top (hscope.mono (le_trans hle₂ hle₃)) (some file)
  have hbody := runs_runBody hex hframe program pos
  refine (hbody.orElse fun r' _ => runs_forget file).bind fun r₄ hle₄ _ _ _ => ?_
  exact runs_pure (hv.mono (le_trans hle₃ hle₄))

include hex in
/-- A module is imported alike: its entry is found in both or in none. -/
theorem runs_importModule (path : String) :
    r.Runs (Eval.importModule ex path pos) (Eval.importModule ex path pos) := by
  refine runs_read_bind (fun m m' hm => hm.resolve? path) fun found => ?_
  split
  · exact runs_failWith _ _
  · refine (runs_read fun m m' hm => hm.context.modules.get? _).bind ?_
    intro r₁ _ known known' hknown
    cases hknown with
    | some hv => exact runs_pure hv
    | none =>
      refine runs_read_bind (fun m m' hm => by rw [hm.store.files]) fun text => ?_
      split
      · exact runs_failWith _ _
      · split
        · exact runs_failInModule pos _ _
        · exact runs_runModule hex pos path _ _

theorem runs_bindNames {scope scope' : ScopeId} (hscope : r.Links scope scope') (path : String)
    (names : List ImportName) :
    r.Runs (Eval.bindNames scope path pos names) (Eval.bindNames scope' path pos names) := by
  induction names generalizing r with
  | nil => exact runs_pure rfl
  | cons name rest ih =>
    refine (runs_read fun m m' hm => hm.store.lookup hscope name.name).bind ?_
    intro r₁ hle₁ found found' hfound
    cases hfound with
    | none => exact runs_fail _ pos
    | some hv =>
      refine (runs_bindLocal name.bound hv).bind fun r₂ hle₂ _ _ _ => ?_
      exact ih (hscope.mono (le_trans hle₁ hle₂))

include hex in
theorem runs_importAs (path name : String) :
    r.Runs (Eval.importAs ex path name pos) (Eval.importAs ex path name pos) :=
  (runs_importModule hex pos path).bind fun _ _ _ _ hv => runs_bindLocal name hv

include hex in
theorem runs_importFrom (path : String) (names : List ImportName) :
    r.Runs (Eval.importFrom ex path names pos) (Eval.importFrom ex path names pos) := by
  refine (runs_importModule hex pos path).bind fun r₁ _ v v' hv => ?_
  refine (runs_load hv).bind fun r₂ _ object object' hobject => ?_
  cases hobject with
  | module _ hscope => exact runs_bindNames pos hscope path names
  | _ => exact runs_fail _ pos

theorem runs_frame : r.Runs Eval.frame Eval.frame := fun _ _ hm => .done (le_refl r) hm.frame hm

theorem runs_defineFunction (definition : FunctionDef) :
    r.Runs (Eval.defineFunction definition) (Eval.defineFunction definition) := by
  refine runs_frame.bind fun r₁ _ frame frame' hframe => ?_
  have hfunction : r₁.Links (Object.function ⟨definition, frame.globals, frame.file⟩)
      (Object.function ⟨definition, frame'.globals, frame'.file⟩) := by
    rw [hframe.file]
    exact .function definition _ hframe.globals
  exact (runs_make hfunction).bind fun r₂ _ v v' hv => runs_bindLocal definition.name hv

include hex in
theorem runs_defineStruct (definition : StructDef) :
    r.Runs (Eval.defineStruct ex definition pos) (Eval.defineStruct ex definition pos) := by
  refine runs_frame.bind fun r₁ _ frame frame' hframe => ?_
  refine (runs_newScope links_empty).bind fun r₂ hle₂ fields fields' hfields => ?_
  have hglobals := hframe.globals.mono hle₂
  rw [hframe.file]
  refine (runs_runBody hex (links_ofStruct definition.name hfields hglobals _) _ pos).bind ?_
  intro r₃ hle₃ _ _ _
  refine (runs_make (.struct definition _ (hfields.mono hle₃) (hglobals.mono hle₃))).bind ?_
  exact fun r₄ _ v v' hv => runs_bindLocal definition.name hv

/-! Blocks. -/

include hex in
theorem runs_runBlock (name : String) (body : List Stmt) :
    r.Runs (Eval.runBlock ex name body pos) (Eval.runBlock ex name body pos) := by
  refine (runs_read fun m m' hm => hm.frame.injections).bind ?_
  intro r₁ _ injections injections' hinjections
  have hfound := hinjections.get? name
  generalize injections.get? name = found at hfound
  generalize injections'.get? name = found' at hfound
  cases hfound with
  | none => exact hex r₁ body
  | @some injection injection' hinjection =>
    obtain ⟨hbody, hlocals, hglobals, hfunction, hname, hfile⟩ := hinjection
    have hframe : r₁.Links (Frame.ofInjection injection injections)
        (Frame.ofInjection injection' injections') :=
      ⟨hlocals, hglobals, hfunction, hname, hinjections, hfile⟩
    dsimp only
    rw [hbody]
    exact .enter hframe pos (hex r₁ injection.body)

theorem runs_addInjection (name : String) (body : List Stmt) :
    r.Runs (Eval.addInjection name body) (Eval.addInjection name body) := by
  intro m m' hm
  have hframe := hm.frame
  unfold Eval.addInjection Eval.modify
  refine .done (le_refl r) rfl ?_
  dsimp only
  rw [hframe.injections.contains name]
  split
  · exact hm
  · refine ⟨hm.store, hm.context, ?_, hm.depth, hm.inReference, hm.library⟩
    refine { hframe with injections := hframe.injections.insert name ?_ }
    exact ⟨rfl, hframe.locals, hframe.globals, hframe.function, hframe.name, hframe.file⟩

theorem runs_registerInjection (name : String) (body : List Stmt) :
    r.Runs (Eval.registerInjection name body pos) (Eval.registerInjection name body pos) := by
  refine (runs_read fun m m' hm => hm.frame.function).bind fun r₁ _ found found' hfound => ?_
  cases hfound with
  | none => exact runs_fail _ pos
  | some hfunction =>
    refine .bind_same (fun m m' hm => ⟨_, rfl, ?_⟩) fun declared => ?_
    · exact congrArg (Outcome.done · m') (hm.store.ancestorDeclares name depthLimit hfunction)
    · split
      · exact runs_fail _ pos
      · exact runs_fail _ pos
      · exact runs_addInjection name body

end Modules

/-! Statements. -/

section Statements

variable {ev : Evaluator} (hev : Evaluates ev) {ex : Executor} (hex : Executes ex)

theorem runs_execEach {step : Stmt → Eval Flow}
    (hstep : ∀ (r : Renaming) stmt, r.Runs (step stmt) (step stmt)) (body : List Stmt) :
    r.Runs (Eval.execEach step body) (Eval.execEach step body) := by
  induction body generalizing r with
  | nil => exact runs_pure .next
  | cons stmt rest ih =>
    refine (hstep r stmt).bind fun r₁ _ flow flow' hflow => ?_
    cases hflow with
    | next => exact ih
    | «break» pos => exact runs_pure (.break pos)
    | «continue» pos => exact runs_pure (.continue pos)
    | «return» pos hv => exact runs_pure (.return pos hv)

theorem runs_thenNext {x : Eval Unit} (h : r.Runs x x) :
    r.Runs (Eval.thenNext x) (Eval.thenNext x) :=
  h.bind fun _ _ _ _ _ => runs_pure .next

include hev hex

theorem runs_execBranches (otherwise : Option (List Stmt)) (branches : List (Expr × List Stmt)) :
    r.Runs (Eval.execBranches ev ex otherwise branches)
      (Eval.execBranches ev ex otherwise branches) := by
  induction branches generalizing r with
  | nil =>
    cases otherwise with
    | none => exact runs_pure .next
    | some body => exact hex r body
  | cons branch rest ih =>
    obtain ⟨condition, body⟩ := branch
    refine (hev r condition).bind fun r₁ _ v v' hv => ?_
    refine (runs_isTruthy hv).bind fun r₂ _ holds holds' hholds => ?_
    obtain rfl : holds = holds' := hholds
    split
    · exact hex r₂ body
    · exact ih

/-- Rounds of a loop run alike. After `continue` the round goes on as at the end of its body. -/
theorem runs_execRounds (test update : Option Formula) (body : List Stmt) (rounds : Nat) :
    r.Runs (Eval.execRounds ev ex test update body rounds)
      (Eval.execRounds ev ex test update body rounds) := by
  induction rounds generalizing r with
  | zero => exact runs_starve
  | succ rounds ih =>
    refine (runs_goesOn hev test).bind fun r₁ _ holds holds' hholds => ?_
    obtain rfl : holds = holds' := hholds
    have hround : ∀ {r : Renaming}, r.Runs
        (do Eval.runClause ev update; Eval.execRounds ev ex test update body rounds)
        (do Eval.runClause ev update; Eval.execRounds ev ex test update body rounds) :=
      (runs_runClause hev update).bind fun _ _ _ _ _ => ih
    split
    · refine (hex r₁ body).bind fun r₂ _ flow flow' hflow => ?_
      cases hflow with
      | next => exact hround
      | «break» pos => exact runs_pure .next
      | «continue» pos => exact hround
      | «return» pos hv => exact runs_pure (.return pos hv)
    · exact runs_pure .next

/-- A statement executes alike if its parts do. -/
theorem runs_execStep (rounds : Nat) (stmt : Stmt) :
    r.Runs (Eval.execStep ev ex rounds stmt) (Eval.execStep ev ex rounds stmt) := by
  cases stmt with
  | text content => exact runs_thenNext (runs_writeOut content)
  | reference formula _ => exact runs_thenNext (runs_execReference hev formula)
  | formula formula _ => exact runs_thenNext (runs_runClause hev (some formula))
  | cond branches otherwise _ => exact runs_execBranches hev hex otherwise branches
  | loop init test update body _ =>
    exact (runs_runClause hev init).bind fun _ _ _ _ _ =>
      runs_execRounds hev hex test update body rounds
  | «break» pos => exact runs_pure (.break pos)
  | «continue» pos => exact runs_pure (.continue pos)
  | «return» value pos =>
    cases value with
    | none => exact (runs_make .nil).bind fun _ _ _ _ hv => runs_pure (.return pos hv)
    | some formula =>
      exact (runs_evalFormula hev formula).bind fun _ _ _ _ hv => runs_pure (.return pos hv)
  | importAs path name pos => exact runs_thenNext (runs_importAs hex pos path name)
  | importFrom path names pos => exact runs_thenNext (runs_importFrom hex pos path names)
  | function name params base isMethod body _ => exact runs_thenNext (runs_defineFunction _)
  | struct name body pos => exact runs_thenNext (runs_defineStruct hex pos ⟨name, body⟩)
  | block name body pos => exact runs_runBlock hex pos name body
  | inject name body pos => exact runs_thenNext (runs_registerInjection pos name body)

end Statements

/-! Programs. -/

/-- With any fuel all expressions and bodies go together with themselves. -/
theorem evaluates_and_executes (fuel : Nat) :
    Evaluates (Eval.eval fuel) ∧ Executes (Eval.exec fuel) := by
  induction fuel with
  | zero =>
    refine ⟨fun r e => ?_, fun r body => ?_⟩
    · rw [Eval.eval]
      exact runs_starve
    · rw [Eval.exec]
      exact runs_starve
  | succ fuel ih =>
    obtain ⟨hev, hex⟩ := ih
    refine ⟨fun r e => ?_, fun r body => ?_⟩
    · rw [Eval.eval]
      exact runs_evalStep hev hex e
    · rw [Eval.exec]
      exact runs_execEach (fun r stmt => runs_execStep hev hex fuel stmt) body

/-- On machines that are alike a program does the same. -/
theorem runs_runProgram (fuel : Nat) (program : Program) :
    r.Runs (Eval.runProgram fuel program) (Eval.runProgram fuel program) :=
  ((evaluates_and_executes fuel).2 r program).bind fun _ _ _ _ hflow => runs_settle hflow

end Renaming

end Stencil
