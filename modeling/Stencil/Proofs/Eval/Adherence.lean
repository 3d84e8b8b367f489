import Stencil.Proofs.Eval.Charter
import Stencil.Proofs.Eval.Reachable
import Stencil.Session

/-!
Evaluation keeps to a charter. Each construct does if the evaluators of its pieces do
and if bodies that are entered do one level deeper. Bodies are entered from five
places: calls, struct types, overriding bodies, modules and `super`; all of them find
their bodies in the store, in the frame or in a file, where a charter admits them. The
recursion is closed by induction on the fuel.
-/

namespace Stencil

def Flow.fits (spot : Spot) : Flow → Bool
  | .next => true
  | .break _ | .continue _ => spot.inLoop
  | .return .. => spot.inFunction

namespace Charter

variable {c : Charter} {site : Site}

def Lets (c : Charter) (spot : Spot) (flow : Flow) : Prop :=
  c.strays = true ∨ flow.fits spot = true

def AdmitsInjections (c : Charter) (injections : Dict Injection) : Prop :=
  ∀ name injection, injections.get? name = some injection → c.AdmitsInjection injection

theorem runs_injections : c.Runs site c.AdmitsInjections (Eval.read (·.frame.injections)) :=
  runs_read _ fun _ hm name injection hfound => (hm.frame.injections name injection hfound).2

/-- A frame of its own is a site of its own, one level deeper. -/
theorem Runs.enter {α : Type} {post : α → Prop} {x : Eval α} (inner : Site) {frame : Frame}
    (hframe : c.AdmitsFrame inner frame) (hdepth : inner.depth = site.depth + 1)
    (hx : site.depth < depthLimit → c.Runs inner post x) (pos : Position) :
    c.Runs site post (Eval.enter frame pos x) := by
  intro m hm
  by_cases hlimit : m.depth < depthLimit
  · have hend := hx (hm.depth ▸ hlimit) (m.entered frame)
      ⟨hm.store, hframe, by rw [hdepth, ← hm.depth]; rfl, hm.library⟩
    have hback : ∀ {m' : Machine}, c.Abides inner m' → c.Abides site
        ⟨m'.store, m'.context, m.frame, m'.depth - 1, m.inReference, m'.library⟩ := by
      intro m' hm'
      exact ⟨hm'.store, hm.frame, by simp only [hm'.depth, hdepth, Nat.add_sub_cancel], hm'.library⟩
    rw [Eval.enter_eq hlimit]
    cases hrun : x (m.entered frame) with
    | done a m' =>
      rw [hrun] at hend
      exact ⟨hback hend.1, hend.2⟩
    | fail d m' =>
      rw [hrun] at hend
      exact ⟨hback hend.1, hend.2⟩
    | starved m' =>
      rw [hrun] at hend
      exact hend
  · unfold Eval.enter
    rw [if_neg hlimit]
    exact runs_fail (Or.inr rfl) pos m hm

theorem runs_settle {flow : Flow} (h : c.Lets .top flow) :
    c.Runs site (fun _ => True) (Eval.settle flow) := by
  have hstray : flow.fits .top = false → c.strays = true := fun hfits =>
    h.resolve_right (by rw [hfits]; exact Bool.false_ne_true)
  cases flow with
  | next => exact runs_pure trivial
  | «break» pos => exact runs_fail (Or.inl (hstray rfl)) pos
  | «continue» pos => exact runs_fail (Or.inl (hstray rfl)) pos
  | «return» v pos => exact runs_fail (Or.inl (hstray rfl)) pos

/-- What comes out of the body of a function is at most a return. -/
theorem runs_returned {flow : Flow} (h : c.Lets .ofFunction flow) :
    c.Runs site (fun _ => True) (Eval.returned flow) := by
  have hstray : flow.fits .ofFunction = false → c.strays = true := fun hfits =>
    h.resolve_right (by rw [hfits]; exact Bool.false_ne_true)
  cases flow with
  | next => exact (c.laws site).make rfl
  | «break» pos => exact runs_fail (Or.inl (hstray rfl)) pos
  | «continue» pos => exact runs_fail (Or.inl (hstray rfl)) pos
  | «return» v pos => exact runs_pure trivial

/-! Calls and modules. -/

/-- Bodies that are entered from a site keep to the charter one level deeper. -/
def RunsBelow (c : Charter) (site : Site) (ex : Executor) : Prop :=
  site.depth < depthLimit → ∀ {file inFunction body}, c.Admits file ⟨false, inFunction⟩ body →
    c.Runs ⟨file, inFunction, site.depth + 1⟩ (c.Lets ⟨false, inFunction⟩) (ex body)

/-- The body of a struct or module. -/
theorem runs_runBody {ex : Executor} (frame : Frame) {body : List Stmt}
    (hfunction : frame.function = none) (hinjections : frame.injections = .empty)
    (hbody : site.depth < depthLimit →
      c.Runs ⟨frame.file, false, site.depth + 1⟩ (c.Lets .top) (ex body))
    (pos : Position) : c.Runs site (fun _ => True) (Eval.runBody ex frame body pos) := by
  refine Runs.enter ⟨frame.file, false, site.depth + 1⟩ ⟨rfl, ?_, ?_⟩ rfl
    (fun hlimit => ?_) pos
  · rw [hfunction]
    rfl
  · intro name injection hfound
    rw [hinjections] at hfound
    cases hfound
  · exact (hbody hlimit).bind fun flow hflow => runs_settle hflow

section Call

variable {ex : Executor} (hex : c.RunsBelow site ex)

include hex

/-- A function that is called keeps to the charter in a frame of its own. -/
theorem runs_callFunction (callee : Value) (args : List Value) (pos : Position)
    {injections : Dict Injection} (hinjections : c.AdmitsInjections injections) :
    c.Runs site (fun _ => True) (Eval.callFunction ex callee args pos injections) := by
  unfold Eval.callFunction
  refine (runs_load callee).bind fun object hobject => ?_
  split
  · next f =>
    dsimp only
    split
    · refine ((c.laws site).newScope _).bind fun locals _ => ?_
      refine Runs.enter ⟨f.file, true, site.depth + 1⟩ ⟨rfl, rfl, ?_⟩ rfl
        (fun hlimit => ?_) pos
      · exact fun name injection hfound => ⟨rfl, hinjections name injection hfound⟩
      · exact (hex hlimit hobject).bind fun flow hflow => runs_returned hflow
    · exact runs_fail (Or.inr rfl) pos
  · exact runs_fail (Or.inr rfl) pos

/-- The body of a struct keeps to the charter each time that it is run. -/
theorem runs_instantiate (callee : Value) (args : List Value) (pos : Position) :
    c.Runs site (fun _ => True) (Eval.instantiate ex callee args pos) := by
  unfold Eval.instantiate
  refine (runs_load callee).bind fun object hobject => ?_
  split
  · next type =>
    have hbody : c.Admits type.file .top type.definition.body := hobject
    refine ((c.laws site).newScope _).bind fun fields _ => ?_
    refine (runs_runBody _ rfl rfl (fun hlimit => hex hlimit hbody) pos).bind fun _ _ => ?_
    refine ((c.laws site).read _).bind fun names _ => ?_
    refine ((c.laws site).updateScope _ fun table => table.keys_prefix_insertAll _).bind ?_
    intro _ _
    exact runs_make (admitsObject_of_isCode rfl) rfl
  · exact runs_fail (Or.inr rfl) pos

omit hex in
/-- Looking for the function that is extended fails for no stray signal. -/
theorem calm_baseOf (s : Store) (f : Function) : Calm (s.baseOf f) := by
  unfold Store.baseOf
  split
  · exact calm_error rfl
  · split
    · exact calm_error rfl
    · split
      · exact calm_ok _
      · exact calm_error rfl

/-- The bodies that are handed over have been registered by the function that hands them over. -/
theorem runs_callSuper (args : List Value) (pos : Position) :
    c.Runs site (fun _ => True) (Eval.callSuper ex args pos) := by
  unfold Eval.callSuper
  refine ((c.laws site).read _).bind fun function _ => ?_
  cases function with
  | none => exact runs_fail (Or.inr rfl) pos
  | some function =>
    refine (runs_load function).bind fun object _ => ?_
    split
    · next f _ =>
      refine (runs_read _ fun m _ => calm_baseOf m.store f).bind fun base hbase => ?_
      cases base with
      | error fault => exact runs_fail (Or.inr (hbase fault rfl)) pos
      | ok base =>
        refine runs_injections.bind fun injections hinjections => ?_
        exact runs_callFunction hex base args pos hinjections
    · exact runs_fail (Or.inr rfl) pos

omit hex in
/-- Files are opened only where they may be. -/
theorem runs_openNamed (h : c.files = none) (path how : Value) (pos : Position) :
    c.Runs site (fun _ => True) (Eval.act pos (Builtin.openNamed path how)) := by
  intro m hm
  unfold Eval.act
  dsimp only
  rcases Builtin.openNamed_cases path how m.store with ⟨fault, hfault, heq⟩ |
    ⟨name, handle, files, heq⟩
  · rw [heq]
    exact ⟨hm, Or.inr hfault⟩
  · rw [heq]
    refine ⟨⟨⟨fun v => ?_, fun tree htree => ?_⟩, hm.frame, hm.depth, hm.library⟩, trivial⟩
    · change c.AdmitsObject (((m.store.setFiles files).alloc (.file name handle)).2.get v)
      rcases (m.store.setFiles files).get_alloc (.file name handle) v with hget | hget
      · rw [hget]
        trivial
      · rw [hget]
        exact hm.store.code v
    · rw [h] at htree
      cases htree

omit hex in
/-- A built-in function keeps to the charter if it is none that takes code from a text, and opens
files only where the charter lets it. -/
theorem runs_callBuiltin {function : Builtin} (h : c.AdmitsObject (.builtin function))
    (args : List Value) (pos : Position) :
    c.Runs site (fun _ => True) (Eval.callBuiltin ex function args pos) := by
  cases function with
  | dance => exact h.elim
  | openFile =>
    change c.Runs site _ (Eval.act pos _)
    split
    · exact runs_openNamed h _ _ pos
    · exact (c.laws site).act trivial (Action.isTame_fail rfl)
  | _ => exact (c.laws site).callBuiltin_of_isInert ex rfl args trivial

/-- Whatever is called is a value that the charter admits. -/
theorem runs_callValue (callee : Value) (args : List Value) (pos : Position) :
    c.Runs site (fun _ => True) (Eval.callValue ex callee args pos) := by
  unfold Eval.callValue
  have hnone : c.AdmitsInjections .empty := nofun
  refine (runs_load callee).bind fun object hobject => ?_
  split
  · exact runs_callFunction hex callee args pos hnone
  · exact runs_callFunction hex _ _ pos hnone
  · exact (c.laws site).act trivial (Method.isTame_call _ _ args)
  · exact runs_callBuiltin hobject args pos
  · exact runs_instantiate hex callee args pos
  · exact (c.laws site).act trivial (TypeTag.isTame_construct _ args)
  · exact runs_fail (Or.inr rfl) pos

omit hex in
theorem runs_orElse {α : Type} {post : α → Prop} {x : Eval α} (hx : c.Runs site post x)
    (f : Context → Context) : c.Runs site post (Eval.orElse x (Eval.modifyContext f)) := by
  intro m hm
  have hend := hx m hm
  unfold Eval.orElse
  cases hrun : x m with
  | done a m' =>
    rw [hrun] at hend
    exact hend
  | fail d m' =>
    rw [hrun] at hend
    exact ⟨hend.1.withContext _, hend.2⟩
  | starved m' =>
    rw [hrun] at hend
    exact hend

/-- A module is run if its program passes the test, and then it is admitted. -/
theorem runs_runModule {path file : String} {program : Program}
    (hprogram : c.test program = true → c.Admits (some file) .top program) (pos : Position) :
    c.Runs site (fun _ => True)
      (Eval.runModule (Eval.vetted c.test ex) path file program pos) := by
  unfold Eval.runModule
  refine ((c.laws site).newScope _).bind fun scope _ => ?_
  refine (runs_make (admitsObject_of_isCode rfl) rfl).bind fun v _ => ?_
  refine (runs_modifyContext _).bind fun _ _ => ?_
  refine (runs_orElse (runs_runBody _ rfl rfl (fun hlimit => ?_) pos) _).bind fun _ _ =>
    runs_pure trivial
  unfold Eval.vetted
  split
  · next htest => exact hex hlimit (hprogram htest)
  · next htest =>
    exact runs_starve (c.endless_or_test.resolve_right fun hall => htest (hall program))

/-- The programs of modules are admitted because the statement that imports them is allowed. -/
theorem runs_importModule {spot : Spot} {stmt : Stmt} {path : String}
    (hallows : c.allows site.file (spot, stmt)) (hpath : stmt.path? = some path)
    (pos : Position) :
    c.Runs site (fun _ => True) (Eval.importModule (Eval.vetted c.test ex) path pos) := by
  unfold Eval.importModule
  let Found (found : Option String) : Prop := ∀ file, found = some file →
    ∃ m, c.Abides site m ∧ m.resolve? path = some file
  refine (runs_read Found fun m hm file hfile => ⟨m, hm, hfile⟩).bind ?_
  intro found hfound
  cases found with
  | none => exact runs_fails (Or.inr fun _ => rfl)
  | some file =>
    obtain ⟨m, hm, hresolve⟩ := hfound file rfl
    refine ((c.laws site).read _).bind fun known _ => ?_
    cases known with
    | some v => exact runs_pure trivial
    | none =>
      let Content (content : Option String) : Prop := ∀ source, content = some source →
        ∃ m, c.Abides site m ∧ m.store.files.readText? file = some source
      refine (runs_read Content fun m hm source hsource => ⟨m, hm, hsource⟩).bind ?_
      intro content hcontent
      cases content with
      | none => exact runs_fails (Or.inr fun _ => rfl)
      | some source =>
        obtain ⟨m', hm', hsource⟩ := hcontent source rfl
        dsimp only
        split
        · next d hparse =>
          have htext := Program.isAboutText_of_ofSource hparse
          exact runs_fails (Or.inr fun _ => Diagnostic.isStray_of_isAboutText (d := d) htext)
        · next program hparse =>
          refine runs_runModule hex (fun htest => ?_) pos
          have hfiles : ∀ tree ∈ c.files, m.store.files = tree ∧ m'.store.files = tree :=
            fun tree htree => ⟨(hm.store.files tree htree).1, (hm'.store.files tree htree).1⟩
          obtain ⟨hsize, hplaced⟩ := c.module hm.library hfiles (hm.frame.file ▸ hallows) hpath
            hresolve hsource hparse htest
          exact ⟨hsize, hplaced⟩

theorem runs_importAs {spot : Spot} {path name : String} {pos : Position}
    (hallows : c.allows site.file (spot, .importAs path name pos)) :
    c.Runs site (fun _ => True) (Eval.importAs (Eval.vetted c.test ex) path name pos) :=
  (runs_importModule hex hallows rfl pos).bind fun v _ => (c.laws site).bindLocal name v

theorem runs_importFrom {spot : Spot} {path : String} {names : List ImportName} {pos : Position}
    (hallows : c.allows site.file (spot, .importFrom path names pos)) :
    c.Runs site (fun _ => True) (Eval.importFrom (Eval.vetted c.test ex) path names pos) := by
  unfold Eval.importFrom
  refine (runs_importModule hex hallows rfl pos).bind fun v _ => ?_
  refine ((c.laws site).load v).bind fun object _ => ?_
  split
  · exact (c.laws site).bindNames _ path trivial names
  · exact runs_fail (Or.inr rfl) pos

end Call

/-! Definitions and blocks. -/

theorem runs_frame : c.Runs site (c.AdmitsFrame site) Eval.frame :=
  runs_read _ fun _ hm => hm.frame

/-- The body of a function is known before the function is called. -/
theorem runs_defineFunction {definition : FunctionDef}
    (h : c.Admits site.file .ofFunction definition.body) :
    c.Runs site (fun _ => True) (Eval.defineFunction definition) := by
  unfold Eval.defineFunction
  refine runs_frame.bind fun frame hframe => ?_
  have hobject : c.AdmitsObject
      (.function { definition, globals := frame.globals, file := frame.file }) := by
    change c.Admits frame.file .ofFunction definition.body
    rw [hframe.file]
    exact h
  exact (runs_make hobject rfl).bind fun v _ => (c.laws site).bindLocal _ v

theorem runs_defineStruct {ex : Executor} (hex : c.RunsBelow site ex) {definition : StructDef}
    (h : c.Admits site.file .top definition.body) (pos : Position) :
    c.Runs site (fun _ => True) (Eval.defineStruct ex definition pos) := by
  unfold Eval.defineStruct
  refine runs_frame.bind fun frame hframe => ((c.laws site).newScope _).bind fun fields _ => ?_
  have hbody : c.Admits frame.file .top definition.body := by
    rw [hframe.file]
    exact h
  have hrun := runs_runBody (.ofStruct definition.name fields frame.globals frame.file)
    rfl rfl (fun hlimit => hex hlimit hbody) pos
  refine hrun.bind fun _ _ => ?_
  have hobject : c.AdmitsObject
      (.struct { definition, fields, globals := frame.globals, file := frame.file }) := hbody
  exact (runs_make hobject rfl).bind fun v _ => (c.laws site).bindLocal _ v

theorem calm_ancestorDeclares (s : Store) (block : String) (generations : Nat) (v : Value) :
    Calm (s.ancestorDeclares block generations v) := by
  induction generations generalizing v with
  | zero => exact calm_ok _
  | succ generations ih =>
    unfold Store.ancestorDeclares
    split
    · next f _ =>
      split
      · exact calm_ok _
      · split
        · split
          · exact calm_ok _
          · exact ih _
        · next fault hbase => exact calm_error (calm_baseOf s f fault hbase)
    · exact calm_ok _

theorem runs_addInjection (hfunction : site.inFunction = true) {body : List Stmt}
    (hbody : c.Admits site.file .ofFunction body) (name : String) :
    c.Runs site (fun _ => True) (Eval.addInjection name body) := by
  intro m hm
  unfold Eval.addInjection Eval.modify
  refine ⟨?_, trivial⟩
  dsimp only
  split
  · exact hm
  · refine ⟨hm.store, ⟨hm.frame.file, hm.frame.function, ?_⟩, hm.depth, hm.library⟩
    intro other injection hfound
    change (m.frame.injections.insert name (m.frame.injection body)).get? other = _ at hfound
    rw [Dict.get?_insert] at hfound
    split at hfound
    · cases hfound
      refine ⟨hfunction, hm.frame.function.trans hfunction, ?_⟩
      change c.Admits m.frame.file .ofFunction body
      rw [hm.frame.file]
      exact hbody
    · exact hm.frame.injections other injection hfound

/-- Only functions register bodies, so a body that is registered keeps to what one of a function
has to. -/
theorem runs_registerInjection {body : List Stmt}
    (hbody : c.Admits site.file ⟨false, site.inFunction⟩ body) (name : String) (pos : Position) :
    c.Runs site (fun _ => True) (Eval.registerInjection name body pos) := by
  unfold Eval.registerInjection
  refine (runs_read (fun function => function.isSome = site.inFunction)
    fun m hm => hm.frame.function).bind fun function hfunction => ?_
  cases function with
  | none => exact runs_fail (Or.inr rfl) pos
  | some function =>
    refine (runs_read _ fun m _ => calm_ancestorDeclares m.store name depthLimit function).bind ?_
    intro declared hcalm
    split
    · next fault => exact runs_fail (Or.inr (hcalm fault rfl)) pos
    · exact runs_fail (Or.inr rfl) pos
    · have htrue : site.inFunction = true := hfunction.symm
      rw [htrue] at hbody
      exact runs_addInjection htrue hbody name

/-- Out of the overriding body comes at most a return, and the block is in a function. -/
theorem runs_runBlock {ex : Executor} (hex : c.RunsBelow site ex) {spot : Spot}
    (hspot : spot.inFunction = site.inFunction) {body : List Stmt}
    (hbody : c.Runs site (c.Lets spot) (ex body)) (name : String) (pos : Position) :
    c.Runs site (c.Lets spot) (Eval.runBlock ex name body pos) := by
  unfold Eval.runBlock
  let Known (injections : Dict Injection) : Prop := ∀ name injection,
    injections.get? name = some injection → site.inFunction = true ∧ c.AdmitsInjection injection
  refine (runs_read Known fun m hm => hm.frame.injections).bind fun injections hknown => ?_
  split
  · exact hbody
  · next injection hfound =>
    obtain ⟨hfunction, hinjection⟩ := hknown name injection hfound
    have hruns : c.Runs site (c.Lets .ofFunction)
        (Eval.enter (.ofInjection injection injections) pos (ex injection.body)) := by
      refine Runs.enter ⟨injection.file, true, site.depth + 1⟩
        ⟨rfl, hinjection.function, ?_⟩ rfl (fun hlimit => hex hlimit hinjection.body) pos
      exact fun other injection' hfound' => ⟨rfl, (hknown other injection' hfound').2⟩
    refine hruns.mono fun flow hflow => hflow.imp_right fun hfits => ?_
    cases flow with
    | next => rfl
    | «break» pos => cases hfits
    | «continue» pos => cases hfits
    | «return» v pos => exact hspot.trans hfunction

/-! Statements. -/

/-- A body keeps to the charter if its statements do. -/
theorem runs_execEach {spot : Spot} {step : Stmt → Eval Flow} {body : List Stmt}
    (hstep : ∀ stmt ∈ body, c.Runs site (c.Lets spot) (step stmt)) :
    c.Runs site (c.Lets spot) (Eval.execEach step body) := by
  induction body with
  | nil => exact runs_pure (Or.inr rfl)
  | cons stmt rest ih =>
    obtain ⟨hstmt, hrest⟩ := List.forall_mem_cons.mp hstep
    unfold Eval.execEach
    refine hstmt.bind fun flow hflow => ?_
    split
    · exact ih hrest
    · exact runs_pure hflow

theorem runs_thenNext {spot : Spot} {x : Eval Unit} (hx : c.Runs site (fun _ => True) x) :
    c.Runs site (c.Lets spot) (Eval.thenNext x) :=
  hx.bind fun _ _ => runs_pure (Or.inr rfl)

section Statement

variable {ev : Evaluator} {ex : Executor} {spot : Spot}

/-- One of the bodies of a conditional runs, at the same spot. -/
theorem runs_execBranches {otherwise : Option (List Stmt)} {branches : List (Expr × List Stmt)}
    (hev : ∀ branch ∈ branches, c.Runs site (fun _ => True) (ev branch.1))
    (hbody : ∀ branch ∈ branches, c.Runs site (c.Lets spot) (ex branch.2))
    (helse : ∀ body ∈ otherwise, c.Runs site (c.Lets spot) (ex body)) :
    c.Runs site (c.Lets spot) (Eval.execBranches ev ex otherwise branches) := by
  induction branches with
  | nil =>
    cases otherwise with
    | none => exact runs_pure (Or.inr rfl)
    | some body => exact helse body rfl
  | cons branch rest ih =>
    obtain ⟨hcondition, hev⟩ := List.forall_mem_cons.mp hev
    obtain ⟨hfirst, hbody⟩ := List.forall_mem_cons.mp hbody
    unfold Eval.execBranches
    refine hcondition.bind fun v _ => ((c.laws site).isTruthy v).bind fun truthy _ => ?_
    split
    · exact hfirst
    · exact ih hev hbody

/-- A loop catches the signals of its body that stand for it, and asks for a charter without a
bound. -/
theorem runs_execRounds (hendless : c.endless = true) {test update : Option Formula}
    {body : List Stmt} (htest : c.Runs site (fun _ => True) (Eval.goesOn ev test))
    (hupdate : c.Runs site (fun _ => True) (Eval.runClause ev update))
    (hbody : c.Runs site (c.Lets { spot with inLoop := true }) (ex body)) (rounds : Nat) :
    c.Runs site (c.Lets spot) (Eval.execRounds ev ex test update body rounds) := by
  induction rounds with
  | zero => exact runs_starve hendless
  | succ rounds ih =>
    unfold Eval.execRounds
    refine htest.bind fun going _ => ?_
    split
    · refine hbody.bind fun flow hflow => ?_
      split
      · exact runs_pure (Or.inr rfl)
      · exact runs_pure hflow
      · exact hupdate.bind fun _ _ => ih
      · exact hupdate.bind fun _ _ => ih
    · exact runs_pure (Or.inr rfl)

/-- A statement keeps to the charter if its expressions and the bodies inside it do. -/
theorem runs_vettedStep {stmt : Stmt} (hstmt : c.AdmitsStmt site.file spot stmt)
    (hspot : spot.inFunction = site.inFunction) (hex : c.RunsBelow site ex)
    (hev : ∀ e ∈ stmt.exprs, c.Runs site (fun _ => True) (ev e))
    (htarget : ∀ target ∈ stmt.exprs, ∀ e ∈ target.targetParts,
      c.Runs site (fun _ => True) (ev e))
    (hbody : ∀ piece ∈ stmt.inner spot, piece.1.inFunction = site.inFunction →
      c.Runs site (c.Lets piece.1) (ex piece.2)) (rounds : Nat) :
    c.Runs site (c.Lets spot) (Eval.vettedStep c.test ev ex rounds stmt) := by
  have hplaced := c.isPlaced hstmt.allows
  cases stmt with
  | text content => exact runs_thenNext ((c.laws site).writeOut content)
  | reference f pos =>
    exact runs_thenNext ((c.laws site).execReference hev htarget fun _ _ _ _ => trivial)
  | formula f pos =>
    refine runs_thenNext ((c.laws site).runClause ?_ ?_ fun _ _ _ _ _ _ => trivial)
    · intro g hg
      obtain rfl := Option.mem_some_iff.mp hg
      exact hev
    · intro g hg
      obtain rfl := Option.mem_some_iff.mp hg
      exact htarget
  | cond branches otherwise pos =>
    refine runs_execBranches (fun branch hbranch => ?_) (fun branch hbranch => ?_) ?_
    · exact hev _ (List.mem_map_of_mem hbranch)
    · exact hbody (spot, branch.2)
        (List.mem_append_left _ (List.mem_map.mpr ⟨branch, hbranch, rfl⟩)) hspot
    · intro body hotherwise
      exact hbody (spot, body) (List.mem_append_right _ (List.mem_map.mpr
        ⟨body, Option.mem_toList.mpr hotherwise, rfl⟩)) hspot
  | loop init test update body pos =>
    have hrun : ∀ clause ∈ [init, test, update],
        c.Runs site (fun _ => True) (Eval.runClause ev clause) := fun clause hmem =>
      (c.laws site).runClause (fun f hf e he => hev e (Stmt.mem_exprs_loop hmem hf he))
        (fun f hf e he => htarget e (Stmt.mem_exprs_loop hmem hf he)) fun _ _ _ _ _ _ => trivial
    have hmem : test ∈ [init, test, update] := by simp
    have htest : c.Runs site (fun _ => True) (Eval.goesOn ev test) :=
      (c.laws site).goesOn (fun f hf e he => hev e (Stmt.mem_exprs_loop hmem hf he))
        (fun f hf e he => htarget e (Stmt.mem_exprs_loop hmem hf he)) fun _ _ _ _ _ _ => trivial
    have hendless := c.endless_of_isLoop hstmt.allows rfl
    refine (hrun init (by simp)).bind fun _ _ => ?_
    exact runs_execRounds hendless htest (hrun update (by simp))
      (hbody _ (List.mem_singleton.mpr rfl) hspot) rounds
  | «break» pos => exact runs_pure hplaced
  | «continue» pos => exact runs_pure hplaced
  | «return» value pos =>
    cases value with
    | none => exact ((c.laws site).make rfl).bind fun v _ => runs_pure hplaced
    | some f =>
      have hformula : c.Runs site (fun _ => True) (Eval.evalFormula ev f) :=
        (c.laws site).evalFormula (fun e he => hev e (Stmt.mem_exprs_return he))
          (fun e he => htarget e (Stmt.mem_exprs_return he)) fun _ _ _ _ => trivial
      exact hformula.bind fun v _ => runs_pure hplaced
  | importAs path name pos => exact runs_thenNext (runs_importAs hex hstmt.allows)
  | importFrom path names pos => exact runs_thenNext (runs_importFrom hex hstmt.allows)
  | function name params base isMethod body pos =>
    exact runs_thenNext (runs_defineFunction (hstmt.inner _ (List.mem_singleton.mpr rfl)))
  | struct name body pos =>
    exact runs_thenNext (runs_defineStruct hex (hstmt.inner _ (List.mem_singleton.mpr rfl)) pos)
  | block name body pos =>
    exact runs_runBlock hex hspot (hbody _ (List.mem_singleton.mpr rfl) hspot) name pos
  | inject name body pos =>
    have hinner := hstmt.inner _ (List.mem_singleton.mpr rfl)
    rw [hspot] at hinner
    exact runs_thenNext (runs_registerInjection hinner name pos)

end Statement

/-! The whole evaluator. -/

/-- Fuel for a piece of the size: each level that is left may take as much as the largest
body. -/
def Enough (c : Charter) (site : Site) (size fuel : Nat) : Prop :=
  c.endless = true ∨ (depthLimit - site.depth) * (c.size + 1) + size < fuel

/-- The parts of a piece have enough fuel with one unit less. -/
theorem Enough.smaller {size size' fuel : Nat} (h : c.Enough site size (fuel + 1))
    (hsize : size' < size) : c.Enough site size' fuel :=
  h.imp_right fun hfuel => by omega

/-- What is left on one level is enough for any body on the next. -/
theorem Enough.deeper {size size' fuel : Nat} (h : c.Enough site size (fuel + 1))
    (hlimit : site.depth < depthLimit) (hsize : c.endless = true ∨ size' ≤ c.size)
    (file : Option String) (inFunction : Bool) :
    c.Enough ⟨file, inFunction, site.depth + 1⟩ size' fuel := by
  rcases h with hendless | hfuel
  · exact Or.inl hendless
  · refine hsize.imp_right fun hsize => ?_
    obtain ⟨left, hleft⟩ : ∃ left, depthLimit - site.depth = left + 1 :=
      ⟨depthLimit - site.depth - 1, by omega⟩
    rw [hleft, Nat.succ_mul] at hfuel
    have hnext : depthLimit - (site.depth + 1) = left := by omega
    dsimp only
    rw [hnext]
    omega

theorem runs_lookup {name : String} (hdance : Builtin.ofName? name ≠ some .dance)
    (hopen : Builtin.ofName? name = some .openFile → c.files = none) :
    c.Runs site (fun _ => True) (Eval.lookup name) := by
  refine (c.laws site).lookup fun function hfunction => runs_make ?_ rfl
  cases function with
  | dance => exact hdance hfunction
  | openFile => exact hopen hfunction
  | _ => trivial

def AdmitsExpr (c : Charter) (e : Expr) : Prop :=
  ∀ name ∈ e.names, Builtin.ofName? name ≠ some .dance ∧
    (Builtin.ofName? name = some .openFile → c.files = none)

/-- The expressions of a statement that is admitted are admitted. -/
theorem AdmitsStmt.expr {file : Option String} {spot : Spot} {stmt : Stmt}
    (h : c.AdmitsStmt file spot stmt) {e : Expr} (he : e ∈ stmt.exprs) : c.AdmitsExpr e := by
  intro name hname
  have hmem : name ∈ stmt.names := List.mem_flatMap.mpr ⟨e, he, hname⟩
  exact ⟨c.not_dance h.allows name hmem, c.not_open h.allows name hmem⟩

/-- An expression keeps to the charter if smaller ones do. -/
theorem runs_evalStep {ev : Evaluator} {ex : Executor} {e : Expr} (he : c.AdmitsExpr e)
    (hex : c.RunsBelow site ex)
    (hev : ∀ part, sizeOf part < sizeOf e → c.AdmitsExpr part →
      c.Runs site (fun _ => True) (ev part)) :
    c.Runs site (fun _ => True) (Eval.evalStep ev ex e) := by
  refine (c.laws site).evalStep (fun _ _ _ v args => runs_callValue hex v args _)
    (fun _ _ _ args => runs_callSuper hex args _) (fun part hpart => ?_)
    (fun name hname => ?_) fun _ _ => trivial
  · refine hev part (Expr.sizeOf_lt_of_mem_parts hpart) fun name hname => ?_
    exact he name (Expr.mem_names_iff.mpr (Or.inr ⟨part, hpart, hname⟩))
  · obtain ⟨hdance, hopen⟩ := he name (Expr.mem_names_iff.mpr (Or.inl hname))
    exact runs_lookup hdance hopen

/-- A statement keeps to the charter if smaller expressions and bodies do. -/
theorem runs_statement {ev : Evaluator} {ex : Executor} {spot : Spot} {stmt : Stmt}
    (hstmt : c.AdmitsStmt site.file spot stmt) (hspot : spot.inFunction = site.inFunction)
    (hex : c.RunsBelow site ex)
    (hev : ∀ e, sizeOf e < sizeOf stmt → c.AdmitsExpr e → c.Runs site (fun _ => True) (ev e))
    (hbody : ∀ spot body, sizeOf body < sizeOf stmt → c.Admits site.file spot body →
      spot.inFunction = site.inFunction → c.Runs site (c.Lets spot) (ex body)) (rounds : Nat) :
    c.Runs site (c.Lets spot) (Eval.vettedStep c.test ev ex rounds stmt) := by
  refine runs_vettedStep hstmt hspot hex (fun e he => ?_) (fun target htarget e he => ?_)
    (fun piece hpiece hinner => ?_) rounds
  · exact hev e (Stmt.sizeOf_lt_of_mem_exprs he) (hstmt.expr he)
  · have hsize := Stmt.sizeOf_lt_of_mem_exprs htarget
    refine hev e (Nat.lt_trans (Expr.sizeOf_lt_of_mem_targetParts he) hsize) fun name hname => ?_
    exact hstmt.expr htarget name (Expr.mem_names_of_mem_targetParts he hname)
  · have hsize := Stmt.sizeOf_lt_of_mem_inner hpiece
    exact hbody piece.1 piece.2 hsize (hstmt.inner piece hpiece) hinner

/-- With enough fuel for what they are given, the evaluators keep to the charter. The body of a
call is no part of the code that calls it, so the induction is on the fuel. -/
theorem evalVetted_and_execVetted (c : Charter) (fuel : Nat) :
    (∀ site e, c.AdmitsExpr e → c.Enough site (sizeOf e) fuel →
      c.Runs site (fun _ => True) (Eval.evalVetted c.test fuel e)) ∧
    ∀ site spot body, c.Admits site.file spot body → spot.inFunction = site.inFunction →
      c.Enough site (sizeOf body) fuel →
      c.Runs site (c.Lets spot) (Eval.execVetted c.test fuel body) := by
  induction fuel with
  | zero =>
    constructor
    · intro site e _ hfuel
      rw [Eval.evalVetted]
      exact runs_starve (hfuel.resolve_right (Nat.not_lt_zero _))
    · intro site spot body _ _ hfuel
      rw [Eval.execVetted]
      exact runs_starve (hfuel.resolve_right (Nat.not_lt_zero _))
  | succ fuel ih =>
    obtain ⟨ihe, ihb⟩ := ih
    have hbelow : ∀ {site : Site} {size : Nat}, c.Enough site size (fuel + 1) →
        c.RunsBelow site (Eval.execVetted c.test fuel) := by
      intro site size hfuel hlimit file inFunction body hbody
      exact ihb ⟨file, inFunction, _⟩ _ _ hbody rfl (hfuel.deeper hlimit hbody.size file inFunction)
    constructor
    · intro site e he hfuel
      rw [Eval.evalVetted]
      exact runs_evalStep he (hbelow hfuel) fun part hsize hpart =>
        ihe site part hpart (hfuel.smaller hsize)
    · intro site spot body hbody hspot hfuel
      rw [Eval.execVetted]
      refine runs_execEach fun stmt hmem => ?_
      have hless := List.sizeOf_lt_of_mem hmem
      refine runs_statement (hbody.stmt hmem) hspot (hbelow hfuel) (fun e hsize he => ?_)
        (fun inside inner hsize hinner hinside => ?_) fuel
      · exact ihe site e he (hfuel.smaller (Nat.lt_trans hsize hless))
      · exact ihb site inside inner hinner hinside (hfuel.smaller (Nat.lt_trans hsize hless))

/-- A whole program keeps to the charter that admits it. -/
theorem runs_program {file : Option String} {program : Program} {fuel : Nat}
    (h : c.Admits file .top program) (hfuel : c.Enough ⟨file, false, 0⟩ (sizeOf program) fuel) :
    c.Runs ⟨file, false, 0⟩ (fun _ => True)
      (Eval.execVetted c.test fuel program >>= Eval.settle) :=
  ((c.evalVetted_and_execVetted fuel).2 _ _ _ h rfl hfuel).bind fun _ hflow => runs_settle hflow

end Charter

namespace Session

/-- A run that does not use up its fuel has a result. -/
theorem runProgram_isSome {s : Session} {fuel : Nat} {program : Program} {file : Option String}
    (h : ∀ m, Eval.runProgram fuel program (s.machine file) ≠ .starved m) :
    (s.runProgram fuel program file).isSome = true := by
  unfold runProgram
  cases hrun : Eval.runProgram fuel program (s.machine file) with
  | done a m => rfl
  | fail d m => rfl
  | starved m => exact absurd hrun (h m)

/-- A session keeps to the charter that its store keeps to. -/
theorem abides_machine {c : Charter} {s : Session} (hstore : c.AdmitsStore s.store)
    (hlibrary : s.library = c.library) (file : Option String) :
    c.Abides ⟨file, false, 0⟩ (s.machine file) :=
  ⟨hstore, ⟨rfl, rfl, nofun⟩, rfl, hlibrary⟩

end Session

end Stencil
