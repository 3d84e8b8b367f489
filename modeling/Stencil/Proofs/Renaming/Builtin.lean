import Stencil.Proofs.Renaming.Call

/-!
Built-in functions and calls of any value up to the names of references. They go together
with themselves on linked values, given that the executor of bodies does; the contexts
of danced programs are linked like those of their callers.
-/

namespace Stencil

namespace Renaming

variable {r : Renaming}

section Builtins

variable {args args' : List Value} (hargs : r.Links args args') (pos : Position)

theorem Machines.lineOf {m m' : Machine} (h : r.Machines m m') (hargs : r.Links args args') :
    String.intercalate " " (args'.map fun v => (m'.store.get v).display)
        ++ m'.context.lineEnding.text =
      String.intercalate " " (args.map fun v => (m.store.get v).display)
        ++ m.context.lineEnding.text := by
  have hdisplays : args'.map (fun v => (m'.store.get v).display) =
      args.map fun v => (m.store.get v).display := by
    induction hargs with
    | nil => rfl
    | cons hv _ ih => rw [List.map_cons, List.map_cons, ih, (h.store.get hv).display]
  rw [hdisplays, h.context.lineEnding]

include hargs

/-- The line that values make is the same. -/
theorem runs_lineOf_bind {k k' : String → Eval Value} (hk : ∀ line, r.Runs (k line) (k' line)) :
    r.Runs (Eval.lineOf args >>= k) (Eval.lineOf args' >>= k') :=
  .bind_same (fun _ m' hm => ⟨_, rfl, congrArg (Outcome.done · m') (hm.lineOf hargs)⟩) hk

theorem runs_puts : r.Runs (Eval.puts args) (Eval.puts args') := by
  refine runs_lineOf_bind hargs fun line => (runs_writeOut line).bind fun r₁ _ _ _ _ => ?_
  rw [hargs.length]
  exact runs_make (.int _)

theorem runs_eputs : r.Runs (Eval.eputs args) (Eval.eputs args') := by
  refine runs_lineOf_bind hargs fun line => (runs_writeErr line).bind fun r₁ _ _ _ _ => ?_
  rw [hargs.length]
  exact runs_make (.int _)

theorem runs_exitWith : r.Runs (Eval.exitWith args pos) (Eval.exitWith args' pos) := by
  rcases hargs with _ | ⟨hcode, _ | ⟨-, -⟩⟩
  · exact runs_fail _ pos
  · refine (runs_load hcode).bind fun r₁ _ object object' hobject => ?_
    cases hobject with
    | int status => exact runs_failWith _ _
    | _ => exact runs_fail _ pos
  · exact runs_fail _ pos

theorem runs_die : r.Runs (Eval.die args pos) (Eval.die args' pos) :=
  (runs_eputs hargs).bind fun _ _ _ _ _ => runs_failWith _ _

omit hargs in
theorem links_fields? {object object' : Object} (h : r.Links object object') :
    r.Links (Eval.fields? object) (Eval.fields? object') := by
  cases h with
  | struct _ _ hfields _ => exact .some hfields
  | «instance» _ hfields => exact .some hfields
  | _ => exact .none

theorem runs_extractEach : r.Runs (Eval.extractEach pos args) (Eval.extractEach pos args') := by
  induction args generalizing r args' with
  | nil =>
    cases hargs
    exact runs_pure rfl
  | cons v rest ih =>
    cases hargs with
    | cons hv hrest =>
      refine (runs_load hv).bind fun r₁ hle₁ object object' hobject => ?_
      have hfields := links_fields? hobject
      generalize Eval.fields? object = found at hfields
      generalize Eval.fields? object' = found' at hfields
      cases hfields with
      | none => exact runs_fail _ pos
      | some hfields =>
        refine (runs_read fun m m' hm => hm.store.scope hfields).bind ?_
        intro r₂ hle₂ table table' htable
        refine (runs_read fun m m' hm => hm.frame.locals).bind ?_
        intro r₃ hle₃ locals locals' hlocals
        refine (runs_updateScope hlocals fun hheld => ?_).bind fun r₄ hle₄ _ _ _ => ?_
        · exact hheld.insertAll (htable.mono hle₃).toList
        exact ih (Links.mono hrest (le_trans hle₁ (le_trans hle₂ (le_trans hle₃ hle₄))))

theorem runs_extract : r.Runs (Eval.extract args pos) (Eval.extract args' pos) := by
  have hempty : args'.isEmpty = args.isEmpty := by cases hargs <;> rfl
  unfold Eval.extract
  rw [hempty]
  split
  · exact runs_fail _ pos
  · exact (runs_extractEach hargs pos).bind fun _ _ _ _ _ => runs_make .nil

omit hargs

theorem runs_textArgument_bind {v v' : Value} (hv : r.Links v v') (fault : Fault)
    {k k' : String → Eval Value} (hk : ∀ r', r ≤ r' → ∀ content, r'.Runs (k content) (k' content)) :
    r.Runs (Eval.textArgument v fault pos >>= k) (Eval.textArgument v' fault pos >>= k') := by
  have htext : r.Runs (Eval.textArgument v fault pos) (Eval.textArgument v' fault pos) := by
    refine (runs_load hv).bind fun r₁ _ object object' hobject => ?_
    rw [hobject.text?]
    split
    · exact runs_pure rfl
    · exact runs_fail fault pos
  refine htext.bind fun r₁ hle content content' hcontent => ?_
  obtain rfl : content = content' := hcontent
  exact hk r₁ hle content

theorem runs_setAliasTo (key value : String) (description : Option String) :
    r.Runs (do Eval.modifyContext (·.setAlias key value description); Eval.make .nil)
      (do Eval.modifyContext (·.setAlias key value description); Eval.make .nil) := by
  refine (runs_modifyContext fun {c c'} hc => ?_).bind fun _ _ _ _ _ => runs_make .nil
  exact { hc with aliases := congrArg (·.insert key ⟨value, description⟩) hc.aliases }

include hargs in
theorem runs_setAlias : r.Runs (Eval.setAlias args pos) (Eval.setAlias args' pos) := by
  rcases hargs with _ | ⟨hkey, _ | ⟨hvalue, _ | ⟨hnote, _ | ⟨-, -⟩⟩⟩⟩
  · exact runs_fail _ pos
  · exact runs_fail _ pos
  · refine runs_textArgument_bind pos hkey _ fun r₁ hle₁ key => ?_
    refine runs_textArgument_bind pos (hvalue.mono hle₁) _ fun r₂ _ value => ?_
    exact runs_setAliasTo key value none
  · refine runs_textArgument_bind pos hkey _ fun r₁ hle₁ key => ?_
    refine runs_textArgument_bind pos (hvalue.mono hle₁) _ fun r₂ hle₂ value => ?_
    refine runs_textArgument_bind pos (hnote.mono (le_trans hle₁ hle₂)) _ fun r₃ _ description => ?_
    exact runs_setAliasTo key value (some description)
  · exact runs_fail _ pos

theorem runs_makeText? (content : Option String) :
    r.Runs (Eval.makeText? content) (Eval.makeText? content) := by
  cases content with
  | some content => exact runs_make (.str content)
  | none => exact runs_make .nil

include hargs

theorem runs_option (function : Builtin) {answer : Options → String → Eval Value}
    (hanswer : ∀ {r : Renaming} options name, r.Runs (answer options name) (answer options name)) :
    r.Runs (Eval.option function args pos answer) (Eval.option function args' pos answer) := by
  rcases hargs with _ | ⟨hv, _ | ⟨-, -⟩⟩
  · exact runs_fail _ pos
  · refine (runs_load hv).bind fun r₁ _ object object' hobject => ?_
    rw [hobject.text?]
    split
    · refine runs_read_bind (fun m m' hm => hm.context.options) fun options => hanswer options _
    · exact runs_fail _ pos
  · exact runs_fail _ pos

theorem runs_positional : r.Runs (Eval.positional args pos) (Eval.positional args' pos) := by
  rcases hargs with _ | ⟨hv, _ | ⟨-, -⟩⟩
  · exact runs_fail _ pos
  · refine (runs_load hv).bind fun r₁ _ object object' hobject => ?_
    cases hobject with
    | int index =>
      refine runs_read_bind (fun m m' hm => ?_) fun content => runs_makeText? content
      rw [hm.context.options]
    | _ => exact runs_fail _ pos
  · exact runs_fail _ pos

theorem runs_danceNames : r.Runs (Eval.danceNames args pos) (Eval.danceNames args' pos) := by
  rcases hargs with _ | ⟨hv, -⟩
  · exact runs_pure links_empty
  · refine (runs_load hv).bind fun r₁ _ object object' hobject => ?_
    cases hobject with
    | dict hnames => exact runs_pure hnames
    | _ => exact runs_fail _ pos

end Builtins

section Dance

variable {ex : Executor} (hex : Executes ex) {args args' : List Value} (pos : Position)

include hex in
/-- The caller's context and frame are put back: they are linked as before. -/
theorem runs_runApart {context context' : Context} (hcontext : r.Links context context')
    (program : Program) :
    r.Runs (Eval.runApart ex context program) (Eval.runApart ex context' program) := by
  intro m m' hm
  have hbody : r.Runs (Eval.bind (ex program) Eval.settle) (Eval.bind (ex program) Eval.settle) :=
    (hex r program).bind fun _ _ _ _ hflow => runs_settle hflow
  have hend := hbody
    ⟨m.store, context, .top context.globals none, m.depth + 1, false, m.library⟩
    ⟨m'.store, context', .top context'.globals none, m'.depth + 1, false, m'.library⟩
    ⟨hm.store, hcontext, links_top hcontext.globals none, congrArg (· + 1) hm.depth, rfl,
      hm.library⟩
  unfold Eval.runApart
  dsimp only
  generalize Eval.bind (ex program) Eval.settle
    ⟨m.store, context, .top context.globals none, m.depth + 1, false, m.library⟩ = outcome at hend
  generalize Eval.bind (ex program) Eval.settle
    ⟨m'.store, context', .top context'.globals none, m'.depth + 1, false, m'.library⟩ = outcome'
    at hend
  cases hend with
  | done hle _ hm₁ =>
    exact .done hle ⟨hm₁.context, rfl⟩ ⟨hm₁.store, hm.context.mono hle, hm.frame.mono hle, hm.depth,
      hm.inReference, hm.library⟩
  | fail d hle hm₁ =>
    exact .done hle ⟨hm₁.context, rfl⟩ ⟨hm₁.store, hm.context.mono hle, hm.frame.mono hle, hm.depth,
      hm.inReference, hm.library⟩
  | starved m m' => exact .starved m m'

theorem links_fresh {globals globals' : ScopeId} (h : r.Links globals globals')
    (lineEnding : LineEnding) (options : Options) :
    r.Links (Context.fresh globals lineEnding options)
      (Context.fresh globals' lineEnding options) :=
  { globals := h
    out := rfl
    err := rfl
    lineEnding := rfl
    aliases := rfl
    options := rfl
    modules := links_empty }

include hex in
theorem runs_danceSource (source : String) {names names' : Dict Value}
    (hnames : r.Links names names') :
    r.Runs (Eval.danceSource ex source names) (Eval.danceSource ex source names') := by
  refine (runs_newScope hnames).bind fun r₁ _ globals globals' hglobals => ?_
  refine (runs_read fun m m' hm => ?_).bind fun r₂ _ context context' hcontext => ?_
  · rw [hm.context.lineEnding]
    exact links_fresh hglobals _ _
  · split
    · exact runs_runApart hex hcontext _
    · exact runs_pure ⟨hcontext, rfl⟩

variable {apart apart' : Eval.Apart} (hapart : r.Links apart apart')

include hapart

theorem links_complaint : apart'.complaint = apart.complaint := by
  unfold Eval.Apart.complaint
  rw [hapart.2, hapart.1.err]

theorem runs_exitToo (d : Diagnostic) :
    r.Runs (Eval.exitToo apart d pos) (Eval.exitToo apart' d pos) := by
  unfold Eval.exitToo
  rw [hapart.1.out, hapart.1.err]
  refine (runs_writeOut _).bind fun r₁ _ _ _ _ => (runs_writeErr _).bind fun r₂ _ _ _ _ => ?_
  intro m m' hm
  dsimp only
  rw [hm.pass]
  exact .fail _ (le_refl r₂) hm

omit hapart

/-- The result of a program that has not exited. -/
theorem runs_danceResult (out : String) {complaint : Object}
    (hcomplaint : complaint.isCompound = false) :
    r.Runs
      (do
        let out ← Eval.make (.str out)
        let complaint ← Eval.make complaint
        Eval.make (.array #[out, complaint]))
      (do
        let out ← Eval.make (.str out)
        let complaint ← Eval.make complaint
        Eval.make (.array #[out, complaint])) := by
  refine (runs_make (.str out)).bind fun r₁ _ v v' hv => ?_
  refine (runs_make (links_of_isCompound hcomplaint)).bind fun r₂ hle w w' hw => ?_
  exact runs_make (.array (links_cons (hv.mono hle) (links_cons hw links_nil)))

theorem complaint_isCompound (apart : Eval.Apart) : apart.complaint.isCompound = false := by
  unfold Eval.Apart.complaint
  split
  · rfl
  · split <;> rfl

include hex in
theorem runs_dance (hargs : r.Links args args') :
    r.Runs (Eval.dance ex args pos) (Eval.dance ex args' pos) := by
  rcases hargs with _ | ⟨hcode, hrest⟩
  · exact runs_fail _ pos
  · refine (runs_load hcode).bind fun r₁ hle₁ object object' hobject => ?_
    rw [hobject.text?]
    split
    · exact runs_fail _ pos
    · refine (runs_danceNames (Links.mono hrest hle₁) pos).bind ?_
      intro r₂ _ names names' hnames
      refine (runs_danceSource hex _ hnames).bind fun r₃ _ apart apart' hapart => ?_
      rw [hapart.2, hapart.1.out, links_complaint hapart]
      split
      · exact runs_exitToo pos hapart _
      · exact runs_danceResult _ (complaint_isCompound apart)

end Dance

section Values

variable {ex : Executor} (hex : Executes ex) {callee callee' : Value} {args args' : List Value}
  (hargs : r.Links args args') (pos : Position)

include hex hargs

theorem runs_callBuiltin (function : Builtin) :
    r.Runs (Eval.callBuiltin ex function args pos) (Eval.callBuiltin ex function args' pos) := by
  have hplain := acts_callPlain? function hargs
  unfold Eval.callBuiltin
  generalize function.callPlain? args = plain at hplain
  generalize function.callPlain? args' = plain' at hplain
  cases hplain with
  | some haction => exact runs_act haction pos
  | none =>
    cases function with
    | puts => exact runs_puts hargs
    | eputs => exact runs_eputs hargs
    | exit => exact runs_exitWith hargs pos
    | die => exact runs_die hargs pos
    | extract => exact runs_extract hargs pos
    | dance => exact runs_dance hex pos hargs
    | aliasSet => exact runs_setAlias hargs pos
    | optsGet => exact runs_option hargs pos _ fun options name => runs_makeText? _
    | optsHas => exact runs_option hargs pos _ fun options name => runs_make (.bool _)
    | optsArgs => exact runs_positional hargs pos
    | _ => exact runs_fail _ pos

theorem runs_callValue (hcallee : r.Links callee callee') :
    r.Runs (Eval.callValue ex callee args pos) (Eval.callValue ex callee' args' pos) := by
  refine (runs_load hcallee).bind fun r₁ hle object object' hobject => ?_
  have hcallee₁ := hcallee.mono hle
  have hargs₁ := hargs.mono hle
  cases hobject with
  | function _ _ _ => exact runs_callFunction hex hcallee₁ hargs₁ pos links_empty
  | method hreceiver htarget =>
    exact runs_callFunction hex htarget (links_cons hreceiver hargs₁) pos links_empty
  | byNature name hreceiver => exact runs_act (acts_method name hreceiver hargs₁) pos
  | builtin function => exact runs_callBuiltin hex hargs₁ pos function
  | struct _ _ _ _ => exact runs_instantiate hex hcallee₁ hargs₁ pos
  | type tag => exact runs_act (acts_construct tag hargs₁) pos
  | _ => exact runs_fail _ pos

end Values

end Renaming

end Stencil
