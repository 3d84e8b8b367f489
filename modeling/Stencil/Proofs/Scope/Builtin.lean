import Stencil.Proofs.Scope.Call

/-!
Calls of any value keep to a policy. The built-in functions work through values,
on the context, or on the locals of the active frame, which `extract` writes to
without reading them. A danced program starts in a table of its own; what it
prints is handed back in a result, so that its caller cannot tell two alike runs
apart either.
-/

namespace Stencil.Policy

variable {mode : Mode} {p : Policy mode} {rule : FrameRule} {m₁ m₂ : Machine}

/-! Built-in functions that run no code. -/

theorem Ready.lineOf (h : p.Ready rule m₁ m₂) (args : List Value) :
    (String.intercalate " " (args.map fun v => (m₂.store.get v).display)
      ++ m₂.context.lineEnding.text) =
    (String.intercalate " " (args.map fun v => (m₁.store.get v).display)
      ++ m₁.context.lineEnding.text) := by
  simp only [h.store.get, h.context]

theorem secures_eputs (args : List Value) : p.Secures rule (Eval.eputs args) := by
  unfold Eval.eputs
  refine Secures.bind (secures_read fun _ _ h => h.lineOf args) fun line => ?_
  exact Secures.bind (secures_writeErr line) fun _ => secures_make rfl

theorem secures_puts (args : List Value) : p.Secures rule (Eval.puts args) := by
  unfold Eval.puts
  refine Secures.bind (secures_read fun _ _ h => h.lineOf args) fun line => ?_
  exact Secures.bind (secures_writeOut line) fun _ => secures_make rfl

theorem secures_exitWith (args : List Value) (pos : Position) :
    p.Secures rule (Eval.exitWith args pos) := by
  unfold Eval.exitWith
  split
  · next code =>
    refine Secures.bind (secures_load code) fun object => ?_
    split
    · exact secures_failWith _ _
    · exact secures_fail _ pos
  · exact secures_fail _ pos

theorem secures_die (args : List Value) (pos : Position) : p.Secures rule (Eval.die args pos) := by
  unfold Eval.die
  exact Secures.bind (secures_eputs args) fun _ => secures_failWith _ _

def Writes (p : Policy mode) (rule : FrameRule) : Prop :=
  ∀ {n : Nat} {frame : Frame}, rule.holds n frame → ¬p.frozen frame.locals

theorem writes_admitting : p.Writes p.admitting := fun h => AdmitsFrame.own h |>.writable

theorem writes_writing : p.Writes p.writing := fun h => h

theorem secures_extractEach (hwrites : p.Writes rule) (pos : Position) (args : List Value) :
    p.Secures rule (Eval.extractEach pos args) := by
  induction args with
  | nil => exact secures_pure _
  | cons v rest ih =>
    intro m₁ m₂ h
    refine runs_load_bind h v fun object hadmits => ?_
    cases hfields : Eval.fields? object with
    | none => exact secures_fail _ pos m₁ m₂ h
    | some fields =>
      have hscope : object.namespace? = some fields := by
        cases object with
        | struct made => exact hfields
        | «instance» type table => exact hfields
        | _ => cases hfields
      refine runs_read_bind (h.store.scope fields (hadmits.links_namespace hscope).not_hidden) ?_
      refine runs_read_bind (congrArg Frame.locals h.frame) ?_
      exact (runs_updateScope h (hwrites h.rule) _).bind fun _ m₁ m₂ h _ _ => ih m₁ m₂ h

/-- The fields of a value are written to the locals of the frame, which has to admit it. -/
theorem secures_extract (hwrites : p.Writes rule) (args : List Value) (pos : Position) :
    p.Secures rule (Eval.extract args pos) := by
  unfold Eval.extract
  split
  · exact secures_fail _ pos
  · exact Secures.bind (secures_extractEach hwrites pos args) fun _ => secures_make rfl

theorem secures_textArgument (v : Value) (fault : Fault) (pos : Position) :
    p.Secures rule (Eval.textArgument v fault pos) := by
  unfold Eval.textArgument
  refine Secures.bind (secures_load v) fun object => ?_
  split
  · exact secures_pure _
  · exact secures_fail fault pos

theorem secures_setAlias (args : List Value) (pos : Position) :
    p.Secures rule (Eval.setAlias args pos) := by
  unfold Eval.setAlias
  split
  · refine Secures.bind (secures_textArgument _ _ pos) fun key => ?_
    refine Secures.bind (secures_textArgument _ _ pos) fun value => ?_
    exact Secures.bind (secures_modifyContext _ fun _ => rfl) fun _ => secures_make rfl
  · refine Secures.bind (secures_textArgument _ _ pos) fun key => ?_
    refine Secures.bind (secures_textArgument _ _ pos) fun value => ?_
    refine Secures.bind (secures_textArgument _ _ pos) fun note => ?_
    exact Secures.bind (secures_modifyContext _ fun _ => rfl) fun _ => secures_make rfl
  · exact secures_fail _ pos
  · exact secures_fail _ pos
  · exact secures_fail _ pos

theorem secures_makeText? (text : Option String) : p.Secures rule (Eval.makeText? text) := by
  cases text with
  | none => exact secures_make rfl
  | some content => exact secures_make rfl

theorem secures_option (function : Builtin) (args : List Value) (pos : Position)
    {answer : Options → String → Eval Value}
    (hanswer : ∀ options name, p.Secures rule (answer options name)) :
    p.Secures rule (Eval.option function args pos answer) := by
  unfold Eval.option
  split
  · next v =>
    refine Secures.bind (secures_load v) fun object => ?_
    split
    · next name _ =>
      refine Secures.bind (secures_read fun _ _ h => ?_) fun options => hanswer options name
      exact congrArg Context.options h.context
    · exact secures_fail _ pos
  · exact secures_fail _ pos

theorem secures_positional (args : List Value) (pos : Position) :
    p.Secures rule (Eval.positional args pos) := by
  unfold Eval.positional
  split
  · next v =>
    refine Secures.bind (secures_load v) fun object => ?_
    split
    · next index =>
      refine Secures.bind (secures_read fun _ _ h => ?_) secures_makeText?
      rw [h.context]
    · exact secures_fail _ pos
  · exact secures_fail _ pos

/-! Danced programs. -/

theorem secures_danceNames (args : List Value) (pos : Position) :
    p.Secures rule (Eval.danceNames args pos) := by
  unfold Eval.danceNames
  cases args with
  | nil => exact secures_pure _
  | cons v rest =>
    refine Secures.bind (secures_load v) fun object => ?_
    split
    · exact secures_pure _
    · exact secures_fail _ pos

theorem secures_exitToo (apart : Eval.Apart) (d : Diagnostic) (pos : Position) :
    p.Secures rule (Eval.exitToo apart d pos) := by
  unfold Eval.exitToo
  refine Secures.bind (secures_writeOut _) fun _ => Secures.bind (secures_writeErr _) fun _ => ?_
  refine secures_fails fun m₁ m₂ h => ?_
  rw [Machine.pass, Machine.pass, h.frame]

theorem isData_complaint (apart : Eval.Apart) : apart.complaint.isData = true := by
  unfold Eval.Apart.complaint
  split
  · rfl
  · split <;> rfl

/-- What a function extends is looked up in its globals. -/
theorem AlikeStores.baseOf {s₁ s₂ : Store} (h : p.AlikeStores s₁ s₂) {n : Nat} {f : Function}
    (hf : p.Admits n (.function f)) : s₂.baseOf f = s₁.baseOf f := by
  have hglobals := hf.links _ (List.mem_singleton.mpr rfl)
  unfold Store.baseOf
  simp only [h.lookup hglobals.not_hidden, h.get]

section Call

variable {ex : Executor} (hex : Obeyed mode ex)

include hex

/-- The program leaves alike stores behind, and its context and failure are handed
back as they are. -/
theorem runs_runApart (h : p.Ready rule m₁ m₂) {context : Context} (program : Program)
    (hframe : p.AdmitsFrame m₁.store.scopes.size (.top context.globals none)) :
    p.Runs rule (Eval.runApart ex context program) m₁ m₂ fun _ _ => True := by
  let inside (m : Machine) : Machine :=
    ⟨m.store, context, .top context.globals none, m.depth + 1, false, m.library⟩
  have hinside : p.Ready p.admitting (inside m₁) (inside m₂) :=
    ⟨⟨h.store, rfl, rfl, congrArg (· + 1) h.depth, rfl, h.library⟩, hframe⟩
  have hrun : p.Runs p.admitting (Eval.bind (ex program) Eval.settle) (inside m₁) (inside m₂)
      fun _ _ => True := Secures.bind (hex program p) secures_settle _ _ hinside
  unfold Runs at hrun ⊢
  unfold Eval.runApart
  dsimp only [inside] at hrun ⊢
  generalize Eval.bind (ex program) Eval.settle ⟨m₁.store, _, _, _, _, _⟩ = o₁ at hrun
  generalize Eval.bind (ex program) Eval.settle ⟨m₂.store, _, _, _, _, _⟩ = o₂ at hrun
  cases hrun with
  | done hready hkeeps _ =>
    dsimp only
    rw [hready.context]
    exact .done (h.withStore hready.store hkeeps.store) (.ofStore hkeeps.store) trivial
  | fail hready hkeeps =>
    dsimp only
    rw [hready.context]
    exact .done (h.withStore hready.store hkeeps.store) (.ofStore hkeeps.store) trivial
  | starved halike hlibrary => exact .starved halike hlibrary

/-- A danced program runs in globals of its own. -/
theorem secures_danceSource (source : String) (names : Dict Value) :
    p.Secures rule (Eval.danceSource ex source names) := by
  intro m₁ m₂ h
  refine (runs_newScope h names).bind ?_
  rintro globals n₁ n₂ hn - ⟨hbase, hlt⟩
  refine runs_read_bind (by rw [hn.context]) ?_
  split
  · next program _ =>
    exact runs_runApart hex hn program
      (admitsFrame_plain hbase (links_of_base_le hbase hlt) rfl rfl)
  · exact secures_pure _ n₁ n₂ hn

theorem secures_dance (args : List Value) (pos : Position) :
    p.Secures rule (Eval.dance ex args pos) := by
  unfold Eval.dance
  cases args with
  | nil => exact secures_fail _ pos
  | cons code rest =>
    refine Secures.bind (secures_load code) fun object => ?_
    split
    · exact secures_fail _ pos
    · next source _ =>
      refine Secures.bind (secures_danceNames rest pos) fun names => ?_
      refine Secures.bind (secures_danceSource hex source names) fun apart => ?_
      split
      · exact secures_exitToo apart _ pos
      · refine Secures.bind (secures_make rfl) fun out => ?_
        exact Secures.bind (secures_make (isData_complaint apart)) fun complaint => secures_make rfl

/-! All calls. -/

/-- Every built-in function keeps to the policy, except `setattr` where attributes may not be
set. -/
theorem secures_callBuiltin (hwrites : p.Writes rule) {function : Builtin}
    (hfunction : mode ≠ .separate → function ≠ .setattr) (args : List Value) (pos : Position) :
    p.Secures rule (Eval.callBuiltin ex function args pos) := by
  unfold Eval.callBuiltin
  split
  · next action haction => exact secures_act pos (honoured_callPlain? hfunction haction)
  · split
    · exact secures_puts args
    · exact secures_eputs args
    · exact secures_exitWith args pos
    · exact secures_die args pos
    · exact secures_extract hwrites args pos
    · exact secures_dance hex args pos
    · exact secures_setAlias args pos
    · exact secures_option _ args pos fun options name => secures_makeText? _
    · exact secures_option _ args pos fun options name => secures_make rfl
    · exact secures_positional args pos
    · exact secures_fail _ pos

/-- The callee may be `setattr` only if attributes may be set. -/
theorem runs_callValue (hwrites : p.Writes rule) (h : p.Ready rule m₁ m₂) {callee : Value}
    (hcallee : mode ≠ .separate → m₁.store.get callee ≠ .builtin .setattr) (args : List Value)
    (pos : Position) : p.Runs rule (Eval.callValue ex callee args pos) m₁ m₂ fun _ _ => True := by
  refine runs_load_bind_of_get h rfl fun hadmits => ?_
  generalize m₁.store.get callee = object at hcallee hadmits
  split
  · exact runs_callFunction hex h callee args pos (admitsInjections_empty _)
  · exact runs_callFunction hex h _ _ pos (admitsInjections_empty _)
  · exact secures_act pos (honoured_method _ _ _) m₁ m₂ h
  · next function =>
    have hfunction : mode ≠ .separate → function ≠ .setattr := by
      rintro hmode rfl
      exact hcallee hmode rfl
    exact secures_callBuiltin hex hwrites hfunction args pos m₁ m₂ h
  · exact secures_instantiate hex callee args pos m₁ m₂ h
  · exact secures_act pos (honoured_construct _ _) m₁ m₂ h
  · exact secures_fail _ pos m₁ m₂ h

/-- Where values are not `setattr` or may be called, anything may be. -/
theorem secures_callValue (hmode : mode ≠ .guarded) (hwrites : p.Writes rule) (callee : Value)
    (args : List Value) (pos : Position) :
    p.Secures rule (Eval.callValue ex callee args pos) := by
  refine fun m₁ m₂ h => runs_callValue hex hwrites h (fun hne hget => ?_) args pos
  have hsealed : mode = .sealed := by
    cases mode with
    | sealed => rfl
    | separate => exact absurd rfl hne
    | guarded => exact absurd rfl hmode
  exact (h.store.admits callee).builtin hsealed _ hget rfl

/-- A call of `super` is a call of another function. -/
theorem secures_callSuper (args : List Value) (pos : Position) :
    p.Secures p.admitting (Eval.callSuper ex args pos) := by
  intro m₁ m₂ h
  refine runs_read_bind (congrArg Frame.function h.frame) ?_
  cases m₁.frame.function with
  | none => exact secures_fail _ pos m₁ m₂ h
  | some function =>
    refine runs_load_bind h function fun object hadmits => ?_
    split
    · next f =>
      refine runs_read_bind (h.store.baseOf hadmits) ?_
      cases m₁.store.baseOf f with
      | error fault => exact secures_fail fault pos m₁ m₂ h
      | ok base =>
        refine runs_read_bind (congrArg Frame.injections h.frame) ?_
        exact runs_callFunction hex h base args pos h.rule.injections
    · exact secures_fail _ pos m₁ m₂ h

end Call

end Stencil.Policy
