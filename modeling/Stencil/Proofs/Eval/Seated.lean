import Stencil.Proofs.Eval.Ownership

/-!
Frames have their tables. A frame is entered with locals that were made for it, with
those of the function that registered an overriding body, or with globals, and tables
are never taken away. So wherever a program gets to, the locals of the active frame are
a table of the store, and what is bound there can be looked up.
-/

namespace Stencil

/-- Among so many tables, there are the locals of the frame and of the overriding bodies
that are registered in it. -/
structure Frame.Seated (n : Nat) (frame : Frame) : Prop where
  locals_lt : frame.locals.index < n
  injections : ∀ name injection, frame.injections.get? name = some injection →
    injection.locals.index < n

namespace Frame.Seated

variable {n n' : Nat} {frame : Frame}

theorem mono (h : frame.Seated n) (hle : n ≤ n') : frame.Seated n' :=
  ⟨Nat.lt_of_lt_of_le h.locals_lt hle,
    fun name injection hfound => Nat.lt_of_lt_of_le (h.injections name injection hfound) hle⟩

theorem of_empty (hlocals : frame.locals.index < n) (hinjections : frame.injections = .empty) :
    frame.Seated n := by
  refine ⟨hlocals, ?_⟩
  rw [hinjections]
  nofun

end Frame.Seated

namespace Machine

/-- What a computation leaves behind: a frame with its tables and no table less. -/
structure Settles (m m' : Machine) : Prop where
  seated : m'.frame.Seated m'.store.scopes.size
  scopes_le : m.store.scopes.size ≤ m'.store.scopes.size
  library : m'.library = m.library

variable {m m₁ m₂ : Machine}

/-- One piece of a run after the other keeps the tables. -/
theorem Settles.trans (h : m.Settles m₁) (h' : m₁.Settles m₂) : m.Settles m₂ :=
  ⟨h'.seated, Nat.le_trans h.scopes_le h'.scopes_le, h'.library.trans h.library⟩

theorem settles_of_seated (h : m.frame.Seated m.store.scopes.size) : m.Settles m :=
  ⟨h, Nat.le_refl _, rfl⟩

end Machine

def Outcome.SettlesFrom {α : Type} (m : Machine) (outcome : Outcome α) : Prop :=
  outcome.Ends m.Settles fun m' => m'.library = m.library

/-- What follows a piece of a run goes on from what the piece has left. -/
theorem Machine.Settles.andThen {m m₁ : Machine} {α : Type} {outcome : Outcome α}
    (h : m.Settles m₁) (h' : outcome.SettlesFrom m₁) : outcome.SettlesFrom m :=
  h'.mono (fun _ hend => h.trans hend) fun _ hlibrary => hlibrary.trans h.library

namespace Eval

def Seats ⦃α : Type⦄ (x : Eval α) : Prop :=
  ∀ m : Machine, m.frame.Seated m.store.scopes.size → (x m).SettlesFrom m

variable {α β : Type} {m : Machine}

/-- The second part of a sequence begins in a frame that has its tables. -/
theorem settlesFrom_bind {x : Eval α} {f : α → Eval β} (hx : (x m).SettlesFrom m)
    (hf : ∀ a m₁, x m = .done a m₁ → m.Settles m₁ → (f a m₁).SettlesFrom m₁) :
    ((x >>= f) m).SettlesFrom m := by
  change (Eval.bind x f m).SettlesFrom m
  unfold Eval.bind
  cases hrun : x m with
  | done a m₁ =>
    rw [hrun] at hx
    have hsettles : m.Settles m₁ := hx
    exact hsettles.andThen (hf a m₁ hrun hsettles)
  | fail d m₁ =>
    rw [hrun] at hx
    exact hx
  | starved m₁ =>
    rw [hrun] at hx
    exact hx

theorem Seats.bind {x : Eval α} {f : α → Eval β} (hx : Seats x) (hf : ∀ a, Seats (f a)) :
    Seats (x >>= f) :=
  fun m hm => settlesFrom_bind (hx m hm) fun a m₁ _ h => hf a m₁ h.seated

/-! Primitive operations. -/

theorem seats_pure (a : α) : Seats (Pure.pure a : Eval α) := fun _ hm => Machine.settles_of_seated hm

theorem seats_starve : Seats (Eval.starve : Eval α) := fun _ _ => rfl

theorem seats_fails (f : Machine → Diagnostic) : Seats (fun m => .fail (f m) m : Eval α) :=
  fun _ hm => Machine.settles_of_seated hm

theorem seats_fail (fault : Fault) (pos : Position) : Seats (Eval.fail fault pos : Eval α) :=
  seats_fails _

theorem seats_read (f : Machine → α) : Seats (Eval.read f) :=
  fun _ hm => Machine.settles_of_seated hm

/-- No table is lost where the store grows. -/
theorem settles_withStore (hm : m.frame.Seated m.store.scopes.size) {s : Store}
    (hs : m.store.scopes.size ≤ s.scopes.size) : m.Settles { m with store := s } :=
  ⟨hm.mono hs, hs, rfl⟩

/-- Work on the store keeps the tables if the store grows by it. -/
theorem seats_act {pos : Position} {action : Action α}
    (h : ∀ s : Store, s.Grows (action s).2) : Seats (Eval.act pos action) := by
  intro m hm
  exact ends_act (settles_withStore hm (h m.store).scopes_le)

theorem seats_make (object : Object) : Seats (Eval.make object) :=
  fun _ hm => settles_withStore hm (Nat.le_refl _)

theorem seats_newScope (names : Dict Value) : Seats (Eval.newScope names) :=
  fun m hm => settles_withStore hm (m.store.grows_newScope names).scopes_le

theorem seats_updateScope (id : ScopeId) (f : Dict Value → Dict Value) :
    Seats (Eval.modifyStore (·.updateScope id f)) :=
  fun m hm => settles_withStore hm (Nat.le_of_eq (m.store.size_updateScope id f).symm)

theorem seats_bindLocal (name : String) (v : Value) : Seats (Eval.bindLocal name v) :=
  fun m hm => settles_withStore hm (m.store.grows_bindName m.frame.locals name v).scopes_le

theorem seats_modifyContext (f : Context → Context) : Seats (Eval.modifyContext f) :=
  fun _ hm => ⟨hm, Nat.le_refl _, rfl⟩

theorem Seats.inReferenceBlock {x : Eval α} (hx : Seats x) : Seats (Eval.inReferenceBlock x) := by
  intro m hm
  refine ends_inReferenceBlock (hx _ hm) ?_ fun m' h => h
  intro m' h
  exact ⟨h.seated, h.scopes_le, h.library⟩

/-- What undoes an import leaves the tables. -/
theorem settlesFrom_orElse {x : Eval α} (hx : (x m).SettlesFrom m) (f : Context → Context) :
    (Eval.orElse x (Eval.modifyContext f) m).SettlesFrom m := by
  refine ends_orElse hx ?_ (fun m' h => h) (fun m' h => h)
  intro m' h
  exact h.trans ⟨h.seated, Nat.le_refl _, rfl⟩

/-- Nothing that an expression does by itself takes a table away. -/
theorem seats_laws : Laws (fun _ => True) Seats where
  pure := seats_pure
  bind := Seats.bind
  failAt? _ _ := seats_fails _
  exit _ _ _ := seats_fails _
  read := seats_read
  act _ htame := seats_act fun s => (htame s).grows
  make _ := seats_make _
  newScope := seats_newScope
  newModule _ table := (seats_newScope table).bind fun _ => seats_make _
  updateScope id _ _ := seats_updateScope id _
  bindLocal := seats_bindLocal
  writeOut _ := seats_modifyContext _
  writeErr _ := seats_modifyContext _
  setAlias _ _ _ := seats_modifyContext _
  inReferenceBlock := Seats.inReferenceBlock

theorem seats_settle (flow : Flow) : Seats (Eval.settle flow) := by
  cases flow with
  | next => exact seats_pure ()
  | «break» pos => exact seats_fail _ pos
  | «continue» pos => exact seats_fail _ pos
  | «return» v pos => exact seats_fail _ pos

theorem seats_returned (flow : Flow) : Seats (Eval.returned flow) := by
  cases flow with
  | next => exact seats_make _
  | «break» pos => exact seats_fail _ pos
  | «continue» pos => exact seats_fail _ pos
  | «return» v pos => exact seats_pure v

/-- A frame that has its tables may be entered, and the caller still has its own. -/
theorem settlesFrom_enter {x : Eval α} (hx : Seats x) (hm : m.frame.Seated m.store.scopes.size)
    {frame : Frame} (hframe : frame.Seated m.store.scopes.size) (pos : Position) :
    (Eval.enter frame pos x m).SettlesFrom m := by
  refine ends_enter (fun _ => hx (m.entered frame) hframe) ?_ (fun m' h => h)
    fun _ => Machine.settles_of_seated hm
  intro m' h
  exact ⟨hm.mono h.scopes_le, h.scopes_le, h.library⟩

/-- A new table may be the locals of a frame. -/
theorem settlesFrom_newScope {names : Dict Value} {f : ScopeId → Eval β}
    (hm : m.frame.Seated m.store.scopes.size)
    (hf : ∀ id m₁, m.Settles m₁ → id.index < m₁.store.scopes.size → m₁.frame = m.frame →
      (f id m₁).SettlesFrom m₁) :
    ((Eval.newScope names >>= f) m).SettlesFrom m := by
  have hnew := settles_withStore hm (m.store.grows_newScope names).scopes_le
  refine hnew.andThen (hf _ _ hnew ?_ rfl)
  change m.store.scopes.size < (m.store.newScope names).2.scopes.size
  rw [Store.size_newScope]
  omega

/-! Calls. -/

section Call

variable {ex : Executor} (hex : ∀ body, Seats (ex body))

include hex

/-- A body that fills a table needs the table to be there. -/
theorem settlesFrom_runBody (hm : m.frame.Seated m.store.scopes.size) {frame : Frame}
    (hlocals : frame.locals.index < m.store.scopes.size) (hinjections : frame.injections = .empty)
    (body : List Stmt) (pos : Position) : (Eval.runBody ex frame body pos m).SettlesFrom m :=
  settlesFrom_enter ((hex body).bind seats_settle) hm (.of_empty hlocals hinjections) pos

/-- The overriding bodies are those of a frame that has its tables. -/
theorem settlesFrom_callFunction (hm : m.frame.Seated m.store.scopes.size)
    {injections : Dict Injection}
    (hinjections : ∀ name injection, injections.get? name = some injection →
      injection.locals.index < m.store.scopes.size)
    (callee : Value) (args : List Value) (pos : Position) :
    (Eval.callFunction ex callee args pos injections m).SettlesFrom m := by
  unfold Eval.callFunction
  rw [load_bind]
  cases m.store.get callee with
  | function f =>
    dsimp only
    split
    · refine settlesFrom_newScope hm fun locals m₁ h hlocals _ => ?_
      refine settlesFrom_enter ((hex _).bind seats_returned) h.seated ⟨hlocals, ?_⟩ pos
      intro name injection hfound
      exact Nat.lt_of_lt_of_le (hinjections name injection hfound) h.scopes_le
    · exact seats_fail _ pos m hm
  | _ => exact seats_fail _ pos m hm

theorem seats_callOrdinary (callee : Value) (args : List Value) (pos : Position) :
    Seats (Eval.callFunction ex callee args pos .empty) :=
  fun _ hm => settlesFrom_callFunction hex hm (fun _ _ hfound => by cases hfound) callee args pos

/-- The bodies that are handed over have the tables that they were registered with. -/
theorem seats_callSuper (args : List Value) (pos : Position) :
    Seats (Eval.callSuper ex args pos) := by
  intro m hm
  rcases callSuper_cases ex args pos m with ⟨fault, heq⟩ | ⟨base, heq⟩
  · rw [heq]
    exact seats_fail fault pos m hm
  · rw [heq]
    exact settlesFrom_callFunction hex hm hm.injections base args pos

theorem seats_instantiate (callee : Value) (args : List Value) (pos : Position) :
    Seats (Eval.instantiate ex callee args pos) := by
  unfold Eval.instantiate
  refine (seats_read _).bind fun object => ?_
  split
  · next type =>
    intro m hm
    refine settlesFrom_newScope hm fun fields m₁ h hfields _ => ?_
    refine settlesFrom_bind (settlesFrom_runBody hex h.seated hfields rfl _ pos) ?_
    intro _ m₂ _ h₂
    have hfill : Seats (do
        let names ← Eval.read (·.store.dataFields fields)
        Eval.modifyStore (·.updateScope fields (·.insertAll (names.zip args)))
        Eval.make (.instance callee fields)) :=
      (seats_read _).bind fun _ => (seats_updateScope _ _).bind fun _ => seats_make _
    exact hfill m₂ h₂.seated
  · exact seats_fail _ pos

/-- The globals of a danced program are made for it. -/
theorem seats_danceSource (text : String) (names : Dict Value) :
    Seats (Eval.danceSource ex text names) := by
  intro m hm
  have hgrows := (m.store.grows_newScope names).scopes_le
  have hglobals : (m.danced names).frame.Seated (m.danced names).store.scopes.size := by
    refine .of_empty ?_ rfl
    change m.store.scopes.size < (m.store.newScope names).2.scopes.size
    rw [Store.size_newScope]
    omega
  refine ends_danceSource (fun program =>
    ((hex program).bind seats_settle) (m.danced names) hglobals) ?_ (fun m' h => h)
    (settles_withStore hm hgrows)
  intro inner h
  exact settles_withStore hm (Nat.le_trans hgrows h.scopes_le)

theorem seats_dance (args : List Value) (pos : Position) : Seats (Eval.dance ex args pos) := by
  unfold Eval.dance
  cases args with
  | nil => exact seats_fail _ pos
  | cons code rest =>
    refine (seats_read _).bind fun object => ?_
    split
    · exact seats_fail _ pos
    · next text _ =>
      have hnames : Seats (Eval.danceNames rest pos) := by
        unfold Eval.danceNames
        split
        · exact seats_pure _
        · refine (seats_read _).bind fun object => ?_
          split
          · exact seats_pure _
          · exact seats_fail _ pos
      refine hnames.bind fun names => (seats_danceSource hex text names).bind fun apart => ?_
      split
      · refine (seats_modifyContext _).bind fun _ => (seats_modifyContext _).bind fun _ => ?_
        exact seats_fails _
      · exact (seats_make _).bind fun out => (seats_make _).bind fun complaint => seats_make _

/-- Built-in functions take no table away. -/
theorem seats_callBuiltin (function : Builtin) (args : List Value) (pos : Position) :
    Seats (Eval.callBuiltin ex function args pos) := by
  cases function with
  | dance => exact seats_dance hex args pos
  | openFile =>
    change Seats (Eval.act pos _)
    split
    · exact seats_act (grows_openNamed _ _)
    · exact seats_act fun s => .refl s
  | _ => exact seats_laws.callBuiltin_of_isInert ex rfl args trivial

theorem seats_callValue (callee : Value) (args : List Value) (pos : Position) :
    Seats (Eval.callValue ex callee args pos) := by
  unfold Eval.callValue
  refine (seats_read _).bind fun object => ?_
  split
  · exact seats_callOrdinary hex callee args pos
  · exact seats_callOrdinary hex _ _ pos
  · exact seats_laws.act trivial (Method.isTame_call _ _ args)
  · exact seats_callBuiltin hex _ args pos
  · exact seats_instantiate hex callee args pos
  · exact seats_laws.act trivial (TypeTag.isTame_construct _ args)
  · exact seats_fail _ pos

/-! Modules and definitions. -/

theorem seats_runModule (path file : String) (program : Program) (pos : Position) :
    Seats (Eval.runModule ex path file program pos) := by
  intro m hm
  refine settlesFrom_newScope hm fun scope m₁ h hscope _ => ?_
  refine settlesFrom_bind (seats_make _ m₁ h.seated) fun v m₂ _ h₂ => ?_
  refine settlesFrom_bind (seats_modifyContext _ m₂ h₂.seated) fun _ m₃ _ h₃ => ?_
  have hscope₃ : scope.index < m₃.store.scopes.size :=
    Nat.lt_of_lt_of_le hscope (Nat.le_trans h₂.scopes_le h₃.scopes_le)
  have hbody : (Eval.runBody ex (.top scope (some file)) program pos m₃).SettlesFrom m₃ :=
    settlesFrom_runBody hex h₃.seated hscope₃ rfl program pos
  exact settlesFrom_bind (settlesFrom_orElse hbody _) fun _ m₄ _ h₄ => seats_pure v m₄ h₄.seated

theorem seats_importModule (path : String) (pos : Position) :
    Seats (Eval.importModule ex path pos) := by
  unfold Eval.importModule
  refine (seats_read _).bind fun found => ?_
  cases found with
  | none => exact seats_fails _
  | some file =>
    refine (seats_read _).bind fun known => ?_
    cases known with
    | some v => exact seats_pure v
    | none =>
      refine (seats_read _).bind fun source => ?_
      cases source with
      | none => exact seats_fails _
      | some source =>
        dsimp only
        split
        · exact seats_fails _
        · next program _ => exact seats_runModule hex path file program pos

theorem seats_importFrom (path : String) (names : List ImportName) (pos : Position) :
    Seats (Eval.importFrom ex path names pos) := by
  unfold Eval.importFrom
  refine (seats_importModule hex path pos).bind fun v => (seats_read _).bind fun object => ?_
  split
  · exact seats_laws.bindNames _ path trivial names
  · exact seats_fail _ pos

theorem seats_defineStruct (definition : StructDef) (pos : Position) :
    Seats (Eval.defineStruct ex definition pos) := by
  unfold Eval.defineStruct
  refine (seats_read _).bind fun frame => ?_
  intro m hm
  refine settlesFrom_newScope hm fun fields m₁ h hfields _ => ?_
  refine settlesFrom_bind (settlesFrom_runBody hex h.seated hfields rfl _ pos) ?_
  intro _ m₂ _ h₂
  exact ((seats_make _).bind fun v => seats_bindLocal definition.name v) m₂ h₂.seated

/-! Statements. -/

omit hex in
/-- A body is registered with the locals of the active frame. -/
theorem seats_registerInjection (name : String) (body : List Stmt) (pos : Position) :
    Seats (Eval.registerInjection name body pos) := by
  have hadd : Seats (Eval.addInjection name body) := by
    intro m hm
    unfold Eval.addInjection Eval.modify
    dsimp only
    split
    · exact Machine.settles_of_seated hm
    · refine ⟨⟨hm.locals_lt, ?_⟩, Nat.le_refl _, rfl⟩
      intro other injection hfound
      change (m.frame.injections.insert name (m.frame.injection body)).get? other = _ at hfound
      rw [Dict.get?_insert] at hfound
      split at hfound
      · obtain rfl := Option.some.inj hfound
        exact hm.locals_lt
      · exact hm.injections other injection hfound
  unfold Eval.registerInjection
  refine (seats_read _).bind fun function => ?_
  split
  · exact seats_fail _ pos
  · refine (seats_read _).bind fun declared => ?_
    split
    · exact seats_fail _ pos
    · exact seats_fail _ pos
    · exact hadd

/-- An overriding body runs over the locals of the function that registered it. -/
theorem seats_runBlock (name : String) (body : List Stmt) (pos : Position) :
    Seats (Eval.runBlock ex name body pos) := by
  intro m hm
  unfold Eval.runBlock
  rw [read_bind]
  cases hfound : m.frame.injections.get? name with
  | none => exact hex body m hm
  | some injection =>
    have hframe : (Frame.ofInjection injection m.frame.injections).Seated m.store.scopes.size :=
      ⟨hm.injections name injection hfound, hm.injections⟩
    exact settlesFrom_enter (hex injection.body) hm hframe pos

omit hex in
theorem seats_execEach {step : Stmt → Eval Flow} (hstep : ∀ stmt, Seats (step stmt))
    (body : List Stmt) : Seats (Eval.execEach step body) := by
  induction body with
  | nil => exact seats_pure _
  | cons stmt rest ih =>
    unfold Eval.execEach
    refine (hstep stmt).bind fun flow => ?_
    split
    · exact ih
    · exact seats_pure _

variable {ev : Evaluator} (hev : ∀ e, Seats (ev e))

include hev

omit hex in
theorem seats_runClause (clause : Option Formula) : Seats (Eval.runClause ev clause) :=
  seats_laws.runClause (fun _ _ e _ => hev e) (fun _ _ _ _ e _ => hev e) fun _ _ _ _ _ _ => trivial

theorem seats_execBranches (otherwise : Option (List Stmt)) (branches : List (Expr × List Stmt)) :
    Seats (Eval.execBranches ev ex otherwise branches) := by
  induction branches with
  | nil =>
    cases otherwise with
    | none => exact seats_pure _
    | some body => exact hex body
  | cons branch rest ih =>
    unfold Eval.execBranches
    refine (hev branch.1).bind fun v => (seats_read _).bind fun truthy => ?_
    split
    · exact hex branch.2
    · exact ih

theorem seats_execRounds (test update : Option Formula) (body : List Stmt) (rounds : Nat) :
    Seats (Eval.execRounds ev ex test update body rounds) := by
  have hgoesOn : Seats (Eval.goesOn ev test) :=
    seats_laws.goesOn (fun _ _ e _ => hev e) (fun _ _ _ _ e _ => hev e) fun _ _ _ _ _ _ => trivial
  induction rounds with
  | zero => exact seats_starve
  | succ rounds ih =>
    unfold Eval.execRounds
    refine hgoesOn.bind fun going => ?_
    split
    · refine (hex body).bind fun flow => ?_
      split
      · exact seats_pure _
      · exact seats_pure _
      · exact (seats_runClause hev update).bind fun _ => ih
      · exact (seats_runClause hev update).bind fun _ => ih
    · exact seats_pure _

omit hex hev in
theorem Seats.thenNext {x : Eval Unit} (hx : Seats x) : Seats (Eval.thenNext x) :=
  hx.bind fun _ => seats_pure _

/-- A statement keeps the tables if the expressions and the bodies inside it do. -/
theorem seats_execStep (rounds : Nat) (stmt : Stmt) : Seats (Eval.execStep ev ex rounds stmt) := by
  cases stmt with
  | text content => exact (seats_laws.writeOut content).thenNext
  | reference f pos =>
    exact (seats_laws.execReference (fun e _ => hev e) (fun _ _ e _ => hev e)
      fun _ _ _ _ => trivial).thenNext
  | formula f pos => exact (seats_runClause hev (some f)).thenNext
  | cond branches otherwise pos => exact seats_execBranches hex hev otherwise branches
  | loop init test update body pos =>
    exact (seats_runClause hev init).bind fun _ => seats_execRounds hex hev test update body rounds
  | «break» pos => exact seats_pure _
  | «continue» pos => exact seats_pure _
  | «return» value pos =>
    cases value with
    | none => exact (seats_make _).bind fun v => seats_pure _
    | some f =>
      have hformula : Seats (Eval.evalFormula ev f) :=
        seats_laws.evalFormula (fun e _ => hev e) (fun _ _ e _ => hev e) fun _ _ _ _ => trivial
      exact hformula.bind fun v => seats_pure _
  | importAs path name pos =>
    exact ((seats_importModule hex path pos).bind fun v => seats_bindLocal name v).thenNext
  | importFrom path names pos => exact (seats_importFrom hex path names pos).thenNext
  | function name params base isMethod body pos =>
    exact ((seats_read _).bind fun frame => (seats_make _).bind fun v =>
      seats_bindLocal _ v).thenNext
  | struct name body pos => exact (seats_defineStruct hex _ pos).thenNext
  | block name body pos => exact seats_runBlock hex name body pos
  | inject name body pos => exact (seats_registerInjection name body pos).thenNext

/-! Expressions. -/

theorem seats_follow (v : Value) (links : List Link) : Seats (Eval.follow ev ex v links) :=
  seats_laws.follow v (fun _ _ _ v args => seats_callValue hex v args _) (fun _ _ e _ => hev e)
    fun _ _ => trivial

theorem seats_evalStep (e : Expr) : Seats (Eval.evalStep ev ex e) :=
  seats_laws.evalStep (fun _ _ _ v args => seats_callValue hex v args _)
    (fun _ _ _ args => seats_callSuper hex args _) (fun part _ => hev part)
    (fun _ _ => seats_laws.lookup fun _ _ => seats_make _) fun _ _ => trivial

end Call

/-- The evaluators leave every frame its tables. -/
theorem maintained_seated :
    Maintained (fun m => m.frame.Seated m.store.scopes.size) Seats Seats where
  localP heq hx m hm := heq m hm ▸ hx m hm
  localQ heq hx m hm := heq m hm ▸ hx m hm
  keepsP hx hm := (hx _ hm).mono (fun _ h => h.seated) fun _ h => h
  keepsQ hx hm := (hx _ hm).mono (fun _ h => h.seated) fun _ h => h
  starveP := seats_starve
  starveQ := seats_starve
  evalStep e hev hex := seats_evalStep hex hev e
  execEach rounds body hev hex := seats_execEach (seats_execStep hex hev rounds) body
  follow v links hev hex := seats_follow hex hev v links

/-- Wherever a program gets to, the active frame has its tables. -/
theorem Reachable.seated (h : Reachable m) : m.frame.Seated m.store.scopes.size :=
  maintained_seated.reachable (fun _ _ hs => .of_empty hs.isOrderly.globals.index_lt rfl) h

end Eval

end Stencil
