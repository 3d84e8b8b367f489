import Stencil.Proofs.Eval.Reach

/-!
The history of a run as far as modules are concerned. A history lists the machines
that a computation steps through and, between them, where the body of a module
begins, where it ends well and where it is given up because it fails or exits. The
history of a construct is put together from those of its pieces. A danced program
runs in a context of its own, with modules of its own, so it counts as one step.
Every run has a history.
-/

namespace Stencil

/-- What a history is made of. A module is known by the full path of its file. -/
inductive Event
  | step (m : Machine)
  | begins (file : String) (v : Value)
  | completes (file : String) (v : Value)
  /-- The body has failed or exited. -/
  | abandons (file : String) (v : Value)

namespace Machine

/-- The file and the program of a module that has to be run to import it: one that
can be found and read and is not known yet. -/
def toRun? (m : Machine) (path : String) : Option (String × Program) :=
  (m.resolve? path).bind fun file =>
    match m.context.modules.get? file with
    | some _ => none
    | none =>
      (m.store.files.readText? file).bind fun source =>
        (Program.ofSource source).toOption.map fun program => (file, program)

/-- A module that has to be run is not known. -/
theorem get?_of_toRun? {m : Machine} {path file : String} {program : Program}
    (h : m.toRun? path = some (file, program)) : m.context.modules.get? file = none := by
  unfold toRun? at h
  obtain ⟨found, hfound, h⟩ := Option.bind_eq_some_iff.mp h
  split at h
  · cases h
  · next hnone =>
    obtain ⟨source, -, h⟩ := Option.bind_eq_some_iff.mp h
    obtain ⟨read, -, heq⟩ := Option.map_eq_some_iff.mp h
    cases heq
    exact hnone

def moduleValue (m : Machine) : Value := ⟨m.store.objects.size⟩

def moduleFrame (m : Machine) (file : String) : Frame := .top ⟨m.store.scopes.size⟩ (some file)

def withModule (m : Machine) (path file : String) : Machine :=
  let (scope, store) := m.store.newScope .empty
  let (v, store) := store.alloc (.module path scope)
  { m with
    store := store
    context := { m.context with modules := m.context.modules.insert file v } }

end Machine

namespace Outcome

variable {α : Type}

def events (K : α → Machine → List Event) : Outcome α → List Event
  | .done a m => K a m
  | .fail _ _ | .starved _ => []

def ending (file : String) (v : Value) : Outcome α → List Event
  | .done _ _ => [.completes file v]
  | .fail _ _ => [.abandons file v]
  | .starved _ => []

end Outcome

namespace Eval

/-- The body of a module runs in its own frame, with the module entered among the known ones, and
is undone if it fails. -/
theorem runModule_eq (ex : Executor) (path file : String) (program : Program) (pos : Position)
    (m : Machine) :
    runModule ex path file program pos m =
      match runBody ex (m.moduleFrame file) program pos (m.withModule path file) with
      | .done _ m' => .done m.moduleValue m'
      | .fail d m' =>
        .fail d { m' with context := { m'.context with modules := m'.context.modules.erase file } }
      | .starved m' => .starved m' := by
  change Eval.bind (orElse (runBody ex (m.moduleFrame file) program pos) (forget file)) _
    (m.withModule path file) = _
  unfold Eval.bind orElse
  cases runBody ex (m.moduleFrame file) program pos (m.withModule path file) with
  | done a m' => rfl
  | fail d m' => rfl
  | starved m' => rfl

/-- A sequence goes on from what its first part has left. -/
theorem bind_of_done {α β : Type} {x : Eval α} {a : α} {m m' : Machine} (h : x m = .done a m')
    (f : α → Eval β) : (x >>= f) m = f a m' := by
  change Eval.bind x f m = _
  simp only [Eval.bind, h]

theorem bind_congr {α β : Type} {x y : Eval α} {m : Machine} (h : x m = y m) (f : α → Eval β) :
    (x >>= f) m = (y >>= f) m := by
  change Eval.bind x f m = Eval.bind y f m
  simp only [Eval.bind, h]

theorem read_bind {α β : Type} (f : Machine → α) (k : α → Eval β) (m : Machine) :
    (Eval.read f >>= k) m = k (f m) m := rfl

/-- An import makes use of the executor for the module that has to be run alone. -/
theorem importModule_congr {ex ex' : Executor} {m : Machine} {path : String}
    (h : ∀ file program, m.toRun? path = some (file, program) → ex' program = ex program)
    (pos : Position) : importModule ex' path pos m = importModule ex path pos m := by
  unfold Machine.toRun? at h
  unfold importModule
  simp only [read_bind]
  cases hfound : m.resolve? path with
  | none => rfl
  | some file =>
    simp only [read_bind]
    cases hknown : m.context.modules.get? file with
    | some v => rfl
    | none =>
      simp only [read_bind]
      cases hsource : m.store.files.readText? file with
      | none => rfl
      | some source =>
        dsimp only
        cases hparse : Program.ofSource source with
        | error d => rfl
        | ok program =>
          have hsame : ex' program = ex program := h file program (by
            simp only [hfound, Option.bind_some, hknown, hsource, hparse]
            rfl)
          simp only [runModule, runBody, hsame]

/-- A module that has to be run was found and could be read. -/
theorem exists_source_of_toRun? {m : Machine} {path file : String} {program : Program}
    (h : m.toRun? path = some (file, program)) : m.resolve? path = some file ∧
      ∃ source, m.store.files.readText? file = some source ∧
        Program.ofSource source = .ok program := by
  unfold Machine.toRun? at h
  obtain ⟨found, hfound, h⟩ := Option.bind_eq_some_iff.mp h
  split at h
  · cases h
  · obtain ⟨source, hsource, h⟩ := Option.bind_eq_some_iff.mp h
    cases hparse : Program.ofSource source with
    | error d =>
      rw [hparse] at h
      cases h
    | ok read =>
      rw [hparse] at h
      cases h
      exact ⟨hfound, source, hsource, hparse⟩

/-- A module that is known is not run. -/
theorem importModule_of_known {m : Machine} {path file : String} {v : Value}
    (hfound : m.resolve? path = some file) (hknown : m.context.modules.get? file = some v)
    (ex : Executor) (pos : Position) : importModule ex path pos m = .done v m := by
  unfold importModule
  simp only [read_bind, hfound, hknown]
  rfl

/-- A module that is not known is run, if its file can be read and parsed. -/
theorem importModule_of_unknown {m : Machine} {path file source : String} {program : Program}
    (hfound : m.resolve? path = some file) (hunknown : m.context.modules.get? file = none)
    (hsource : m.store.files.readText? file = some source)
    (hparse : Program.ofSource source = .ok program) (ex : Executor) (pos : Position) :
    importModule ex path pos m = runModule ex path file program pos m := by
  unfold importModule
  simp only [read_bind, hfound, hunknown, hsource, hparse]

/-- An import comes to the body of a module or ends where it is. -/
theorem importModule_cases (ex : Executor) (path : String) (pos : Position) (m : Machine) :
    (∃ file program, m.toRun? path = some (file, program) ∧
      importModule ex path pos m = runModule ex path file program pos m) ∨
    m.toRun? path = none ∧ ((∃ v, importModule ex path pos m = .done v m) ∨
      ∃ d, importModule ex path pos m = .fail d m) := by
  unfold Machine.toRun? importModule
  simp only [read_bind]
  cases m.resolve? path with
  | none => exact Or.inr ⟨rfl, Or.inr ⟨_, rfl⟩⟩
  | some file =>
    simp only [read_bind, Option.bind_some]
    cases m.context.modules.get? file with
    | some v => exact Or.inr ⟨rfl, Or.inl ⟨v, rfl⟩⟩
    | none =>
      simp only [read_bind]
      cases m.store.files.readText? file with
      | none => exact Or.inr ⟨rfl, Or.inr ⟨_, rfl⟩⟩
      | some source =>
        simp only [Option.bind_some]
        cases Program.ofSource source with
        | error d => exact Or.inr ⟨rfl, Or.inr ⟨_, rfl⟩⟩
        | ok program => exact Or.inl ⟨file, program, rfl, rfl⟩

/-- The operations that are single steps. -/
inductive Elementary : ⦃α : Type⦄ → Eval α → Prop
  | pure {α : Type} (a : α) : Elementary (Pure.pure a : Eval α)
  | starve {α : Type} : Elementary (Eval.starve : Eval α)
  | fails {α : Type} (f : Machine → Diagnostic) : Elementary (fun m => .fail (f m) m : Eval α)
  | read {α : Type} (f : Machine → α) : Elementary (Eval.read f)
  | act {α : Type} (pos : Position) (action : Action α) : Elementary (Eval.act pos action)
  | make (object : Object) : Elementary (Eval.make object)
  | newScope (names : Dict Value) : Elementary (Eval.newScope names)
  | modifyStore (f : Store → Store) : Elementary (Eval.modifyStore f)
  | bindLocal (name : String) (v : Value) : Elementary (Eval.bindLocal name v)
  | writeOut (text : String) : Elementary (Eval.writeOut text)
  | writeErr (text : String) : Elementary (Eval.writeErr text)
  | setAlias (key value : String) (note : Option String) :
      Elementary (Eval.modifyContext (·.setAlias key value note))
  | addInjection (name : String) (body : List Stmt) : Elementary (Eval.addInjection name body)
  | runApart (ex : Executor) (context : Context) (program : Program) :
      Elementary (Eval.runApart ex context program)

/-- The known modules stay as they are in a single step. -/
theorem Elementary.modules {α : Type} {x : Eval α} (h : Elementary x) (m : Machine) :
    (x m).EndsIn fun m' => m'.context.modules = m.context.modules := by
  cases h with
  | act pos action => exact ends_act rfl
  | addInjection name body =>
    unfold Eval.addInjection Eval.modify
    change (if m.frame.injections.contains name then m else _).context.modules = _
    split
    · rfl
    · rfl
  | runApart ex context program =>
    unfold Eval.runApart
    dsimp only
    split
    · exact rfl
    · exact rfl
    · trivial
  | starve => trivial
  | _ => exact rfl

/-- The history of a computation, by the machine in which it begins. -/
inductive Traces : ⦃α : Type⦄ → Eval α → (Machine → List Event) → Prop
  | step {α : Type} {x : Eval α} : Elementary x → Traces x fun m => [.step m]
  | bind {α β : Type} {x : Eval α} {f : α → Eval β} {J : Machine → List Event}
      {K : α → Machine → List Event} :
      Traces x J → (∀ a, Traces (f a) (K a)) → Traces (x >>= f) fun m => J m ++ (x m).events K
  | inReferenceBlock {α : Type} {x : Eval α} {J : Machine → List Event} :
      Traces x J → Traces (Eval.inReferenceBlock x) fun m => J { m with inReference := true }
  | enter {α : Type} {x : Eval α} {J : Machine → List Event} (frame : Frame) (pos : Position) :
      Traces x J → Traces (Eval.enter frame pos x) fun m =>
        if m.depth < depthLimit then J (m.entered frame) else [.step m]
  | importModule {ex : Executor} {pos : Position} {K : Frame → Program → Machine → List Event}
      (path : String) :
      (∀ frame program, Traces (runBody ex frame program pos) (K frame program)) →
      Traces (Eval.importModule ex path pos) fun m =>
        match m.toRun? path with
        | none => [.step m]
        | some (file, program) =>
          let frame := m.moduleFrame file
          let start := m.withModule path file
          .begins file m.moduleValue ::
            (K frame program start ++ (runBody ex frame program pos start).ending file m.moduleValue)

/-- Every computation that programs are made of has a history. -/
theorem traces_discipline :
    BodyDiscipline (fun _ x => ∃ J, Traces x J) (fun _ x => ∃ J, Traces x J) := by
  have hbind : ∀ {α β : Type} {x : Eval α} {f : α → Eval β}, (∃ J, Traces x J) →
      (∀ a, ∃ J, Traces (f a) J) → ∃ J, Traces (x >>= f) J := by
    rintro α β x f ⟨J, hx⟩ hf
    choose K hK using hf
    exact ⟨_, hx.bind hK⟩
  have hmake : ∀ object, ∃ J, Traces (Eval.make object) J := fun object => ⟨_, .step (.make object)⟩
  have hfail : ∀ {α : Type} (fault : Fault) (pos : Position),
      ∃ J, Traces (Eval.fail fault pos : Eval α) J := fun _ _ => ⟨_, .step (.fails _)⟩
  refine {
    pure := fun a => ⟨_, .step (.pure a)⟩
    bind := hbind
    starve := ⟨_, .step .starve⟩
    fails := fun f => ⟨_, .step (.fails f)⟩
    read := fun f => ⟨_, .step (.read f)⟩
    act := fun pos action => ⟨_, .step (.act pos action)⟩
    make := hmake
    newScope := fun names => ⟨_, .step (.newScope names)⟩
    modifyStore := fun f => ⟨_, .step (.modifyStore f)⟩
    bindLocal := fun name v => ⟨_, .step (.bindLocal name v)⟩
    writeOut := fun text => ⟨_, .step (.writeOut text)⟩
    writeErr := fun text => ⟨_, .step (.writeErr text)⟩
    setAlias := fun key value note => ⟨_, .step (.setAlias key value note)⟩
    inReferenceBlock := ?_
    settled := ?_
    returned := ?_
    enter := ?_
    importModule := ?_
    runApart := fun context program _ => ⟨_, .step (.runApart _ context program)⟩
    weaken := fun hx => hx
    sequence := hbind
    addInjection := fun name body => ⟨_, .step (.addInjection name body)⟩ }
  · rintro α x ⟨J, hx⟩
    exact ⟨_, hx.inReferenceBlock⟩
  · intro x hx
    refine hbind hx fun flow => ?_
    cases flow with
    | next => exact ⟨_, .step (.pure ())⟩
    | «break» pos => exact hfail _ pos
    | «continue» pos => exact hfail _ pos
    | «return» v pos => exact hfail _ pos
  · intro x hx
    refine hbind hx fun flow => ?_
    cases flow with
    | next => exact hmake _
    | «break» pos => exact hfail _ pos
    | «continue» pos => exact hfail _ pos
    | «return» v pos => exact ⟨_, .step (.pure v)⟩
  · rintro α x frame pos ⟨J, hx⟩
    exact ⟨_, hx.enter frame pos⟩
  · intro ex path pos hex
    choose J hJ using hex
    exact ⟨_, .importModule path fun frame program => (hJ program).enter frame pos⟩

/-- The run of a program has a history. -/
theorem exists_traces_runProgram (fuel : Nat) (program : Program) :
    ∃ J, Traces (runProgram fuel program) J :=
  traces_discipline.settled (traces_discipline.exec fuel program)

end Eval

end Stencil
