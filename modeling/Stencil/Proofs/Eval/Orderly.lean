import Stencil.Proofs.Diagnostic.Readings
import Stencil.Proofs.Program.Blocks

/-!
Machines in order. The tables of objects and the globals of the context are kept apart,
and each overriding body was registered by a function that declares the blocks in it.
Evaluation keeps a machine in order, as long as the function that runs declares the
blocks of the body. To all bodies that are entered applies what was found out when
their function was made: its declared blocks are those of its own body. Where blocks
are of no interest, they are left aside and any body at all will do.
-/

namespace Stencil

/-- The function of a frame, if there is one, declares the blocks. Only where this is to
be followed up is anything said. -/
def Store.Covers (strict : Prop) (s : Store) (function : Option Value) (blocks : List String) :
    Prop :=
  strict → ∀ v, function = some v → ∃ f, s.get v = .function f ∧ blocks ⊆ f.definition.blocks

namespace Store

variable {strict : Prop} {s s' : Store} {function : Option Value} {blocks blocks' : List String}

def KeepsFunctions (s s' : Store) : Prop := ∀ v f, s.get v = .function f → s'.get v = .function f

theorem Grows.keepsFunctions (h : s.Grows s') : s.KeepsFunctions s' :=
  fun _ _ hget => h.get_function hget

theorem keepsFunctions_alloc (s : Store) (object : Object) :
    s.KeepsFunctions (s.alloc object).2 := by
  intro v f hget
  rw [s.get_alloc_of_lt object (lt_size_of_get_ne_nil (by rw [hget]; nofun))]
  exact hget

/-- Functions stay what they are, so what they declare stays declared. -/
theorem Covers.transfer (h : s.Covers strict function blocks) (hs : s.KeepsFunctions s') :
    s'.Covers strict function blocks := by
  intro hstrict v hv
  obtain ⟨f, hget, hblocks⟩ := h hstrict v hv
  exact ⟨f, hs v f hget, hblocks⟩

theorem Covers.mono (h : s.Covers strict function blocks) (hsub : blocks' ⊆ blocks) :
    s.Covers strict function blocks' := by
  intro hstrict v hv
  obtain ⟨f, hget, hblocks⟩ := h hstrict v hv
  exact ⟨f, hget, fun b hb => hblocks (hsub hb)⟩

theorem covers_none : s.Covers strict none blocks := by
  intro _ v hv
  cases hv

/-- A function declares the blocks of its body. -/
theorem covers_own {v : Value} {f : Function} (h : s.get v = .function f) :
    s.Covers strict (some v) (declaredBlocks f.definition.body) := by
  intro _ w hw
  obtain rfl := Option.some.inj hw
  exact ⟨f, h, List.Subset.refl _⟩

/-- The blocks of overriding bodies are declared by the functions that registered them. -/
def CoversInjections (strict : Prop) (s : Store) (injections : Dict Injection) : Prop :=
  ∀ name injection, injections.get? name = some injection →
    s.Covers strict injection.function (declaredBlocks injection.body)

theorem CoversInjections.transfer {injections : Dict Injection}
    (h : s.CoversInjections strict injections) (hs : s.KeepsFunctions s') :
    s'.CoversInjections strict injections :=
  fun name injection hfound => (h name injection hfound).transfer hs

theorem coversInjections_empty : s.CoversInjections strict .empty := nofun

end Store

namespace Machine

/-- Tables are kept apart, and overriding bodies are declared where they come from. -/
structure Orderly (strict : Prop) (m : Machine) : Prop where
  tidy : m.store.Tidy
  globals : m.store.Free m.context.globals
  injections : m.store.CoversInjections strict m.frame.injections

/-- What a computation leaves behind: a machine in order, with the same function running
over the same globals, and a store that has grown. -/
structure Advances (strict : Prop) (m m' : Machine) : Prop where
  orderly : m'.Orderly strict
  store : m.store.Grows m'.store
  globals : m'.context.globals = m.context.globals
  function : m'.frame.function = m.frame.function
  library : m'.library = m.library

variable {strict : Prop} {m m₁ m₂ : Machine}

theorem Orderly.refl (h : m.Orderly strict) : m.Advances strict m :=
  ⟨h, .refl _, rfl, rfl, rfl⟩

/-- One piece of a run after the other advances the machine. -/
theorem Advances.trans (h : m.Advances strict m₁) (h' : m₁.Advances strict m₂) :
    m.Advances strict m₂ where
  orderly := h'.orderly
  store := h.store.trans h'.store
  globals := h'.globals.trans h.globals
  function := h'.function.trans h.function
  library := h'.library.trans h.library

/-- The store may grow. -/
theorem Orderly.withStore (h : m.Orderly strict) {s : Store} (hs : m.store.Grows s) :
    m.Advances strict { m with store := s } where
  orderly := ⟨h.tidy.grows hs, h.globals.grows hs, h.injections.transfer hs.keepsFunctions⟩
  store := hs
  globals := rfl
  function := rfl
  library := rfl

/-- The context may change, but for the globals. -/
theorem Orderly.withContext (h : m.Orderly strict) {context : Context}
    (hcontext : context.globals = m.context.globals) :
    m.Advances strict { m with context := context } where
  orderly := ⟨h.tidy, by rw [hcontext]; exact h.globals, h.injections⟩
  store := .refl _
  globals := hcontext
  function := rfl
  library := rfl

/-- An object is made for a table that was made before. -/
theorem Orderly.owner (h : m.Orderly strict) {names : Dict Value}
    (hnew : Advances strict { m with store := (m.store.newScope names).2 } m₁) {object : Object}
    (hobject : object.namespace? = some (m.store.newScope names).1) :
    m.Advances strict { m₁ with store := (m₁.store.alloc object).2 } := by
  have hgrows := hnew.store.alloc_owner hobject
  have hback := (h.withStore (m.store.grows_newScope names)).trans hnew
  refine ⟨⟨h.tidy.grows hgrows, ?_, ?_⟩, hgrows, hback.globals, hback.function, hback.library⟩
  · change (m₁.store.alloc object).2.Free m₁.context.globals
    rw [hback.globals]
    exact h.globals.grows hgrows
  · exact hback.orderly.injections.transfer (m₁.store.keepsFunctions_alloc _)

/-- The frame that a body was entered with is left again. -/
theorem Orderly.leave (h : m.Orderly strict) {frame : Frame}
    (hentered : (m.entered frame).Advances strict m₁) :
    m.Advances strict
      ⟨m₁.store, m₁.context, m.frame, m₁.depth - 1, m.inReference, m₁.library⟩ where
  orderly :=
    ⟨hentered.orderly.tidy, hentered.orderly.globals,
      h.injections.transfer hentered.store.keepsFunctions⟩
  store := hentered.store
  globals := hentered.globals
  function := rfl
  library := hentered.library

end Machine

def Outcome.AdvancesFrom {α : Type} (strict : Prop) (m : Machine) (outcome : Outcome α) : Prop :=
  outcome.Ends (m.Advances strict) fun m' => m'.library = m.library

/-- What follows a piece of a run goes on from what the piece has left. -/
theorem Machine.Advances.andThen {strict : Prop} {m m₁ : Machine} {α : Type} {outcome : Outcome α}
    (h : m.Advances strict m₁) (h' : outcome.AdvancesFrom strict m₁) :
    outcome.AdvancesFrom strict m :=
  h'.mono (fun _ hend => h.trans hend) fun _ hlibrary => hlibrary.trans h.library

namespace Eval

def Keeps (strict : Prop) ⦃α : Type⦄ (x : Eval α) : Prop :=
  ∀ m : Machine, m.Orderly strict → (x m).AdvancesFrom strict m

def Heeds (strict : Prop) (blocks : List String) ⦃α : Type⦄ (x : Eval α) : Prop :=
  ∀ m : Machine, m.Orderly strict → m.store.Covers strict m.frame.function blocks →
    (x m).AdvancesFrom strict m

variable {strict : Prop} {α β : Type} {blocks : List String} {m : Machine}

/-- What keeps machines in order does so whatever blocks are declared. -/
theorem Keeps.heeds {x : Eval α} (hx : Keeps strict x) : Heeds strict blocks x :=
  fun m hm _ => hx m hm

/-- More blocks may be declared than a computation asks for. -/
theorem Heeds.mono {x : Eval α} {blocks' : List String} (hx : Heeds strict blocks x)
    (hsub : blocks ⊆ blocks') : Heeds strict blocks' x :=
  fun m hm hcovers => hx m hm (hcovers.mono hsub)

/-- The second part of a sequence begins in a machine that is in order. -/
theorem advancesFrom_bind {x : Eval α} {f : α → Eval β} (hx : (x m).AdvancesFrom strict m)
    (hf : ∀ a m₁, m.Advances strict m₁ → (f a m₁).AdvancesFrom strict m₁) :
    ((x >>= f) m).AdvancesFrom strict m :=
  ends_bind hx (fun a m₁ h => h.andThen (hf a m₁ h)) (fun _ h => h) fun _ h => h

theorem Keeps.bind {x : Eval α} {f : α → Eval β} (hx : Keeps strict x)
    (hf : ∀ a, Keeps strict (f a)) : Keeps strict (x >>= f) :=
  fun m hm => advancesFrom_bind (hx m hm) fun a m₁ h => hf a m₁ h.orderly

theorem Heeds.bind {x : Eval α} {f : α → Eval β} (hx : Heeds strict blocks x)
    (hf : ∀ a, Heeds strict blocks (f a)) : Heeds strict blocks (x >>= f) := by
  refine fun m hm hcovers => advancesFrom_bind (hx m hm hcovers) fun a m₁ h => ?_
  refine hf a m₁ h.orderly ?_
  rw [h.function]
  exact hcovers.transfer h.store.keepsFunctions

/-! Primitive operations. -/

theorem keeps_pure (a : α) : Keeps strict (Pure.pure a : Eval α) := fun _ hm => hm.refl

theorem keeps_starve : Keeps strict (Eval.starve : Eval α) := fun _ _ => rfl

theorem keeps_fails (f : Machine → Diagnostic) : Keeps strict (fun m => .fail (f m) m : Eval α) :=
  fun _ hm => hm.refl

theorem keeps_fail (fault : Fault) (pos : Position) : Keeps strict (Eval.fail fault pos : Eval α) :=
  keeps_fails _

theorem keeps_read (f : Machine → α) : Keeps strict (Eval.read f) := fun _ hm => hm.refl

/-- Work on the store keeps machines in order if the store grows by it. -/
theorem keeps_act_of_grows {pos : Position} {action : Action α}
    (h : ∀ s : Store, s.Grows (action s).2) : Keeps strict (Eval.act pos action) := by
  intro m hm
  exact ends_act (hm.withStore (h m.store))

/-- Objects without a table of their own may be made at any time. -/
theorem keeps_make {object : Object} (h : object.namespace? = none) :
    Keeps strict (Eval.make object) :=
  fun m hm => hm.withStore (m.store.grows_alloc h)

theorem keeps_newScope (names : Dict Value) : Keeps strict (Eval.newScope names) :=
  fun m hm => hm.withStore (m.store.grows_newScope names)

/-- Tables may change if they lose no name. -/
theorem keeps_updateScope (id : ScopeId) {f : Dict Value → Dict Value}
    (hf : ∀ table, table.keys <+: (f table).keys) :
    Keeps strict (Eval.modifyStore (·.updateScope id f)) :=
  fun m hm => hm.withStore (m.store.grows_updateScope id hf)

theorem keeps_bindLocal (name : String) (v : Value) : Keeps strict (Eval.bindLocal name v) :=
  fun m hm => hm.withStore (m.store.grows_bindName m.frame.locals name v)

theorem keeps_modifyContext {f : Context → Context} (h : ∀ c, (f c).globals = c.globals) :
    Keeps strict (Eval.modifyContext f) :=
  fun m hm => hm.withContext (h m.context)

theorem Keeps.inReferenceBlock {x : Eval α} (hx : Keeps strict x) :
    Keeps strict (Eval.inReferenceBlock x) := by
  intro m hm
  refine ends_inReferenceBlock (hx _ ⟨hm.tidy, hm.globals, hm.injections⟩) ?_ fun m' h => h
  intro m' h
  exact ⟨⟨h.orderly.tidy, h.orderly.globals, h.orderly.injections⟩, h.store, h.globals,
    h.function, h.library⟩

/-- What undoes an import leaves the globals. -/
theorem Keeps.orElse {x : Eval α} (hx : Keeps strict x) {f : Context → Context}
    (h : ∀ c, (f c).globals = c.globals) :
    Keeps strict (Eval.orElse x (Eval.modifyContext f)) := by
  intro m hm
  refine ends_orElse (hx m hm) ?_ (fun m' hm' => hm') (fun m' hm' => hm')
  intro m' hadvances
  exact hadvances.trans (hadvances.orderly.withContext (h m'.context))

/-- An object is made for a table that was made for it. -/
theorem Keeps.owner {names : Dict Value} {x : ScopeId → Eval α} {object : ScopeId → α → Object}
    (hx : ∀ id, Keeps strict (x id)) (hobject : ∀ id a, (object id a).namespace? = some id) :
    Keeps strict (do
      let id ← Eval.newScope names
      let a ← x id
      Eval.make (object id a)) := by
  intro m hm
  let id := (m.store.newScope names).1
  let m₁ : Machine := { m with store := (m.store.newScope names).2 }
  have hnew : m.Advances strict m₁ := hm.withStore (m.store.grows_newScope names)
  change ((x id >>= fun a => Eval.make (object id a)) m₁).AdvancesFrom strict m
  refine ends_bind (hx id m₁ hnew.orderly) ?_ (fun m' h => hnew.trans h) (fun m' h => h)
  exact fun a m₂ hend => hm.owner hend (hobject id a)

/-- Nothing that an expression does by itself brings a machine out of order. -/
theorem keeps_laws (strict : Prop) : Laws (fun _ => True) (Keeps strict) where
  pure := keeps_pure
  bind := Keeps.bind
  failAt? _ _ := keeps_fails _
  exit _ _ _ := keeps_fails _
  read := keeps_read
  act _ htame := keeps_act_of_grows fun s => (htame s).grows
  make h := keeps_make (Object.isInert_iff.mp h).2.2
  newScope := keeps_newScope
  newModule name table :=
    @Keeps.owner strict Unit table (fun _ => Pure.pure ()) (fun scope _ => .module name scope)
      (fun _ => keeps_pure ()) fun _ _ => rfl
  updateScope id _ hf := keeps_updateScope id hf
  bindLocal := keeps_bindLocal
  writeOut _ := keeps_modifyContext fun _ => rfl
  writeErr _ := keeps_modifyContext fun _ => rfl
  setAlias _ _ _ := keeps_modifyContext fun _ => rfl
  inReferenceBlock := Keeps.inReferenceBlock

theorem keeps_lookup (name : String) : Keeps strict (Eval.lookup name) :=
  (keeps_laws strict).lookup fun _ _ => keeps_make rfl

theorem keeps_settle (flow : Flow) : Keeps strict (Eval.settle flow) := by
  cases flow with
  | next => exact keeps_pure ()
  | «break» pos => exact keeps_fail _ pos
  | «continue» pos => exact keeps_fail _ pos
  | «return» v pos => exact keeps_fail _ pos

theorem keeps_returned (flow : Flow) : Keeps strict (Eval.returned flow) := by
  cases flow with
  | next => exact keeps_make rfl
  | «break» pos => exact keeps_fail _ pos
  | «continue» pos => exact keeps_fail _ pos
  | «return» v pos => exact keeps_pure v

/-- A frame may be entered for a body whose blocks its function declares. -/
theorem advancesFrom_enter {x : Eval α} (hx : Heeds strict blocks x) (hm : m.Orderly strict)
    {frame : Frame} (hinjections : m.store.CoversInjections strict frame.injections)
    (hcovers : m.store.Covers strict frame.function blocks) (pos : Position) :
    (Eval.enter frame pos x m).AdvancesFrom strict m := by
  exact ends_enter (fun _ => hx (m.entered frame) ⟨hm.tidy, hm.globals, hinjections⟩ hcovers)
    (fun m' h => hm.leave h) (fun m' h => h) fun _ => hm.refl

theorem load_bind (v : Value) (f : Object → Eval β) (m : Machine) :
    (Eval.load v >>= f) m = f (m.store.get v) m := rfl

/-! Calls. -/

/-- A call of what the active function extends is a call with the overriding bodies of the
caller, if there is something to call. -/
theorem callSuper_cases (ex : Executor) (args : List Value) (pos : Position) (m : Machine) :
    (∃ fault, callSuper ex args pos m = Eval.fail fault pos m) ∨
    ∃ base, callSuper ex args pos m =
      callFunction ex base args pos m.frame.injections m := by
  unfold callSuper
  rw [read_bind]
  cases m.frame.function with
  | none => exact Or.inl ⟨_, rfl⟩
  | some function =>
    dsimp only
    rw [load_bind]
    cases m.store.get function with
    | function f =>
      dsimp only
      rw [read_bind]
      cases m.store.baseOf f with
      | error fault => exact Or.inl ⟨fault, rfl⟩
      | ok base => exact Or.inr ⟨base, rfl⟩
    | _ => exact Or.inl ⟨_, rfl⟩

section Call

variable {ex : Executor} (hex : ∀ body, Heeds strict (declaredBlocks body) (ex body))

include hex

/-- The body of a struct or module runs outside of all functions. -/
theorem keeps_runBody (frame : Frame) (hfunction : frame.function = none)
    (hinjections : frame.injections = .empty) (body : List Stmt) (pos : Position) :
    Keeps strict (Eval.runBody ex frame body pos) := by
  refine fun m hm => advancesFrom_enter ((hex body).bind fun flow => (keeps_settle flow).heeds)
    hm ?_ ?_ pos
  · rw [hinjections]
    exact Store.coversInjections_empty
  · rw [hfunction]
    exact Store.covers_none

/-- The body of a function may run with the overriding bodies that it is handed. -/
theorem advancesFrom_callFunction (hm : m.Orderly strict) {injections : Dict Injection}
    (hinjections : m.store.CoversInjections strict injections) (callee : Value)
    (args : List Value) (pos : Position) :
    (Eval.callFunction ex callee args pos injections m).AdvancesFrom strict m := by
  unfold Eval.callFunction
  rw [load_bind]
  cases hget : m.store.get callee with
  | function f =>
    dsimp only
    split
    · refine advancesFrom_bind (keeps_newScope _ m hm) fun locals m₁ h => ?_
      refine advancesFrom_enter ((hex _).bind fun flow => (keeps_returned flow).heeds) h.orderly
        (hinjections.transfer h.store.keepsFunctions) ?_ pos
      exact Store.covers_own (h.store.get_function hget)
    · exact keeps_fail _ pos m hm
  | _ => exact keeps_fail _ pos m hm

theorem keeps_callOrdinary (callee : Value) (args : List Value) (pos : Position) :
    Keeps strict (Eval.callFunction ex callee args pos .empty) :=
  fun _ hm => advancesFrom_callFunction hex hm Store.coversInjections_empty callee args pos

/-- What is handed over has been registered by the functions that hand it over. -/
theorem keeps_callSuper (args : List Value) (pos : Position) :
    Keeps strict (Eval.callSuper ex args pos) := by
  intro m hm
  rcases callSuper_cases ex args pos m with ⟨fault, heq⟩ | ⟨base, heq⟩
  · rw [heq]
    exact keeps_fail fault pos m hm
  · rw [heq]
    exact advancesFrom_callFunction hex hm hm.injections base args pos

/-- The fields of an instance are made for it. -/
theorem keeps_instantiate (callee : Value) (args : List Value) (pos : Position) :
    Keeps strict (Eval.instantiate ex callee args pos) := by
  unfold Eval.instantiate
  refine (keeps_read _).bind fun object => ?_
  split
  · next type =>
    have hfill : ∀ fields : ScopeId, Keeps strict (do
        Eval.runBody ex (.ofStruct type.definition.name fields type.globals type.file)
          type.definition.body pos
        let names ← Eval.read (·.store.dataFields fields)
        Eval.modifyStore (·.updateScope fields (·.insertAll (names.zip args)))) := by
      intro fields
      refine (keeps_runBody hex _ rfl rfl _ pos).bind fun _ => (keeps_read _).bind fun names => ?_
      exact keeps_updateScope _ fun table => table.keys_prefix_insertAll _
    have hmade := @Keeps.owner strict Unit .empty _ (fun fields _ => .instance callee fields)
      hfill fun _ _ => rfl
    simpa only [bind_assoc] using hmade
  · exact keeps_fail _ pos

omit hex in
/-- A danced program starts over new globals, which are those of no object. -/
theorem orderly_danced (hm : m.Orderly strict) (names : Dict Value) :
    (m.danced names).Orderly strict where
  tidy := hm.tidy.grows (m.store.grows_newScope names)
  globals := hm.tidy.free_newScope names
  injections := Store.coversInjections_empty

theorem keeps_danceSource (text : String) (names : Dict Value) :
    Keeps strict (Eval.danceSource ex text names) := by
  intro m hm
  have hnew : m.Advances strict { m with store := (m.danced names).store } :=
    hm.withStore (m.store.grows_newScope names)
  have hrun : ∀ program, Heeds strict (declaredBlocks program) (ex program >>= settle) :=
    fun program => (hex program).bind fun flow => (keeps_settle flow).heeds
  refine ends_danceSource (fun program => hrun program (m.danced names) (orderly_danced hm names)
    Store.covers_none) ?_ (fun m' h => h) hnew
  intro inner h
  exact hm.withStore ((m.store.grows_newScope names).trans h.store)

/-- A dance runs over globals of its own. -/
theorem keeps_dance (args : List Value) (pos : Position) :
    Keeps strict (Eval.dance ex args pos) := by
  unfold Eval.dance
  cases args with
  | nil => exact keeps_fail _ pos
  | cons code rest =>
    refine (keeps_read _).bind fun object => ?_
    split
    · exact keeps_fail _ pos
    · next text _ =>
      have hnames : Keeps strict (Eval.danceNames rest pos) := by
        unfold Eval.danceNames
        split
        · exact keeps_pure _
        · refine (keeps_read _).bind fun object => ?_
          split
          · exact keeps_pure _
          · exact keeps_fail _ pos
      refine hnames.bind fun names => (keeps_danceSource hex text names).bind fun apart => ?_
      split
      · exact ((keeps_laws strict).writeOut _).bind fun _ =>
          ((keeps_laws strict).writeErr _).bind fun _ => keeps_fails _
      · refine (keeps_make rfl).bind fun out => Keeps.bind (keeps_make ?_) fun complaint =>
          keeps_make rfl
        unfold Apart.complaint
        split
        · rfl
        · split
          · rfl
          · rfl

omit hex in
/-- A file that is opened is a new object. -/
theorem grows_openNamed (path how : Value) (s : Store) :
    s.Grows (Builtin.openNamed path how s).2 := by
  rcases Builtin.openNamed_cases path how s with ⟨fault, -, heq⟩ | ⟨name, handle, files, heq⟩
  · rw [heq]
    exact .refl s
  · rw [heq]
    exact (s.grows_setFiles files).trans ((s.setFiles files).grows_alloc rfl)

/-- Built-in functions make objects, but no tables of attributes. -/
theorem keeps_callBuiltin (function : Builtin) (args : List Value) (pos : Position) :
    Keeps strict (Eval.callBuiltin ex function args pos) := by
  cases function with
  | dance => exact keeps_dance hex args pos
  | openFile =>
    change Keeps strict (Eval.act pos _)
    split
    · exact keeps_act_of_grows (grows_openNamed _ _)
    · exact keeps_act_of_grows fun s => .refl s
  | _ => exact (keeps_laws strict).callBuiltin_of_isInert ex rfl args trivial

theorem keeps_callValue (callee : Value) (args : List Value) (pos : Position) :
    Keeps strict (Eval.callValue ex callee args pos) := by
  unfold Eval.callValue
  refine (keeps_read _).bind fun object => ?_
  split
  · exact keeps_callOrdinary hex callee args pos
  · exact keeps_callOrdinary hex _ _ pos
  · exact (keeps_laws strict).act trivial (Method.isTame_call _ _ args)
  · exact keeps_callBuiltin hex _ args pos
  · exact keeps_instantiate hex callee args pos
  · exact (keeps_laws strict).act trivial (TypeTag.isTame_construct _ args)
  · exact keeps_fail _ pos

/-! Modules and definitions. -/

theorem keeps_runModule (path file : String) (program : Program) (pos : Position) :
    Keeps strict (Eval.runModule ex path file program pos) := by
  have hrun : ∀ scope v, Keeps strict (do
      Eval.remember file v
      Eval.orElse (Eval.runBody ex (.top scope (some file)) program pos) (Eval.forget file)
      Pure.pure v) := by
    intro scope v
    have hremember : Keeps strict (Eval.remember file v) := keeps_modifyContext fun _ => rfl
    have hbody : Keeps strict (Eval.orElse
        (Eval.runBody ex (.top scope (some file)) program pos) (Eval.forget file)) :=
      Keeps.orElse (keeps_runBody hex _ rfl rfl program pos) fun _ => rfl
    exact hremember.bind fun _ => hbody.bind fun _ => keeps_pure v
  intro m hm
  have hscope := hm.withStore (m.store.grows_newScope .empty)
  have hmade := @Machine.Orderly.owner strict m _ hm .empty hscope.orderly.refl
    (.module path (m.store.newScope .empty).1) rfl
  exact hmade.andThen (hrun _ _ _ hmade.orderly)

/-- The table of a module is that of its own globals. -/
theorem keeps_importModule (path : String) (pos : Position) :
    Keeps strict (Eval.importModule ex path pos) := by
  unfold Eval.importModule
  refine (keeps_read _).bind fun found => ?_
  cases found with
  | none => exact keeps_fails _
  | some file =>
    refine (keeps_read _).bind fun known => ?_
    cases known with
    | some v => exact keeps_pure v
    | none =>
      refine (keeps_read _).bind fun source => ?_
      cases source with
      | none => exact keeps_fails _
      | some source =>
        dsimp only
        split
        · exact keeps_fails _
        · next program _ => exact keeps_runModule hex path file program pos

theorem keeps_importAs (path name : String) (pos : Position) :
    Keeps strict (Eval.importAs ex path name pos) :=
  (keeps_importModule hex path pos).bind fun v => keeps_bindLocal name v

theorem keeps_importFrom (path : String) (names : List ImportName) (pos : Position) :
    Keeps strict (Eval.importFrom ex path names pos) := by
  unfold Eval.importFrom
  refine (keeps_importModule hex path pos).bind fun v => (keeps_read _).bind fun object => ?_
  split
  · exact (keeps_laws strict).bindNames _ path trivial names
  · exact keeps_fail _ pos

omit hex in
theorem keeps_defineFunction (definition : FunctionDef) :
    Keeps strict (Eval.defineFunction definition) :=
  (keeps_read _).bind fun _ => (keeps_make rfl).bind fun v => keeps_bindLocal _ v

/-- The static fields of a struct are made for it. -/
theorem keeps_defineStruct (definition : StructDef) (pos : Position) :
    Keeps strict (Eval.defineStruct ex definition pos) := by
  unfold Eval.defineStruct
  refine (keeps_read _).bind fun frame => ?_
  have hmade := @Keeps.owner strict Unit .empty _
    (fun fields _ => .struct { definition, fields, globals := frame.globals, file := frame.file })
    (fun fields => keeps_runBody hex (.ofStruct definition.name fields frame.globals frame.file)
      rfl rfl definition.body pos) fun _ _ => rfl
  have hbound := hmade.bind fun v => keeps_bindLocal definition.name v
  simpa only [bind_assoc] using hbound

/-! Statements. -/

omit hex in
/-- The function that runs has declared the blocks of the bodies it registers. -/
theorem heeds_registerInjection (name : String) (body : List Stmt) (pos : Position) :
    Heeds strict (declaredBlocks body) (Eval.registerInjection name body pos) := by
  have hadd : Heeds strict (declaredBlocks body) (Eval.addInjection name body) := by
    intro m hm hcovers
    unfold Eval.addInjection Eval.modify
    dsimp only
    split
    · exact hm.refl
    · refine ⟨⟨hm.tidy, hm.globals, ?_⟩, .refl _, rfl, rfl, rfl⟩
      intro other injection hfound
      change (m.frame.injections.insert name (m.frame.injection body)).get? other = _ at hfound
      rw [Dict.get?_insert] at hfound
      split at hfound
      · obtain rfl := Option.some.inj hfound
        exact hcovers
      · exact hm.injections other injection hfound
  unfold Eval.registerInjection
  refine (keeps_read _).heeds.bind fun function => ?_
  split
  · exact (keeps_fail _ pos).heeds
  · refine (keeps_read _).heeds.bind fun declared => ?_
    split
    · exact (keeps_fail _ pos).heeds
    · exact (keeps_fail _ pos).heeds
    · exact hadd

/-- A block runs its own body where it stands, and an overriding one in the frame of the
function that registered it. -/
theorem heeds_runBlock (name : String) (body : List Stmt) (pos : Position) :
    Heeds strict (declaredBlocks body) (Eval.runBlock ex name body pos) := by
  intro m hm hcovers
  unfold Eval.runBlock
  rw [read_bind]
  cases hfound : m.frame.injections.get? name with
  | none => exact hex body m hm hcovers
  | some injection =>
    refine advancesFrom_enter (hex injection.body) hm ?_ ?_ pos
    · exact hm.injections
    · exact hm.injections name injection hfound

omit hex in
/-- A body asks for the blocks that its statements declare. -/
theorem heeds_execEach {step : Stmt → Eval Flow}
    (hstep : ∀ stmt, Heeds strict stmt.blocks (step stmt)) (body : List Stmt) :
    Heeds strict (declaredBlocks body) (Eval.execEach step body) := by
  have hall : ∀ stmts, stmts ⊆ body →
      Heeds strict (declaredBlocks body) (Eval.execEach step stmts) := by
    intro stmts
    induction stmts with
    | nil => exact fun _ => (keeps_pure _).heeds
    | cons stmt rest ih =>
      intro hsub
      obtain ⟨hstmt, hrest⟩ := List.cons_subset.mp hsub
      unfold Eval.execEach
      refine ((hstep stmt).mono (blocks_subset_of_mem hstmt)).bind fun flow => ?_
      split
      · exact ih hrest
      · exact (keeps_pure _).heeds
  exact hall body (List.Subset.refl _)

variable {ev : Evaluator} (hev : ∀ e, Keeps strict (ev e))

include hev

omit hex in
theorem keeps_evalFormula (formula : Formula) : Keeps strict (Eval.evalFormula ev formula) :=
  (keeps_laws strict).evalFormula (fun e _ => hev e) (fun _ _ e _ => hev e) fun _ _ _ _ => trivial

omit hex in
theorem keeps_runClause (clause : Option Formula) : Keeps strict (Eval.runClause ev clause) :=
  (keeps_laws strict).runClause (fun _ _ e _ => hev e) (fun _ _ _ _ e _ => hev e)
    fun _ _ _ _ _ _ => trivial

theorem heeds_execBranches (otherwise : Option (List Stmt))
    {branches : List (Expr × List Stmt)}
    (hbranches : ∀ branch ∈ branches, declaredBlocks branch.2 ⊆ blocks)
    (helse : ∀ body ∈ otherwise, declaredBlocks body ⊆ blocks) :
    Heeds strict blocks (Eval.execBranches ev ex otherwise branches) := by
  induction branches with
  | nil =>
    cases otherwise with
    | none => exact (keeps_pure _).heeds
    | some body => exact (hex body).mono (helse body rfl)
  | cons branch rest ih =>
    obtain ⟨hfirst, hrest⟩ := List.forall_mem_cons.mp hbranches
    unfold Eval.execBranches
    refine (hev branch.1).heeds.bind fun v => (keeps_read _).heeds.bind fun truthy => ?_
    split
    · exact (hex branch.2).mono hfirst
    · exact ih hrest

/-- A loop asks for the blocks of its body. -/
theorem heeds_execRounds (test update : Option Formula) (body : List Stmt) (rounds : Nat) :
    Heeds strict (declaredBlocks body) (Eval.execRounds ev ex test update body rounds) := by
  have hgoesOn : Keeps strict (Eval.goesOn ev test) :=
    (keeps_laws strict).goesOn (fun _ _ e _ => hev e) (fun _ _ _ _ e _ => hev e)
      fun _ _ _ _ _ _ => trivial
  induction rounds with
  | zero => exact keeps_starve.heeds
  | succ rounds ih =>
    unfold Eval.execRounds
    refine hgoesOn.heeds.bind fun going => ?_
    split
    · refine (hex body).bind fun flow => ?_
      split
      · exact (keeps_pure _).heeds
      · exact (keeps_pure _).heeds
      · exact (keeps_runClause hev update).heeds.bind fun _ => ih
      · exact (keeps_runClause hev update).heeds.bind fun _ => ih
    · exact (keeps_pure _).heeds

omit hex hev in
theorem Keeps.thenNext {x : Eval Unit} (hx : Keeps strict x) :
    Keeps strict (Eval.thenNext x) :=
  hx.bind fun _ => keeps_pure _

/-- A statement asks for the blocks that are declared in it. -/
theorem heeds_execStep (rounds : Nat) (stmt : Stmt) :
    Heeds strict stmt.blocks (Eval.execStep ev ex rounds stmt) := by
  have L := keeps_laws strict
  cases stmt with
  | text content => exact (L.writeOut content).thenNext.heeds
  | reference f pos =>
    exact (L.execReference (fun e _ => hev e) (fun _ _ e _ => hev e)
      fun _ _ _ _ => trivial).thenNext.heeds
  | formula f pos => exact (keeps_runClause hev (some f)).thenNext.heeds
  | cond branches otherwise pos =>
    refine heeds_execBranches hex hev otherwise (fun branch hbranch => ?_) fun body hbody => ?_
    · exact declaredBlocks_subset_branch hbranch
    · obtain rfl := Option.mem_def.mp hbody
      exact declaredBlocks_subset_else
  | loop init test update body pos =>
    exact (keeps_runClause hev init).heeds.bind fun _ =>
      heeds_execRounds hex hev test update body rounds
  | «break» pos => exact (keeps_pure _).heeds
  | «continue» pos => exact (keeps_pure _).heeds
  | «return» value pos =>
    cases value with
    | none => exact ((L.make rfl).bind fun v => keeps_pure _).heeds
    | some f => exact ((keeps_evalFormula hev f).bind fun v => keeps_pure _).heeds
  | importAs path name pos => exact (keeps_importAs hex path name pos).thenNext.heeds
  | importFrom path names pos => exact (keeps_importFrom hex path names pos).thenNext.heeds
  | function name params base isMethod body pos =>
    exact (keeps_defineFunction _).thenNext.heeds
  | struct name body pos => exact (keeps_defineStruct hex _ pos).thenNext.heeds
  | block name body pos =>
    exact (heeds_runBlock hex name body pos).mono declaredBlocks_subset_block
  | inject name body pos =>
    exact (heeds_registerInjection name body pos).bind fun _ => (keeps_pure _).heeds

/-! Expressions. -/

theorem keeps_follow (v : Value) (links : List Link) : Keeps strict (Eval.follow ev ex v links) :=
  (keeps_laws strict).follow v (fun _ _ _ v args => keeps_callValue hex v args _)
    (fun _ _ e _ => hev e) fun _ _ => trivial

/-- An expression declares no blocks. -/
theorem keeps_evalStep (e : Expr) : Keeps strict (Eval.evalStep ev ex e) :=
  (keeps_laws strict).evalStep (fun _ _ _ v args => keeps_callValue hex v args _)
    (fun _ _ _ args => keeps_callSuper hex args _) (fun part _ => hev part)
    (fun name _ => keeps_lookup name) fun _ _ => trivial

end Call

/-- The whole evaluator keeps machines in order. -/
theorem keeps_eval_and_exec (fuel : Nat) :
    (∀ e, Keeps strict (eval fuel e)) ∧
      ∀ body, Heeds strict (declaredBlocks body) (exec fuel body) := by
  induction fuel with
  | zero => exact ⟨fun _ => keeps_starve, fun _ => keeps_starve.heeds⟩
  | succ fuel ih =>
    obtain ⟨hev, hex⟩ := ih
    exact ⟨keeps_evalStep hex hev, heeds_execEach (heeds_execStep hex hev fuel)⟩

end Eval

/-! Between programs. -/

namespace Session

structure IsOrderly (s : Session) : Prop where
  tidy : s.store.Tidy
  globals : s.store.Free s.context.globals

variable {s s' : Session}

theorem IsOrderly.machine (h : s.IsOrderly) (strict : Prop) (file : Option String) :
    (s.machine file).Orderly strict :=
  ⟨h.tidy, h.globals, Store.coversInjections_empty⟩

/-- The session goes on over new globals. -/
theorem IsOrderly.renewed {store : Store} (h : store.Tidy)
    (hstore : s.store = (store.newScope .empty).2)
    (hglobals : s.context.globals = (store.newScope .empty).1) : s.IsOrderly where
  tidy := hstore ▸ h.grows (store.grows_newScope .empty)
  globals := by
    rw [hstore, hglobals]
    exact h.free_newScope .empty

theorem IsOrderly.withStore (h : s.IsOrderly) {store : Store} (hgrows : s.store.Grows store) :
    IsOrderly { s with store := store } :=
  ⟨h.tidy.grows hgrows, h.globals.grows hgrows⟩

/-- A run leaves the session in order. -/
theorem IsOrderly.runProgram (h : s.IsOrderly) {fuel : Nat} {program : Program}
    {file : Option String} (hrun : s.runProgram fuel program file = some s') : s'.IsOrderly := by
  have hheeds := ((@Eval.keeps_eval_and_exec False fuel).2 program).bind fun flow =>
    (Eval.keeps_settle flow).heeds
  have hend := hheeds (s.machine file) (h.machine False file) Store.covers_none
  obtain ⟨m, failure, hadvances, rfl⟩ := exists_adopt hend hrun
  exact ⟨hadvances.orderly.tidy, hadvances.orderly.globals⟩

theorem IsOrderly.run (h : s.IsOrderly) {fuel : Nat} {source : Source} {args : List String}
    (hrun : s.run fuel source args = some s') : s'.IsOrderly := by
  have hprepared : (s.prepared source args).IsOrderly := by
    obtain ⟨options, hcontext⟩ := s.exists_prepared_context source args
    refine ⟨by rw [prepared_store]; exact h.tidy, ?_⟩
    rw [prepared_store, hcontext]
    exact h.globals
  rcases run_cases hrun with ⟨program, -, hprogram⟩ | ⟨d, -, rfl⟩
  · exact hprepared.runProgram hprogram
  · exact ⟨hprepared.tidy, hprepared.globals⟩

/-- Every session is in order. -/
theorem Arises.isOrderly (h : s.Arises) : s.IsOrderly := by
  induction h with
  | start files library lineEnding options =>
    exact .renewed (Store.tidy_ofFiles files) rfl rfl
  | run _ hrun ih => exact ih.run hrun
  | runFile _ hrun ih =>
    rcases runFile_cases hrun with ⟨text, -, htext⟩ | ⟨-, rfl⟩
    · exact ih.run htext
    · exact ⟨ih.tidy, ih.globals⟩
  | @clear s _ ih =>
    have hrestart : s.store.restart.Tidy := ⟨ih.tidy.bounded, ih.tidy.distinct⟩
    exact .renewed hrestart rfl rfl
  | clearOutput _ ih => exact ⟨ih.tidy, ih.globals⟩
  | setArgs args _ ih => exact ⟨ih.tidy, ih.globals⟩
  | setLineEnding lineEnding _ ih => exact ⟨ih.tidy, ih.globals⟩
  | @setFiles s files _ ih => exact ih.withStore (s.store.grows_setFiles files)
  | @setVariable s name v _ ih => exact ih.withStore (s.store.grows_bindName _ name v)
  | @make s object _ hplain ih =>
    refine ih.withStore (s.store.grows_alloc ?_)
    cases object with
    | struct made => cases hplain
    | «instance» type fields => cases hplain
    | module name scope => cases hplain
    | _ => rfl

end Session

end Stencil
