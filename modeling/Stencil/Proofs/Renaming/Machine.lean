import Stencil.Eval.Statement
import Stencil.Proofs.Renaming.Action

/-!
Computations up to the names of references. Machines are alike under a renaming if their
stores are and the renaming links their contexts and frames. Two computations go together
if on machines that are alike they end in the same way: both without fuel, with the same
diagnostic, or with linked results. What was linked before is linked afterwards, so a
frame can be put back.
-/

namespace Stencil

instance : Renamable Injection where
  Linked r i i' := i'.body = i.body ∧ r.Links i.locals i'.locals ∧ r.Links i.globals i'.globals ∧
    r.Links i.function i'.function ∧ i'.name = i.name ∧ i'.file = i.file
  mono hle _ _ h :=
    ⟨h.1, h.2.1.mono hle, h.2.2.1.mono hle, h.2.2.2.1.mono hle, h.2.2.2.2⟩

structure LinkedFrame (r : Renaming) (f f' : Frame) : Prop where
  locals : r.Links f.locals f'.locals
  globals : r.Links f.globals f'.globals
  function : r.Links f.function f'.function
  name : f'.name = f.name
  injections : r.Links f.injections f'.injections
  file : f'.file = f.file

instance : Renamable Frame where
  Linked := LinkedFrame
  mono hle _ _ h :=
    ⟨h.locals.mono hle, h.globals.mono hle, h.function.mono hle, h.name, h.injections.mono hle,
      h.file⟩

structure LinkedContext (r : Renaming) (c c' : Context) : Prop where
  globals : r.Links c.globals c'.globals
  out : c'.out = c.out
  err : c'.err = c.err
  lineEnding : c'.lineEnding = c.lineEnding
  aliases : c'.aliases = c.aliases
  options : c'.options = c.options
  modules : r.Links c.modules c'.modules

instance : Renamable Context where
  Linked := LinkedContext
  mono hle _ _ h :=
    ⟨h.globals.mono hle, h.out, h.err, h.lineEnding, h.aliases, h.options, h.modules.mono hle⟩

inductive LinkedFlow (r : Renaming) : Flow → Flow → Prop
  | next : LinkedFlow r .next .next
  | break (pos : Position) : LinkedFlow r (.break pos) (.break pos)
  | continue (pos : Position) : LinkedFlow r (.continue pos) (.continue pos)
  | return {v v' : Value} (pos : Position) :
      r.Links v v' → LinkedFlow r (.return v pos) (.return v' pos)

instance : Renamable Flow where
  Linked := LinkedFlow
  mono hle _ _ h := by
    cases h with
    | «return» pos hv => exact .return pos (hv.mono hle)
    | _ => constructor

inductive LinkedPlace (r : Renaming) : Place → Place → Prop
  | named (name : String) (pos : Position) : LinkedPlace r (.named name pos) (.named name pos)
  | attr {owner owner' : Value} (name : String) (pos : Position) :
      r.Links owner owner' → LinkedPlace r (.attr owner name pos) (.attr owner' name pos)
  | index {owner owner' key key' : Value} (pos : Position) : r.Links owner owner' →
      r.Links key key' → LinkedPlace r (.index owner key pos) (.index owner' key' pos)

instance : Renamable Place where
  Linked := LinkedPlace
  mono hle _ _ h := by
    cases h with
    | named name pos => exact .named name pos
    | attr name pos howner => exact .attr name pos (howner.mono hle)
    | index pos howner hkey => exact .index pos (howner.mono hle) (hkey.mono hle)

instance : Renamable Eval.Apart where
  Linked r a a' := r.Links a.context a'.context ∧ a'.failure = a.failure
  mono hle _ _ h := ⟨h.1.mono hle, h.2⟩

namespace Renaming

/-- The machines are alike where the renaming leads. -/
structure Machines (r : Renaming) (m m' : Machine) : Prop where
  store : r.Stores m.store m'.store
  context : r.Links m.context m'.context
  frame : r.Links m.frame m'.frame
  depth : m'.depth = m.depth
  inReference : m'.inReference = m.inReference
  library : m'.library = m.library

variable {r : Renaming} {α β : Type} [Renamable α] [Renamable β]

/-- The outcomes are the same up to the names of references, under a renaming that has
grown. -/
inductive Ends (r : Renaming) : Outcome α → Outcome α → Prop
  | done {r' : Renaming} {a a' : α} {m m' : Machine} : r ≤ r' → r'.Links a a' →
      r'.Machines m m' → Ends r (.done a m) (.done a' m')
  | fail {r' : Renaming} {m m' : Machine} (d : Diagnostic) : r ≤ r' → r'.Machines m m' →
      Ends r (.fail d m) (.fail d m')
  | starved (m m' : Machine) : Ends r (.starved m) (.starved m')

/-- Ends that are alike under a renaming are so under each one that it extends. -/
theorem Ends.mono {r₀ : Renaming} {outcome outcome' : Outcome α} (hle : r₀ ≤ r)
    (h : Ends r outcome outcome') : Ends r₀ outcome outcome' := by
  cases h with
  | done hle' ha hm => exact .done (le_trans hle hle') ha hm
  | fail d hle' hm => exact .fail d (le_trans hle hle') hm
  | starved m m' => exact .starved m m'

/-- The computations do the same up to the names of references. -/
def Runs (r : Renaming) (x x' : Eval α) : Prop :=
  ∀ m m', r.Machines m m' → Ends r (x m) (x' m')

/-- A sequence runs alike if its parts do. The rest runs under the renaming that the first part
led to. -/
theorem Runs.bind {x x' : Eval α} {f f' : α → Eval β} (hx : r.Runs x x')
    (hf : ∀ r', r ≤ r' → ∀ a a', r'.Links a a' → r'.Runs (f a) (f' a')) :
    r.Runs (x >>= f) (x' >>= f') := by
  intro m m' hm
  have hend := hx m m' hm
  change Ends r (Eval.bind x f m) (Eval.bind x' f' m')
  unfold Eval.bind
  generalize x m = outcome at hend
  generalize x' m' = outcome' at hend
  cases hend with
  | done hle ha hm => exact (hf _ hle _ _ ha _ _ hm).mono hle
  | fail d hle hm => exact .fail d hle hm
  | starved m m' => exact .starved m m'

/-- The first result is the same in both. -/
theorem Runs.bind_same {γ : Type} {x x' : Eval γ} {f f' : γ → Eval β}
    (hx : ∀ m m', r.Machines m m' → ∃ c, x m = .done c m ∧ x' m' = .done c m')
    (hf : ∀ c, r.Runs (f c) (f' c)) : r.Runs (x >>= f) (x' >>= f') := by
  intro m m' hm
  obtain ⟨c, hc, hc'⟩ := hx m m' hm
  change Ends r (Eval.bind x f m) (Eval.bind x' f' m')
  unfold Eval.bind
  rw [hc, hc']
  exact hf c m m' hm

theorem runs_pure {a a' : α} (h : r.Links a a') : r.Runs (pure a) (pure a') :=
  fun _ _ hm => .done (le_refl r) h hm

theorem runs_starve : r.Runs (Eval.starve : Eval α) Eval.starve := fun m m' _ => .starved m m'

/-- Machines that are alike report a cause in the same words at the same place. -/
theorem Machines.diagnose {m m' : Machine} (h : r.Machines m m') (cause : Cause)
    (pos : Option Position) : m'.diagnose cause pos = m.diagnose cause pos := by
  unfold Machine.diagnose
  rw [h.frame.file, h.frame.name]

theorem Machines.pass {m m' : Machine} (h : r.Machines m m') (d : Diagnostic) (pos : Position) :
    m'.pass d pos = m.pass d pos := by
  unfold Machine.pass
  rw [h.frame.file, h.frame.name]

theorem runs_failWith (cause : Cause) (pos : Option Position) :
    r.Runs (Eval.failWith cause pos : Eval α) (Eval.failWith cause pos) := by
  intro m m' hm
  unfold Eval.failWith
  rw [hm.diagnose]
  exact .fail _ (le_refl r) hm

theorem runs_fail (fault : Fault) (pos : Position) :
    r.Runs (Eval.fail fault pos : Eval α) (Eval.fail fault pos) :=
  runs_failWith _ _

theorem runs_failAt? (fault : Fault) (pos : Option Position) :
    r.Runs (Eval.failAt? fault pos : Eval α) (Eval.failAt? fault pos) :=
  runs_failWith _ _

theorem runs_read {f f' : Machine → α} (hf : ∀ m m', r.Machines m m' → r.Links (f m) (f' m')) :
    r.Runs (Eval.read f) (Eval.read f') :=
  fun m m' hm => .done (le_refl r) (hf m m' hm) hm

/-- What is read off the machines is the same. -/
theorem runs_read_bind {γ : Type} {f : Machine → γ} (hf : ∀ m m', r.Machines m m' → f m' = f m)
    {k k' : γ → Eval β} (hk : ∀ c, r.Runs (k c) (k' c)) :
    r.Runs (Eval.read f >>= k) (Eval.read f >>= k') :=
  .bind_same (fun m m' hm => ⟨f m, rfl, by rw [← hf m m' hm]; rfl⟩) hk

theorem runs_load {v v' : Value} (hv : r.Links v v') : r.Runs (Eval.load v) (Eval.load v') :=
  fun _ _ hm => .done (le_refl r) (hm.store.get hv) hm

theorem runs_isTruthy {v v' : Value} (hv : r.Links v v') :
    r.Runs (Eval.isTruthy v) (Eval.isTruthy v') :=
  fun _ _ hm => .done (le_refl r) (hm.store.get hv).truthy.symm hm

/-- The machine goes on with another store. -/
theorem Machines.withStore {m m' : Machine} (h : r.Machines m m') {r' : Renaming} (hle : r ≤ r')
    {s s' : Store} (hs : r'.Stores s s') :
    r'.Machines { m with store := s } { m' with store := s' } :=
  ⟨hs, h.context.mono hle, h.frame.mono hle, h.depth, h.inReference, h.library⟩

/-- What acts alike on stores runs alike on machines. -/
theorem runs_act {x x' : Action α} (h : r.Acts x x') (pos : Position) :
    r.Runs (Eval.act pos x) (Eval.act pos x') := by
  intro m m' hm
  obtain ⟨r', hle, hs, ha⟩ := h m.store m'.store hm.store
  unfold Eval.act
  dsimp only
  generalize x m.store = result at hs ha
  generalize x' m'.store = result' at hs ha
  obtain ⟨result, s⟩ := result
  obtain ⟨result', s'⟩ := result'
  have hm₁ := hm.withStore hle hs
  cases ha with
  | error fault =>
    dsimp only
    rw [hm₁.diagnose]
    exact .fail _ hle hm₁
  | ok ha => exact .done hle ha hm₁

theorem runs_make {object object' : Object} (h : r.Links object object') :
    r.Runs (Eval.make object) (Eval.make object') := by
  intro m m' hm
  obtain ⟨r', hle, hs, hv⟩ := hm.store.alloc h
  exact .done hle hv (hm.withStore hle hs)

theorem runs_newScope {names names' : Dict Value} (h : r.Links names names') :
    r.Runs (Eval.newScope names) (Eval.newScope names') := by
  intro m m' hm
  obtain ⟨r', hle, hs, hid⟩ := hm.store.newScope h
  exact .done hle hid (hm.withStore hle hs)

theorem runs_updateScope {id id' : ScopeId} (hid : r.Links id id') {f f' : Dict Value → Dict Value}
    (hf : ∀ {table table'}, r.Links table table' → r.Links (f table) (f' table')) :
    r.Runs (Eval.modifyStore (·.updateScope id f)) (Eval.modifyStore (·.updateScope id' f')) :=
  fun _ _ hm => .done (le_refl r) rfl (hm.withStore (le_refl r) (hm.store.updateScope hid hf))

theorem runs_bindLocal (name : String) {v v' : Value} (hv : r.Links v v') :
    r.Runs (Eval.bindLocal name v) (Eval.bindLocal name v') :=
  fun _ _ hm => .done (le_refl r) rfl
    (hm.withStore (le_refl r) (hm.store.bindName hm.frame.locals name hv))

theorem runs_modifyContext {f f' : Context → Context}
    (hf : ∀ {c c'}, r.Links c c' → r.Links (f c) (f' c')) :
    r.Runs (Eval.modifyContext f) (Eval.modifyContext f') :=
  fun _ _ hm => .done (le_refl r) rfl
    ⟨hm.store, hf hm.context, hm.frame, hm.depth, hm.inReference, hm.library⟩

theorem links_writeOut {c c' : Context} (h : r.Links c c') (text : String) :
    r.Links (c.writeOut text) (c'.writeOut text) :=
  { h with out := congrArg (· ++ text) h.out }

theorem links_writeErr {c c' : Context} (h : r.Links c c') (text : String) :
    r.Links (c.writeErr text) (c'.writeErr text) :=
  { h with err := congrArg (· ++ text) h.err }

/-- Output is the same text in both. -/
theorem runs_writeOut (text : String) : r.Runs (Eval.writeOut text) (Eval.writeOut text) :=
  runs_modifyContext fun h => links_writeOut h text

theorem runs_writeErr (text : String) : r.Runs (Eval.writeErr text) (Eval.writeErr text) :=
  runs_modifyContext fun h => links_writeErr h text

theorem Runs.inReferenceBlock {x x' : Eval α} (h : r.Runs x x') :
    r.Runs (Eval.inReferenceBlock x) (Eval.inReferenceBlock x') := by
  intro m m' hm
  have hend := h { m with inReference := true } { m' with inReference := true }
    ⟨hm.store, hm.context, hm.frame, hm.depth, rfl, hm.library⟩
  unfold Eval.inReferenceBlock
  dsimp only
  generalize x { m with inReference := true } = outcome at hend
  generalize x' { m' with inReference := true } = outcome' at hend
  cases hend with
  | done hle ha hm₁ =>
    exact .done hle ha
      ⟨hm₁.store, hm₁.context, hm₁.frame, hm₁.depth, hm.inReference, hm₁.library⟩
  | fail d hle hm₁ =>
    exact .fail d hle
      ⟨hm₁.store, hm₁.context, hm₁.frame, hm₁.depth, hm.inReference, hm₁.library⟩
  | starved m m' => exact .starved m m'

/-- The callers' frames are put back: they are linked as before. -/
theorem Runs.enter {frame frame' : Frame} (hframe : r.Links frame frame') (pos : Position)
    {x x' : Eval α} (h : r.Runs x x') :
    r.Runs (Eval.enter frame pos x) (Eval.enter frame' pos x') := by
  intro m m' hm
  unfold Eval.enter
  rw [hm.depth]
  split
  · have hentered : r.Machines ⟨m.store, m.context, frame, m.depth + 1, false, m.library⟩
        ⟨m'.store, m'.context, frame', m.depth + 1, false, m'.library⟩ :=
      ⟨hm.store, hm.context, hframe, rfl, rfl, hm.library⟩
    have hend := h _ _ hentered
    dsimp only
    rw [hm.depth]
    generalize x ⟨m.store, m.context, frame, m.depth + 1, false, m.library⟩ = outcome at hend
    generalize x' ⟨m'.store, m'.context, frame', m.depth + 1, false, m'.library⟩ = outcome' at hend
    have hleave : ∀ {r₁ : Renaming} {m₁ m₁' : Machine}, r ≤ r₁ → r₁.Machines m₁ m₁' → r₁.Machines
        ⟨m₁.store, m₁.context, m.frame, m₁.depth - 1, m.inReference, m₁.library⟩
        ⟨m₁'.store, m₁'.context, m'.frame, m₁'.depth - 1, m'.inReference, m₁'.library⟩ :=
      fun hle hm₁ => ⟨hm₁.store, hm₁.context, hm.frame.mono hle, congrArg (· - 1) hm₁.depth,
        hm.inReference, hm₁.library⟩
    cases hend with
    | done hle ha hm₁ => exact .done hle ha (hleave hle hm₁)
    | fail d hle hm₁ =>
      dsimp only
      rw [hm.frame.file, hm.frame.name]
      exact .fail _ hle (hleave hle hm₁)
    | starved m m' => exact .starved m m'
  · exact runs_fail .tooDeep pos m m' hm

/-- A computation that is undone if it fails runs alike if both parts do. -/
theorem Runs.orElse {x x' : Eval α} (hx : r.Runs x x') {undo undo' : Eval Unit}
    (hundo : ∀ r', r ≤ r' → r'.Runs undo undo') :
    r.Runs (Eval.orElse x undo) (Eval.orElse x' undo') := by
  intro m m' hm
  have hend := hx m m' hm
  unfold Eval.orElse
  generalize x m = outcome at hend
  generalize x' m' = outcome' at hend
  cases hend with
  | done hle ha hm₁ => exact .done hle ha hm₁
  | starved m m' => exact .starved m m'
  | @fail r₁ m₁ m₁' d hle hm₁ =>
    have hend := hundo r₁ hle m₁ m₁' hm₁
    dsimp only
    generalize undo m₁ = outcome at hend
    generalize undo' m₁' = outcome' at hend
    cases hend with
    | done hle₂ _ hm₂ => exact .fail d (le_trans hle hle₂) hm₂
    | fail _ hle₂ hm₂ => exact .fail d (le_trans hle hle₂) hm₂
    | starved m m' => exact .starved m m'

end Renaming

end Stencil
