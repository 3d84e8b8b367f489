import Stencil.Proofs.Dict
import Stencil.Proofs.Eval.Constructs

/-!
What a computation hands back. Frames are swapped for calls, struct bodies,
injected bodies, modules and danced programs, and each of these can fail in the
middle. However a computation ends, the frame that was active when it began is
active again, at the same depth and inside or outside a reference block as
before. Only the statements of a body may leave a trace in the frame: they add
overriding bodies to its table and never replace or remove one.
-/

namespace Stencil

/-- The frame stands as it did, but may have gained overriding bodies. -/
structure Frame.ExtendedBy (before after : Frame) : Prop where
  locals : after.locals = before.locals
  globals : after.globals = before.globals
  function : after.function = before.function
  name : after.name = before.name
  file : after.file = before.file
  injections : ∀ name injection, before.injections.get? name = some injection →
    after.injections.get? name = some injection

namespace Frame.ExtendedBy

theorem refl (frame : Frame) : frame.ExtendedBy frame :=
  ⟨rfl, rfl, rfl, rfl, rfl, fun _ _ h => h⟩

theorem trans {f g h : Frame} (hfg : f.ExtendedBy g) (hgh : g.ExtendedBy h) :
    f.ExtendedBy h where
  locals := hgh.locals.trans hfg.locals
  globals := hgh.globals.trans hfg.globals
  function := hgh.function.trans hfg.function
  name := hgh.name.trans hfg.name
  file := hgh.file.trans hfg.file
  injections := fun name injection hf => hgh.injections name injection (hfg.injections _ _ hf)

end Frame.ExtendedBy

structure Machine.HandedBack (before after : Machine) : Prop where
  frame : after.frame = before.frame
  depth : after.depth = before.depth
  inReference : after.inReference = before.inReference
  library : after.library = before.library

/-- The same up to overriding bodies that the active frame has gained. -/
structure Machine.Restored (before after : Machine) : Prop where
  frame : before.frame.ExtendedBy after.frame
  depth : after.depth = before.depth
  inReference : after.inReference = before.inReference
  library : after.library = before.library

namespace Machine

theorem HandedBack.refl (m : Machine) : m.HandedBack m := ⟨rfl, rfl, rfl, rfl⟩

/-- What is handed back twice is handed back. -/
theorem HandedBack.trans {m₁ m₂ m₃ : Machine} (h : m₁.HandedBack m₂) (h' : m₂.HandedBack m₃) :
    m₁.HandedBack m₃ :=
  ⟨h'.frame.trans h.frame, h'.depth.trans h.depth, h'.inReference.trans h.inReference,
    h'.library.trans h.library⟩

/-- A machine that is handed back is restored. -/
theorem HandedBack.restored {before after : Machine} (h : before.HandedBack after) :
    before.Restored after where
  frame := h.frame.symm ▸ Frame.ExtendedBy.refl _
  depth := h.depth
  inReference := h.inReference
  library := h.library

theorem Restored.trans {m₁ m₂ m₃ : Machine} (h : m₁.Restored m₂) (h' : m₂.Restored m₃) :
    m₁.Restored m₃ :=
  ⟨h.frame.trans h'.frame, h'.depth.trans h.depth, h'.inReference.trans h.inReference,
    h'.library.trans h.library⟩

end Machine

namespace Outcome

variable {α : Type}

def Ends (ended halted : Machine → Prop) : Outcome α → Prop
  | .done _ m => ended m
  | .fail _ m => ended m
  | .starved m => halted m

def EndsIn (ended : Machine → Prop) (outcome : Outcome α) : Prop :=
  outcome.Ends ended fun _ => True

theorem Ends.mono {ended ended' halted halted' : Machine → Prop} {outcome : Outcome α}
    (h : outcome.Ends ended halted) (he : ∀ m, ended m → ended' m)
    (hh : ∀ m, halted m → halted' m) : outcome.Ends ended' halted' := by
  cases outcome with
  | done a m => exact he m h
  | fail d m => exact he m h
  | starved m => exact hh m h

theorem EndsIn.and {ended ended' : Machine → Prop} {outcome : Outcome α}
    (h : outcome.EndsIn ended) (h' : outcome.EndsIn ended') :
    outcome.EndsIn fun m => ended m ∧ ended' m := by
  cases outcome with
  | done a m => exact ⟨h, h'⟩
  | fail d m => exact ⟨h, h'⟩
  | starved m => exact trivial

end Outcome

namespace Eval

/-- The second part of a sequence begins where the first part has ended. -/
theorem ends_bind {α β : Type} {x : Eval α} {f : α → Eval β} {m : Machine}
    {ended halted ended' halted' : Machine → Prop} (hx : (x m).Ends ended halted)
    (hf : ∀ a m', ended m' → (f a m').Ends ended' halted')
    (he : ∀ m', ended m' → ended' m') (hh : ∀ m', halted m' → halted' m') :
    ((x >>= f) m).Ends ended' halted' := by
  change (Eval.bind x f m).Ends ended' halted'
  unfold Eval.bind
  cases hrun : x m with
  | done a m' =>
    rw [hrun] at hx
    exact hf a m' hx
  | fail d m' =>
    rw [hrun] at hx
    exact he m' hx
  | starved m' =>
    rw [hrun] at hx
    exact hh m' hx

/-! A construct that runs one computation in a machine of its own ends as that computation
did, in the machine that it makes of the one which it gets back. -/

section Around

variable {α : Type} {x : Eval α} {m : Machine} {ended halted ended' halted' : Machine → Prop}

/-- What undoes a failed computation has the last word. -/
theorem ends_orElse {undo : Eval Unit} (hx : (x m).Ends ended halted)
    (hundo : ∀ m', ended m' → (undo m').Ends ended' halted')
    (he : ∀ m', ended m' → ended' m') (hh : ∀ m', halted m' → halted' m') :
    (Eval.orElse x undo m).Ends ended' halted' := by
  unfold Eval.orElse
  cases hrun : x m with
  | done a m' =>
    rw [hrun] at hx
    exact he m' hx
  | fail d m' =>
    rw [hrun] at hx
    have hback := hundo m' hx
    dsimp only
    cases hrest : undo m' with
    | done a m'' =>
      rw [hrest] at hback
      exact hback
    | fail d' m'' =>
      rw [hrest] at hback
      exact hback
    | starved m'' =>
      rw [hrest] at hback
      exact hback
  | starved m' =>
    rw [hrun] at hx
    exact hh m' hx

/-- The machine outside of a reference block differs in nothing else. -/
theorem ends_inReferenceBlock (hx : (x { m with inReference := true }).Ends ended halted)
    (he : ∀ m', ended m' → ended' { m' with inReference := m.inReference })
    (hh : ∀ m', halted m' → halted' m') :
    (Eval.inReferenceBlock x m).Ends ended' halted' := by
  unfold Eval.inReferenceBlock
  dsimp only
  cases hrun : x { m with inReference := true } with
  | done a m' =>
    rw [hrun] at hx
    exact he m' hx
  | fail d m' =>
    rw [hrun] at hx
    exact he m' hx
  | starved m' =>
    rw [hrun] at hx
    exact hh m' hx

/-- A frame that is too deep is not entered, and the machine stays as it is. -/
theorem ends_enter {frame : Frame} {pos : Position}
    (hx : m.depth < depthLimit →
      (x ⟨m.store, m.context, frame, m.depth + 1, false, m.library⟩).Ends ended halted)
    (he : ∀ m', ended m' →
      ended' ⟨m'.store, m'.context, m.frame, m'.depth - 1, m.inReference, m'.library⟩)
    (hh : ∀ m', halted m' → halted' m') (hdeep : ¬m.depth < depthLimit → ended' m) :
    (Eval.enter frame pos x m).Ends ended' halted' := by
  unfold Eval.enter
  split
  · next hdepth =>
    have hend := hx hdepth
    dsimp only
    cases hrun : x ⟨m.store, m.context, frame, m.depth + 1, false, m.library⟩ with
    | done a m' =>
      rw [hrun] at hend
      exact he m' hend
    | fail d m' =>
      rw [hrun] at hend
      exact he m' hend
    | starved m' =>
      rw [hrun] at hend
      exact hh m' hend
  · next hdepth => exact hdeep hdepth

/-- The caller keeps all but the store. -/
theorem ends_runApart {ex : Executor} {context : Context} {program : Program}
    (hx : ((ex program >>= settle)
      ⟨m.store, context, .top context.globals none, m.depth + 1, false, m.library⟩).Ends
        ended halted)
    (he : ∀ m', ended m' → ended' { m with store := m'.store })
    (hh : ∀ m', halted m' → halted' m') :
    (Eval.runApart ex context program m).Ends ended' halted' := by
  change (Eval.bind (ex program) settle _).Ends ended halted at hx
  unfold Eval.runApart
  dsimp only
  cases hrun : Eval.bind (ex program) settle
    ⟨m.store, context, .top context.globals none, m.depth + 1, false, m.library⟩ with
  | done a m' =>
    rw [hrun] at hx
    exact he m' hx
  | fail d m' =>
    rw [hrun] at hx
    exact he m' hx
  | starved m' =>
    rw [hrun] at hx
    exact hh m' hx

/-- An action works on the store alone, whether it fails or not. -/
theorem ends_act {pos : Position} {action : Action α}
    (h : ended { m with store := (action m.store).2 }) :
    (Eval.act pos action m).Ends ended halted := by
  unfold Eval.act
  dsimp only
  split
  · next heq =>
    rw [heq] at h
    exact h
  · next heq =>
    rw [heq] at h
    exact h

end Around

/-- A sequence has a result when both parts have one. -/
theorem bind_eq_done_iff {α β : Type} {x : Eval α} {f : α → Eval β} {m m' : Machine} {b : β} :
    (x >>= f) m = .done b m' ↔ ∃ a m₁, x m = .done a m₁ ∧ f a m₁ = .done b m' := by
  change Eval.bind x f m = _ ↔ _
  unfold Eval.bind
  cases x m with
  | done a m₁ =>
    constructor
    · intro h
      exact ⟨a, m₁, rfl, h⟩
    · rintro ⟨a', m₁', heq, h⟩
      cases heq
      exact h
  | fail d m₁ => simp
  | starved m₁ => simp

/-- The active frame is handed back untouched. Fuel may be spent only where the
library is the same, or else after a frame with the property `escape` was met;
the second case lets a computation be followed up to a chosen point. -/
def Steady (escape : Frame → Prop) ⦃α : Type⦄ (x : Eval α) : Prop :=
  ∀ m, (x m).Ends m.HandedBack fun m' => m'.library = m.library ∨ escape m.frame

/-- The active frame is handed back with no overriding body lost or replaced. -/
def Growing ⦃α : Type⦄ (x : Eval α) : Prop :=
  ∀ m, (x m).Ends m.Restored fun m' => m'.library = m.library

/-- What either part of a sequence registers stays registered. -/
theorem Growing.bind {α β : Type} {x : Eval α} {f : α → Eval β} (hx : Growing x)
    (hf : ∀ a, Growing (f a)) : Growing (x >>= f) := by
  intro m
  refine ends_bind (hx m) ?_ (fun m' h => h) (fun m' h => h)
  intro a m' h
  exact (hf a m').mono (fun m'' h' => h.trans h') (fun m'' h' => h'.trans h.library)

theorem Growing.inReferenceBlock {α : Type} {x : Eval α} (hx : Growing x) :
    Growing (Eval.inReferenceBlock x) := by
  intro m
  refine ends_inReferenceBlock (hx _) ?_ fun m' h => h
  intro m' h
  exact ⟨h.frame, h.depth, rfl, h.library⟩

/-- What leaves a frame untouched loses nothing of it. -/
theorem Steady.growing {α : Type} {x : Eval α} (hx : Steady (fun _ => False) x) : Growing x := by
  intro m
  refine (hx m).mono (fun m' h => h.restored) ?_
  rintro m' (h | h)
  · exact h
  · exact h.elim

theorem Steady.mono {escape : Frame → Prop} {α : Type} {x : Eval α}
    (hx : Steady (fun _ => False) x) : Steady escape x := by
  intro m
  refine (hx m).mono (fun m' h => h) ?_
  rintro m' (h | h)
  · exact Or.inl h
  · exact h.elim

section Steady

variable (escape : Frame → Prop)

/-- A frame that both parts of a sequence hand back is handed back. -/
theorem Steady.bind {α β : Type} {x : Eval α} {f : α → Eval β} (hx : Steady escape x)
    (hf : ∀ a, Steady escape (f a)) : Steady escape (x >>= f) := by
  intro m
  refine ends_bind (hx m) ?_ (fun m' h => h) (fun m' h => h)
  intro a m' h
  refine (hf a m').mono (fun m'' h' => h.trans h') ?_
  rintro m'' (h' | h')
  · exact Or.inl (h'.trans h.library)
  · exact Or.inr (h.frame ▸ h')

/-- Work on the store does not touch the frame. -/
theorem Steady.act {α : Type} (pos : Position) (action : Action α) :
    Steady escape (Eval.act pos action) := by
  intro m
  exact ends_act ⟨rfl, rfl, rfl, rfl⟩

theorem Steady.modifyContext (f : Context → Context) : Steady escape (Eval.modifyContext f) :=
  fun _ => ⟨rfl, rfl, rfl, rfl⟩

theorem Steady.orElse {α : Type} {x : Eval α} {undo : Eval Unit} (hx : Steady escape x)
    (hu : Steady escape undo) : Steady escape (Eval.orElse x undo) := by
  intro m
  refine ends_orElse (hx m) ?_ (fun m' h => h) (fun m' h => h)
  intro m' hback
  refine (hu m').mono (fun m'' h => hback.trans h) ?_
  rintro m'' (h | h)
  · exact Or.inl (h.trans hback.library)
  · exact Or.inr (hback.frame ▸ h)

theorem Steady.inReferenceBlock {α : Type} {x : Eval α} (hx : Steady escape x) :
    Steady escape (Eval.inReferenceBlock x) := by
  intro m
  refine ends_inReferenceBlock (hx _) ?_ fun m' h => h
  intro m' h
  exact ⟨h.frame, h.depth, rfl, h.library⟩

/-- The depth is counted up on entry and down on every way out, which gives the
old depth because the body gives back the one it found. -/
theorem Steady.enter {α : Type} {x : Eval α} (frame : Frame) (pos : Position)
    (hx : Growing x) : Steady escape (Eval.enter frame pos x) := by
  intro m
  refine ends_enter (fun _ => hx _) ?_ (fun m' h => Or.inl h) fun _ => .refl m
  intro m' h
  exact ⟨rfl, Nat.sub_eq_of_eq_add h.depth, rfl, h.library⟩

/-- The body of a module has a frame of its own. -/
theorem Steady.runModule {ex : Executor} (path file : String) (program : Program) (pos : Position)
    (hx : Growing (ex program >>= settle)) :
    Steady escape (Eval.runModule ex path file program pos) := by
  have hbody : ∀ frame, Steady escape
      (Eval.orElse (Eval.enter frame pos (ex program >>= settle)) (forget file)) := fun frame =>
    Steady.orElse escape (Steady.enter escape frame pos hx) (Steady.modifyContext escape _)
  refine Steady.bind escape (fun m => ⟨rfl, rfl, rfl, rfl⟩) fun scope => ?_
  refine Steady.bind escape (fun m => ⟨rfl, rfl, rfl, rfl⟩) fun v => ?_
  refine Steady.bind escape (Steady.modifyContext escape _) fun _ => ?_
  exact Steady.bind escape (hbody _) fun _ m => .refl m

/-- The caller of a danced program has its frame and context back. -/
theorem Steady.runApart {ex : Executor} (context : Context) (program : Program)
    (hx : Growing (ex program >>= settle)) :
    Steady escape (Eval.runApart ex context program) := by
  intro m
  exact ends_runApart (hx _) (fun m' _ => ⟨rfl, rfl, rfl, rfl⟩) fun m' h => Or.inl h

theorem growing_settle (flow : Flow) : Growing (settle flow) := by
  cases flow with
  | next => exact fun m => (Machine.HandedBack.refl m).restored
  | «break» pos => exact fun m => (Machine.HandedBack.refl m).restored
  | «continue» pos => exact fun m => (Machine.HandedBack.refl m).restored
  | «return» v pos => exact fun m => (Machine.HandedBack.refl m).restored

theorem growing_returned (flow : Flow) : Growing (returned flow) := by
  cases flow with
  | next => exact fun m => Machine.HandedBack.restored ⟨rfl, rfl, rfl, rfl⟩
  | «break» pos => exact fun m => (Machine.HandedBack.refl m).restored
  | «continue» pos => exact fun m => (Machine.HandedBack.refl m).restored
  | «return» v pos => exact fun m => (Machine.HandedBack.refl m).restored

theorem steady_primitives : Primitives (Steady escape) where
  pure _ m := .refl m
  bind := Steady.bind escape
  starve _ := Or.inl rfl
  fails _ m := .refl m
  read _ m := .refl m
  act := Steady.act escape
  make _ _ := ⟨rfl, rfl, rfl, rfl⟩
  newScope _ _ := ⟨rfl, rfl, rfl, rfl⟩
  modifyStore _ _ := ⟨rfl, rfl, rfl, rfl⟩
  bindLocal _ _ _ := ⟨rfl, rfl, rfl, rfl⟩
  writeOut _ := Steady.modifyContext escape _
  writeErr _ := Steady.modifyContext escape _
  setAlias _ _ _ := Steady.modifyContext escape _
  inReferenceBlock := Steady.inReferenceBlock escape

/-- Calls, struct bodies, modules and dances hand the active frame back. -/
theorem steady_discipline : Discipline (Steady escape) Growing where
  toPrimitives := steady_primitives escape
  settled hx := hx.bind growing_settle
  returned hx := hx.bind growing_returned
  enter := Steady.enter escape
  importModule path pos hx :=
    (steady_primitives escape).importModule path pos fun file program =>
      Steady.runModule escape path file program pos (hx program)
  runApart := Steady.runApart escape

end Steady

/-- A body that is there already stays; a new one is added under a free name. -/
theorem growing_addInjection (name : String) (body : List Stmt) :
    Growing (addInjection name body) := by
  intro m
  refine ⟨?_, ?_, ?_, ?_⟩
  all_goals simp only [apply_ite Machine.depth, apply_ite Machine.inReference,
    apply_ite Machine.library, ite_self]
  split
  · exact .refl _
  · next habsent =>
    refine ⟨rfl, rfl, rfl, rfl, rfl, ?_⟩
    intro other injection hfound
    have hne : other ≠ name := by
      rintro rfl
      simp [Dict.contains, hfound] at habsent
    simpa only [Dict.get?_insert, if_neg hne] using hfound

/-- Only a statement that registers a body adds to the active frame, and nothing takes anything
from it. -/
theorem restoring_discipline : BodyDiscipline (Steady fun _ => False) Growing where
  toDiscipline := steady_discipline _
  weaken := Steady.growing
  sequence := Growing.bind
  addInjection := growing_addInjection

theorem steady_eval (fuel : Nat) (e : Expr) : Steady (fun _ => False) (eval fuel e) :=
  restoring_discipline.eval fuel e

/-- A body leaves its frame as it was, up to bodies that it registers. -/
theorem growing_exec (fuel : Nat) (body : List Stmt) : Growing (exec fuel body) :=
  restoring_discipline.exec fuel body

theorem Steady.endsIn {α : Type} {x : Eval α} (hx : Steady (fun _ => False) x) (m : Machine) :
    (x m).EndsIn m.HandedBack :=
  (hx m).mono (fun _ h => h) fun _ _ => trivial

theorem Growing.endsIn {α : Type} {x : Eval α} (hx : Growing x) (m : Machine) :
    (x m).EndsIn m.Restored :=
  (hx m).mono (fun _ h => h) fun _ _ => trivial

/-- Interpreter state is restored on every path. Statements and bodies may only
have added overriding bodies to the active frame; formulas, expressions and calls
of every kind hand back the very frame they found. -/
theorem evaluation_restores_control (fuel rounds : Nat) (m : Machine) :
    (∀ stmt, (execStep (eval fuel) (exec fuel) rounds stmt m).EndsIn m.Restored) ∧
    (∀ body, (exec fuel body m).EndsIn m.Restored) ∧
    (∀ formula, (evalFormula (eval fuel) formula m).EndsIn m.HandedBack) ∧
    (∀ e, (eval fuel e m).EndsIn m.HandedBack) ∧
    (∀ callee args pos, (callValue (exec fuel) callee args pos m).EndsIn m.HandedBack) ∧
    (∀ args pos, (callSuper (exec fuel) args pos m).EndsIn m.HandedBack) := by
  have hev : ∀ e, Steady (fun _ => False) (eval fuel e) := steady_eval fuel
  have hex : ∀ body, Growing (exec fuel body) := growing_exec fuel
  have D : BodyDiscipline (Steady fun _ => False) Growing := restoring_discipline
  refine ⟨?_, ?_, ?_, ?_, ?_, ?_⟩
  · intro stmt
    exact (D.execStep hev hex rounds stmt).endsIn m
  · intro body
    exact (hex body).endsIn m
  · intro formula
    exact (D.evalFormula hev formula).endsIn m
  · intro e
    exact (hev e).endsIn m
  · intro callee args pos
    exact (D.callValue hex callee args pos).endsIn m
  · intro args pos
    exact (D.callSuper hex args pos).endsIn m

end Eval

end Stencil
