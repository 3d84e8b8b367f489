import Mathlib.Tactic.ByContra
import Stencil.Proofs.Eval.Restored

/-!
Points that a run comes to. Constructs are built over evaluators and executors of
smaller pieces, and a construct comes to a piece in a machine when it asks for
the piece to be run there. This is said by what it depends on: if that one run
were to halt in some machine, then so would the construct, and in the same
machine. Where a construct comes to an expression, the active frame is the one
in which it began; where a call comes to a body, the frame is that of the call.
-/

namespace Stencil

def Machine.entered (m : Machine) (frame : Frame) : Machine :=
  ⟨m.store, m.context, frame, m.depth + 1, false, m.library⟩

def Machine.called (m : Machine) (callee : Value) (f : Function) (args : List Value)
    (injections : Dict Injection) : Machine :=
  let (locals, store) := m.store.newScope (.ofList (f.definition.params.zip args))
  { m with store := store }.entered (.ofCall callee f locals injections)

@[simp]
theorem Machine.called_injections (m : Machine) (callee : Value) (f : Function)
    (args : List Value) (injections : Dict Injection) :
    (m.called callee f args injections).frame.injections = injections := rfl

namespace Eval

variable {ι α β γ : Type}

theorem enter_eq {x : Eval α} {frame : Frame} {pos : Position} {m : Machine}
    (h : m.depth < depthLimit) :
    enter frame pos x m =
      match x (m.entered frame) with
      | .done a m' =>
        .done a ⟨m'.store, m'.context, m.frame, m'.depth - 1, m.inReference, m'.library⟩
      | .fail d m' =>
        .fail (d.push m.frame.file pos.line m.frame.name)
          ⟨m'.store, m'.context, m.frame, m'.depth - 1, m.inReference, m'.library⟩
      | .starved m' => .starved m' := by
  unfold enter
  exact if_pos h

open Classical in
/-- Runs of a family of computations, save that one of them halts in one machine. -/
noncomputable def haltingAt (run : ι → Eval α) (i : ι) (start halted : Machine) : ι → Eval α :=
  fun j m => if j = i ∧ m = start then .starved halted else run j m

/-- A computation over a family of others comes to run the member `i` in the
machine `start`. -/
def ComesTo (x : (ι → Eval α) → Eval β) (run : ι → Eval α) (m : Machine) (i : ι)
    (start : Machine) : Prop :=
  ∀ halted, x (haltingAt run i start halted) m = .starved halted

theorem haltingAt_self (run : ι → Eval α) (i : ι) (start halted : Machine) :
    haltingAt run i start halted i start = .starved halted := by
  simp [haltingAt]

/-- Only at the chosen piece and machine is anything different. -/
theorem haltingAt_of_ne (run : ι → Eval α) {i j : ι} {start m : Machine} (halted : Machine)
    (h : ¬(j = i ∧ m = start)) : haltingAt run i start halted j m = run j m := by
  simp [haltingAt, h]

/-- An outcome cannot be a halt in every machine at once. -/
theorem not_forall_starved (m : Machine) (outcome : Outcome β) :
    ¬∀ halted, outcome = .starved halted := by
  intro h
  have heq : (.starved m : Outcome β) = .starved { m with depth := m.depth + 1 } :=
    (h m).symm.trans (h _)
  have hdepth : m.depth = m.depth + 1 := congrArg Machine.depth (Outcome.starved.inj heq)
  omega

theorem not_comesTo_const {x : Eval β} {run : ι → Eval α} {m : Machine} {i : ι}
    {start : Machine} : ¬ComesTo (fun _ => x) run m i start :=
  not_forall_starved m (x m)

/-- Behind a part that asks nothing, a sequence comes to what its second part comes to. -/
theorem comesTo_bind_iff {x : Eval γ} {f : (ι → Eval α) → γ → Eval β} {run : ι → Eval α}
    {m : Machine} {i : ι} {start : Machine} :
    ComesTo (fun run => x >>= f run) run m i start ↔
      ∃ a m', x m = .done a m' ∧ ComesTo (fun run => f run a) run m' i start := by
  have hbind : ∀ halted, (x >>= f (haltingAt run i start halted)) m =
      Eval.bind x (f (haltingAt run i start halted)) m := fun _ => rfl
  simp only [ComesTo, hbind, Eval.bind]
  cases x m with
  | done a m' =>
    constructor
    · intro h
      exact ⟨a, m', rfl, h⟩
    · rintro ⟨a', m'', heq, h⟩
      cases heq
      exact h
  | fail d m' =>
    constructor
    · intro h
      exact absurd h (not_forall_starved m _)
    · rintro ⟨a', m'', heq, h⟩
      cases heq
  | starved m' =>
    constructor
    · intro h
      exact absurd h (not_forall_starved m _)
    · rintro ⟨a', m'', heq, h⟩
      cases heq

theorem ComesTo.bind {x : (ι → Eval α) → Eval γ} {run : ι → Eval α}
    {m start : Machine} {i : ι} (h : ComesTo x run m i start)
    (f : (ι → Eval α) → γ → Eval β) : ComesTo (fun run => x run >>= f run) run m i start := by
  intro halted
  change Eval.bind _ _ m = _
  simp only [Eval.bind, h halted]

theorem comesTo_run_bind_iff {f : α → Eval β} {run : ι → Eval α} {m : Machine} {i j : ι}
    {start : Machine} :
    ComesTo (fun run => run j >>= f) run m i start ↔ j = i ∧ m = start := by
  constructor
  · intro h
    by_contra hne
    refine not_forall_starved m ((run j >>= f) m) fun halted => ?_
    have hrun := haltingAt_of_ne run halted hne
    have hbind : (haltingAt run i start halted j >>= f) m = (run j >>= f) m := by
      change Eval.bind _ _ _ = Eval.bind _ _ _
      simp only [Eval.bind, hrun]
    rw [← hbind]
    exact h halted
  · rintro ⟨rfl, rfl⟩ halted
    change Eval.bind _ _ _ = _
    simp only [Eval.bind, haltingAt_self]

/-- A piece that is run at once is all that is come to. -/
theorem comesTo_run_iff {run : ι → Eval α} {m : Machine} {i j : ι} {start : Machine} :
    ComesTo (fun run => run j) run m i start ↔ j = i ∧ m = start := by
  constructor
  · intro h
    by_contra hne
    refine not_forall_starved m (run j m) fun halted => ?_
    rw [← haltingAt_of_ne run halted hne]
    exact h halted
  · rintro ⟨rfl, rfl⟩ halted
    exact haltingAt_self run j m halted

/-- A frame is entered only below the limit. -/
theorem comesTo_enter_iff {x : (ι → Eval α) → Eval β} {frame : Frame} {pos : Position}
    {run : ι → Eval α} {m : Machine} {i : ι} {start : Machine} :
    ComesTo (fun run => enter frame pos (x run)) run m i start ↔
      m.depth < depthLimit ∧ ComesTo x run (m.entered frame) i start := by
  by_cases hdepth : m.depth < depthLimit
  · have henter : ∀ halted, enter frame pos (x (haltingAt run i start halted)) m = .starved halted ↔
        x (haltingAt run i start halted) (m.entered frame) = .starved halted := by
      intro halted
      simp only [enter, hdepth, if_true, Machine.entered]
      cases x (haltingAt run i start halted)
        ⟨m.store, m.context, frame, m.depth + 1, false, m.library⟩ <;> simp
    simp only [ComesTo, henter, hdepth, true_and]
  · constructor
    · intro h
      have hfail : ∀ halted, (fail .tooDeep pos : Eval β) m = .starved halted := by
        intro halted
        rw [← h halted]
        simp only [enter, hdepth, if_false]
      exact absurd hfail (not_forall_starved m _)
    · exact fun h => absurd h.1 hdepth

/-- A construct that hands the active frame back asks its evaluator nothing in any other frame.
The halt that shows this is marked by a library that no machine of the run itself can have. -/
theorem ComesTo.frame_eq {x : Evaluator → Eval β}
    (hx : ∀ escape ev, (∀ e, Steady escape (ev e)) → Steady escape (x ev))
    {ev : Evaluator} (hev : ∀ e, Steady (fun _ => False) (ev e)) {m : Machine} {e : Expr}
    {start : Machine} (h : ComesTo x ev m e start) : start.frame = m.frame := by
  let halted : Machine := { start with library := m.library ++ "/" }
  have hmarked : ∀ e', Steady (fun frame => start.frame = frame)
      (haltingAt ev e start halted e') := by
    intro e' m'
    by_cases hpoint : e' = e ∧ m' = start
    · obtain ⟨rfl, rfl⟩ := hpoint
      rw [haltingAt_self]
      exact Or.inr rfl
    · rw [haltingAt_of_ne ev halted hpoint]
      exact (hev e').mono m'
  have hend := hx _ _ hmarked m
  rw [h halted] at hend
  rcases hend with hlibrary | hframe
  · have hlength := congrArg String.length hlibrary
    rw [String.length_append] at hlength
    change m.library.length + 1 = m.library.length at hlength
    omega
  · exact hframe

/-- A call comes to the body of its function, and only if the arguments are as
many as the parameters and the nesting is not too deep. -/
theorem callFunction_comesTo_iff {ex : Executor} {callee : Value} {args : List Value}
    {pos : Position} {injections : Dict Injection} {m start : Machine} {body : List Stmt} :
    ComesTo (fun ex => callFunction ex callee args pos injections) ex m body start ↔
      ∃ f, m.store.get callee = .function f ∧ args.length = f.definition.params.length ∧
        m.depth < depthLimit ∧ body = f.definition.body ∧
        start = m.called callee f args injections := by
  unfold callFunction
  rw [comesTo_bind_iff]
  constructor
  · rintro ⟨object, m', hload, h⟩
    cases hload
    cases hobject : m.store.get callee with
    | function f =>
      simp only [hobject] at h
      by_cases hargs : args.length = f.definition.params.length
      · simp only [hargs, if_true] at h
        obtain ⟨locals, m', hscope, h⟩ := comesTo_bind_iff.mp h
        cases hscope
        obtain ⟨hdepth, h⟩ := comesTo_enter_iff.mp h
        obtain ⟨rfl, rfl⟩ := comesTo_run_bind_iff.mp h
        exact ⟨f, rfl, hargs, hdepth, rfl, rfl⟩
      · simp only [hargs, if_false] at h
        exact absurd h not_comesTo_const
    | _ =>
      simp only [hobject] at h
      exact absurd h not_comesTo_const
  · rintro ⟨f, hobject, hargs, hdepth, rfl, rfl⟩
    refine ⟨.function f, m, by rw [← hobject]; rfl, ?_⟩
    simp only [hargs, if_true]
    refine comesTo_bind_iff.mpr ⟨_, _, rfl, ?_⟩
    exact comesTo_enter_iff.mpr ⟨hdepth, comesTo_run_bind_iff.mpr ⟨rfl, rfl⟩⟩

end Eval

def Store.target? (s : Store) (callee : Value) : Option Value :=
  match s.get callee with
  | .function _ => some callee
  | .method _ (.function target) => some target
  | _ => none

namespace Eval

/-- An ordinary call of a function or bound method starts with no overriding
body. -/
theorem callValue_comesTo {ex : Executor} {callee target : Value} {args : List Value}
    {pos : Position} {m start : Machine} {body : List Stmt}
    (htarget : m.store.target? callee = some target)
    (h : ComesTo (fun ex => callValue ex callee args pos) ex m body start) :
    ∃ f args', m.store.get target = .function f ∧ body = f.definition.body ∧
      start = m.called target f args' .empty := by
  unfold callValue at h
  obtain ⟨object, m', hload, h⟩ := comesTo_bind_iff.mp h
  cases hload
  unfold Store.target? at htarget
  split at htarget
  · next f hobject =>
    cases htarget
    simp only [hobject] at h
    obtain ⟨f, hf, -, -, hbody, hstart⟩ := callFunction_comesTo_iff.mp h
    exact ⟨f, args, hf, hbody, hstart⟩
  · next receiver function hobject =>
    cases htarget
    simp only [hobject] at h
    obtain ⟨f, hf, -, -, hbody, hstart⟩ := callFunction_comesTo_iff.mp h
    exact ⟨f, receiver :: args, hf, hbody, hstart⟩
  · cases htarget

/-- A call with the right number of arguments comes to the body of its function. -/
theorem comesTo_callValue {ex : Executor} {callee : Value} {f : Function} {args : List Value}
    {pos : Position} {m : Machine} (hf : m.store.get callee = .function f)
    (hargs : args.length = f.definition.params.length) (hdepth : m.depth < depthLimit) :
    ComesTo (fun ex => callValue ex callee args pos) ex m f.definition.body
      (m.called callee f args .empty) := by
  unfold callValue
  refine comesTo_bind_iff.mpr ⟨.function f, m, by rw [← hf]; rfl, ?_⟩
  exact callFunction_comesTo_iff.mpr ⟨f, hf, hargs, hdepth, rfl, rfl⟩

/-- A call through `super` runs the function that the active one extends, and
starts with the overriding bodies of its caller. -/
theorem callSuper_comesTo_iff {ex : Executor} {args : List Value} {pos : Position}
    {m start : Machine} {body : List Stmt} :
    ComesTo (fun ex => callSuper ex args pos) ex m body start ↔
      ∃ function f base g, m.frame.function = some function ∧
        m.store.get function = .function f ∧ m.store.baseOf f = .ok base ∧
        m.store.get base = .function g ∧ args.length = g.definition.params.length ∧
        m.depth < depthLimit ∧ body = g.definition.body ∧
        start = m.called base g args m.frame.injections := by
  unfold callSuper
  rw [comesTo_bind_iff]
  constructor
  · rintro ⟨active, m', hread, h⟩
    cases hread
    cases hfunction : m.frame.function with
    | none =>
      simp only [hfunction] at h
      exact absurd h not_comesTo_const
    | some function =>
      simp only [hfunction] at h
      obtain ⟨object, m', hload, h⟩ := comesTo_bind_iff.mp h
      cases hload
      cases hobject : m.store.get function with
      | function f =>
        simp only [hobject] at h
        obtain ⟨found, m', hread, h⟩ := comesTo_bind_iff.mp h
        cases hread
        cases hbase : m.store.baseOf f with
        | error fault =>
          simp only [hbase] at h
          exact absurd h not_comesTo_const
        | ok base =>
          simp only [hbase] at h
          obtain ⟨injections, m', hread, h⟩ := comesTo_bind_iff.mp h
          cases hread
          obtain ⟨g, hg⟩ := callFunction_comesTo_iff.mp h
          exact ⟨function, f, base, g, rfl, hobject, hbase, hg⟩
      | _ =>
        simp only [hobject] at h
        exact absurd h not_comesTo_const
  · rintro ⟨function, f, base, g, hfunction, hobject, hbase, hg⟩
    refine ⟨some function, m, by rw [← hfunction]; rfl, ?_⟩
    refine comesTo_bind_iff.mpr ⟨.function f, m, by rw [← hobject]; rfl, ?_⟩
    refine comesTo_bind_iff.mpr ⟨.ok base, m, by rw [← hbase]; rfl, ?_⟩
    refine comesTo_bind_iff.mpr ⟨_, _, rfl, ?_⟩
    exact callFunction_comesTo_iff.mpr ⟨g, hg⟩

/-- A block comes to its own body where it stands, or to the body that overrides
it, in a frame that has all the overriding bodies of the block's own. -/
theorem runBlock_comesTo {ex : Executor} {name : String} {own body : List Stmt}
    {pos : Position} {m start : Machine}
    (h : ComesTo (fun ex => runBlock ex name own pos) ex m body start) :
    (m.frame.injections.get? name = none ∧ body = own ∧ start = m) ∨
      ∃ injection, m.frame.injections.get? name = some injection ∧ body = injection.body ∧
        start = m.entered (.ofInjection injection m.frame.injections) := by
  unfold runBlock at h
  obtain ⟨injections, m', hread, h⟩ := comesTo_bind_iff.mp h
  cases hread
  cases hfound : m.frame.injections.get? name with
  | none =>
    simp only [hfound] at h
    obtain ⟨rfl, rfl⟩ := comesTo_run_iff.mp h
    exact Or.inl ⟨rfl, rfl, rfl⟩
  | some injection =>
    simp only [hfound] at h
    obtain ⟨-, h⟩ := comesTo_enter_iff.mp h
    obtain ⟨rfl, rfl⟩ := comesTo_run_iff.mp h
    exact Or.inr ⟨injection, rfl, rfl, rfl⟩

end Eval

end Stencil
