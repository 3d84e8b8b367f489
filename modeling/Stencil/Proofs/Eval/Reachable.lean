import Stencil.Proofs.Eval.Reach
import Stencil.Session

/-!
The machines that programs get to. A host starts a session, runs programs in it
one after the other and may give it variables and files in between. A machine is
reachable when such a program starts in it, when a run that is under way comes
to a piece there, or when the evaluation of a piece leaves it behind. What is
under way may be any expression or body at all, so nothing is assumed of the
programs.

An invariant of all reachable machines is proved through the evaluators that
maintain it. It carries over to the points that a run comes to because the
evaluators are asked nothing outside the invariant: if they halted there, the
run would not notice.
-/

namespace Stencil

namespace Session

def prepared (s : Session) (source : Source) (args : List String) : Session :=
  { if args.isEmpty then s else s.setArgs args with source := some source }

@[simp]
theorem prepared_store (s : Session) (source : Source) (args : List String) :
    (s.prepared source args).store = s.store := by
  unfold prepared
  split
  · rfl
  · rfl

@[simp]
theorem prepared_library (s : Session) (source : Source) (args : List String) :
    (s.prepared source args).library = s.library := by
  unfold prepared
  split
  · rfl
  · rfl

/-- A program begins in the context of its session, with options of its own. -/
theorem exists_prepared_context (s : Session) (source : Source) (args : List String) :
    ∃ options, (s.prepared source args).context = { s.context with options := options } := by
  unfold prepared
  split
  · exact ⟨s.context.options, rfl⟩
  · exact ⟨.ofArgs args, rfl⟩

/-- A text that can be read is run as the program it is read as. -/
theorem run_of_ok (s : Session) (source : Source) {program : Program}
    (h : Program.ofSource source.text = .ok program) (fuel : Nat) (args : List String) :
    s.run fuel source args = (s.prepared source args).runProgram fuel program source.file := by
  rw [run, h]
  rfl

/-- A text that cannot be read changes nothing but the last failure. -/
theorem run_of_error (s : Session) (source : Source) {d : Diagnostic}
    (h : Program.ofSource source.text = .error d) (fuel : Nat) (args : List String) :
    s.run fuel source args = some { s.prepared source args with
      failure := some (d.push source.file d.line Frame.mainName) } := by
  rw [run, h]
  rfl

section Requests

variable {s s' : Session} {fuel : Nat}

/-! What a request can leave of a session. -/

/-- A run that has a result has ended well or failed, and the session takes over its machine. -/
theorem runProgram_cases {program : Program} {file : Option String}
    (h : s.runProgram fuel program file = some s') :
    (∃ m, Eval.runProgram fuel program (s.machine file) = .done () m ∧ s' = s.adopt m none) ∨
    ∃ d m, Eval.runProgram fuel program (s.machine file) = .fail d m ∧
      s' = s.adopt m (some d) := by
  unfold runProgram at h
  cases hrun : Eval.runProgram fuel program (s.machine file) with
  | done a m =>
    rw [hrun] at h
    exact Or.inl ⟨m, rfl, (Option.some.inj h).symm⟩
  | fail d m =>
    rw [hrun] at h
    exact Or.inr ⟨d, m, rfl, (Option.some.inj h).symm⟩
  | starved m =>
    rw [hrun] at h
    cases h

/-- However a run ends, the session takes over the machine in which it does. -/
theorem exists_adopt {program : Program} {file : Option String} {ended halted : Machine → Prop}
    (hend : (Eval.runProgram fuel program (s.machine file)).Ends ended halted)
    (h : s.runProgram fuel program file = some s') :
    ∃ m failure, ended m ∧ s' = s.adopt m failure := by
  rcases runProgram_cases h with ⟨m, hrun, rfl⟩ | ⟨d, m, hrun, rfl⟩
  · rw [hrun] at hend
    exact ⟨m, none, hend, rfl⟩
  · rw [hrun] at hend
    exact ⟨m, some d, hend, rfl⟩

/-- A text is run as a program or complained about. -/
theorem run_cases {source : Source} {args : List String} (h : s.run fuel source args = some s') :
    (∃ program, Program.ofSource source.text = .ok program ∧
      (s.prepared source args).runProgram fuel program source.file = some s') ∨
    ∃ d, Program.ofSource source.text = .error d ∧ s' = { s.prepared source args with
      failure := some (d.push source.file d.line Frame.mainName) } := by
  cases hparse : Program.ofSource source.text with
  | ok program =>
    rw [s.run_of_ok source hparse] at h
    exact Or.inl ⟨program, rfl, h⟩
  | error d =>
    rw [s.run_of_error source hparse] at h
    exact Or.inr ⟨d, rfl, (Option.some.inj h).symm⟩

/-- A file is run as its text, or it cannot be read. -/
theorem runFile_cases {path : String} {args : List String}
    (h : s.runFile fuel path args = some s') :
    (∃ text, s.files.readText? path = some text ∧
      s.run fuel ⟨text, some path⟩ args = some s') ∨
    s.files.readText? path = none ∧ s' = { s with
      failure := some ⟨.importing (.noProgram path), none, []⟩
      source := none } := by
  unfold runFile at h
  split at h
  · next text htext => exact Or.inl ⟨text, htext, h⟩
  · next hnone => exact Or.inr ⟨hnone, (Option.some.inj h).symm⟩

end Requests

end Session

def Object.isPlain : Object → Bool
  | .function _ | .struct _ | .instance .. | .module .. => false
  | _ => true

/-- The sessions that a host can get into. -/
inductive Session.Arises : Session → Prop
  | start (files : FileTree) (library : String) (lineEnding : LineEnding) (options : Options) :
      Arises (.start files library lineEnding options)
  | run {s s' : Session} {fuel : Nat} {source : Source} {args : List String} :
      Arises s → s.run fuel source args = some s' → Arises s'
  | runFile {s s' : Session} {fuel : Nat} {path : String} {args : List String} :
      Arises s → s.runFile fuel path args = some s' → Arises s'
  | clear {s : Session} : Arises s → Arises s.clear
  | clearOutput {s : Session} : Arises s → Arises s.clearOutput
  | setArgs {s : Session} (args : List String) : Arises s → Arises (s.setArgs args)
  | setLineEnding {s : Session} (lineEnding : LineEnding) :
      Arises s → Arises (s.setLineEnding lineEnding)
  | setFiles {s : Session} (files : FileTree) : Arises s → Arises (s.setFiles files)
  | setVariable {s : Session} (name : String) (v : Value) : Arises s → Arises (s.setVariable name v)
  /-- The host makes an object of its own. -/
  | make {s : Session} {object : Object} : Arises s → object.isPlain = true →
      Arises { s with store := (s.store.alloc object).2 }

namespace Eval

/-- The machines that runs go through. -/
inductive Reachable : Machine → Prop
  | start {s : Session} (file : Option String) : s.Arises → Reachable (s.machine file)
  /-- An expression comes to one of its operands. -/
  | operand {m m' : Machine} {fuel : Nat} {e operand : Expr} : Reachable m →
      ComesTo (fun ev => evalStep ev (exec fuel) e) (eval fuel) m operand m' → Reachable m'
  /-- An expression calls something and comes to its body. -/
  | call {m m' : Machine} {fuel : Nat} {e : Expr} {body : List Stmt} : Reachable m →
      ComesTo (fun ex => evalStep (eval fuel) ex e) (exec fuel) m body m' → Reachable m'
  /-- A body comes to an expression of its statements. -/
  | clause {m m' : Machine} {fuel : Nat} {body : List Stmt} {e : Expr} : Reachable m →
      ComesTo (fun ev => execEach (execStep ev (exec fuel) fuel) body) (eval fuel) m e m' →
      Reachable m'
  /-- A body comes to a body inside it, or to one that it enters. -/
  | inner {m m' : Machine} {fuel : Nat} {body inner : List Stmt} : Reachable m →
      ComesTo (fun ex => execEach (execStep (eval fuel) ex fuel) body) (exec fuel) m inner m' →
      Reachable m'
  | evaluated {m m' : Machine} {fuel : Nat} {e : Expr} {v : Value} : Reachable m →
      eval fuel e m = .done v m' → Reachable m'
  | executed {m m' : Machine} {fuel : Nat} {body : List Stmt} {flow : Flow} : Reachable m →
      exec fuel body m = .done flow m' → Reachable m'
  /-- Some links of a chain have been followed. -/
  | followed {m m' : Machine} {fuel : Nat} {v v' : Value} {links : List Link} : Reachable m →
      follow (eval fuel) (exec fuel) v links m = .done v' m' → Reachable m'

/-- A run comes only to pieces and machines outside of which it depends on nothing. The halt that
shows this is marked by a library that no machine of the run itself can have. -/
theorem ComesTo.good_at {ι α β : Type} {x : (ι → Eval α) → Eval β} {run : ι → Eval α}
    {m start : Machine} {i : ι} (h : ComesTo x run m i start) (good : ι → Machine → Prop)
    (hx : ∀ run' : ι → Eval α, (∀ j m', good j m' → run j m' = run' j m') →
      (x run' m).Ends (fun _ => True) fun m' => m'.library = m.library) : good i start := by
  by_contra hbad
  let halted : Machine := { start with library := m.library ++ "/" }
  have hend := hx (haltingAt run i start halted) fun j m' hgood => by
    rw [haltingAt_of_ne run halted]
    rintro ⟨rfl, rfl⟩
    exact hbad hgood
  rw [h halted] at hend
  have hlength := congrArg String.length (show m.library ++ "/" = m.library from hend)
  rw [String.length_append] at hlength
  change m.library.length + 1 = m.library.length at hlength
  omega

/-- A run comes only to machines that its pieces may depend on. -/
theorem ComesTo.good {ι α β : Type} {x : (ι → Eval α) → Eval β} {run : ι → Eval α}
    {m start : Machine} {i : ι} (h : ComesTo x run m i start) {good : Machine → Prop}
    (hx : ∀ run' : ι → Eval α, (∀ j m', good m' → run j m' = run' j m') →
      (x run' m).Ends (fun _ => True) fun m' => m'.library = m.library) : good start :=
  h.good_at (fun _ => good) hx

/-- The evaluators keep a machine good. `P` is what is known of expressions and `Q`
of bodies; neither says anything about machines that are not good. -/
structure Maintained (good : Machine → Prop) (P Q : ⦃α : Type⦄ → Eval α → Prop) : Prop where
  localP {α : Type} {x y : Eval α} : (∀ m, good m → x m = y m) → P x → P y
  localQ {α : Type} {x y : Eval α} : (∀ m, good m → x m = y m) → Q x → Q y
  keepsP {α : Type} {x : Eval α} {m : Machine} : P x → good m →
    (x m).Ends good fun m' => m'.library = m.library
  keepsQ {α : Type} {x : Eval α} {m : Machine} : Q x → good m →
    (x m).Ends good fun m' => m'.library = m.library
  starveP {α : Type} : P (starve : Eval α)
  starveQ {α : Type} : Q (starve : Eval α)
  evalStep {ev : Evaluator} {ex : Executor} (e : Expr) :
    (∀ e, P (ev e)) → (∀ body, Q (ex body)) → P (evalStep ev ex e)
  execEach {ev : Evaluator} {ex : Executor} (rounds : Nat) (body : List Stmt) :
    (∀ e, P (ev e)) → (∀ body, Q (ex body)) → Q (execEach (execStep ev ex rounds) body)
  follow {ev : Evaluator} {ex : Executor} (v : Value) (links : List Link) :
    (∀ e, P (ev e)) → (∀ body, Q (ex body)) → P (follow ev ex v links)

namespace Maintained

variable {good : Machine → Prop} {P Q : ⦃α : Type⦄ → Eval α → Prop}

/-- What is maintained holds of both evaluators with any fuel. -/
theorem eval_and_exec (h : Maintained good P Q) (fuel : Nat) :
    (∀ e, P (eval fuel e)) ∧ ∀ body, Q (exec fuel body) := by
  induction fuel with
  | zero => exact ⟨fun _ => h.starveP, fun _ => h.starveQ⟩
  | succ fuel ih =>
    exact ⟨fun e => h.evalStep e ih.1 ih.2, fun body => h.execEach fuel body ih.1 ih.2⟩

theorem ends_of_good {α : Type} {outcome : Outcome α} {m : Machine}
    (h : outcome.Ends good fun m' => m'.library = m.library) :
    outcome.Ends (fun _ => True) fun m' => m'.library = m.library :=
  h.mono (fun _ _ => trivial) fun _ hm => hm

/-- What is maintained, and holds where programs start, holds wherever they get to. -/
theorem reachable (h : Maintained good P Q)
    (start : ∀ s file, Session.Arises s → good (s.machine file)) {m : Machine}
    (hm : Reachable m) : good m := by
  induction hm with
  | start file hs => exact start _ file hs
  | @operand m m' fuel e e' _ hcomes ih =>
    obtain ⟨hev, hex⟩ := h.eval_and_exec fuel
    refine hcomes.good fun ev' hagree => ends_of_good (h.keepsP ?_ ih)
    exact h.evalStep e (fun e => h.localP (hagree e) (hev e)) hex
  | @call m m' fuel e body _ hcomes ih =>
    obtain ⟨hev, hex⟩ := h.eval_and_exec fuel
    refine hcomes.good fun ex' hagree => ends_of_good (h.keepsP ?_ ih)
    exact h.evalStep e hev fun body => h.localQ (hagree body) (hex body)
  | @clause m m' fuel body e _ hcomes ih =>
    obtain ⟨hev, hex⟩ := h.eval_and_exec fuel
    refine hcomes.good fun ev' hagree => ends_of_good (h.keepsQ ?_ ih)
    exact h.execEach fuel body (fun e => h.localP (hagree e) (hev e)) hex
  | @inner m m' fuel body inner _ hcomes ih =>
    obtain ⟨hev, hex⟩ := h.eval_and_exec fuel
    refine hcomes.good fun ex' hagree => ends_of_good (h.keepsQ ?_ ih)
    exact h.execEach fuel body hev fun body => h.localQ (hagree body) (hex body)
  | @evaluated m m' fuel e v _ hrun ih =>
    have hend := h.keepsP ((h.eval_and_exec fuel).1 e) ih
    rw [hrun] at hend
    exact hend
  | @executed m m' fuel body flow _ hrun ih =>
    have hend := h.keepsQ ((h.eval_and_exec fuel).2 body) ih
    rw [hrun] at hend
    exact hend
  | @followed m m' fuel v v' links _ hrun ih =>
    obtain ⟨hev, hex⟩ := h.eval_and_exec fuel
    have hend := h.keepsP (h.follow v links hev hex) ih
    rw [hrun] at hend
    exact hend

end Maintained

end Eval

end Stencil
