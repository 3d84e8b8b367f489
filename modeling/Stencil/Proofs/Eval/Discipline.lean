import Stencil.Proofs.Eval.Laws

/-!
What evaluation is made of. A discipline is a pair of properties of computations:
one that the primitive operations have and that sequencing keeps, and one of the
bodies that run inside a frame of their own. Every construct of the language is
put together from these, so a discipline that the evaluators of smaller pieces
follow is followed by the whole. Nothing is asked of the code that is run, so a
discipline follows the laws of expressions whatever these make and call. An
invariant of all runs is then proved by checking the primitives once.
-/

namespace Stencil.Eval

/-- `P` holds of the primitive operations, and sequencing keeps it. -/
structure Primitives (P : ⦃α : Type⦄ → Eval α → Prop) : Prop where
  pure {α : Type} (a : α) : P (Pure.pure a : Eval α)
  bind {α β : Type} {x : Eval α} {f : α → Eval β} :
    P x → (∀ a, P (f a)) → P (x >>= f)
  starve {α : Type} : P (Eval.starve : Eval α)
  fails {α : Type} (f : Machine → Diagnostic) : P (fun m => .fail (f m) m : Eval α)
  read {α : Type} (f : Machine → α) : P (Eval.read f)
  act {α : Type} (pos : Position) (action : Action α) : P (Eval.act pos action)
  make (object : Object) : P (Eval.make object)
  newScope (names : Dict Value) : P (Eval.newScope names)
  modifyStore (f : Store → Store) : P (Eval.modifyStore f)
  bindLocal (name : String) (v : Value) : P (Eval.bindLocal name v)
  writeOut (text : String) : P (Eval.writeOut text)
  writeErr (text : String) : P (Eval.writeErr text)
  setAlias (key value : String) (note : Option String) :
    P (Eval.modifyContext (·.setAlias key value note))
  inReferenceBlock {α : Type} {x : Eval α} : P x → P (Eval.inReferenceBlock x)

namespace Primitives

variable {P : ⦃α : Type⦄ → Eval α → Prop} (D : Primitives P)

include D

/-- A discipline obeys the laws of expressions. -/
theorem laws : Laws (fun _ => True) P where
  pure := D.pure
  bind := D.bind
  failAt? _ _ := D.fails _
  exit _ _ _ := D.fails _
  read := D.read
  act _ _ := D.act _ _
  make _ := D.make _
  newScope := D.newScope
  newModule _ table := D.bind (D.newScope table) fun _ => D.make _
  updateScope _ _ _ := D.modifyStore _
  bindLocal := D.bindLocal
  writeOut := D.writeOut
  writeErr := D.writeErr
  setAlias := D.setAlias
  inReferenceBlock := D.inReferenceBlock

/-- An import runs a module or ends at once. -/
theorem importModule {ex : Executor} (path : String) (pos : Position)
    (h : ∀ file program, P (Eval.runModule ex path file program pos)) :
    P (Eval.importModule ex path pos) := by
  unfold Eval.importModule
  refine D.bind (D.read _) fun found => ?_
  cases found with
  | none => exact D.fails _
  | some file =>
    refine D.bind (D.read _) fun known => ?_
    cases known with
    | some v => exact D.pure _
    | none =>
      refine D.bind (D.read _) fun source => ?_
      cases source with
      | none => exact D.fails _
      | some source =>
        dsimp only
        split
        · exact D.fails _
        · next program _ => exact h file program

end Primitives

/-- `P` holds of what runs in the active frame, and `Q` of what may be run in a
frame of its own. -/
structure Discipline (P Q : ⦃α : Type⦄ → Eval α → Prop) : Prop extends Primitives P where
  settled {x : Eval Flow} : Q x → Q (x >>= Eval.settle)
  returned {x : Eval Flow} : Q x → Q (x >>= Eval.returned)
  enter {α : Type} {x : Eval α} (frame : Frame) (pos : Position) : Q x → P (Eval.enter frame pos x)
  importModule {ex : Executor} (path : String) (pos : Position) :
    (∀ program, Q (ex program >>= Eval.settle)) → P (Eval.importModule ex path pos)
  runApart {ex : Executor} (context : Context) (program : Program) :
    Q (ex program >>= Eval.settle) → P (Eval.runApart ex context program)

namespace Discipline

variable {P Q : ⦃α : Type⦄ → Eval α → Prop} (D : Discipline P Q)

include D in
theorem fail {α : Type} (fault : Fault) (pos : Position) : P (Eval.fail fault pos : Eval α) :=
  D.fails _

include D in
theorem load (v : Value) : P (Eval.load v) := D.laws.load v

include D in
theorem isTruthy (v : Value) : P (Eval.isTruthy v) := D.laws.isTruthy v

include D in
theorem lookup (name : String) : P (Eval.lookup name) := D.laws.lookup fun _ _ => D.make _

section Call

variable {ex : Executor} (hex : ∀ body, Q (ex body))

include D hex

/-- A body that is run to fill a table. -/
theorem runBody (frame : Frame) (body : List Stmt) (pos : Position) :
    P (Eval.runBody ex frame body pos) :=
  D.enter frame pos (D.settled (hex body))

/-- A function runs in a frame of its own. -/
theorem callFunction (callee : Value) (args : List Value) (pos : Position)
    (injections : Dict Injection) : P (Eval.callFunction ex callee args pos injections) := by
  unfold Eval.callFunction
  refine D.bind (D.load callee) fun object => ?_
  split
  · next f =>
    dsimp only
    split
    · refine D.bind (D.newScope _) fun locals => ?_
      exact D.enter _ pos (D.returned (hex f.definition.body))
    · exact D.fail _ pos
  · exact D.fail _ pos

theorem instantiate (callee : Value) (args : List Value) (pos : Position) :
    P (Eval.instantiate ex callee args pos) := by
  unfold Eval.instantiate
  refine D.bind (D.load callee) fun object => ?_
  split
  · refine D.bind (D.newScope _) fun fields => ?_
    refine D.bind (D.runBody hex _ _ pos) fun _ => D.bind (D.read _) fun names => ?_
    exact D.bind (D.modifyStore _) fun _ => D.make _
  · exact D.fail _ pos

/-- The function that is extended runs in a frame of its own. -/
theorem callSuper (args : List Value) (pos : Position) : P (Eval.callSuper ex args pos) := by
  unfold Eval.callSuper
  refine D.bind (D.read _) fun function => ?_
  cases function with
  | none => exact D.fail _ pos
  | some function =>
    refine D.bind (D.load function) fun object => ?_
    split
    · refine D.bind (D.read _) fun base => ?_
      cases base with
      | error fault => exact D.fail fault pos
      | ok base => exact D.bind (D.read _) fun injections => D.callFunction hex base args pos _
    · exact D.fail _ pos

omit hex in
theorem danceNames (args : List Value) (pos : Position) : P (Eval.danceNames args pos) := by
  unfold Eval.danceNames
  cases args with
  | nil => exact D.pure _
  | cons v rest =>
    refine D.bind (D.load v) fun object => ?_
    split
    · exact D.pure _
    · exact D.fail _ pos

omit hex in
theorem exitToo (apart : Apart) (d : Diagnostic) (pos : Position) :
    P (Eval.exitToo apart d pos) := by
  unfold Eval.exitToo
  exact D.bind (D.writeOut _) fun _ => D.bind (D.writeErr _) fun _ => D.fails _

theorem danceSource (source : String) (names : Dict Value) :
    P (Eval.danceSource ex source names) := by
  unfold Eval.danceSource
  refine D.bind (D.newScope names) fun globals => D.bind (D.read _) fun context => ?_
  split
  · next program _ => exact D.runApart context program (D.settled (hex program))
  · exact D.pure _

/-- What is danced runs apart, and only its result comes back. -/
theorem dance (args : List Value) (pos : Position) : P (Eval.dance ex args pos) := by
  unfold Eval.dance
  cases args with
  | nil => exact D.fail _ pos
  | cons code rest =>
    refine D.bind (D.load code) fun object => ?_
    split
    · exact D.fail _ pos
    · next source _ =>
      refine D.bind (D.danceNames rest pos) fun names => ?_
      refine D.bind (D.danceSource hex source names) fun apart => ?_
      split
      · exact D.exitToo apart _ pos
      · exact D.bind (D.make _) fun out => D.bind (D.make _) fun complaint => D.make _

/-- Built-in functions are made of primitive operations, `dance` apart. -/
theorem callBuiltin (function : Builtin) (args : List Value) (pos : Position) :
    P (Eval.callBuiltin ex function args pos) := by
  cases function with
  | dance => exact D.dance hex args pos
  | openFile => exact D.act pos _
  | _ => exact D.laws.callBuiltin_of_isInert ex rfl args trivial

/-- Calls follow a discipline, whatever is called. -/
theorem callValue (callee : Value) (args : List Value) (pos : Position) :
    P (Eval.callValue ex callee args pos) := by
  unfold Eval.callValue
  refine D.bind (D.load callee) fun object => ?_
  split
  · exact D.callFunction hex callee args pos .empty
  · exact D.callFunction hex _ _ pos .empty
  · exact D.act pos _
  · exact D.callBuiltin hex _ args pos
  · exact D.instantiate hex callee args pos
  · exact D.act pos _
  · exact D.fail _ pos

end Call

end Discipline

end Stencil.Eval
