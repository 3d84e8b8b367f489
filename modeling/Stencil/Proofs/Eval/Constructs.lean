import Stencil.Proofs.Eval.Discipline

/-!
Every construct of the language follows a discipline that the evaluator of its
operands and the executor of the bodies it calls follow. Expressions, formulas,
imports and definitions stay in the active frame. Branches, loops, blocks and
injections run bodies in it as well, so they follow the weaker of the two
properties; closing the recursion by induction on the fuel gives both for the
whole evaluator.
-/

namespace Stencil.Eval.Discipline

variable {P Q : ⦃α : Type⦄ → Eval α → Prop} (D : Discipline P Q)

section Expression

variable {ev : Evaluator} (hev : ∀ e, P (ev e))

include D hev

theorem evalEach (items : List Expr) : P (Eval.evalEach ev items) :=
  D.laws.evalEach fun e _ => hev e

/-- A formula follows a discipline if its tests do. -/
theorem evalFormula (formula : Formula) : P (Eval.evalFormula ev formula) :=
  D.laws.evalFormula (fun e _ => hev e) (fun _ _ e _ => hev e) fun _ _ _ _ => trivial

theorem runClause (clause : Option Formula) : P (Eval.runClause ev clause) :=
  D.laws.runClause (fun _ _ e _ => hev e) (fun _ _ _ _ e _ => hev e) fun _ _ _ _ _ _ => trivial

theorem goesOn (clause : Option Formula) : P (Eval.goesOn ev clause) :=
  D.laws.goesOn (fun _ _ e _ => hev e) (fun _ _ _ _ e _ => hev e) fun _ _ _ _ _ _ => trivial

variable {ex : Executor} (hex : ∀ body, Q (ex body))

include hex

theorem follow (v : Value) (links : List Link) : P (Eval.follow ev ex v links) :=
  D.laws.follow v (fun _ _ _ v args => D.callValue hex v args _) (fun _ _ e _ => hev e) fun _ _ =>
    trivial

/-- An expression follows a discipline if those inside it do. -/
theorem evalStep (e : Expr) : P (Eval.evalStep ev ex e) :=
  D.laws.evalStep (fun _ _ _ v args => D.callValue hex v args _)
    (fun _ _ _ args => D.callSuper hex args _) (fun part _ => hev part) (fun name _ => D.lookup name)
    fun _ _ => trivial

end Expression

section Definition

variable {ex : Executor} (hex : ∀ body, Q (ex body))

include D hex

/-- An import binds its module in the active frame. -/
theorem importAs (path name : String) (pos : Position) :
    P (Eval.importAs ex path name pos) := by
  unfold Eval.importAs
  have himport := D.importModule path pos fun program => D.settled (hex program)
  exact D.bind himport fun v => D.bindLocal name v

theorem importFrom (path : String) (names : List ImportName) (pos : Position) :
    P (Eval.importFrom ex path names pos) := by
  unfold Eval.importFrom
  have himport := D.importModule path pos fun program => D.settled (hex program)
  refine D.bind himport fun v => D.bind (D.load v) fun object => ?_
  split
  · exact D.laws.bindNames _ path trivial names
  · exact D.fail _ pos

omit hex in
theorem defineFunction (definition : FunctionDef) : P (Eval.defineFunction definition) := by
  unfold Eval.defineFunction
  exact D.bind (D.read _) fun frame => D.bind (D.make _) fun v => D.bindLocal _ v

/-- A struct is filled in a frame of its own and then bound. -/
theorem defineStruct (definition : StructDef) (pos : Position) :
    P (Eval.defineStruct ex definition pos) := by
  unfold Eval.defineStruct
  refine D.bind (D.read _) fun frame => D.bind (D.newScope _) fun fields => ?_
  refine D.bind (D.runBody hex _ _ pos) fun _ => ?_
  exact D.bind (D.make _) fun v => D.bindLocal _ v

end Definition

end Stencil.Eval.Discipline

namespace Stencil

def Stmt.isSimple : Stmt → Bool
  | .cond .. | .loop .. | .block .. | .inject .. => false
  | _ => true

namespace Eval

namespace Discipline

variable {P Q : ⦃α : Type⦄ → Eval α → Prop} (D : Discipline P Q)

include D in
theorem thenNext {x : Eval Unit} (hx : P x) : P (Eval.thenNext x) :=
  D.bind hx fun _ => D.pure _

include D in
/-- A statement that runs no body in the active frame stays in it. -/
theorem execStep_of_isSimple {ev : Evaluator} (hev : ∀ e, P (ev e)) {ex : Executor}
    (hex : ∀ body, Q (ex body)) (rounds : Nat) {stmt : Stmt} (hs : stmt.isSimple = true) :
    P (Eval.execStep ev ex rounds stmt) := by
  cases stmt with
  | text content => exact D.thenNext (D.writeOut content)
  | reference formula pos =>
    refine D.thenNext (D.laws.execReference (fun e _ => hev e) (fun _ _ e _ => hev e) ?_)
    exact fun _ _ _ _ => trivial
  | formula formula pos => exact D.thenNext (D.runClause hev (some formula))
  | «break» pos => exact D.pure _
  | «continue» pos => exact D.pure _
  | «return» value pos =>
    cases value with
    | none => exact D.bind (D.make _) fun v => D.pure _
    | some formula => exact D.bind (D.evalFormula hev formula) fun v => D.pure _
  | importAs path name pos => exact D.thenNext (D.importAs hex path name pos)
  | importFrom path names pos => exact D.thenNext (D.importFrom hex path names pos)
  | function name params base isMethod body pos => exact D.thenNext (D.defineFunction _)
  | struct name body pos => exact D.thenNext (D.defineStruct hex _ pos)
  | cond branches otherwise pos => simp [Stmt.isSimple] at hs
  | loop init test update body pos => simp [Stmt.isSimple] at hs
  | block name body pos => simp [Stmt.isSimple] at hs
  | inject name body pos => simp [Stmt.isSimple] at hs

end Discipline

/-- A discipline for whole runs: what stays in the active frame may stand in a
body, and bodies may also register injections. -/
structure BodyDiscipline (P Q : ⦃α : Type⦄ → Eval α → Prop) : Prop extends Discipline P Q where
  weaken {α : Type} {x : Eval α} : P x → Q x
  sequence {α β : Type} {x : Eval α} {f : α → Eval β} : Q x → (∀ a, Q (f a)) → Q (x >>= f)
  addInjection (name : String) (body : List Stmt) : Q (Eval.addInjection name body)

namespace BodyDiscipline

variable {P Q : ⦃α : Type⦄ → Eval α → Prop} (D : BodyDiscipline P Q)

include D

/-- Only the registration of a body adds to the active frame. -/
theorem registerInjection (name : String) (body : List Stmt) (pos : Position) :
    Q (Eval.registerInjection name body pos) := by
  unfold Eval.registerInjection
  refine D.sequence (D.weaken (D.read _)) fun function => ?_
  cases function with
  | none => exact D.weaken (D.fail _ pos)
  | some function =>
    refine D.sequence (D.weaken (D.read _)) fun declared => ?_
    split
    · exact D.weaken (D.fail _ pos)
    · exact D.weaken (D.fail _ pos)
    · exact D.addInjection name body

theorem execEach {step : Stmt → Eval Flow} (hstep : ∀ stmt, Q (step stmt))
    (body : List Stmt) : Q (Eval.execEach step body) := by
  induction body with
  | nil => exact D.weaken (D.pure _)
  | cons stmt rest ih =>
    unfold Eval.execEach
    refine D.sequence (hstep stmt) fun flow => ?_
    split
    · exact ih
    · exact D.weaken (D.pure _)

variable {ev : Evaluator} (hev : ∀ e, P (ev e)) {ex : Executor} (hex : ∀ body, Q (ex body))

include hex in
/-- A block runs its own body in the active frame, or an overriding one in a frame of its own. -/
theorem runBlock (name : String) (body : List Stmt) (pos : Position) :
    Q (Eval.runBlock ex name body pos) := by
  unfold Eval.runBlock
  refine D.sequence (D.weaken (D.read _)) fun injections => ?_
  split
  · exact hex body
  · exact D.weaken (D.enter _ pos (hex _))

include hev hex

theorem execBranches (otherwise : Option (List Stmt)) (branches : List (Expr × List Stmt)) :
    Q (Eval.execBranches ev ex otherwise branches) := by
  induction branches with
  | nil =>
    cases otherwise with
    | none => exact D.weaken (D.pure _)
    | some body => exact hex body
  | cons branch rest ih =>
    obtain ⟨condition, body⟩ := branch
    unfold Eval.execBranches
    refine D.sequence (D.weaken (hev condition)) fun v => ?_
    refine D.sequence (D.weaken (D.isTruthy v)) fun truthy => ?_
    split
    · exact hex body
    · exact ih

/-- A loop runs its body in the active frame, as often as it goes round. -/
theorem execRounds (test update : Option Formula) (body : List Stmt) (rounds : Nat) :
    Q (Eval.execRounds ev ex test update body rounds) := by
  induction rounds with
  | zero => exact D.weaken D.starve
  | succ rounds ih =>
    unfold Eval.execRounds
    refine D.sequence (D.weaken (D.goesOn hev test)) fun going => ?_
    split
    · refine D.sequence (hex body) fun flow => ?_
      split
      · exact D.weaken (D.pure _)
      · exact D.weaken (D.pure _)
      · exact D.sequence (D.weaken (D.runClause hev update)) fun _ => ih
      · exact D.sequence (D.weaken (D.runClause hev update)) fun _ => ih
    · exact D.weaken (D.pure _)

/-- A statement follows a discipline if the expressions and the bodies inside it do. -/
theorem execStep (rounds : Nat) (stmt : Stmt) : Q (Eval.execStep ev ex rounds stmt) := by
  by_cases hs : stmt.isSimple = true
  · exact D.weaken (D.execStep_of_isSimple hev hex rounds hs)
  · cases stmt with
    | cond branches otherwise pos => exact D.execBranches hev hex otherwise branches
    | loop init test update body pos =>
      refine D.sequence (D.weaken (D.runClause hev init)) fun _ => ?_
      exact D.execRounds hev hex test update body rounds
    | block name body pos => exact D.runBlock hex name body pos
    | inject name body pos =>
      exact D.sequence (D.registerInjection name body pos) fun _ => D.weaken (D.pure _)
    | _ => exact absurd rfl hs

omit hev hex

/-- The whole evaluator follows a discipline. -/
theorem eval_and_exec (fuel : Nat) : (∀ e, P (eval fuel e)) ∧ ∀ body, Q (exec fuel body) := by
  induction fuel with
  | zero => exact ⟨fun _ => D.starve, fun _ => D.weaken D.starve⟩
  | succ fuel ih =>
    obtain ⟨hev, hex⟩ := ih
    exact ⟨D.evalStep hev hex, D.execEach (D.execStep hev hex fuel)⟩

theorem eval (fuel : Nat) (e : Expr) : P (Eval.eval fuel e) := (D.eval_and_exec fuel).1 e

theorem exec (fuel : Nat) (body : List Stmt) : Q (Eval.exec fuel body) :=
  (D.eval_and_exec fuel).2 body

end BodyDiscipline

end Eval

end Stencil
