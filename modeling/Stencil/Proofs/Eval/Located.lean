import Stencil.Proofs.Eval.Laws
import Stencil.Proofs.Program.Placement

/-!
Computations and the code that they belong to. While a body runs, its frame is
entered nowhere but at the places of the body, and nothing fails in the frame itself
but at these. A discipline for code is a property of the computations of each body by
itself. Other code is run by calls, imports, structs, blocks and danced programs
only, and the property of that code is the one for its own body. So an invariant of
all runs is proved by looking at these and at the primitives, with the places of the
body at hand.
-/

namespace Stencil.Eval

def At (code : List Stmt) (pos : Position) : Prop := ∃ mark ∈ marks code, mark.pos = pos

/-- The places of the code are places of the code. -/
theorem At.of_mem {code : List Stmt} {mark : Mark} (h : mark ∈ marks code) : At code mark.pos :=
  ⟨mark, h, rfl⟩

/-- `P code` holds of the computations that a frame with the code consists of. The bodies
that are run in frames of their own have the property for their own code. -/
structure CodeDiscipline (P : List Stmt → ⦃α : Type⦄ → Eval α → Prop) : Prop where
  laws (code : List Stmt) : Laws (At code) (P code)
  starve (code : List Stmt) {α : Type} : P code (Eval.starve : Eval α)
  builtin (code : List Stmt) (function : Builtin) : P code (Eval.make (.builtin function))
  defineFunction {code : List Stmt} {definition : FunctionDef} :
    marks definition.body ⊆ marks code → P code (Eval.defineFunction definition)
  registerInjection {code body : List Stmt} {pos : Position} (name : String) : At code pos →
    marks body ⊆ marks code → P code (Eval.registerInjection name body pos)
  callValue {code : List Stmt} {fuel : Nat} {mark : Mark} : (∀ body, P body (exec fuel body)) →
    mark ∈ marks code → mark.enters = true →
    ∀ v args, P code (Eval.callValue (exec fuel) v args mark.pos)
  callSuper {code : List Stmt} {fuel : Nat} {mark : Mark} : (∀ body, P body (exec fuel body)) →
    mark ∈ marks code → mark.enters = true →
    ∀ args, P code (Eval.callSuper (exec fuel) args mark.pos)
  importModule {code : List Stmt} {fuel : Nat} {mark : Mark} (path : String) :
    (∀ body, P body (exec fuel body)) → mark ∈ marks code → mark.enters = true →
    P code (Eval.importModule (exec fuel) path mark.pos)
  defineStruct {code : List Stmt} {fuel : Nat} {mark : Mark} {definition : StructDef} :
    (∀ body, P body (exec fuel body)) → mark ∈ marks code → mark.enters = true →
    marks definition.body ⊆ marks code →
    P code (Eval.defineStruct (exec fuel) definition mark.pos)
  runBlock {code body : List Stmt} {fuel : Nat} {mark : Mark} (name : String) :
    (∀ body, P body (exec fuel body)) → mark ∈ marks code → mark.enters = true →
    P code (exec fuel body) → P code (Eval.runBlock (exec fuel) name body mark.pos)

namespace CodeDiscipline

variable {P : List Stmt → ⦃α : Type⦄ → Eval α → Prop} (D : CodeDiscipline P) {code : List Stmt}

include D

theorem thenNext {x : Eval Unit} (hx : P code x) : P code (Eval.thenNext x) :=
  (D.laws code).bind hx fun _ => (D.laws code).pure _

/-- A body has the property if its statements do. -/
theorem execEach {step : Stmt → Eval Flow} {body : List Stmt}
    (hstep : ∀ stmt ∈ body, P code (step stmt)) : P code (Eval.execEach step body) := by
  induction body with
  | nil => exact (D.laws code).pure _
  | cons stmt rest ih =>
    obtain ⟨hstmt, hrest⟩ := List.forall_mem_cons.mp hstep
    unfold Eval.execEach
    refine (D.laws code).bind hstmt fun flow => ?_
    split
    · exact ih hrest
    · exact (D.laws code).pure _

section Statement

variable {fuel : Nat} (hex : ∀ body, P body (exec fuel body))

include hex

/-- An import is one of the places at which frames are entered. -/
theorem importAs {mark : Mark} (hmark : mark ∈ marks code) (henters : mark.enters = true)
    (path name : String) : P code (Eval.importAs (exec fuel) path name mark.pos) :=
  (D.laws code).bind (D.importModule path hex hmark henters) fun v =>
    (D.laws code).bindLocal name v

theorem importFrom {mark : Mark} (hmark : mark ∈ marks code) (henters : mark.enters = true)
    (path : String) (names : List ImportName) :
    P code (Eval.importFrom (exec fuel) path names mark.pos) := by
  unfold Eval.importFrom
  refine (D.laws code).bind (D.importModule path hex hmark henters) fun v => ?_
  refine (D.laws code).bind ((D.laws code).load v) fun object => ?_
  split
  · exact (D.laws code).bindNames _ path (.of_mem hmark) names
  · exact (D.laws code).fail rfl (.of_mem hmark)

omit hex

variable {ev : Evaluator} {ex : Executor}

/-- A conditional has the property if its conditions and its bodies do. -/
theorem execBranches {otherwise : Option (List Stmt)} {branches : List (Expr × List Stmt)}
    (hev : ∀ branch ∈ branches, P code (ev branch.1))
    (hbody : ∀ branch ∈ branches, P code (ex branch.2))
    (helse : ∀ body ∈ otherwise, P code (ex body)) :
    P code (Eval.execBranches ev ex otherwise branches) := by
  induction branches with
  | nil =>
    cases otherwise with
    | none => exact (D.laws code).pure _
    | some body => exact helse body rfl
  | cons branch rest ih =>
    obtain ⟨hcondition, hev⟩ := List.forall_mem_cons.mp hev
    obtain ⟨hfirst, hbody⟩ := List.forall_mem_cons.mp hbody
    unfold Eval.execBranches
    refine (D.laws code).bind hcondition fun v => ?_
    refine (D.laws code).bind ((D.laws code).isTruthy v) fun truthy => ?_
    split
    · exact hfirst
    · exact ih hev hbody

/-- A loop has the property if its clauses and its body do. -/
theorem execRounds {test update : Option Formula} {body : List Stmt}
    (htest : P code (Eval.goesOn ev test)) (hupdate : P code (Eval.runClause ev update))
    (hbody : P code (ex body)) (rounds : Nat) :
    P code (Eval.execRounds ev ex test update body rounds) := by
  induction rounds with
  | zero => exact D.starve code
  | succ rounds ih =>
    unfold Eval.execRounds
    refine (D.laws code).bind htest fun going => ?_
    split
    · refine (D.laws code).bind hbody fun flow => ?_
      split
      · exact (D.laws code).pure _
      · exact (D.laws code).pure _
      · exact (D.laws code).bind hupdate fun _ => ih
      · exact (D.laws code).bind hupdate fun _ => ih
    · exact (D.laws code).pure _

include hex

/-- A statement of the code has the property if its expressions and the bodies inside it
have it. -/
theorem execStep {stmt : Stmt} (hstmt : stmt.MarkedIn (marks code))
    (hev : ∀ e, e.marks ⊆ marks code → P code (ev e))
    (hbody : ∀ body, marks body ⊆ marks code → P code (exec fuel body)) (rounds : Nat) :
    P code (Eval.execStep ev (exec fuel) rounds stmt) := by
  have L := D.laws code
  have hexpr : ∀ e ∈ stmt.exprs, P code (ev e) := fun e he => hev e (hstmt.expr he)
  have htarget : ∀ target ∈ stmt.exprs, ∀ e ∈ target.targetParts, P code (ev e) :=
    fun target htarget e he =>
      hev e (List.Subset.trans (Expr.marks_subset_of_mem_targetParts he) (hstmt.expr htarget))
  have hmarks : ∀ e ∈ stmt.exprs, ∀ mark ∈ e.marks, At code mark.pos := fun e he mark hmark =>
    .of_mem (hstmt.expr he hmark)
  cases stmt with
  | text content => exact D.thenNext (L.writeOut content)
  | reference f pos => exact D.thenNext (L.execReference hexpr htarget hmarks)
  | formula f pos =>
    have hformula : P code (Eval.evalFormula ev f) := L.evalFormula hexpr htarget hmarks
    exact D.thenNext (L.bind hformula fun _ => L.pure _)
  | cond branches otherwise pos =>
    refine D.execBranches (fun branch hbranch => ?_) (fun branch hbranch => hbody _ ?_) ?_
    · exact hexpr _ (List.mem_map_of_mem hbranch)
    · exact hstmt.inner (.top, branch.2)
        (List.mem_append_left _ (List.mem_map.mpr ⟨branch, hbranch, rfl⟩))
    · intro body hotherwise
      refine hbody body (hstmt.inner (.top, body) (List.mem_append_right _ ?_))
      exact List.mem_map.mpr ⟨body, Option.mem_toList.mpr hotherwise, rfl⟩
  | loop init test update body pos =>
    have hrun : ∀ clause ∈ [init, test, update], P code (Eval.runClause ev clause) :=
      fun clause hmem => L.runClause (fun f hf e he => hexpr e (Stmt.mem_exprs_loop hmem hf he))
        (fun f hf e he => htarget e (Stmt.mem_exprs_loop hmem hf he))
        fun f hf e he => hmarks e (Stmt.mem_exprs_loop hmem hf he)
    have hmem : test ∈ [init, test, update] := by simp
    have htest : P code (Eval.goesOn ev test) :=
      L.goesOn (fun f hf e he => hexpr e (Stmt.mem_exprs_loop hmem hf he))
        (fun f hf e he => htarget e (Stmt.mem_exprs_loop hmem hf he))
        fun f hf e he => hmarks e (Stmt.mem_exprs_loop hmem hf he)
    refine L.bind (hrun init (by simp)) fun _ => ?_
    exact D.execRounds htest (hrun update (by simp))
      (hbody body (hstmt.inner _ (List.mem_singleton.mpr rfl))) rounds
  | «break» pos => exact L.pure _
  | «continue» pos => exact L.pure _
  | «return» value pos =>
    cases value with
    | none => exact L.bind (L.make rfl) fun v => L.pure _
    | some f =>
      have hformula : P code (Eval.evalFormula ev f) :=
        L.evalFormula (fun e he => hexpr e (Stmt.mem_exprs_return he))
          (fun e he => htarget e (Stmt.mem_exprs_return he))
          fun e he => hmarks e (Stmt.mem_exprs_return he)
      exact L.bind hformula fun v => L.pure _
  | importAs path name pos => exact D.thenNext (D.importAs hex (hstmt.mark rfl) rfl path name)
  | importFrom path names pos =>
    exact D.thenNext (D.importFrom hex (hstmt.mark rfl) rfl path names)
  | function name params base isMethod body pos =>
    exact D.thenNext (D.defineFunction (hstmt.inner _ (List.mem_singleton.mpr rfl)))
  | struct name body pos =>
    have hinner := hstmt.inner _ (List.mem_singleton.mpr rfl)
    exact D.thenNext (D.defineStruct hex (hstmt.mark rfl) rfl hinner)
  | block name body pos =>
    have hinner := hstmt.inner _ (List.mem_singleton.mpr rfl)
    exact D.runBlock name hex (hstmt.mark rfl) rfl (hbody body hinner)
  | inject name body pos =>
    have hinner := hstmt.inner _ (List.mem_singleton.mpr rfl)
    exact D.thenNext (D.registerInjection name (.of_mem (hstmt.mark rfl)) hinner)

end Statement

theorem lookup (name : String) : P code (Eval.lookup name) :=
  (D.laws code).lookup fun function _ => D.builtin code function

/-- The evaluators have the property for all code that what they are given is part of. -/
theorem eval_and_exec (fuel : Nat) :
    (∀ code e, e.marks ⊆ marks code → P code (eval fuel e)) ∧
    ∀ code body, marks body ⊆ marks code → P code (exec fuel body) := by
  induction fuel with
  | zero => exact ⟨fun code _ _ => D.starve code, fun code _ _ => D.starve code⟩
  | succ fuel ih =>
    obtain ⟨ihe, ihb⟩ := ih
    have hex : ∀ body, P body (exec fuel body) := fun body => ihb body body (List.Subset.refl _)
    constructor
    · intro code e he
      rw [eval]
      refine (D.laws code).evalStep (fun mark hmark henters => ?_) (fun mark hmark henters => ?_)
        (fun part hpart => ?_) (fun name _ => D.lookup name) fun mark hmark => .of_mem (he hmark)
      · exact D.callValue hex (he hmark) henters
      · exact D.callSuper hex (he hmark) henters
      · exact ihe code part (List.Subset.trans (Expr.marks_subset_of_mem_parts hpart) he)
    · intro code body hbody
      rw [exec]
      refine D.execEach fun stmt hstmt => ?_
      exact D.execStep hex (Stmt.markedIn_of_mem hstmt hbody) (ihe code) (ihb code) fuel

/-- A body has the property for its own code. -/
theorem exec (fuel : Nat) (body : List Stmt) : P body (Eval.exec fuel body) :=
  (D.eval_and_exec fuel).2 body body (List.Subset.refl _)

end CodeDiscipline

end Stencil.Eval
