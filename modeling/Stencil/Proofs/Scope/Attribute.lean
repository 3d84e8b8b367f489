import Stencil.Eval.Run
import Stencil.Proofs.Scope.Policy

/-!
Code that sets no attributes. An attribute is set by an assignment to it, plain or
augmented, or through the function `setattr`, which has to be named. The tests
here go through the whole of an expression or statement. Code that is read while a
program runs, from a module or a danced text, is not part of the program, so there
is an evaluator that tests every body when it comes to it and stops if the body
does not pass. A run that it agrees with has passed all tests.
-/

namespace Stencil

namespace Expr

def isAttribute : Expr → Bool
  | .chain _ links =>
    match links.getLast? with
    | some (.attr ..) => true
    | _ => false
  | _ => false

mutual

/-- The expression assigns to no attribute and does not name `setattr`. -/
def keepsAttributes : Expr → Bool
  | .ident name _ => name != "setattr"
  | .array items _ | .and items | .or items => itemsKeep items
  | .dict entries _ => entriesKeep entries
  | .chain head links => head.keepsAttributes && linksKeep links
  | .negative operand _ | .not operand _ => operand.keepsAttributes
  | .arith first rest => first.keepsAttributes && stepsKeep rest
  | .augment target rest => target.keepsAttributes && !target.isAttribute && stepsKeep rest
  | .comparison first rest => first.keepsAttributes && comparisonsKeep rest
  | _ => true

def itemsKeep : List Expr → Bool
  | [] => true
  | e :: rest => e.keepsAttributes && itemsKeep rest

def entriesKeep : List (Expr × Expr) → Bool
  | [] => true
  | (key, item) :: rest => key.keepsAttributes && item.keepsAttributes && entriesKeep rest

def linksKeep : List Link → Bool
  | [] => true
  | .attr .. :: rest => linksKeep rest
  | .call args _ :: rest => itemsKeep args && linksKeep rest
  | .index key _ :: rest => key.keepsAttributes && linksKeep rest

def stepsKeep : List (ArithOp × Expr × Position) → Bool
  | [] => true
  | (_, e, _) :: rest => e.keepsAttributes && stepsKeep rest

def comparisonsKeep : List (CompOp × Expr × Position) → Bool
  | [] => true
  | (_, e, _) :: rest => e.keepsAttributes && comparisonsKeep rest

end

def keepsAsTarget (e : Expr) : Bool := e.keepsAttributes && !e.isAttribute

end Expr

def Formula.keepsAttributes : Formula → Bool
  | .assignments chains =>
    chains.all fun chain => chain.all (·.keepsAttributes) && chain.dropLast.all (·.keepsAsTarget)
  | .parallel lists =>
    lists.all (·.all (·.keepsAttributes)) && lists.dropLast.all (·.all (·.keepsAsTarget))

namespace Stmt

def clauseKeeps (clause : Option Formula) : Bool := clause.all (·.keepsAttributes)

mutual

def keepsAttributes : Stmt → Bool
  | .reference f _ | .formula f _ => f.keepsAttributes
  | .cond branches otherwise _ => branchesKeep branches && otherwiseKeeps otherwise
  | .loop init test update body _ =>
    clauseKeeps init && clauseKeeps test && clauseKeeps update && bodyKeeps body
  | .return value _ => clauseKeeps value
  | .function _ _ _ _ body _ | .struct _ body _ | .block _ body _ | .inject _ body _ =>
    bodyKeeps body
  | _ => true

def bodyKeeps : List Stmt → Bool
  | [] => true
  | stmt :: rest => stmt.keepsAttributes && bodyKeeps rest

def branchesKeep : List (Expr × List Stmt) → Bool
  | [] => true
  | (condition, body) :: rest => condition.keepsAttributes && bodyKeeps body && branchesKeep rest

def otherwiseKeeps : Option (List Stmt) → Bool
  | none => true
  | some body => bodyKeeps body

end

end Stmt

/-! The tests under a mode. -/

namespace Mode

variable {mode : Mode}

theorem allows_all {α : Type} {f : α → Bool} {items : List α} :
    mode.Allows (items.all f) ↔ ∀ item ∈ items, mode.Allows (f item) := by
  cases mode <;> simp [Allows]

theorem allows_itemsKeep {items : List Expr} :
    mode.Allows (Expr.itemsKeep items) ↔ ∀ e ∈ items, mode.Allows e.keepsAttributes := by
  have heq : Expr.itemsKeep items = items.all (·.keepsAttributes) := by
    induction items with
    | nil => rfl
    | cons e rest ih => simp only [Expr.itemsKeep, ih, List.all_cons]
  rw [heq, allows_all]

def allowsLink (mode : Mode) : Link → Prop
  | .attr .. => True
  | .call args _ => ∀ e ∈ args, mode.Allows e.keepsAttributes
  | .index key _ => mode.Allows key.keepsAttributes

theorem allows_linksKeep {links : List Link} :
    mode.Allows (Expr.linksKeep links) ↔ ∀ link ∈ links, mode.allowsLink link := by
  induction links with
  | nil => simp [Expr.linksKeep, Allows]
  | cons link rest ih =>
    cases link with
    | attr name pos => simp [Expr.linksKeep, ih, allowsLink]
    | call args pos => simp [Expr.linksKeep, allows_and, allows_itemsKeep, ih, allowsLink]
    | index key pos => simp [Expr.linksKeep, allows_and, ih, allowsLink]

theorem allows_stepsKeep {steps : List (ArithOp × Expr × Position)} :
    mode.Allows (Expr.stepsKeep steps) ↔
      ∀ step ∈ steps, mode.Allows step.2.1.keepsAttributes := by
  have heq : Expr.stepsKeep steps = steps.all fun step => step.2.1.keepsAttributes := by
    induction steps with
    | nil => rfl
    | cons step rest ih => simp only [Expr.stepsKeep, ih, List.all_cons]
  rw [heq, allows_all]

theorem allows_comparisonsKeep {steps : List (CompOp × Expr × Position)} :
    mode.Allows (Expr.comparisonsKeep steps) ↔
      ∀ step ∈ steps, mode.Allows step.2.1.keepsAttributes := by
  have heq : Expr.comparisonsKeep steps = steps.all fun step => step.2.1.keepsAttributes := by
    induction steps with
    | nil => rfl
    | cons step rest ih => simp only [Expr.comparisonsKeep, ih, List.all_cons]
  rw [heq, allows_all]

theorem allows_bodyKeeps {body : List Stmt} :
    mode.Allows (Stmt.bodyKeeps body) ↔ ∀ stmt ∈ body, mode.Allows stmt.keepsAttributes := by
  have heq : Stmt.bodyKeeps body = body.all (·.keepsAttributes) := by
    induction body with
    | nil => rfl
    | cons stmt rest ih => simp only [Stmt.bodyKeeps, ih, List.all_cons]
  rw [heq, allows_all]

end Mode

/-! What may be assigned to. -/

namespace Mode

variable {mode : Mode}

structure AllowsTarget (mode : Mode) (target : Expr) : Prop where
  keeps : mode.Allows target.keepsAsTarget
  plain : mode = .guarded → target.isAttribute = false

theorem allowsTarget_of_keepsAsTarget (hmode : mode ≠ .guarded) {target : Expr}
    (h : mode.Allows target.keepsAsTarget) : mode.AllowsTarget target :=
  ⟨h, fun heq => absurd heq hmode⟩

theorem AllowsTarget.separate {target : Expr} (h : mode.AllowsTarget target)
    (hattribute : target.isAttribute = true) : mode = .separate := by
  cases mode with
  | sealed =>
    have hkeeps := h.keeps rfl
    simp [Expr.keepsAsTarget, hattribute] at hkeeps
  | separate => rfl
  | guarded => exact absurd (h.plain rfl) (by simp [hattribute])

def AllowsFormula (mode : Mode) : Formula → Prop
  | .assignments chains =>
    ∀ chain ∈ chains, (∀ e ∈ chain, mode.Allows e.keepsAttributes) ∧
      ∀ target ∈ chain.dropLast, mode.AllowsTarget target
  | .parallel lists =>
    (∀ list ∈ lists, ∀ e ∈ list, mode.Allows e.keepsAttributes) ∧
      ∀ list ∈ lists.dropLast, ∀ target ∈ list, mode.AllowsTarget target

theorem allowsFormula_of_keepsAttributes (hmode : mode ≠ .guarded) {formula : Formula}
    (h : mode.Allows formula.keepsAttributes) : mode.AllowsFormula formula := by
  cases formula with
  | assignments chains =>
    simp only [Formula.keepsAttributes, allows_and, allows_all] at h
    exact fun chain hchain => ⟨(h chain hchain).1, fun target htarget =>
      allowsTarget_of_keepsAsTarget hmode ((h chain hchain).2 target htarget)⟩
  | parallel lists =>
    simp only [Formula.keepsAttributes, allows_and, allows_all] at h
    exact ⟨h.1, fun list hlist target htarget =>
      allowsTarget_of_keepsAsTarget hmode (h.2 list hlist target htarget)⟩

end Mode

/-- The expression itself calls nothing and assigns to nothing. -/
def Expr.isInert : Expr → Bool
  | .chain .. | .augment .. => false
  | _ => true

def Stmt.formulas : Stmt → List Formula
  | .reference f _ | .formula f _ => [f]
  | .loop init test update _ _ => init.toList ++ test.toList ++ update.toList
  | .return value _ => value.toList
  | _ => []

theorem Mode.allowsFormula_of_mem_formulas {mode : Mode} (hmode : mode ≠ .guarded) {stmt : Stmt}
    (h : mode.Allows stmt.keepsAttributes) {f : Formula} (hf : f ∈ stmt.formulas) :
    mode.AllowsFormula f := by
  refine allowsFormula_of_keepsAttributes hmode ?_
  cases stmt with
  | reference formula pos =>
    obtain rfl := List.mem_singleton.mp hf
    rwa [Stmt.keepsAttributes] at h
  | formula formula pos =>
    obtain rfl := List.mem_singleton.mp hf
    rwa [Stmt.keepsAttributes] at h
  | loop init test update body pos =>
    simp only [Stmt.keepsAttributes, allows_and, Stmt.clauseKeeps] at h
    simp only [Stmt.formulas, List.mem_append, Option.mem_toList] at hf
    rcases hf with (rfl | rfl) | rfl
    · exact h.1.1.1
    · exact h.1.1.2
    · exact h.1.2
  | «return» value pos =>
    obtain rfl := Option.mem_toList.mp hf
    rwa [Stmt.keepsAttributes] at h
  | _ => cases hf

/-! The evaluator that tests bodies. -/

namespace Eval

mutual

def evalUnder (test : List Stmt → Bool) : Nat → Expr → Eval Value
  | 0, _ => starve
  | fuel + 1, e => evalStep (evalUnder test fuel) (execUnder test fuel) e

def execUnder (test : List Stmt → Bool) : Nat → List Stmt → Eval Flow
  | 0, _ => starve
  | fuel + 1, body =>
    if test body then execEach (execStep (evalUnder test fuel) (execUnder test fuel) fuel) body
    else starve

end

end Eval

end Stencil
