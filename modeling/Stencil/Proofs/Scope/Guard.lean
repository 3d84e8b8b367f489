import Stencil.Proofs.Eval.Fuel
import Stencil.Proofs.Scope.Freezing

/-!
Runs that set no attribute. The guarded evaluator does what the evaluator does, up to
the point where an attribute is to be set. There it halts: when the owner of an attribute
that is assigned to is known, when the new value of an augmented attribute is, and when
`setattr` is to be called. Bodies that are called, imported or danced are guarded too. So
a computation that comes to its end with guarded bodies has set no attribute in that run,
whatever its code is.

Guarded code writes to no table that was there before, apart from those of the bodies in
reach of its frame.
-/

namespace Stencil

namespace Expr

/-- No program has this expression, on which guarded evaluation halts. -/
def stopper : Expr := .and []

def guarded : Expr → Expr
  | .chain head links =>
    match links.getLast? with
    | some (.attr _ pos) => .chain head (links.dropLast ++ [.index stopper pos])
    | _ => .chain head links
  | e => e

theorem isAttribute_guarded (e : Expr) : e.guarded.isAttribute = false := by
  cases e with
  | chain head links =>
    simp only [guarded]
    split
    · simp only [isAttribute, List.getLast?_concat]
    · next hlast => simp only [isAttribute]
  | _ => rfl

theorem pos?_guarded (e : Expr) : e.guarded.pos? = e.pos? := by
  cases e with
  | chain head links =>
    simp only [guarded]
    split <;> rfl
  | _ => rfl

end Expr

theorem Stmt.formulas_retarget (g : Expr → Expr) (stmt : Stmt) :
    (stmt.retarget g).formulas = stmt.formulas.map (.retarget g) := by
  cases stmt with
  | loop init test update body pos => cases init <;> cases test <;> cases update <;> rfl
  | «return» value pos => cases value <;> rfl
  | _ => rfl

namespace Eval

section Step

variable (ev : Evaluator) (ex : Executor)

def callGuarded (callee : Value) (args : List Value) (pos : Position) : Eval Value := do
  match ← load callee with
  | .builtin .setattr => starve
  | _ => callValue ex callee args pos

def followGuarded (v : Value) : List Link → Eval Value
  | [] => pure v
  | .attr name pos :: rest => do followGuarded (← getAttr v name pos) rest
  | .index key pos :: rest => do
    let k ← ev key
    followGuarded (← act pos (v.elementAt k)) rest
  | .call args pos :: rest => do
    let vs ← evalEach ev args
    followGuarded (← callGuarded ex v vs pos) rest

def evalChainGuarded (head : Expr) (links : List Link) : Eval Value :=
  match head, links with
  | .super _, .call args pos :: rest => do
    let vs ← evalEach ev args
    followGuarded ev ex (← callSuper ex vs pos) rest
  | head, links => do followGuarded ev ex (← ev head) links

def augmentGuarded (target : Expr) (rest : List (ArithOp × Expr × Position)) : Eval Value := do
  let place ← placeOf ev target
  let v ← combineAll ev (← place.get) rest
  if place.isAttribute then starve
  else
    place.set v
    return v

def evalStepGuarded : Evaluator
  | .and [] => starve
  | .chain head links => evalChainGuarded ev ex head links
  | .augment target rest => augmentGuarded ev target rest
  | e => evalStep ev ex e

end Step

mutual

/-- The evaluator, stopped before an attribute is set. -/
def evalGuarded : Nat → Expr → Eval Value
  | 0, _ => starve
  | fuel + 1, e => evalStepGuarded (evalGuarded fuel) (execGuarded fuel) e

def execGuarded : Nat → List Stmt → Eval Flow
  | 0, _ => starve
  | fuel + 1, body =>
    execEach (fun stmt => execStep (evalGuarded fuel) (execGuarded fuel) fuel
      (stmt.retarget Expr.guarded)) body

end

/-! Guarded evaluation is evaluation, unless it halts. -/

section Approximates

variable {ev ev' : Evaluator} {ex ex' : Executor} (hev : ∀ e, Approximates (ev e) (ev' e))
  (hex : ∀ body, Approximates (ex body) (ex' body))

include hev

/-- The evaluator comes to the stopper when it knows the owner. -/
theorem retargets_guarded (hstop : Approximates (ev .stopper) starve) :
    Retargets (fun _ => True) ev ev' Expr.guarded := by
  refine ⟨fun v target => ?_, Expr.pos?_guarded⟩
  have hplain := matches_assign hev v target
  cases target with
  | chain head links =>
    simp only [Expr.guarded]
    split
    · next name pos hlast =>
      unfold assign placeOf
      simp only [List.getLast?_concat, List.dropLast_concat, hlast]
      refine .bind (.bind (hev _) fun owner => ?_) fun place => .refl _
      exact (hstop.bind fun key => .refl _).trans (.starve (fun _ => trivial) _)
    · exact hplain
  | _ => exact hplain

include hex

omit hev in
theorem approximates_callGuarded (callee : Value) (args : List Value) (pos : Position) :
    Approximates (callGuarded ex callee args pos) (callValue ex' callee args pos) := by
  have hcall := matches_callValue hex callee args pos
  refine .afterRead fun object => ?_
  split
  · exact .starve (fun _ => trivial) _
  · exact hcall

theorem approximates_followGuarded (v : Value) (links : List Link) :
    Approximates (followGuarded ev ex v links) (follow ev' ex' v links) := by
  induction links generalizing v with
  | nil => exact .refl _
  | cons link rest ih =>
    cases link with
    | attr name pos => exact .andThen (getAttr v name pos) fun w => ih w
    | index key pos => exact (hev key).bind fun k => .andThen (act _ _) fun w => ih w
    | call args pos =>
      exact (matches_evalEach hev args).bind fun vs =>
        (approximates_callGuarded hex v vs pos).bind fun w => ih w

theorem approximates_evalChainGuarded (head : Expr) (links : List Link) :
    Approximates (evalChainGuarded ev ex head links) (evalChain ev' ex' head links) := by
  unfold evalChainGuarded
  split
  · exact (matches_evalEach hev _).bind fun vs =>
      (matches_callSuper hex vs _).bind fun v => approximates_followGuarded hev hex v _
  · next hplain =>
    rw [evalChain.eq_2 ev' ex' _ _ hplain]
    exact (hev _).bind fun v => approximates_followGuarded hev hex v _

omit hex in
theorem approximates_augmentGuarded (target : Expr) (rest : List (ArithOp × Expr × Position)) :
    Approximates (augmentGuarded ev target rest) (evalStep ev' ex' (.augment target rest)) := by
  refine (matches_placeOf hev target).bind fun place => .andThen place.get fun v => ?_
  refine (matches_combineAll hev v rest).bind fun w => ?_
  split
  · exact .starve (fun _ => trivial) _
  · exact .refl _

theorem approximates_evalStepGuarded (e : Expr) :
    Approximates (evalStepGuarded ev ex e) (evalStep ev' ex' e) := by
  unfold evalStepGuarded
  split
  · exact .starve (fun _ => trivial) _
  · exact approximates_evalChainGuarded hev hex _ _
  · exact approximates_augmentGuarded hev _ _
  · exact matches_evalStep hev hex e

end Approximates

/-- The guarded evaluator is the plain one as far as it goes. -/
theorem approximates_guarded (fuel : Nat) :
    (∀ e, Approximates (evalGuarded fuel e) (eval fuel e)) ∧
      ∀ body, Approximates (execGuarded fuel body) (exec fuel body) := by
  induction fuel with
  | zero =>
    refine ⟨fun e => ?_, fun body => ?_⟩
    · rw [evalGuarded]
      exact .starve (fun _ => trivial) _
    · rw [execGuarded]
      exact .starve (fun _ => trivial) _
  | succ fuel ih =>
    obtain ⟨hev, hex⟩ := ih
    have hstop : Approximates (evalGuarded fuel .stopper) starve := by
      cases fuel with
      | zero =>
        rw [evalGuarded]
        exact .refl _
      | succ fuel => exact .refl _
    refine ⟨approximates_evalStepGuarded hev hex, matches_execEach fun stmt => ?_⟩
    exact matches_execStep hev hex (retargets_guarded hev hstop) (Or.inl rfl) stmt

/-- The computation comes to its end without setting an attribute. -/
def SetsNone {α : Type} (fuel : Nat) (x : Executor → Eval α) (m : Machine) : Prop :=
  (x (execGuarded fuel) m).isStarved = false

end Eval

/-! Guarded code keeps to every policy. -/

namespace Policy

variable {p : Policy .guarded} {m₁ m₂ : Machine}

theorem allows_guarded (test : Bool) : Mode.guarded.Allows test := nofun

theorem allowsFormula_guarded (formula : Formula) :
    Mode.guarded.AllowsFormula (formula.retarget Expr.guarded) := by
  have htarget : ∀ e : Expr, Mode.guarded.AllowsTarget e.guarded := fun e =>
    ⟨allows_guarded _, fun _ => e.isAttribute_guarded⟩
  cases formula with
  | assignments chains =>
    intro chain hchain
    obtain ⟨chain, -, rfl⟩ := List.mem_map.mp hchain
    refine ⟨fun _ _ => allows_guarded _, fun target hmem => ?_⟩
    rw [Formula.dropLast_mapTargets] at hmem
    obtain ⟨e, -, rfl⟩ := List.mem_map.mp hmem
    exact htarget e
  | parallel lists =>
    refine ⟨fun _ _ _ _ => allows_guarded _, fun list hlist target hmem => ?_⟩
    rw [Formula.dropLast_mapTargets] at hlist
    obtain ⟨list, -, rfl⟩ := List.mem_map.mp hlist
    obtain ⟨e, -, rfl⟩ := List.mem_map.mp hmem
    exact htarget e

section Step

variable {ev : Evaluator} {ex : Executor} (hev : ∀ e, p.Secures p.admitting (ev e))
  (hex : Obeyed .guarded ex)

include hex

theorem secures_callGuarded (callee : Value) (args : List Value) (pos : Position) :
    p.Secures p.admitting (Eval.callGuarded ex callee args pos) := by
  intro m₁ m₂ h
  refine runs_load_bind_of_get h rfl fun _ => ?_
  split
  · exact secures_starve m₁ m₂ h
  · next hcallee => exact runs_callValue hex writes_admitting h (fun _ => hcallee) args pos

include hev

theorem secures_followGuarded (v : Value) (links : List Link) :
    p.Secures p.admitting (Eval.followGuarded ev ex v links) := by
  induction links generalizing v with
  | nil => exact secures_pure _
  | cons link rest ih =>
    cases link with
    | attr name pos => exact Secures.bind (secures_getAttr v name pos) ih
    | index key pos =>
      refine Secures.bind (hev key) fun k => ?_
      exact Secures.bind (secures_act pos (honoured_elementAt v k)) ih
    | call args pos =>
      refine Secures.bind (secures_evalEach (fun e _ => hev e) fun _ _ => allows_guarded _) ?_
      exact fun vs => Secures.bind (secures_callGuarded hex v vs pos) ih

theorem secures_evalChainGuarded (head : Expr) (links : List Link) :
    p.Secures p.admitting (Eval.evalChainGuarded ev ex head links) := by
  unfold Eval.evalChainGuarded
  split
  · refine Secures.bind (secures_evalEach (fun e _ => hev e) fun _ _ => allows_guarded _) ?_
    intro vs
    exact Secures.bind (secures_callSuper hex vs _) fun v => secures_followGuarded hev hex v _
  · exact Secures.bind (hev _) fun v => secures_followGuarded hev hex v _

omit hex in
theorem secures_augmentGuarded (target : Expr) (rest : List (ArithOp × Expr × Position)) :
    p.Secures p.admitting (Eval.augmentGuarded ev target rest) := by
  intro m₁ m₂ h
  refine (runs_placeOf (fun e _ => hev e) h (allows_guarded _)).bind ?_
  intro place n₁ n₂ hn _ hplace
  refine Secures.bind (secures_placeGet hplace.1) (fun old => ?_) n₁ n₂ hn
  refine Secures.bind (secures_combineAll (fun e _ => hev e) old fun _ _ => allows_guarded _) ?_
  intro v
  split
  · exact secures_starve
  · next hset =>
    exact Secures.bind (secures_placeSet (fun h => absurd h hset) v) fun _ => secures_pure _

/-- A guarded expression keeps to the policy whatever it is. -/
theorem secures_evalStepGuarded (e : Expr) :
    p.Secures p.admitting (Eval.evalStepGuarded ev ex e) := by
  unfold Eval.evalStepGuarded
  split
  · exact secures_starve
  · exact secures_evalChainGuarded hev hex _ _
  · exact secures_augmentGuarded hev _ _
  · next hchain haugment =>
    refine secures_evalStep (fun e _ => hev e) hex (fun _ => ?_) (allows_guarded _)
    unfold Expr.isInert
    split
    · exact absurd rfl (hchain _ _)
    · exact absurd rfl (haugment _ _)
    · rfl

end Step

/-- The guarded evaluator keeps to every policy. As a call changes the policy, the induction is
for all policies at once. -/
theorem evalGuarded_and_execGuarded (fuel : Nat) :
    (∀ e (p : Policy .guarded), p.Secures p.admitting (Eval.evalGuarded fuel e)) ∧
      Obeyed .guarded (Eval.execGuarded fuel) := by
  induction fuel with
  | zero => exact ⟨fun _ _ => secures_starve, fun _ _ => secures_starve⟩
  | succ fuel ih =>
    obtain ⟨hev, hex⟩ := ih
    refine ⟨fun e p => secures_evalStepGuarded (fun e => hev e p) hex e, fun body p => ?_⟩
    refine secures_execEach fun stmt _ => ?_
    refine secures_execStep hex (fun e _ => hev e p) fuel (allows_guarded _) fun f hf => ?_
    rw [Stmt.formulas_retarget] at hf
    obtain ⟨formula, -, rfl⟩ := List.mem_map.mp hf
    exact allowsFormula_guarded formula

theorem ready_guarded (m : Machine) (except : ScopeId → Prop) :
    (freezing (by decide : Mode.guarded ≠ .separate) m.store.scopes.size except).Ready .any m m :=
  ⟨⟨⟨rfl, rfl, rfl, rfl, Nat.le_refl _, fun _ _ => rfl, fun _ => ⟨fun _ _ => nofun, nofun⟩⟩,
    rfl, rfl, rfl, rfl, rfl⟩, trivial⟩

end Policy

namespace Eval

/-- An instance is made without a change to any table that there was, if no attribute
is set. -/
theorem SetsNone.instantiate_keepsTables {fuel : Nat} {callee : Value} {args : List Value}
    {pos : Position} {m : Machine} (h : SetsNone fuel (instantiate · callee args pos) m) :
    (instantiate (exec fuel) callee args pos m).EndsIn (m.KeepsTables fun _ => False) := by
  have happrox := matches_instantiate (approximates_guarded fuel).2 callee args pos
  have hobeyed := (Policy.evalGuarded_and_execGuarded fuel).2
  have hready := Policy.ready_guarded m fun _ => False
  have hrun := Policy.secures_instantiate hobeyed callee args pos m m hready
  rw [Approximates.eq_of_ends happrox h]
  exact hrun.keepsTables

end Eval

end Stencil
