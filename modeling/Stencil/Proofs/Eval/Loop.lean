import Mathlib.Logic.Relation
import Stencil.Proofs.Eval.Fuel
import Stencil.Proofs.Eval.Ownership

/-!
Loops of three clauses. A loop goes on in rounds, and each of them either leaves the loop
or calls for another one. So two loops whose rounds end alike wherever one of the loops
comes to end alike as well. As long as no body ends with `continue`, a round with an
update clause is one with the update as the last statement of the body: the loop does
what it would do after its first clause with a condition only.
-/

namespace Stencil

def Stmt.ofClause (pos : Position) : Option Formula → List Stmt
  | none => []
  | some f => [.formula f pos]

namespace Eval

variable {m : Machine}

/-! Bodies. -/

theorem thenReturn_bind {α β : Type} (x : Eval Unit) (a : α) (f : α → Eval β) :
    ((do
      x
      return a : Eval α) >>= f) = x >>= fun _ => f a :=
  bind_assoc x (fun _ => Pure.pure a) f

def unlessLeft (rest : Eval Flow) : Flow → Eval Flow
  | .next => rest
  | flow => pure flow

/-- A body runs part after part, unless a signal leaves it. -/
theorem execEach_append (step : Stmt → Eval Flow) (first second : List Stmt) :
    execEach step (first ++ second) =
      execEach step first >>= unlessLeft (execEach step second) := by
  induction first with
  | nil => rfl
  | cons stmt rest ih =>
    rw [List.cons_append, execEach, execEach, ih, bind_assoc]
    congr 1
    funext flow
    cases flow with
    | _ => rfl

theorem exec_append (fuel : Nat) (first second : List Stmt) :
    exec fuel (first ++ second) = exec fuel first >>= unlessLeft (exec fuel second) := by
  cases fuel with
  | zero =>
    rw [exec, exec]
    rfl
  | succ fuel =>
    rw [exec, exec, exec]
    exact execEach_append _ first second

theorem exec_singleton (fuel : Nat) (stmt : Stmt) :
    exec (fuel + 1) [stmt] = execStep (eval fuel) (exec fuel) fuel stmt := by
  rw [exec, execEach]
  refine Eq.trans ?_ (bind_pure _)
  congr 1
  funext flow
  cases flow with
  | _ => rfl

/-- A clause that is a statement is evaluated for its effect. -/
theorem exec_ofClause (fuel : Nat) (pos : Position) (clause : Option Formula) :
    exec (fuel + 1) (Stmt.ofClause pos clause) = thenNext (runClause (eval fuel) clause) := by
  cases clause with
  | none =>
    rw [Stmt.ofClause, exec]
    rfl
  | some formula => exact exec_singleton fuel _

theorem rises_unlessLeft {rest : Nat → Eval Flow} (hrest : Rises rest) (flow : Flow) :
    Rises fun n => unlessLeft (rest n) flow := by
  cases flow with
  | next => exact hrest
  | _ => exact rises_const _

theorem rises_thenNext {x : Nat → Eval Unit} (hx : Rises x) : Rises fun n => thenNext (x n) :=
  fun n n' hle => (hx n n' hle).thenNext

/-- A clause does the same as a statement. -/
theorem endsAs_ofClause_iff (pos : Position) (clause : Option Formula) (outcome : Outcome Flow) :
    EndsAs (fun n => exec n (Stmt.ofClause pos clause)) m outcome ↔
      EndsAs (fun n => thenNext (runClause (eval n) clause)) m outcome := by
  rw [← (rises_exec (Stmt.ofClause pos clause)).endsAs_succ_iff]
  simp only [exec_ofClause]

/-! Rounds. -/

def afterBody (ev : Evaluator) (update : Option Formula) : Flow → Eval (Option Flow)
  | .break _ => pure (some .next)
  | .return v pos => pure (some (.return v pos))
  | .next | .continue _ => do
    runClause ev update
    return none

/-- One round of a loop: how the loop is left in it, or nothing if another round is to
follow. -/
def round (ev : Evaluator) (ex : Executor) (test update : Option Formula) (body : List Stmt) :
    Eval (Option Flow) := do
  if ← goesOn ev test then
    let flow ← ex body
    afterBody ev update flow
  else return some .next

def unlessDone (rest : Eval Flow) : Option Flow → Eval Flow
  | none => rest
  | some flow => pure flow

/-- A loop is a round, and then the loop again unless it has been left. -/
theorem execRounds_succ (ev : Evaluator) (ex : Executor) (test update : Option Formula)
    (body : List Stmt) (rounds : Nat) :
    execRounds ev ex test update body (rounds + 1) =
      round ev ex test update body >>= unlessDone (execRounds ev ex test update body rounds) := by
  rw [execRounds, round, bind_assoc]
  congr 1
  funext going
  cases going with
  | false => rfl
  | true =>
    simp only [if_true, bind_assoc]
    congr 1
    funext flow
    cases flow with
    | «break» pos => rfl
    | «return» v pos => rfl
    | _ => exact (thenReturn_bind (runClause ev update) none (unlessDone _)).symm

theorem rises_afterBody (update : Option Formula) (flow : Flow) :
    Rises fun n => afterBody (eval n) update flow := by
  have hnext : Rises fun n => (do
      runClause (eval n) update
      return none : Eval (Option Flow)) :=
    (rises_runClause update).bind fun _ => rises_const _
  cases flow with
  | next => exact hnext
  | «continue» pos => exact hnext
  | _ => exact rises_const _

theorem rises_inside (update : Option Formula) (body : List Stmt) :
    Rises fun n => exec n body >>= afterBody (eval n) update :=
  (rises_exec body).bind (rises_afterBody update)

theorem rises_unlessAsked (update : Option Formula) (body : List Stmt) (going : Bool) :
    Rises fun n => (if going then exec n body >>= afterBody (eval n) update
      else return some .next : Eval (Option Flow)) := by
  cases going with
  | true => exact rises_inside update body
  | false => exact rises_const _

/-- A round needs the fuel of its parts. -/
theorem rises_round (test update : Option Formula) (body : List Stmt) :
    Rises fun n => round (eval n) (exec n) test update body :=
  (rises_goesOn test).bind (rises_unlessAsked update body)

/-- Fuel and rounds are bounds of their own. -/
theorem approximates_moreRounds (test update : Option Formula) (body : List Stmt)
    {fuel fuel' rounds rounds' : Nat} (hfuel : fuel ≤ fuel') (hrounds : rounds ≤ rounds') :
    Approximates (execRounds (eval fuel) (exec fuel) test update body rounds)
      (execRounds (eval fuel') (exec fuel') test update body rounds') := by
  have hev := approximates_eval hfuel
  have happrox := matches_execRounds hev (approximates_exec hfuel) (retargets_id hev) test
    update body (Or.inr ⟨hrounds, fun _ => trivial⟩)
  rwa [Formula.map_retarget_id, Formula.map_retarget_id] at happrox

/-- A loop needs the fuel of its rounds, and as many rounds as it makes. -/
theorem rises_execRounds (test update : Option Formula) (body : List Stmt) :
    Rises fun n => execRounds (eval n) (exec n) test update body n :=
  fun _ _ hle => approximates_moreRounds test update body hle hle

theorem rises_unlessDone {rest : Nat → Eval Flow} (hrest : Rises rest) (next : Option Flow) :
    Rises fun n => unlessDone (rest n) next := by
  cases next with
  | none => exact hrest
  | some flow => exact rises_const _

/-- A loop is a round and, if that calls for it, the loop again. -/
theorem endsAs_execRounds_iff (test update : Option Formula) (body : List Stmt)
    (outcome : Outcome Flow) :
    EndsAs (fun n => execRounds (eval n) (exec n) test update body n) m outcome ↔
      EndsAs (fun n => round (eval n) (exec n) test update body >>=
        unlessDone (execRounds (eval n) (exec n) test update body n)) m outcome := by
  have hround := rises_round test update body
  have hrounds := rises_execRounds test update body
  rw [← hrounds.endsAs_succ_iff]
  have hless (n : Nat) := approximates_moreRounds test update body (Nat.le_refl (n + 1))
    (Nat.le_succ n)
  have hmore (n : Nat) := approximates_moreRounds test update body (Nat.le_succ n) (Nat.le_refl n)
  have hdone : ∀ {x y : Eval Flow}, Approximates x y → ∀ next,
      Approximates (unlessDone x next) (unlessDone y next) := by
    intro x y hxy next
    cases next with
    | none => exact hxy
    | some flow => exact .refl _
  refine endsAs_congr (fun n => ⟨n + 1, ?_⟩) fun n => ⟨n, ?_⟩
  · have hstep := Matches.andThen (round (eval (n + 1)) (exec (n + 1)) test update body)
      (hdone (hless n))
    rwa [← execRounds_succ] at hstep
  · rw [execRounds_succ]
    exact (hround n (n + 1) (Nat.le_succ n)).bind (hdone (hmore n))

/-- Two loops end alike if their rounds do, in all machines that the property holds of. The
rounds are counted down, with the fuel for what happens in them as it is. -/
theorem endsAs_execRounds_of_rounds {test update test' update' : Option Formula}
    {body body' : List Stmt} {good : Machine → Prop}
    (hsame : ∀ m, good m → ∀ next,
      EndsAs (fun n => round (eval n) (exec n) test update body) m next →
      EndsAs (fun n => round (eval n) (exec n) test' update' body') m next)
    (hgood : ∀ m m', good m →
      EndsAs (fun n => round (eval n) (exec n) test update body) m (.done none m') → good m')
    (hm : good m) {outcome : Outcome Flow}
    (h : EndsAs (fun n => execRounds (eval n) (exec n) test update body n) m outcome) :
    EndsAs (fun n => execRounds (eval n) (exec n) test' update' body' n) m outcome := by
  obtain ⟨fuel, hrun, hends⟩ := h
  have hcount : ∀ rounds m, good m →
      execRounds (eval fuel) (exec fuel) test update body rounds m = outcome →
      EndsAs (fun n => execRounds (eval n) (exec n) test' update' body' n) m outcome := by
    intro rounds
    induction rounds with
    | zero =>
      rintro m _ rfl
      cases hends
    | succ rounds ih =>
      intro m hm hrun
      rw [execRounds_succ] at hrun
      change Eval.bind _ _ m = outcome at hrun
      unfold Eval.bind at hrun
      rw [endsAs_execRounds_iff, endsAs_bind_iff (rises_round test' update' body')
        (rises_unlessDone (rises_execRounds test' update' body'))]
      cases hround : round (eval fuel) (exec fuel) test update body m with
      | done next m₁ =>
        rw [hround] at hrun
        have hnext := hsame m hm _ ⟨fuel, hround, rfl⟩
        refine Or.inl ⟨next, m₁, hnext, ?_⟩
        cases next with
        | none => exact ih m₁ (hgood m m₁ hm ⟨fuel, hround, rfl⟩) hrun
        | some flow => exact ⟨0, hrun, hends⟩
      | fail d m₁ =>
        rw [hround] at hrun
        exact Or.inr ⟨d, m₁, hsame m hm _ ⟨fuel, hround, rfl⟩, hrun.symm⟩
      | starved m₁ =>
        rw [hround] at hrun
        obtain rfl := hrun
        cases hends
  exact hcount fuel m hm hrun

/-! Desugaring. -/

/-- The loop that started in the first machine comes to begin a round in the second. -/
def BeginsRound (init test update : Option Formula) (body : List Stmt) (m m' : Machine) : Prop :=
  ∃ m₀, EndsAs (fun n => runClause (eval n) init) m (.done () m₀) ∧
    Relation.ReflTransGen (fun m₁ m₂ =>
      EndsAs (fun n => round (eval n) (exec n) test update body) m₁ (.done none m₂)) m₀ m'

/-- No round of the loop has a body that ends with `continue`. -/
def NeverContinues (init test update : Option Formula) (body : List Stmt) (m : Machine) : Prop :=
  ∀ m₁ m₂ pos m₃, BeginsRound init test update body m m₁ →
    EndsAs (fun n => goesOn (eval n) test) m₁ (.done true m₂) →
    ¬EndsAs (fun n => exec n body) m₂ (.done (.continue pos) m₃)

/-- A round whose body does not end with `continue` may have the update in its body. -/
theorem endsAs_round_iff {test update : Option Formula} {body : List Stmt}
    (hbody : ∀ m₁ pos m₂, EndsAs (fun n => goesOn (eval n) test) m (.done true m₁) →
      ¬EndsAs (fun n => exec n body) m₁ (.done (.continue pos) m₂))
    (pos : Position) (next : Outcome (Option Flow)) :
    EndsAs (fun n => round (eval n) (exec n) test update body) m next ↔
      EndsAs (fun n => round (eval n) (exec n) test none (body ++ Stmt.ofClause pos update))
        m next := by
  refine endsAs_bind_congr (rises_goesOn test) (rises_goesOn test) (rises_unlessAsked update body)
    (rises_unlessAsked none _) (fun _ => Iff.rfl) (fun going m₁ hgoing next => ?_) next
  cases going with
  | false => exact Iff.rfl
  | true =>
    simp only [if_true, exec_append, bind_assoc]
    have hrest : ∀ flow, Rises fun n => unlessLeft (exec n (Stmt.ofClause pos update)) flow >>=
        afterBody (eval n) none := fun flow =>
      (rises_unlessLeft (rises_exec _) flow).bind (rises_afterBody none)
    refine endsAs_bind_congr (rises_exec body) (rises_exec body) (rises_afterBody update) hrest
      (fun _ => Iff.rfl) (fun flow m₂ hflow next => ?_) next
    cases flow with
    | «continue» at' => exact absurd hflow (hbody m₁ at' m₂ hgoing)
    | next =>
      have hclause := endsAs_bind_congr (rises_thenNext (rises_runClause update))
        (rises_exec (Stmt.ofClause pos update)) (rises_afterBody none) (rises_afterBody none)
        (m := m₂) (fun outcome => (endsAs_ofClause_iff pos update outcome).symm)
        (fun _ _ _ _ => Iff.rfl) next
      refine Iff.trans (Iff.of_eq ?_) hclause
      congr 1
      funext n
      exact (thenReturn_bind (runClause (eval n) update) Flow.next (afterBody (eval n) none)).symm
    | _ => exact Iff.rfl

/-- A loop starts with its first clause. -/
theorem endsAs_loop_iff (init test update : Option Formula) (body : List Stmt) (pos : Position)
    (outcome : Outcome Flow) :
    EndsAs (fun n => exec n [.loop init test update body pos]) m outcome ↔
      EndsAs (fun n => runClause (eval n) init >>= fun _ =>
        execRounds (eval n) (exec n) test update body n) m outcome := by
  rw [← (rises_exec [.loop init test update body pos]).endsAs_succ_iff]
  simp only [exec_singleton]
  rfl

/-- A loop with a condition only consists of rounds. -/
theorem endsAs_conditionLoop_iff (test : Option Formula) (body : List Stmt) (pos : Position)
    (outcome : Outcome Flow) :
    EndsAs (fun n => exec n [.loop none test none body pos]) m outcome ↔
      EndsAs (fun n => execRounds (eval n) (exec n) test none body n) m outcome :=
  endsAs_loop_iff none test none body pos outcome

/-- The first clause may stand before the loop. -/
theorem endsAs_init_iff (init test : Option Formula) (body : List Stmt) (at' pos : Position)
    (outcome : Outcome Flow) :
    EndsAs (fun n => exec n (Stmt.ofClause at' init ++ [.loop none test none body pos]))
        m outcome ↔
      EndsAs (fun n => runClause (eval n) init >>= fun _ =>
        execRounds (eval n) (exec n) test none body n) m outcome := by
  have hloop := rises_exec [.loop none test none body pos]
  have hrounds := rises_execRounds test none body
  simp only [exec_append]
  rw [endsAs_bind_congr (rises_exec _) (rises_thenNext (rises_runClause init))
    (rises_unlessLeft hloop) (rises_unlessLeft hrounds) (endsAs_ofClause_iff at' init)]
  · refine Iff.of_eq ?_
    congr 1
    funext n
    exact thenReturn_bind (runClause (eval n) init) Flow.next (unlessLeft _)
  · intro flow m₁ _ outcome
    cases flow with
    | next => exact endsAs_conditionLoop_iff test body pos outcome
    | _ => exact Iff.rfl

section Desugaring

variable {init test update : Option Formula} {body : List Stmt}

/-- The rounds of both loops end alike, and what one comes to the other does as well. -/
theorem NeverContinues.endsAs_execRounds_iff (h : NeverContinues init test update body m)
    {m₀ : Machine} (hinit : EndsAs (fun n => runClause (eval n) init) m (.done () m₀))
    (pos : Position) (outcome : Outcome Flow) :
    EndsAs (fun n => execRounds (eval n) (exec n) test update body n) m₀ outcome ↔
      EndsAs (fun n => execRounds (eval n) (exec n) test none
        (body ++ Stmt.ofClause pos update) n) m₀ outcome := by
  have hround : ∀ m₁, BeginsRound init test update body m m₁ → ∀ next,
      EndsAs (fun n => round (eval n) (exec n) test update body) m₁ next ↔
        EndsAs (fun n => round (eval n) (exec n) test none (body ++ Stmt.ofClause pos update))
          m₁ next := fun m₁ hm₁ next =>
    endsAs_round_iff (fun m₂ at' m₃ => h m₁ m₂ at' m₃ hm₁) pos next
  have hnext : ∀ m₁ m₂, BeginsRound init test update body m m₁ →
      EndsAs (fun n => round (eval n) (exec n) test update body) m₁ (.done none m₂) →
      BeginsRound init test update body m m₂ := by
    rintro m₁ m₂ ⟨m₀, hinit, hrounds⟩ hlast
    exact ⟨m₀, hinit, hrounds.tail hlast⟩
  have hfirst : BeginsRound init test update body m m₀ := ⟨m₀, hinit, .refl⟩
  constructor
  · exact endsAs_execRounds_of_rounds (fun m₁ hm₁ next => (hround m₁ hm₁ next).mp) hnext hfirst
  · refine endsAs_execRounds_of_rounds (fun m₁ hm₁ next => (hround m₁ hm₁ next).mpr) ?_ hfirst
    exact fun m₁ m₂ hm₁ hlast => hnext m₁ m₂ hm₁ ((hround m₁ hm₁ _).mpr hlast)

/-- A round that leaves the loop ends it, in the machine that the round has left. -/
theorem BeginsRound.endsAs_loop {m₁ m₂ : Machine} {flow : Flow} (pos : Position)
    (h : BeginsRound init test update body m m₁)
    (hround : EndsAs (fun n => round (eval n) (exec n) test update body) m₁
      (.done (some flow) m₂)) :
    EndsAs (fun n => exec n [.loop init test update body pos]) m (.done flow m₂) := by
  obtain ⟨m₀, hinit, hrounds⟩ := h
  have hrises := rises_execRounds test update body
  have hsplit := fun (m : Machine) (outcome : Outcome Flow) => (Eval.endsAs_execRounds_iff (m := m)
    test update body outcome).trans
      (endsAs_bind_iff (rises_round test update body) (rises_unlessDone hrises))
  have hend : EndsAs (fun n => execRounds (eval n) (exec n) test update body n) m₀
      (.done flow m₂) := by
    clear hinit
    induction hrounds using Relation.ReflTransGen.head_induction_on with
    | refl => exact (hsplit _ _).mpr (Or.inl ⟨some flow, m₂, hround, 0, rfl, rfl⟩)
    | head hfirst _ ih => exact (hsplit _ _).mpr (Or.inl ⟨none, _, hfirst, ih⟩)
  rw [endsAs_loop_iff, endsAs_bind_iff (rises_runClause init) fun _ => hrises]
  exact Or.inl ⟨(), m₀, hinit, hend⟩

/-- What a round comes to whose test holds and whose body ends. -/
theorem endsAs_round_of_body {m₁ m₂ : Machine} {flow : Flow} {next : Outcome (Option Flow)}
    (hgoing : EndsAs (fun n => goesOn (eval n) test) m (.done true m₁))
    (hbody : EndsAs (fun n => exec n body) m₁ (.done flow m₂))
    (hnext : EndsAs (fun n => afterBody (eval n) update flow) m₂ next) :
    EndsAs (fun n => round (eval n) (exec n) test update body) m next := by
  refine (endsAs_bind_iff (rises_goesOn test) (rises_unlessAsked update body)).mpr ?_
  refine Or.inl ⟨true, m₁, hgoing, ?_⟩
  exact (endsAs_bind_iff (rises_exec body) (rises_afterBody update)).mpr
    (Or.inl ⟨flow, m₂, hbody, hnext⟩)

/-- The rounds of a loop take no name away from the locals. -/
theorem lookup_isSome_of_execRounds (hm : m.Orderly False) {m' : Machine} {flow : Flow}
    (h : EndsAs (fun n => execRounds (eval n) (exec n) test update body n) m (.done flow m'))
    {name : String} (hname : (m.store.lookup m.frame.locals name).isSome = true) :
    (m'.store.lookup m'.frame.locals name).isSome = true := by
  obtain ⟨fuel, hrun, -⟩ := h
  replace hrun : execRounds (eval fuel) (exec fuel) test update body fuel m = .done flow m' := hrun
  obtain ⟨hev, hex⟩ := @keeps_eval_and_exec False fuel
  have hgrows := heeds_execRounds hex hev test update body fuel m hm False.elim
  have hback := (restoring_discipline.execRounds (steady_eval fuel) (growing_exec fuel) test update
    body fuel).endsIn m
  rw [hrun] at hgrows hback
  have hlocals : m'.frame.locals = m.frame.locals := hback.frame.locals
  have hkeys := hgrows.store.keys_prefix m.frame.locals
  rw [hlocals]
  unfold Store.lookup at hname ⊢
  rw [Option.isSome_iff_exists, ← Dict.mem_keys_iff] at hname ⊢
  exact hkeys.subset hname

/-- What the first clause has bound is bound wherever the loop ends. -/
theorem lookup_isSome_of_loop (hm : m.Orderly False) {m₀ m' : Machine} {flow : Flow}
    {pos : Position} (hinit : EndsAs (fun n => runClause (eval n) init) m (.done () m₀))
    (hloop : EndsAs (fun n => exec n [.loop init test update body pos]) m (.done flow m'))
    {name : String} (hname : (m₀.store.lookup m₀.frame.locals name).isSome = true) :
    (m'.store.lookup m'.frame.locals name).isSome = true := by
  rw [endsAs_loop_iff, endsAs_bind_iff (rises_runClause init) fun _ =>
    rises_execRounds test update body] at hloop
  rcases hloop with ⟨_, m₁, hfirst, hrounds⟩ | ⟨_, _, _, heq⟩
  · cases hinit.unique (rises_runClause init) hfirst
    obtain ⟨fuel, hrun, -⟩ := hinit
    replace hrun : runClause (eval fuel) init m = .done () m₀ := hrun
    have hkept := keeps_runClause (@keeps_eval_and_exec False fuel).1 init m hm
    rw [hrun] at hkept
    exact lookup_isSome_of_execRounds hkept.orderly hrounds hname
  · cases heq

/-- Loops of three clauses desugar. If no body of its rounds ends with `continue`, the loop
does in every respect what its first clause and then the loop with the condition alone and
the update as the last statement of the body would do: it comes to the same end, in the
same machine, or to none. `break` leaves the machine as it is, without the update, and
`return` leaves at once. What the first clause has bound stays bound after the loop. -/
theorem loop_desugars (init test update : Option Formula) (body : List Stmt)
    (pos initPos updatePos plainPos : Position) (m : Machine)
    (h : NeverContinues init test update body m) :
    let loop := [Stmt.loop init test update body pos]
    let plain := Stmt.ofClause initPos init ++
      [.loop none test none (body ++ Stmt.ofClause updatePos update) plainPos]
    (∀ outcome, EndsAs (fun n => exec n loop) m outcome ↔
      EndsAs (fun n => exec n plain) m outcome) ∧
    (Diverges (fun n => exec n loop) m ↔ Diverges (fun n => exec n plain) m) ∧
    (∀ m₁ m₂ m₃, BeginsRound init test update body m m₁ →
      EndsAs (fun n => goesOn (eval n) test) m₁ (.done true m₂) →
      (∀ at', EndsAs (fun n => exec n body) m₂ (.done (.break at') m₃) →
        EndsAs (fun n => exec n loop) m (.done .next m₃)) ∧
      ∀ v at', EndsAs (fun n => exec n body) m₂ (.done (.return v at') m₃) →
        EndsAs (fun n => exec n loop) m (.done (.return v at') m₃)) ∧
    (Reachable m → ∀ m₀ flow m',
      EndsAs (fun n => runClause (eval n) init) m (.done () m₀) →
      EndsAs (fun n => exec n loop) m (.done flow m') →
      ∀ name, (m₀.store.lookup m₀.frame.locals name).isSome = true →
        (m'.store.lookup m'.frame.locals name).isSome = true) := by
  intro loop plain
  have hsame : ∀ outcome, EndsAs (fun n => exec n loop) m outcome ↔
      EndsAs (fun n => exec n plain) m outcome := by
    intro outcome
    rw [endsAs_loop_iff, endsAs_init_iff]
    refine endsAs_bind_congr (rises_runClause init) (rises_runClause init)
      (fun _ => rises_execRounds test update body) (fun _ => rises_execRounds test none _)
      (fun _ => Iff.rfl) (fun _ m₀ hinit => ?_) outcome
    exact h.endsAs_execRounds_iff hinit updatePos
  refine ⟨hsame, ?_, fun m₁ m₂ m₃ hbegins hgoing => ⟨fun at' hbody => ?_, fun v at' hbody => ?_⟩,
    fun hreach m₀ flow m' hinit hloop name => ?_⟩
  · rw [diverges_iff, diverges_iff]
    exact forall_congr' fun outcome => not_congr (hsame outcome)
  · exact hbegins.endsAs_loop pos (endsAs_round_of_body hgoing hbody ⟨0, rfl, rfl⟩)
  · exact hbegins.endsAs_loop pos (endsAs_round_of_body hgoing hbody ⟨0, rfl, rfl⟩)
  · exact lookup_isSome_of_loop hreach.orderly hinit hloop

end Desugaring

/-! A loop that counts. -/

namespace Counting

def init : Formula := .assignments [[.ident "i" .start, .int 0]]

def test : Formula := .parallel [[.comparison (.ident "i" .start) [(.lt, .int 2, .start)]]]

def update : Formula := .parallel [[.augment (.ident "i" .start) [(.add, .int 1, .start)]]]

def loop : List Stmt := [.loop (some init) (some test) (some update) [.text "x"] .start]

def start : Machine := (Session.start ⟨[], .empty⟩ "" .lf .none).machine none

def seen : Outcome Flow → Option (String × Option Int64)
  | .done .next m => some (m.context.out, (m.bound? "i").bind fun v =>
      match m.store.get v with
      | .int count => some count
      | _ => none)
  | _ => none

theorem seen_loop : seen (exec 9 loop start) = some ("xx", some 2) := by decide +kernel

/-- It writes twice, also with the update in its body, and leaves the count behind. -/
theorem counts_without_clauses :
    NeverContinues (some init) (some test) (some update) [.text "x"] start ∧
    ∃ outcome, seen outcome = some ("xx", some 2) ∧
      EndsAs (fun n => exec n [.formula init .start,
        .loop none (some test) none [.text "x", .formula update .start] .start]) start outcome := by
  have hnever : NeverContinues (some init) (some test) (some update) [.text "x"] start := by
    rintro _ m₁ at' m₂ _ _ ⟨fuel, hrun, -⟩
    replace hrun : exec fuel [.text "x"] m₁ = .done (.continue at') m₂ := hrun
    cases fuel with
    | zero =>
      rw [exec] at hrun
      cases hrun
    | succ fuel =>
      rw [exec_singleton] at hrun
      cases hrun
  have hsame := (loop_desugars (some init) (some test) (some update) [.text "x"] .start .start
    .start .start start hnever).1
  refine ⟨hnever, exec 9 loop start, seen_loop, (hsame _).mp ⟨9, rfl, ?_⟩⟩
  have hends := seen_loop
  unfold seen at hends
  split at hends
  · next hrun => rw [hrun]; rfl
  · cases hends

end Counting

end Eval

end Stencil
