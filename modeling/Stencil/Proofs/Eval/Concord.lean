import Stencil.Proofs.Eval.Adherence
import Stencil.Proofs.Eval.Fuel
import Stencil.Proofs.Module.Trace

/-!
Evaluators that agree under a charter. A run that keeps to a charter comes to machines that
abide by it and to code that it admits. So the evaluator may be exchanged for another that
does the same there, whatever that one does elsewhere. To see this, the evaluator is cut short
wherever a run under the charter does not come, in a machine whose library tells. Each
construct over it is matched by the same construct over either evaluator, and as its run is
never cut short, both do the same.
-/

namespace Stencil

namespace Charter

def Leaves (c : Charter) (m : Machine) : Prop := m.library ≠ c.library

open Classical in
/-- Runs a piece where it is expected to run. -/
noncomputable def cut (c : Charter) {ι α : Type} (expected : ι → Machine → Prop)
    (run : ι → Eval α) (piece : ι) : Eval α := fun m =>
  if expected piece m then run piece m else .starved { m with library := c.library ++ "/" }

def ExpectsExpr (c : Charter) (e : Expr) (m : Machine) : Prop :=
  c.AdmitsExpr e ∧ ∃ site, c.Abides site m

def ExpectsBody (c : Charter) (body : List Stmt) (m : Machine) : Prop :=
  ∃ (site : Site) (spot : Spot), c.Abides site m ∧ c.Admits site.file spot body ∧
    spot.inFunction = site.inFunction

/-- The evaluators keep to the charter. -/
structure Governs (c : Charter) (ev : Evaluator) (ex : Executor) : Prop where
  expr : ∀ {site : Site} {e : Expr}, c.AdmitsExpr e → c.Runs site (fun _ => True) (ev e)
  body : ∀ {site : Site} {spot : Spot} {body : List Stmt}, c.Admits site.file spot body →
    spot.inFunction = site.inFunction → c.Runs site (c.Lets spot) (ex body)

/-- The second evaluators do what the first do, under the charter. -/
structure Concur (c : Charter) (ev ev' : Evaluator) (ex ex' : Executor) : Prop where
  expr : ∀ e m, c.ExpectsExpr e m → ev' e m = ev e m
  body : ∀ body m, c.ExpectsBody body m → ex' body m = ex body m

variable {c : Charter} {site : Site} {α : Type}

theorem leaves_of_append (c : Charter) {m : Machine} (h : m.library = c.library ++ "/") :
    c.Leaves m := by
  intro hsame
  have hlength := congrArg String.length (h.symm.trans hsame)
  rw [String.length_append] at hlength
  exact absurd hlength (Nat.ne_of_gt (Nat.lt_add_of_pos_right Nat.zero_lt_one))

/-- A run under the charter is not cut short, so all that match it do the same. -/
theorem Runs.eq_of_matches {post : α → Prop} {x y z : Eval α} (h : c.Runs site post x)
    (hy : Eval.Matches c.Leaves x y) (hz : Eval.Matches c.Leaves x z) {m : Machine}
    (hm : c.Abides site m) : z m = y m := by
  have hends : ¬(x m).CutShort c.Leaves := by
    have hend := h m hm
    cases hrun : x m with
    | starved m' =>
      rw [hrun] at hend
      exact fun hleaves => hleaves hend.2
    | _ => exact not_false
  rw [hz m hends, hy m hends]

section Cut

variable {ι : Type} {expected : ι → Machine → Prop} {run : ι → Eval α}

/-- An expected piece runs as it did. -/
theorem cut_eq {piece : ι} {m : Machine} (h : expected piece m) :
    c.cut expected run piece m = run piece m := if_pos h

/-- What does the same on all expected pieces does the same wherever it is not cut short. -/
theorem matches_cut {run' : ι → Eval α}
    (h : ∀ piece m, expected piece m → run' piece m = run piece m) (piece : ι) :
    Eval.Matches c.Leaves (c.cut expected run piece) (run' piece) := by
  intro m hends
  by_cases hexpected : expected piece m
  · rw [cut_eq hexpected, h piece m hexpected]
  · unfold cut at hends
    rw [if_neg hexpected] at hends
    exact absurd (c.leaves_of_append rfl) hends

end Cut

/-- An endless charter that allows all modules is kept with any fuel. -/
theorem governs_eval_and_exec (hendless : c.endless = true)
    (hall : ∀ program, c.test program = true) (fuel : Nat) :
    c.Governs (Eval.eval fuel) (Eval.exec fuel) := by
  obtain ⟨hexpr, hbody⟩ := c.evalVetted_and_execVetted fuel
  obtain ⟨heval, hexec⟩ := Eval.evalVetted_and_execVetted_of_all hall fuel
  rw [heval] at hexpr
  rw [hexec] at hbody
  exact ⟨fun he => hexpr _ _ he (Or.inl hendless),
    fun h hspot => hbody _ _ _ h hspot (Or.inl hendless)⟩

section Evaluators

variable {ev ev' : Evaluator} {ex ex' : Executor}

theorem Governs.below (h : c.Governs ev ex) : c.RunsBelow site ex :=
  fun _ _ _ _ hbody => h.body hbody rfl

/-- The evaluators still keep to the charter when they are cut short outside of it. -/
theorem Governs.cut (h : c.Governs ev ex) :
    c.Governs (c.cut c.ExpectsExpr ev) (c.cut c.ExpectsBody ex) where
  expr he m hm := by
    rw [cut_eq ⟨he, _, hm⟩]
    exact h.expr he m hm
  body hbody hspot m hm := by
    rw [cut_eq ⟨_, _, hm, hbody, hspot⟩]
    exact h.body hbody hspot m hm

/-- Evaluators do what they do. -/
theorem Concur.refl (c : Charter) (ev : Evaluator) (ex : Executor) : c.Concur ev ev ex ex :=
  ⟨fun _ _ _ => rfl, fun _ _ _ => rfl⟩

section Matches

variable (h : c.Concur ev ev' ex ex')

include h

/-- An expression asks for pieces that are expected or is cut short. -/
theorem Concur.matches_evalStep (e : Expr) : Eval.Matches c.Leaves
    (Eval.evalStep (c.cut c.ExpectsExpr ev) (c.cut c.ExpectsBody ex) e)
    (Eval.evalStep ev' ex' e) :=
  Eval.matches_evalStep (matches_cut h.expr) (matches_cut h.body) e

/-- A statement asks for pieces that are expected or is cut short. -/
theorem Concur.matches_execStep (rounds : Nat) (stmt : Stmt) : Eval.Matches c.Leaves
    (Eval.execStep (c.cut c.ExpectsExpr ev) (c.cut c.ExpectsBody ex) rounds stmt)
    (Eval.execStep ev' ex' rounds stmt) := by
  have hexpr : ∀ e, Eval.Matches c.Leaves (c.cut c.ExpectsExpr ev e) (ev' e) :=
    matches_cut h.expr
  have hstep := Eval.matches_execStep hexpr (matches_cut h.body) (Eval.retargets_id hexpr)
    (Or.inl (Eq.refl rounds)) stmt
  rwa [stmt.retarget_id] at hstep

end Matches

variable (hg : c.Governs ev ex) (h : c.Concur ev ev' ex ex') {m : Machine}

include hg h

/-- What runs bodies by an executor alone does the same with the other one. -/
theorem Concur.construct {post : α → Prop} {x : Executor → Eval α}
    (hx : ∀ {ex ex'}, (∀ body, Eval.Matches c.Leaves (ex body) (ex' body)) →
      Eval.Matches c.Leaves (x ex) (x ex'))
    (hruns : ∀ {ex}, c.RunsBelow site ex → c.Runs site post (x ex)) (hm : c.Abides site m) :
    x ex' m = x ex m :=
  (hruns hg.cut.below).eq_of_matches (hx (matches_cut fun _ _ _ => rfl)) (hx (matches_cut h.body)) hm

/-- An expression that the charter admits comes to the same with both evaluators. -/
theorem Concur.evalStep {e : Expr} (he : c.AdmitsExpr e) (hm : c.Abides site m) :
    Eval.evalStep ev' ex' e m = Eval.evalStep ev ex e m :=
  (runs_evalStep he hg.cut.below fun _ _ hpart => hg.cut.expr hpart).eq_of_matches
    ((Concur.refl c ev ex).matches_evalStep e) (h.matches_evalStep e) hm

variable (hall : ∀ program, c.test program = true)

include hall

/-- A statement that the charter admits comes to the same with both evaluators. -/
theorem Concur.execStep {spot : Spot} {stmt : Stmt} (hstmt : c.AdmitsStmt site.file spot stmt)
    (hspot : spot.inFunction = site.inFunction) (rounds : Nat) (hm : c.Abides site m) :
    Eval.execStep ev' ex' rounds stmt m = Eval.execStep ev ex rounds stmt m := by
  have hruns := runs_statement hstmt hspot hg.cut.below (fun _ _ he => hg.cut.expr he)
    (fun _ _ _ hbody hspot => hg.cut.body hbody hspot) rounds
  rw [Eval.vettedStep_of_all hall] at hruns
  exact hruns.eq_of_matches ((Concur.refl c ev ex).matches_execStep rounds stmt)
    (h.matches_execStep rounds stmt) hm

omit h

/-- Two bodies that agree statement by statement. -/
theorem Governs.execEach_eq {spot : Spot} {body : List Stmt} (hbody : c.Admits site.file spot body)
    (hspot : spot.inFunction = site.inFunction) (rounds : Nat) {step : Stmt → Eval Flow}
    (hstep : ∀ stmt, c.AdmitsStmt site.file spot stmt → ∀ m, c.Abides site m →
      step stmt m = Eval.execStep ev ex rounds stmt m) (hm : c.Abides site m) :
    Eval.execEach step body m = Eval.execEach (Eval.execStep ev ex rounds) body m := by
  replace hbody : ∀ stmt ∈ body, c.AdmitsStmt site.file spot stmt := fun _ => hbody.stmt
  induction body generalizing m with
  | nil => rfl
  | cons stmt rest ih =>
    obtain ⟨hstmt, hrest⟩ := List.forall_mem_cons.mp hbody
    have hruns := runs_statement hstmt hspot hg.below (fun _ _ he => hg.expr he)
      (fun _ _ _ hbody hspot => hg.body hbody hspot) rounds m hm
    rw [Eval.vettedStep_of_all hall] at hruns
    unfold Eval.execEach
    change Eval.bind _ _ m = Eval.bind _ _ m
    unfold Eval.bind
    rw [hstep stmt hstmt m hm]
    cases hrun : Eval.execStep ev ex rounds stmt m with
    | done flow m' =>
      rw [hrun] at hruns
      cases flow with
      | next => exact ih hruns.1 hrest
      | _ => rfl
    | _ => rfl

end Evaluators

/-! Modules that pass a test. -/

/-- Without a test, modules run as they do under one that everything passes. -/
theorem runs_importModule_of_all (hall : ∀ program, c.test program = true) {ex : Executor}
    (hex : c.RunsBelow site ex) {spot : Spot} {stmt : Stmt} {path : String}
    (hallows : c.allows site.file (spot, stmt)) (hpath : stmt.path? = some path)
    (pos : Position) : c.Runs site (fun _ => True) (Eval.importModule ex path pos) := by
  have hruns := runs_importModule hex hallows hpath pos
  rwa [Eval.vetted_of_all hall] at hruns

section Vetted

variable {test : Program → Bool}
  (htest : ∀ {file program}, c.Admits (some file) .top program → test program = true)

include htest

/-- A statement that the charter admits imports no module that fails the test. -/
theorem vettedStep_eq (hall : ∀ program, c.test program = true) (ev : Evaluator) (ex : Executor)
    (rounds : Nat) {spot : Spot} {stmt : Stmt} (hstmt : c.AdmitsStmt site.file spot stmt)
    {m : Machine} (hm : c.Abides site m) :
    Eval.vettedStep test ev ex rounds stmt m = Eval.execStep ev ex rounds stmt m := by
  have himport : ∀ path, stmt.path? = some path → ∀ pos,
      Eval.importModule (Eval.vetted test ex) path pos m = Eval.importModule ex path pos m := by
    intro path hpath pos
    refine Eval.importModule_congr (fun file program hrun => ?_) pos
    obtain ⟨hfound, source, hsource, hparse⟩ := Eval.exists_source_of_toRun? hrun
    have hfiles : ∀ tree ∈ c.files, m.store.files = tree ∧ m.store.files = tree :=
      fun tree htree => ⟨(hm.store.files tree htree).1, (hm.store.files tree htree).1⟩
    obtain ⟨hsize, hplaced⟩ := c.module hm.library hfiles (hm.frame.file ▸ hstmt.allows) hpath
      hfound hsource hparse (hall program)
    rw [Eval.vetted, htest ⟨hsize, hplaced⟩, if_pos rfl]
  cases stmt with
  | importAs path name pos =>
    exact Eval.bind_congr (Eval.bind_congr (himport path rfl pos) _) _
  | importFrom path names pos =>
    exact Eval.bind_congr (Eval.bind_congr (himport path rfl pos) _) _
  | _ => rfl

/-- If all modules that the charter admits pass the test, no run stops at one. -/
theorem concur_vetted (hendless : c.endless = true) (hall : ∀ program, c.test program = true)
    (fuel : Nat) : c.Concur (Eval.eval fuel) (Eval.evalVetted test fuel) (Eval.exec fuel)
      (Eval.execVetted test fuel) := by
  induction fuel with
  | zero => exact ⟨fun _ _ _ => by rw [Eval.evalVetted, Eval.eval],
      fun _ _ _ => by rw [Eval.execVetted, Eval.exec]⟩
  | succ fuel ih =>
    have hg := c.governs_eval_and_exec hendless hall fuel
    constructor
    · rintro e m ⟨he, site, hm⟩
      rw [Eval.evalVetted, Eval.eval]
      exact ih.evalStep hg he hm
    · rintro body m ⟨site, spot, hm, hbody, hspot⟩
      rw [Eval.execVetted, Eval.exec]
      refine hg.execEach_eq hall hbody hspot fuel (fun stmt hstmt m hm => ?_) hm
      rw [vettedStep_eq htest hall _ _ fuel hstmt hm]
      exact ih.execStep hg hall hstmt hspot fuel hm

end Vetted

end Charter

end Stencil
