import Stencil.Proofs.Eval.Orderly

/-!
The blocks that a function declares and those that run in its frames. Blocks are
collected from the text of a body, while overriding bodies run in the frame of the
function that registered them, during the call of another function. Still a block is
declared by the function in whose frame it runs. A body that is refused because no
extended function declares its block could not have been run by any of these.
-/

namespace Stencil

/-- The functions that a function extends, directly or through others, as far as they
can be found. At most so many are looked at. -/
def Store.ancestors (s : Store) : Nat → Value → List Value
  | 0, _ => []
  | generations + 1, v =>
    match s.get v with
    | .function f =>
      match s.baseOf f with
      | .ok base => base :: s.ancestors generations base
      | .error _ => []
    | _ => []

namespace Store

variable {s : Store} {block : String}

/-- If no ancestor is found to declare a block, then none does. -/
theorem declaresBlock_eq_false_of_mem_ancestors {generations : Nat} {v w : Value}
    (h : s.ancestorDeclares block generations v = .ok false) (hw : w ∈ s.ancestors generations v) :
    s.declaresBlock w block = false := by
  induction generations generalizing v with
  | zero => cases hw
  | succ generations ih =>
    unfold ancestorDeclares at h
    unfold ancestors at hw
    split at h
    · next f hget =>
      rw [hget] at hw
      dsimp only at hw
      split at h
      · next hnone =>
        have hbase : s.baseOf f = .error (.noBase f.definition.name) := by
          rw [baseOf, Option.isNone_iff_eq_none.mp hnone]
        rw [hbase] at hw
        cases hw
      · cases hbase : s.baseOf f with
        | error fault =>
          rw [hbase] at hw
          cases hw
        | ok base =>
          rw [hbase] at h hw
          dsimp only at h hw
          split at h
          · cases h
          · next hfalse =>
            rcases List.mem_cons.mp hw with rfl | hw
            · exact Bool.eq_false_iff.mpr hfalse
            · exact ih h hw
    · next hother =>
      split at hw
      · next f hget => exact absurd hget (hother f)
      · cases hw

theorem ne_noSuchBlock_of_baseOf {f : Function} {fault : Fault} (h : s.baseOf f = .error fault) :
    fault ≠ .noSuchBlock block := by
  rintro rfl
  unfold baseOf at h
  split at h
  · cases h
  · split at h
    · cases h
    · split at h
      · cases h
      · cases h

/-- Looking for a block among ancestors fails only where one cannot be found. -/
theorem ne_noSuchBlock_of_ancestorDeclares {generations : Nat} {v : Value} {fault : Fault}
    (h : s.ancestorDeclares block generations v = .error fault) : fault ≠ .noSuchBlock block := by
  induction generations generalizing v with
  | zero => cases h
  | succ generations ih =>
    unfold ancestorDeclares at h
    split at h
    · split at h
      · cases h
      · split at h
        · split at h
          · cases h
          · exact ih h
        · next hbase =>
          obtain rfl := Except.error.inj h
          exact ne_noSuchBlock_of_baseOf hbase
    · cases h

end Store

namespace Eval

inductive Piece
  | expr (e : Expr)
  | code (body : List Stmt)

/-- Programs get to run the piece in the machine, with so much fuel: a program starts, or
what is under way comes to one of its pieces or to a body that it calls or enters. -/
inductive Underway : Nat → Piece → Machine → Prop
  | start {s : Session} (fuel : Nat) (program : Program) (file : Option String) : s.Arises →
      Underway fuel (.code program) (s.machine file)
  | operand {fuel : Nat} {m m' : Machine} {e operand : Expr} :
      Underway (fuel + 1) (.expr e) m →
      ComesTo (fun ev => evalStep ev (exec fuel) e) (eval fuel) m operand m' →
      Underway fuel (.expr operand) m'
  | call {fuel : Nat} {m m' : Machine} {e : Expr} {body : List Stmt} :
      Underway (fuel + 1) (.expr e) m →
      ComesTo (fun ex => evalStep (eval fuel) ex e) (exec fuel) m body m' →
      Underway fuel (.code body) m'
  | clause {fuel : Nat} {m m' : Machine} {body : List Stmt} {e : Expr} :
      Underway (fuel + 1) (.code body) m →
      ComesTo (fun ev => execEach (execStep ev (exec fuel) fuel) body) (eval fuel) m e m' →
      Underway fuel (.expr e) m'
  | inner {fuel : Nat} {m m' : Machine} {body inner : List Stmt} :
      Underway (fuel + 1) (.code body) m →
      ComesTo (fun ex => execEach (execStep (eval fuel) ex fuel) body) (exec fuel) m inner m' →
      Underway fuel (.code inner) m'

def Executes (stmt : Stmt) (m : Machine) : Prop :=
  ∃ fuel body m₀, Underway (fuel + 1) (.code body) m₀ ∧
    ComesTo (fun step => execEach step body) (execStep (eval fuel) (exec fuel) fuel) m₀ stmt m

end Eval

def Machine.Declares (blocks : List String) (m : Machine) : Prop :=
  m.Orderly True ∧ m.store.Covers True m.frame.function blocks

theorem Outcome.AdvancesFrom.steady {strict : Prop} {α : Type} {m : Machine} {outcome : Outcome α}
    (h : outcome.AdvancesFrom strict m) :
    outcome.Ends (fun _ => True) fun m' => m'.library = m.library :=
  h.mono (fun _ _ => trivial) fun _ hlibrary => hlibrary

namespace Eval

def Piece.IsCovered (m : Machine) : Piece → Prop
  | .expr _ => m.Orderly True
  | .code body => m.Declares (declaredBlocks body)

section Agree

variable {fuel : Nat}

/-- An evaluator that differs only in machines out of order keeps those in order so. -/
theorem keeps_of_agree {ev : Evaluator}
    (h : ∀ e m, m.Orderly True → eval fuel e m = ev e m) (e : Expr) : Keeps True (ev e) :=
  fun m hm => h e m hm ▸ (keeps_eval_and_exec fuel).1 e m hm

/-- An evaluator that differs only where blocks are missing heeds the declared ones. -/
theorem heeds_of_agree {ex : Executor}
    (h : ∀ body (m : Machine), m.Declares (declaredBlocks body) → exec fuel body m = ex body m)
    (body : List Stmt) : Heeds True (declaredBlocks body) (ex body) :=
  fun m hm hcovers => h body m ⟨hm, hcovers⟩ ▸ (keeps_eval_and_exec fuel).2 body m hm hcovers

end Agree

/-- Whatever programs get to run, the function in whose frame it runs has declared the
blocks in it. -/
theorem Underway.isCovered {fuel : Nat} {piece : Piece} {m : Machine}
    (h : Underway fuel piece m) : piece.IsCovered m := by
  induction h with
  | start fuel program file hs => exact ⟨hs.isOrderly.machine True file, Store.covers_none⟩
  | @operand fuel m m' e operand _ hcomes ih =>
    have hex := (@keeps_eval_and_exec True fuel).2
    refine hcomes.good_at (fun _ m => m.Orderly True) fun ev' hagree => ?_
    exact (keeps_evalStep hex (keeps_of_agree hagree) e m ih).steady
  | @call fuel m m' e body _ hcomes ih =>
    have hev := (@keeps_eval_and_exec True fuel).1
    refine hcomes.good_at (fun body m => m.Declares (declaredBlocks body)) fun ex' hagree => ?_
    exact (keeps_evalStep (heeds_of_agree hagree) hev e m ih).steady
  | @clause fuel m m' body e _ hcomes ih =>
    have hex := (@keeps_eval_and_exec True fuel).2
    refine hcomes.good_at (fun _ m => m.Orderly True) fun ev' hagree => ?_
    have hsteps := heeds_execStep hex (keeps_of_agree hagree) fuel
    exact (heeds_execEach hsteps body m ih.1 ih.2).steady
  | @inner fuel m m' body inner _ hcomes ih =>
    have hev := (@keeps_eval_and_exec True fuel).1
    refine hcomes.good_at (fun body m => m.Declares (declaredBlocks body)) fun ex' hagree => ?_
    have hsteps := heeds_execStep (heeds_of_agree hagree) hev fuel
    exact (heeds_execEach hsteps body m ih.1 ih.2).steady

/-- What is executed runs in a machine that declares its blocks. -/
theorem Executes.declares {stmt : Stmt} {m : Machine} (h : Executes stmt m) :
    m.Declares stmt.blocks := by
  obtain ⟨fuel, body, m₀, hrun, hcomes⟩ := h
  obtain ⟨hm, hcovers⟩ := hrun.isCovered
  obtain ⟨hev, hex⟩ := @keeps_eval_and_exec True fuel
  refine hcomes.good_at (fun stmt m => m.Declares stmt.blocks) fun step' hagree => ?_
  have hstep : ∀ stmt, Heeds True stmt.blocks (step' stmt) := fun stmt m hm hcovers =>
    hagree stmt m ⟨hm, hcovers⟩ ▸ heeds_execStep hex hev fuel stmt m hm hcovers
  exact (heeds_execEach hstep body m₀ hm hcovers).steady

/-- An overriding body is refused as lacking a block only if no function that is extended
declares the block. -/
theorem ancestorDeclares_of_refused {name : String} {body : List Stmt} {pos : Position}
    {m m' : Machine} {d : Diagnostic} (h : registerInjection name body pos m = .fail d m')
    (hcause : d.cause = .runtime (.noSuchBlock name)) :
    ∃ v, m.frame.function = some v ∧ m.store.ancestorDeclares name depthLimit v = .ok false := by
  unfold registerInjection at h
  rw [read_bind] at h
  cases hfunction : m.frame.function with
  | none =>
    rw [hfunction] at h
    cases h
    cases hcause
  | some v =>
    rw [hfunction] at h
    dsimp only at h
    rw [read_bind] at h
    refine ⟨v, rfl, ?_⟩
    cases hdeclared : m.store.ancestorDeclares name depthLimit v with
    | error fault =>
      rw [hdeclared] at h
      cases h
      exact absurd (Cause.runtime.inj hcause) (Store.ne_noSuchBlock_of_ancestorDeclares hdeclared)
    | ok found =>
      rw [hdeclared] at h
      cases found with
      | false => rfl
      | true => cases h

/-- Declared blocks cover executed blocks. A block that runs in the frame of a function, in
the function's own body or in one that the function has registered, is declared by it. So
when a body is refused for want of a block, no function that the refusing one extends then,
as far up as is looked, ever runs that block: the body could not have been consulted. -/
theorem declared_blocks_cover_executed :
    (∀ name body pos m v, Executes (.block name body pos) m → m.frame.function = some v →
      ∃ f, m.store.get v = .function f ∧ name ∈ f.definition.blocks) ∧
    ∀ name body pos m d m', registerInjection name body pos m = .fail d m' →
      d.cause = .runtime (.noSuchBlock name) →
      ∃ v, m.frame.function = some v ∧ ∀ w ∈ m.store.ancestors depthLimit v,
        ∀ own place m₁, Executes (.block name own place) m₁ → m₁.frame.function = some w →
          m₁.store.get w ≠ m.store.get w := by
  have hcover : ∀ name body pos m v, Executes (.block name body pos) m →
      m.frame.function = some v →
      ∃ f, m.store.get v = .function f ∧ name ∈ f.definition.blocks := by
    intro name body pos m v hexecutes hv
    obtain ⟨f, hget, hblocks⟩ := hexecutes.declares.2 trivial v hv
    exact ⟨f, hget, hblocks mem_blocks_block⟩
  refine ⟨hcover, fun name body pos m d m' hrefused hcause => ?_⟩
  obtain ⟨v, hv, hdeclared⟩ := ancestorDeclares_of_refused hrefused hcause
  refine ⟨v, hv, fun w hw own place m₁ hexecutes hfunction hsame => ?_⟩
  have hnot := Store.declaresBlock_eq_false_of_mem_ancestors hdeclared hw
  obtain ⟨f, hget, hmem⟩ := hcover name own place m₁ w hexecutes hfunction
  rw [hsame] at hget
  rw [Store.declaresBlock, hget] at hnot
  simp [hmem] at hnot

/-! A page with a block, and one that extends it. -/

namespace Layout

def page : FunctionDef := ⟨"page", [], none, false, [.block "title" [] .start]⟩

def calling : Expr := .chain (.ident "page" .start) [.call [] .start]

def program : List Stmt :=
  [.function page.name page.params page.base page.isMethod page.body .start,
    .formula (.parallel [[calling]]) .start]

def started : Machine := (Session.start ⟨[], .empty⟩ "" .lf .none).machine none

def defined : Machine :=
  { started with
    store :=
      { started.store with
        objects := #[.function ⟨page, ⟨0⟩, none⟩]
        scopes := #[.ofList [("page", ⟨0⟩)]] } }

def shown : Machine := defined.called ⟨0⟩ ⟨page, ⟨0⟩, none⟩ [] .empty

theorem underway_calling : Underway 3 (.expr calling) defined := by
  have hstart : Underway 4 (.code program) started := .start 4 program none (.start ..)
  refine .clause hstart (comesTo_bind_iff.mpr ⟨.next, defined, rfl, ?_⟩)
  have hformula : ComesTo (fun ev => evalFormula ev (.parallel [[calling]])) (eval 3) defined
      calling defined := comesTo_run_bind_iff.mpr ⟨rfl, rfl⟩
  exact ((hformula.bind _).bind _).bind _

theorem underway_page : Underway 2 (.code page.body) shown := by
  have hget : defined.store.get ⟨0⟩ = .function ⟨page, ⟨0⟩, none⟩ := rfl
  have hdepth : defined.depth < depthLimit := Nat.zero_lt_succ 1023
  have hcallee : ComesTo (fun ex => callValue ex ⟨0⟩ [] .start) (exec 2) defined page.body shown :=
    @comesTo_callValue (exec 2) ⟨0⟩ ⟨page, ⟨0⟩, none⟩ [] .start defined hget rfl hdepth
  have hhead : eval 2 (.ident "page" .start) defined = .done ⟨0⟩ defined := rfl
  have hlinks : ComesTo (fun ex => follow (eval 2) ex ⟨0⟩ [.call [] .start]) (exec 2) defined
      page.body shown := by
    unfold follow
    exact comesTo_bind_iff.mpr ⟨[], defined, rfl, hcallee.bind _⟩
  refine .call underway_calling ?_
  unfold evalStep calling
  exact comesTo_bind_iff.mpr ⟨⟨0⟩, defined, hhead, hlinks⟩

/-- The block of the page is executed. -/
theorem executes_title : Executes (.block "title" [] .start) shown := by
  refine ⟨1, page.body, shown, underway_page, ?_⟩
  simp only [page, execEach]
  exact comesTo_run_bind_iff.mpr ⟨rfl, rfl⟩

def extending : FunctionDef := ⟨"home", [], some "page", false, [.inject "footer" [] .start]⟩

def refusing : Machine :=
  { defined with
    store :=
      { defined.store with
        objects := #[.function ⟨page, ⟨0⟩, none⟩, .function ⟨extending, ⟨0⟩, none⟩] }
    frame := .ofCall ⟨1⟩ ⟨extending, ⟨0⟩, none⟩ ⟨0⟩ .empty }

/-- The page declares its block, and no frame of it ever runs another one. -/
theorem title_declared_and_footer_never_run :
    (∃ f, shown.store.get ⟨0⟩ = .function f ∧ "title" ∈ f.definition.blocks) ∧
    ∀ own place m, Executes (.block "footer" own place) m → m.frame.function = some ⟨0⟩ →
      m.store.get ⟨0⟩ ≠ refusing.store.get ⟨0⟩ := by
  obtain ⟨hexecuted, hrefused⟩ := declared_blocks_cover_executed
  refine ⟨hexecuted "title" [] .start shown ⟨0⟩ executes_title rfl, ?_⟩
  obtain ⟨v, hv, hnever⟩ := hrefused "footer" [] .start refusing _ _ rfl rfl
  obtain rfl : (⟨1⟩ : Value) = v := Option.some.inj hv
  exact hnever ⟨0⟩ (by decide)

end Layout

end Eval

end Stencil
