import Mathlib
import Stencil.Proofs.Eval.Reach
import Stencil.Proofs.Override.Visits

/-!
Which body a block runs. Functions extend one another in chains of any length,
and along the calls through `super` the table of overriding bodies is handed
from frame to frame. At every moment of such a chain the table binds a block's
name to the body that was registered for it first in the most derived function
that registered one, and a block of the function that runs now is resolved by
that table.
-/

namespace Stencil

inductive Evaluates : Visit → Nat → Expr → Machine → Prop
  | formula {n : Nat} {formula : Formula} {m start : Machine} {e : Expr}
      (comes : Eval.ComesTo (fun ev => Eval.evalFormula ev formula) (Eval.eval n) m e start) :
      Evaluates (.formula n formula m) n e start
  | condition (n : Nat) (e : Expr) (m : Machine) : Evaluates (.condition n e m) n e m
  | part {visit : Visit} {n : Nat} {whole e : Expr} {m start : Machine}
      (outer : Evaluates visit (n + 1) whole m)
      (comes : Eval.ComesTo (fun ev => Eval.evalStep ev (Eval.exec n) whole) (Eval.eval n)
        m e start) :
      Evaluates visit n e start

/-- A function of a chain and what it did in its frame before it called the one
that it extends. -/
structure Generation where
  function : Value
  visits : List Visit

/-- The body of a function is about to run in a machine, with some fuel, after an
ordinary call of the first generation's function and calls through `super` from generation
to generation. The most derived function comes first. -/
inductive Chain : List Generation → Value → Nat → List Stmt → Machine → Prop
  | call {n : Nat} {m start : Machine} {callee function : Value} {args : List Value}
      {pos : Position} {body : List Stmt}
      (target : m.store.target? callee = some function)
      (comes : Eval.ComesTo (fun ex => Eval.callValue ex callee args pos) (Eval.exec n)
        m body start) :
      Chain [] function n body start
  | super {elders : List Generation} {function base : Value} {f : Function} {n k : Nat}
      {body body' : List Stmt} {m m₁ m₂ start : Machine} {before after : List Visit}
      {visit : Visit} {args : List Expr} {vs : List Value} {rest : List Link}
      {word pos : Position}
      (chain : Chain elders function n body m)
      (split : Eval.visits n body m = before ++ visit :: after)
      (evaluates : Evaluates visit (k + 1) (.chain (.super word) (.call args pos :: rest)) m₁)
      (arguments : Eval.evalEach (Eval.eval k) args m₁ = .done vs m₂)
      (loads : m₂.store.get function = .function f)
      (extended : m₂.store.baseOf f = .ok base)
      (comes : Eval.ComesTo (fun ex => Eval.callSuper ex vs pos) (Eval.exec k) m₂ body' start) :
      Chain (elders ++ [⟨function, before⟩]) base k body' start

/-- The body registered for a block first in the most derived function that
registered one. -/
def resolve? (name : String) (histories : List (List Visit)) : Option Injection :=
  histories.findSome? fun visits => (registrations visits).lookup name

namespace Evaluates

theorem frame_eq {visit : Visit} {n : Nat} {e : Expr} {start : Machine}
    (h : Evaluates visit n e start) : start.frame = visit.start.frame := by
  induction h with
  | formula comes =>
    refine comes.frame_eq ?_ (Eval.steady_eval _)
    intro escape ev hev
    exact (Eval.steady_discipline escape).evalFormula hev _
  | condition n e m => rfl
  | part outer comes ih =>
    refine (comes.frame_eq ?_ (Eval.steady_eval _)).trans ih
    intro escape ev hev
    exact (Eval.steady_discipline escape).evalStep hev
      (fun body => Eval.growing_exec _ body) _

end Evaluates

/-- What a later generation registers counts only where no earlier one has registered the name.
-/
theorem resolve?_append (name : String) (histories : List (List Visit)) (visits : List Visit) :
    resolve? name (histories ++ [visits]) =
      (resolve? name histories).or ((registrations visits).lookup name) := by
  simp [resolve?, List.findSome?_append]

theorem registerAll_function (frame : Frame) (entries : List (String × Injection)) :
    (frame.registerAll entries).function = frame.function := by
  induction entries generalizing frame with
  | nil => rfl
  | cons entry rest ih =>
    refine (ih (frame.register entry)).trans ?_
    unfold Frame.register
    split <;> rfl

namespace Chain

/-- The invariant of a chain: the frame belongs to the function that runs, and its
table resolves every name as the elders before it do. -/
theorem frame_inv {elders : List Generation} {function : Value} {n : Nat} {body : List Stmt}
    {m : Machine} (h : Chain elders function n body m) :
    m.frame.function = some function ∧
      ∀ name, m.frame.injections.get? name = resolve? name (elders.map Generation.visits) := by
  induction h with
  | call target comes =>
    obtain ⟨f, args', -, -, rfl⟩ := Eval.callValue_comesTo target comes
    exact ⟨rfl, fun name => rfl⟩
  | @super elders function base f n k body body' m m₁ m₂ start before after visit args vs rest
      word pos chain split evaluates arguments loads extended comes ih =>
    obtain ⟨hfunction, htable⟩ := ih
    have hvisit : visit.start.frame = m.frame.registerAll (registrations before) :=
      Eval.visit_frame split
    have hargs : m₂.frame = m₁.frame := by
      have h := Eval.restoring_discipline.evalEach (Eval.steady_eval k) args m₁
      rw [arguments] at h
      exact Machine.HandedBack.frame h
    have hcall : m₂.frame = m.frame.registerAll (registrations before) :=
      (hargs.trans evaluates.frame_eq).trans hvisit
    obtain ⟨g, f', base', h, hactive, hloads, hbase, -, -, -, -, rfl⟩ :=
      Eval.callSuper_comesTo_iff.mp comes
    have hsame : base' = base := by
      have hg : g = function := by
        rw [hcall, registerAll_function, hfunction] at hactive
        exact (Option.some.inj hactive).symm
      subst hg
      rw [loads] at hloads
      cases hloads
      rw [extended] at hbase
      exact (Except.ok.inj hbase).symm
    subst hsame
    refine ⟨rfl, fun name => ?_⟩
    rw [Machine.called_injections, hcall, Frame.get?_registerAll, htable, List.map_append,
      List.map_singleton, resolve?_append]

end Chain

namespace Eval

/-- A block looks its name up in the table of the active frame. -/
theorem execStep_block (ev : Evaluator) (ex : Executor) (rounds : Nat) (name : String)
    (own : List Stmt) (pos : Position) (m : Machine) :
    execStep ev ex rounds (.block name own pos) m =
      match m.frame.injections.get? name with
      | none => ex own m
      | some injection =>
        enter (.ofInjection injection m.frame.injections) pos (ex injection.body) m := by
  change (match m.frame.injections.get? name with
    | none => ex own
    | some injection =>
      enter (.ofInjection injection m.frame.injections) pos (ex injection.body) : Eval Flow) m = _
  cases m.frame.injections.get? name <;> rfl

/-- The body of a block runs with the table of the frame in which the block stands. -/
theorem runBlock_comesTo_injections {ex : Executor} {name : String} {own body : List Stmt}
    {pos : Position} {m start : Machine}
    (h : ComesTo (fun ex => runBlock ex name own pos) ex m body start) :
    start.frame.injections = m.frame.injections := by
  rcases runBlock_comesTo h with ⟨-, -, rfl⟩ | ⟨injection, -, -, rfl⟩
  · rfl
  · rfl

/-- In a chain of any length, a block of the function that runs now is resolved to
the body registered first in the most derived function that registered one in its
own frame so far, and to its own body if none did. This is because a registered
body is never replaced or removed while a frame is active, because calls through
`super` and overriding bodies start with the whole table of the frame they come
from, and because ordinary calls start with an empty one. -/
theorem block_runs_most_derived_body :
    (∀ {elders : List Generation} {function : Value} {n k : Nat} {body own : List Stmt}
        {m b : Machine} {before after : List Visit} {name : String} {pos : Position},
      Chain elders function n body m →
      visits n body m = before ++ .statement k (.block name own pos) b :: after →
      execStep (eval k) (exec k) k (.block name own pos) b =
        match resolve? name (elders.map Generation.visits ++ [before]) with
        | none => exec k own b
        | some injection =>
          enter (.ofInjection injection b.frame.injections) pos (exec k injection.body) b) ∧
    (∀ (n : Nat) (body : List Stmt) (m : Machine),
      (exec n body m).EndsIn fun m' => ∀ name injection,
        m.frame.injections.get? name = some injection →
        m'.frame.injections.get? name = some injection) ∧
    (∀ {n : Nat} {args : List Value} {pos : Position} {m start : Machine} {body : List Stmt},
      ComesTo (fun ex => callSuper ex args pos) (exec n) m body start →
      start.frame.injections = m.frame.injections) ∧
    (∀ {n : Nat} {name : String} {own body : List Stmt} {pos : Position} {m start : Machine},
      ComesTo (fun ex => runBlock ex name own pos) (exec n) m body start →
      start.frame.injections = m.frame.injections) ∧
    (∀ {n : Nat} {callee target : Value} {args : List Value} {pos : Position}
        {m start : Machine} {body : List Stmt},
      m.store.target? callee = some target →
      ComesTo (fun ex => callValue ex callee args pos) (exec n) m body start →
      start.frame.injections = .empty) := by
  refine ⟨?_, ?_, ?_, ?_, ?_⟩
  · intro elders function n k body own m b before after name pos hchain hsplit
    have hframe : b.frame = m.frame.registerAll (registrations before) := visit_frame hsplit
    have htable : b.frame.injections.get? name =
        resolve? name (elders.map Generation.visits ++ [before]) := by
      rw [hframe, Frame.get?_registerAll, hchain.frame_inv.2, resolve?_append]
    rw [execStep_block, htable]
  · intro n body m
    refine ((growing_exec n body).endsIn m).mono ?_ fun _ h => h
    intro m' hrestored
    exact hrestored.frame.injections
  · intro n args pos m start body h
    obtain ⟨function, f, base, g, -, -, -, -, -, -, -, rfl⟩ := callSuper_comesTo_iff.mp h
    rfl
  · intro n name own body pos m start h
    exact runBlock_comesTo_injections h
  · intro n callee target args pos m start body htarget h
    obtain ⟨f, args', -, -, rfl⟩ := callValue_comesTo htarget h
    rfl

/-- The visits of a body are those of its first statement, and then those of the rest in the
machine that it leaves. -/
theorem visits_cons_of_next {n : Nat} {stmt : Stmt} {rest : List Stmt} {m m' : Machine}
    (h : execStep (eval n) (exec n) n stmt m = .done .next m') :
    visits (n + 1) (stmt :: rest) m =
      .statement n stmt m :: (stmtVisits n (visits n) stmt m ++ visits (n + 1) rest m') := by
  simp only [visits, bodyVisits, h, Outcome.thenVisits]

end Eval

/-!
Three generations: `home` extends `page`, which extends `layout`. Both register a
body for the block "title" of `layout`.
-/

namespace ThreeGenerations

open Eval

def here : Position := ⟨0, 1⟩

def superCall : Expr := .chain (.super here) [.call [] here]

def callsSuper : Stmt := .formula (.parallel [[superCall]]) here

def titleBlock : Stmt := .block "title" [.text "untitled"] here

def injectTitle (text : String) : Stmt := .inject "title" [.text text] here

def layout : Function :=
  { definition := ⟨"layout", [], none, false, [titleBlock]⟩, globals := ⟨0⟩, file := none }

def page : Function :=
  { definition := ⟨"page", [], some "layout", false, [injectTitle "page", callsSuper]⟩
    globals := ⟨0⟩, file := none }

def home : Function :=
  { definition := ⟨"home", [], some "page", false, [injectTitle "home", callsSuper]⟩
    globals := ⟨0⟩, file := none }

def caller : Machine where
  store := ⟨#[.function layout, .function page, .function home],
    #[.ofList [("layout", ⟨0⟩), ("page", ⟨1⟩), ("home", ⟨2⟩)]], ⟨[], .empty⟩, 0⟩
  context := .fresh ⟨0⟩ .lf .none
  frame := .top ⟨0⟩ none
  depth := 0
  inReference := false
  library := ""

def inHome : Machine := caller.called ⟨2⟩ home [] .empty

def homeInjected : Machine := inHome.registering "title" [.text "home"]

def inPage : Machine := homeInjected.called ⟨1⟩ page [] homeInjected.frame.injections

def pageInjected : Machine := inPage.registering "title" [.text "page"]

def inLayout : Machine := pageInjected.called ⟨0⟩ layout [] pageInjected.frame.injections

def beforeSuper (n : Nat) (text : String) (m : Machine) : List Visit :=
  [.statement n (injectTitle text) m, .statement n callsSuper (m.registering "title" [.text text])]

/-- A formula that is nothing but a call of `super` evaluates that call where it begins itself.
-/
theorem evaluates_superCall (n : Nat) (m : Machine) :
    Evaluates (.formula n (.parallel [[superCall]]) m) n superCall m := by
  refine .formula fun halted => ?_
  change Eval.bind (haltingAt (eval n) superCall m halted superCall) _ m = _
  simp only [Eval.bind, haltingAt_self]

/-- A body that registers a title and calls `super` visits both, and the title is in the table
when `super` is called. -/
theorem visits_derived {n : Nat} {text : String} {m : Machine} {function : Value}
    (hfunction : m.frame.function = some function)
    (hdeclared : m.store.ancestorDeclares "title" depthLimit function = .ok true) :
    ∃ after, visits (n + 1) [injectTitle text, callsSuper] m =
      beforeSuper n text m ++
        .formula n (.parallel [[superCall]]) (m.registering "title" [.text text]) :: after := by
  have hinject : execStep (eval n) (exec n) n (injectTitle text) m =
      .done .next (m.registering "title" [.text text]) := by
    refine bind_eq_done_iff.mpr ⟨(), _, ?_, rfl⟩
    exact registerInjection_eq_done_iff.mpr ⟨function, hfunction, hdeclared, rfl⟩
  rw [visits_cons_of_next hinject]
  exact ⟨_, rfl⟩

theorem chain_home : Chain [] ⟨2⟩ 6 home.definition.body inHome :=
  .call (show caller.store.target? ⟨2⟩ = some ⟨2⟩ from rfl)
    (@comesTo_callValue _ ⟨2⟩ home [] here caller rfl rfl (by decide))

theorem chain_page :
    Chain [⟨⟨2⟩, beforeSuper 5 "home" inHome⟩] ⟨1⟩ 4 page.definition.body inPage := by
  have hdeclared : inHome.store.ancestorDeclares "title" depthLimit ⟨2⟩ = .ok true := by cbv
  have hloads : homeInjected.store.get ⟨2⟩ = .function home := by cbv
  have hbase : homeInjected.store.baseOf home = .ok ⟨1⟩ := by cbv
  obtain ⟨after, hvisits⟩ :=
    visits_derived (show inHome.frame.function = some ⟨2⟩ from rfl) hdeclared
  refine .super chain_home hvisits (evaluates_superCall 5 homeInjected)
    (show evalEach (eval 4) [] homeInjected = .done [] homeInjected from rfl) hloads hbase ?_
  exact callSuper_comesTo_iff.mpr
    ⟨⟨2⟩, home, ⟨1⟩, page, rfl, hloads, hbase, by cbv, rfl, by decide, rfl, rfl⟩

/-- Home, page and layout in a chain of three, with the visits of the first two as its history.
-/
theorem chain_layout :
    Chain [⟨⟨2⟩, beforeSuper 5 "home" inHome⟩, ⟨⟨1⟩, beforeSuper 3 "page" inPage⟩] ⟨0⟩ 2
      layout.definition.body inLayout := by
  have hdeclared : inPage.store.ancestorDeclares "title" depthLimit ⟨1⟩ = .ok true := by cbv
  have hloads : pageInjected.store.get ⟨1⟩ = .function page := by cbv
  have hbase : pageInjected.store.baseOf page = .ok ⟨0⟩ := by cbv
  obtain ⟨after, hvisits⟩ :=
    visits_derived (show inPage.frame.function = some ⟨1⟩ from rfl) hdeclared
  refine .super chain_page hvisits (evaluates_superCall 3 pageInjected)
    (show evalEach (eval 2) [] pageInjected = .done [] pageInjected from rfl) hloads hbase ?_
  exact callSuper_comesTo_iff.mpr
    ⟨⟨1⟩, page, ⟨0⟩, layout, rfl, hloads, hbase, by cbv, rfl, by decide, rfl, rfl⟩

/-- The block of `layout` runs the body that `home` registered, although `page`
registered one too. -/
theorem title_runs_body_of_home :
    execStep (eval 1) (exec 1) 1 titleBlock inLayout =
      enter (.ofInjection (inHome.frame.injection [.text "home"]) inLayout.frame.injections) here
        (exec 1 [.text "home"]) inLayout := by
  have hvisits : visits 2 layout.definition.body inLayout =
      [] ++ .statement 1 titleBlock inLayout :: _ := rfl
  have hresolve : resolve? "title"
      ([⟨⟨2⟩, beforeSuper 5 "home" inHome⟩, ⟨⟨1⟩, beforeSuper 3 "page" inPage⟩].map
        Generation.visits ++ [[]]) = some (inHome.frame.injection [.text "home"]) := by cbv
  have hrun := block_runs_most_derived_body.1 chain_layout hvisits
  rw [hresolve] at hrun
  exact hrun

end ThreeGenerations

end Stencil
