import Stencil.Proofs.Eval.Reachable
import Stencil.Proofs.Scope.Construct

/-!
Functions capture nothing. On every machine that programs get to, the locals of a
running function are a table that no value refers to: they can be read and written
through the frame of the function, and through the bodies it has registered, alone.
A call is made without the caller's frame, so it cannot depend on what the locals
hold. Two runs of a call that start with different locals end in the same way, with
the same output, and leave all else the same behind.
-/

namespace Stencil

/-- The machines are the same, except for what one table holds. -/
structure Machine.SameApartFrom (id : ScopeId) (m₁ m₂ : Machine) : Prop where
  objects : m₂.store.objects = m₁.store.objects
  files : m₂.store.files = m₁.store.files
  size : m₂.store.scopes.size = m₁.store.scopes.size
  scope : ∀ other, other ≠ id → m₂.store.scope other = m₁.store.scope other
  context : m₂.context = m₁.context
  frame : m₂.frame = m₁.frame
  depth : m₂.depth = m₁.depth
  inReference : m₂.inReference = m₁.inReference
  library : m₂.library = m₁.library

inductive Outcome.SameApartFrom {α : Type} (id : ScopeId) : Outcome α → Outcome α → Prop
  | done {a : α} {m₁ m₂ : Machine} : m₁.SameApartFrom id m₂ →
      SameApartFrom id (.done a m₁) (.done a m₂)
  | fail {d : Diagnostic} {m₁ m₂ : Machine} : m₁.SameApartFrom id m₂ →
      SameApartFrom id (.fail d m₁) (.fail d m₂)
  | starved {m₁ m₂ : Machine} : m₁.SameApartFrom id m₂ →
      SameApartFrom id (.starved m₁) (.starved m₂)

def Machine.withLocals (m : Machine) (bindings : Dict Value) : Machine :=
  { m with store := m.store.updateScope m.frame.locals fun _ => bindings }

namespace Policy

variable {mode : Mode} {p : Policy mode} {rule : FrameRule} {m₁ m₂ : Machine}

theorem Ready.left (h : p.Ready rule m₁ m₂) : p.Ready rule m₁ m₁ :=
  ⟨⟨⟨rfl, rfl, rfl, rfl, h.store.base_le, fun _ _ => rfl, h.store.admits⟩, rfl, rfl, rfl, rfl, rfl⟩,
    h.rule⟩

theorem Ready.right (h : p.Ready rule m₁ m₂) : p.Ready rule m₂ m₂ := by
  refine ⟨h.toAlike.right, ?_⟩
  rw [h.store.size, h.frame]
  exact h.rule

/-! The locals of functions are secret on every machine. -/

/-- Some policy admits the active frame, so that its locals are secret if they are
those of a function. -/
def Separated (m : Machine) : Prop := ∃ p : Policy .separate, p.Ready p.admitting m m

def SecuresAll ⦃α : Type⦄ (x : Eval α) : Prop :=
  ∀ p : Policy .separate, p.Secures p.admitting x

theorem SecuresAll.ends {α : Type} {x : Eval α} (hx : SecuresAll x) {m : Machine}
    (hm : Separated m) : (x m).Ends Separated fun m' => m'.library = m.library := by
  obtain ⟨p, hready⟩ := hm
  have hrun := hx p m m hready
  unfold Runs at hrun
  generalize x m = outcome at hrun
  cases hrun with
  | done hready' hkeeps _ => exact ⟨p, hready'⟩
  | fail hready' hkeeps => exact ⟨p, hready'⟩
  | starved halike hlibrary => exact hlibrary

/-- Only separated machines count, so a computation may be replaced by one that is equal on
these. -/
theorem SecuresAll.congr {α : Type} {x y : Eval α} (heq : ∀ m, Separated m → x m = y m)
    (hx : SecuresAll x) : SecuresAll y := by
  intro p m₁ m₂ hready
  have hrun := hx p m₁ m₂ hready
  unfold Runs at hrun ⊢
  rw [← heq m₁ ⟨p, hready.left⟩, ← heq m₂ ⟨p, hready.right⟩]
  exact hrun

theorem allows_separate (test : Bool) : Mode.separate.Allows test := nofun

/-- Separation is kept by every construct. -/
theorem maintained_separated : Eval.Maintained Separated SecuresAll SecuresAll where
  localP heq hx := hx.congr heq
  localQ heq hx := hx.congr heq
  keepsP hx hm := hx.ends hm
  keepsQ hx hm := hx.ends hm
  starveP := fun _ => secures_starve
  starveQ := fun _ => secures_starve
  evalStep e hev hex p := secures_evalStep (fun e _ => hev e p) hex nofun (allows_separate _)
  execEach rounds body hev hex p :=
    secures_body hex (fun e _ => hev e p) nofun rounds (allows_separate _)
  follow v links hev hex p := by
    refine secures_follow (fun e _ => hev e p) hex nofun v fun link _ => ?_
    cases link with
    | attr name pos => exact trivial
    | call args pos => exact fun _ _ => allows_separate _
    | index key pos => exact allows_separate _

theorem securesAll_exec (fuel : Nat) (body : List Stmt) : SecuresAll (Eval.exec fuel body) :=
  (maintained_separated.eval_and_exec fuel).2 body

def unrestricted : Policy .separate where
  base := 0
  secret _ := False
  hidden _ := False
  frozen _ := False
  below := by simp
  secret_of_hidden := by simp
  secret_of_frozen := by simp

end Policy

/-! Between programs. -/

theorem Object.tables_of_isPlain {object : Object} (h : object.isPlain = true) :
    object.tables = [] := by
  cases object with
  | function f => cases h
  | struct made => cases h
  | «instance» type fields => cases h
  | module name scope => cases h
  | _ => rfl

namespace Session

structure IsClosed (s : Session) : Prop where
  store : Policy.unrestricted.AlikeStores s.store s.store
  globals : s.context.globals.index < s.store.scopes.size

theorem IsClosed.ready {s : Session} (h : s.IsClosed) (file : Option String) :
    Policy.unrestricted.Ready Policy.unrestricted.admitting (s.machine file) (s.machine file) := by
  refine ⟨⟨h.store, rfl, rfl, rfl, rfl, rfl⟩, ?_⟩
  have hglobals : Policy.unrestricted.Links s.store.scopes.size s.context.globals :=
    fun _ => ⟨h.globals, id⟩
  exact Policy.admitsFrame_plain (Nat.zero_le _) hglobals rfl rfl

theorem isClosed_start (files : FileTree) (library : String) (lineEnding : LineEnding)
    (options : Options) : (start files library lineEnding options).IsClosed where
  store := by
    have hempty : Policy.unrestricted.AlikeStores (.ofFiles files) (.ofFiles files) := by
      refine ⟨rfl, rfl, rfl, rfl, Nat.zero_le _, fun _ _ => rfl, fun v => ?_⟩
      have hnil : (Store.ofFiles files).get v = .nil := by simp [Store.get, Store.ofFiles]
      rw [hnil]
      exact Policy.admits_data rfl
    exact hempty.newScope .empty
  globals := Nat.zero_lt_one

theorem IsClosed.runProgram {s s' : Session} (h : s.IsClosed) {fuel : Nat} {program : Program}
    {file : Option String} (hrun : s.runProgram fuel program file = some s') : s'.IsClosed := by
  have hsecures := Policy.Secures.bind
    (Policy.securesAll_exec fuel program Policy.unrestricted) Policy.secures_settle
  have hends : Policy.unrestricted.Agrees _ (s.machine file) _
      (Eval.runProgram fuel program (s.machine file))
      (Eval.runProgram fuel program (s.machine file)) := hsecures _ _ (h.ready file)
  have hadopt : ∀ {m : Machine} (failure : Option Diagnostic),
      Policy.unrestricted.AlikeStores m.store m.store →
      Policy.unrestricted.Keeps (s.machine file) m → (s.adopt m failure).IsClosed := by
    intro m failure hstore hkeeps
    refine ⟨hstore, ?_⟩
    change m.context.globals.index < m.store.scopes.size
    rw [hkeeps.globals]
    exact Nat.lt_of_lt_of_le h.globals hkeeps.store.size_le
  rcases runProgram_cases hrun with ⟨m, hend, rfl⟩ | ⟨d, m, hend, rfl⟩
  · rw [hend] at hends
    cases hends with
    | done hready hkeeps _ => exact hadopt _ hready.store hkeeps
  · rw [hend] at hends
    cases hends with
    | fail hready hkeeps => exact hadopt _ hready.store hkeeps

theorem IsClosed.run {s s' : Session} (h : s.IsClosed) {fuel : Nat} {source : Source}
    {args : List String} (hrun : s.run fuel source args = some s') : s'.IsClosed := by
  have hprepared : (s.prepared source args).IsClosed := by
    unfold prepared
    split
    · exact ⟨h.store, h.globals⟩
    · exact ⟨h.store, h.globals⟩
  rcases run_cases hrun with ⟨program, -, hprogram⟩ | ⟨d, -, rfl⟩
  · exact hprepared.runProgram hprogram
  · exact ⟨hprepared.store, hprepared.globals⟩

theorem Arises.isClosed {s : Session} (h : s.Arises) : s.IsClosed := by
  induction h with
  | start files library lineEnding options => exact isClosed_start files library lineEnding options
  | run _ hrun ih => exact ih.run hrun
  | runFile _ hrun ih =>
    rcases runFile_cases hrun with ⟨text, -, htext⟩ | ⟨-, rfl⟩
    · exact ih.run htext
    · exact ⟨ih.store, ih.globals⟩
  | @clear s _ ih =>
    have hrestart : Policy.unrestricted.AlikeStores s.store.restart s.store.restart :=
      ⟨rfl, rfl, rfl, rfl, ih.store.base_le, fun _ _ => rfl, ih.store.admits⟩
    refine ⟨hrestart.newScope .empty, ?_⟩
    change s.store.scopes.size < (s.store.restart.newScope .empty).2.scopes.size
    rw [Store.size_newScope]
    exact Nat.lt_succ_self _
  | clearOutput _ ih => exact ⟨ih.store, ih.globals⟩
  | setArgs args _ ih => exact ⟨ih.store, ih.globals⟩
  | setLineEnding lineEnding _ ih => exact ⟨ih.store, ih.globals⟩
  | setFiles files _ ih => exact ⟨ih.store.setFiles files, ih.globals⟩
  | @setVariable s name v _ ih =>
    refine ⟨ih.store.updateScope _ _, ?_⟩
    change s.context.globals.index < (s.store.updateScope _ _).scopes.size
    rw [Store.size_updateScope]
    exact ih.globals
  | @make s object _ hplain ih =>
    refine ⟨ih.store.alloc ⟨fun id hid => ?_, nofun⟩, ih.globals⟩
    rw [Object.tables_of_isPlain hplain] at hid
    cases hid

end Session

/-- In a machine that a program gets to, the locals of the running function are separated from
all values. -/
theorem Eval.Reachable.separated {m : Machine} (h : Eval.Reachable m) : Policy.Separated m :=
  Policy.maintained_separated.reachable
    (fun _ file hs => ⟨Policy.unrestricted, hs.isClosed.ready file⟩) h

/-! The locals of the caller. -/

namespace Policy

/-- One table is never read, and no value refers to it. -/
def concealing (id : ScopeId) (n : Nat) (h : id.index < n) : Policy .separate where
  base := n
  secret other := other = id
  hidden other := other = id
  frozen _ := False
  below other hother := by
    rcases hother with rfl | rfl | hfalse
    · exact h
    · exact h
    · exact hfalse.elim
  secret_of_hidden _ heq := ⟨rfl, heq⟩
  secret_of_frozen _ hfalse _ := hfalse.elim

section Locals

variable {m : Machine} (hm : Separated m) (hfunction : m.frame.function.isSome = true)

include hm hfunction

theorem Separated.locals_lt : m.frame.locals.index < m.store.scopes.size := by
  obtain ⟨p, hready⟩ := hm
  have hsecret := hready.rule.own.secret rfl hfunction
  exact Nat.lt_of_lt_of_le (p.below _ (Or.inl hsecret)) hready.store.base_le

/-- No value refers to the locals of a running function. -/
theorem Separated.locals_notMem (v : Value) : m.frame.locals ∉ (m.store.get v).tables := by
  obtain ⟨p, hready⟩ := hm
  intro hmem
  exact ((hready.store.admits v).links _ hmem rfl).2 (hready.rule.own.secret rfl hfunction)

/-- Locals that are hidden may be replaced. -/
theorem Separated.ready_withLocals (bindings : Dict Value) :
    (concealing m.frame.locals m.store.scopes.size (hm.locals_lt hfunction)).Ready
      (concealing m.frame.locals m.store.scopes.size (hm.locals_lt hfunction)).writing
      m (m.withLocals bindings) := by
  refine ⟨⟨⟨rfl, rfl, rfl, Store.size_updateScope .., Nat.le_refl _, ?_, ?_⟩,
    rfl, rfl, rfl, rfl, rfl⟩, id⟩
  · exact fun other hother => Store.scope_updateScope_of_ne m.store hother _
  · intro v
    have hnot := hm.locals_notMem hfunction v
    obtain ⟨p, hready⟩ := hm
    refine ⟨fun other hother hmode => ?_, nofun⟩
    refine ⟨((hready.store.admits v).links other hother hmode).1, ?_⟩
    rintro rfl
    exact hnot hother

end Locals

theorem Alike.sameApartFrom {id : ScopeId} {n : Nat} {h : id.index < n} {m₁ m₂ : Machine}
    (halike : (concealing id n h).Alike m₁ m₂) : m₁.SameApartFrom id m₂ :=
  ⟨halike.store.objects, halike.store.files, halike.store.size, halike.store.scope, halike.context,
    halike.frame, halike.depth, halike.inReference, halike.library⟩

theorem Agrees.sameApartFrom {α : Type} {id : ScopeId} {n : Nat} {h : id.index < n}
    {rule : FrameRule} {m : Machine} {post : α → Machine → Prop} {o₁ o₂ : Outcome α}
    (hagrees : (concealing id n h).Agrees rule m post o₁ o₂) : o₁.SameApartFrom id o₂ := by
  cases hagrees with
  | done hready _ _ => exact .done hready.sameApartFrom
  | fail hready _ => exact .fail hready.sameApartFrom
  | starved halike _ => exact .starved halike.sameApartFrom

end Policy

namespace Eval

/-- A call made by a function does not depend on the locals of the function, which no
value refers to. -/
theorem call_independent_of_locals (m : Machine) (hm : Reachable m)
    (hfunction : m.frame.function.isSome = true) :
    (∀ v, m.frame.locals ∉ (m.store.get v).tables) ∧
    ∀ (fuel : Nat) (callee : Value) (args : List Value) (pos : Position) (bindings : Dict Value),
      (callValue (exec fuel) callee args pos m).SameApartFrom m.frame.locals
        (callValue (exec fuel) callee args pos (m.withLocals bindings)) := by
  refine ⟨hm.separated.locals_notMem hfunction, ?_⟩
  intro fuel callee args pos bindings
  have hready := hm.separated.ready_withLocals hfunction bindings
  have hrun := Policy.secures_callValue (Policy.securesAll_exec fuel) (by decide)
    Policy.writes_writing callee args pos _ _ hready
  exact hrun.sameApartFrom

end Eval

/-! A function `f` with a parameter `x` is running, and `g` returns a variable of this
name. -/

namespace Shadow

def start : Machine := (Session.start ⟨[], .empty⟩ "" .lf .none).machine none

def reader : Function where
  definition :=
    { name := "g", params := [], base := none, isMethod := false
      body := [.return (some (.parallel [[.ident "x" .start]])) .start] }
  globals := ⟨0⟩
  file := none

def binder : Function where
  definition := { name := "f", params := ["x"], base := none, isMethod := false, body := [] }
  globals := ⟨0⟩
  file := none

def definitions : List Stmt :=
  [reader.definition, binder.definition].map fun d =>
    .function d.name d.params d.base d.isMethod d.body .start

def defined : Machine :=
  { start with
    store :=
      { objects := #[.function reader, .function binder]
        scopes := #[.ofList [("g", ⟨0⟩), ("f", ⟨1⟩)]]
        files := start.store.files } }

def supplied : Machine := { defined with store := (defined.store.alloc .nil).2 }

def call : Expr := .chain (.ident "f" .start) [.call [.nil] .start]

def inside : Machine := supplied.called ⟨1⟩ binder [⟨2⟩] .empty

theorem reachable_inside : Eval.Reachable inside := by
  have hdefined : Eval.exec 1 definitions start = .done .next defined := by rfl
  have hhead : Eval.eval 1 (.ident "f" .start) defined = .done ⟨1⟩ defined := by rfl
  have hargs : Eval.evalEach (Eval.eval 1) [.nil] defined = .done [⟨2⟩] supplied := by rfl
  have hf : supplied.store.get ⟨1⟩ = .function binder := by rfl
  have hcall : Eval.ComesTo (fun ex => Eval.callValue ex ⟨1⟩ [⟨2⟩] .start) (Eval.exec 1) supplied
      binder.definition.body inside := Eval.comesTo_callValue hf rfl (by decide)
  have hcomes : Eval.ComesTo (fun ex => Eval.evalStep (Eval.eval 1) ex call) (Eval.exec 1) defined
      binder.definition.body inside := by
    refine Eval.comesTo_bind_iff.mpr ⟨_, _, hhead, ?_⟩
    exact Eval.comesTo_bind_iff.mpr ⟨_, _, hargs, hcall.bind _⟩
  have hstart : Eval.Reachable start := .start none (.start _ _ _ _)
  exact .call (.executed hstart hdefined) hcomes

/-- Whatever `f` binds `x` to, a call of `g` in it ends in the same way. -/
theorem call_ignores_caller : Eval.Reachable inside ∧ inside.frame.function.isSome = true ∧
    inside.store.get ⟨0⟩ = .function reader ∧
    ∀ bindings, (Eval.callValue (Eval.exec 4) ⟨0⟩ [] .start inside).SameApartFrom
      inside.frame.locals
      (Eval.callValue (Eval.exec 4) ⟨0⟩ [] .start (inside.withLocals bindings)) := by
  refine ⟨reachable_inside, rfl, rfl, fun bindings => ?_⟩
  exact (Eval.call_independent_of_locals inside reachable_inside rfl).2 4 ⟨0⟩ [] .start bindings

end Shadow

end Stencil
