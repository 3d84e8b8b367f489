import Mathlib
import Stencil.Proofs.Eval.Concord
import Stencil.Proofs.Eval.Restored
import Stencil.Proofs.Program.Attainable
import Stencil.Proofs.Scope.Freezing
import Stencil.Proofs.Text.Utf8

/-!
Which tables execution may write to. Where no code sets attributes, a statement
binds names in the locals of the active frame and of the frames that have registered
bodies in it, and in tables that are new; all other tables hold afterwards what they
held before, however the statement ends. A call of a function, bound method or struct
and the import of a module write to new tables alone, so they leave even the locals of
their caller as they were.

The code is all that is run, danced programs included. A dance runs a text that is no
part of the program, and what it is handed it can change.
-/

namespace Stencil

/-- The tables that the bodies in reach of a frame run with. -/
def Frame.Owns (frame : Frame) (id : ScopeId) : Prop :=
  id = frame.locals ∨
    ∃ name injection, frame.injections.get? name = some injection ∧ id = injection.locals

def Store.LacksSetattr (s : Store) : Prop := ∀ v, s.get v ≠ .builtin .setattr

def Store.RunsCode (s : Store) (callee : Value) : Prop :=
  (s.target? callee).isSome = true ∨ ∃ made, s.get callee = .struct made

namespace Policy

abbrev confining (n : Nat) (except : ScopeId → Prop) : Policy .sealed := freezing nofun n except

variable {n : Nat} {except : ScopeId → Prop} {m : Machine}

theorem hosts_confining {locals : ScopeId} (h : except locals) (globals : ScopeId)
    (function : Option Value) : (confining n except).Hosts n locals globals function :=
  ⟨id, fun hfrozen => hfrozen.2 h, nofun, nofun⟩

theorem alike_confining (h : m.store.LacksSetattr) :
    (confining m.store.scopes.size except).Alike m m := by
  refine ⟨⟨rfl, rfl, rfl, rfl, Nat.le_refl _, fun _ _ => rfl, fun v => ?_⟩, rfl, rfl, rfl, rfl, rfl⟩
  refine ⟨fun _ _ => nofun, ?_⟩
  rintro - function hfunction rfl
  exact h v hfunction

theorem ready_confining (h : m.store.LacksSetattr) :
    (confining m.store.scopes.size m.frame.Owns).Ready
      (confining m.store.scopes.size m.frame.Owns).admitting m m := by
  refine ⟨alike_confining h, hosts_confining (Or.inl rfl) _ _, ?_⟩
  intro name injection hfound
  exact hosts_confining (Or.inr ⟨name, injection, hfound, rfl⟩) _ _

theorem ready_confining_any (h : m.store.LacksSetattr) :
    (confining m.store.scopes.size except).Ready .any m m :=
  ⟨alike_confining h, trivial⟩

/-- Code that is called runs in tables of its own, whatever the frame of the caller. -/
theorem runs_callValue_of_runsCode {p : Policy .sealed} {rule : FrameRule} {ex : Executor}
    (hex : Obeyed .sealed ex) (h : p.Ready rule m m) {callee : Value}
    (hcallee : m.store.RunsCode callee) (args : List Value) (pos : Position) :
    p.Runs rule (Eval.callValue ex callee args pos) m m fun _ _ => True := by
  rcases hcallee with htarget | ⟨made, hmade⟩
  · unfold Store.target? at htarget
    split at htarget
    · next f hobject =>
      refine runs_load_bind_of_get h hobject fun _ => ?_
      exact runs_callFunction hex h callee args pos (admitsInjections_empty _)
    · next receiver target hobject =>
      refine runs_load_bind_of_get h hobject fun _ => ?_
      exact runs_callFunction hex h target (receiver :: args) pos (admitsInjections_empty _)
    · cases htarget
  · refine runs_load_bind_of_get h hmade fun _ => ?_
    exact secures_instantiate hex callee args pos m m h

section Runs

variable {rule : FrameRule} {α : Type} {x : Eval α} {post : α → Machine → Prop}

theorem Runs.lacksSetattr (hrun : (confining m.store.scopes.size except).Runs rule x m m post) :
    (x m).EndsIn fun m' => m'.store.LacksSetattr := by
  have hlacks : ∀ {m₁ m₂ : Machine}, (confining m.store.scopes.size except).Ready rule m₁ m₂ →
      m₁.store.LacksSetattr :=
    fun hready v hget => (hready.store.admits v).builtin rfl _ hget rfl
  unfold Runs at hrun
  generalize x m = outcome at hrun
  cases hrun with
  | done hready _ _ => exact hlacks hready
  | fail hready _ => exact hlacks hready
  | starved => exact trivial

end Runs

end Policy

namespace Eval

/-- Every body that the computation runs passes the test of setting no attributes. -/
def SetsNoAttributes {α : Type} (fuel : Nat) (x : Executor → Eval α) (m : Machine) : Prop :=
  x (execUnder Stmt.bodyKeeps fuel) m = x (exec fuel) m

theorem obeyed_execUnder (fuel : Nat) : Policy.Obeyed .sealed (execUnder Stmt.bodyKeeps fuel) :=
  (Policy.evalUnder_and_execUnder (by decide) (fun _ hbody _ => hbody) fuel).2

theorem SetsNoAttributes.keepsTables {α : Type} {fuel : Nat} {x : Executor → Eval α} {m : Machine}
    {except : ScopeId → Prop} {rule : FrameRule} {post : α → Machine → Prop}
    (hx : SetsNoAttributes fuel x m)
    (hrun : (Policy.confining m.store.scopes.size except).Runs rule
      (x (execUnder Stmt.bodyKeeps fuel)) m m post) :
    (x (exec fuel) m).EndsIn fun m' => m'.store.LacksSetattr ∧ m.KeepsTables except m' := by
  rw [← hx]
  exact hrun.lacksSetattr.and hrun.keepsTables

section Calls

variable {fuel : Nat} {m : Machine} (hm : m.store.LacksSetattr)

include hm

/-- A body that sets no attributes leaves all tables alone but those of its frame. -/
theorem exec_keepsTables {body : List Stmt} (hbody : SetsNoAttributes fuel (fun ex => ex body) m) :
    (exec fuel body m).EndsIn fun m' => m'.store.LacksSetattr ∧ m.KeepsTables m.frame.Owns m' :=
  hbody.keepsTables (obeyed_execUnder fuel body _ m m (Policy.ready_confining hm))

/-- Code that is called runs in tables of its own, whatever the frame of the caller. -/
theorem callValue_keepsTables {callee : Value} {args : List Value} {pos : Position}
    (hcallee : m.store.RunsCode callee)
    (hcall : SetsNoAttributes fuel (fun ex => callValue ex callee args pos) m) :
    (callValue (exec fuel) callee args pos m).EndsIn
      fun m' => m'.store.LacksSetattr ∧ m.KeepsTables (fun _ => False) m' := by
  exact hcall.keepsTables (Policy.runs_callValue_of_runsCode (obeyed_execUnder fuel)
    (Policy.ready_confining_any hm) hcallee args pos)

/-- An import that sets no attributes leaves all tables alone. -/
theorem importModule_keepsTables {path : String} {pos : Position}
    (himport : SetsNoAttributes fuel (fun ex => importModule ex path pos) m) :
    (importModule (exec fuel) path pos m).EndsIn
      fun m' => m'.store.LacksSetattr ∧ m.KeepsTables (fun _ => False) m' :=
  himport.keepsTables (Policy.secures_importModule (obeyed_execUnder fuel) path pos m m
    (Policy.ready_confining_any hm))

end Calls

/-! What an import binds. -/

end Eval

structure Machine.Binds (m : Machine) (names : List String) (m' : Machine) : Prop where
  frame : m'.frame = m.frame
  scope : ∀ id, id ≠ m.frame.locals → m'.store.scope id = m.store.scope id
  lookup : ∀ name, name ∉ names →
    m'.store.lookup m.frame.locals name = m.store.lookup m.frame.locals name

/-- The tables that exist hold what they held, up to some names in the locals of the
active frame. -/
structure Machine.KeepsNames (m : Machine) (names : List String) (m' : Machine) : Prop where
  tables : m.KeepsTables (· = m.frame.locals) m'
  lookup : m.frame.locals.index < m.store.scopes.size → ∀ name, name ∉ names →
    m'.store.lookup m.frame.locals name = m.store.lookup m.frame.locals name

theorem Machine.Binds.refl (m : Machine) (names : List String) : m.Binds names m :=
  ⟨rfl, fun _ _ => rfl, fun _ _ => rfl⟩

theorem Machine.Binds.trans {m m' m'' : Machine} {names : List String} (h : m.Binds names m')
    (h' : m'.Binds names m'') : m.Binds names m'' := by
  refine ⟨h'.frame.trans h.frame, fun id hid => ?_, fun name hname => ?_⟩
  · rw [h'.scope id (by rwa [h.frame]), h.scope id hid]
  · have hlookup := h'.lookup name hname
    rw [h.frame] at hlookup
    rw [hlookup, h.lookup name hname]

/-- Tables that were kept, and then names that were bound. -/
theorem Machine.KeepsTables.binds {m m' m'' : Machine} {names : List String}
    (h : m.KeepsTables (fun _ => False) m') (hframe : m'.frame = m.frame)
    (hbinds : m'.Binds names m'') : m.KeepsNames names m'' := by
  constructor
  · intro id hlt hid
    rw [hbinds.scope id (by rwa [hframe]), h id hlt False.elim]
  · intro hlt name hname
    have hlookup := hbinds.lookup name hname
    rw [hframe] at hlookup
    rw [hlookup, Store.lookup, Store.lookup, h _ hlt False.elim]

namespace Eval

theorem bindLocal_binds (name : String) (v : Value) {names : List String} (hname : name ∈ names)
    (m : Machine) : (bindLocal name v m).EndsIn (m.Binds names) := by
  refine ⟨rfl, fun id hid => Store.scope_updateScope_of_ne m.store hid _, ?_⟩
  intro other hother
  have hne : other ≠ name := by
    rintro rfl
    exact hother hname
  exact Store.lookup_bindName_of_ne m.store m.frame.locals v hne

theorem bindNames_binds (scope : ScopeId) (path : String) (pos : Position)
    {names : List ImportName} {bound : List String} (hnames : ∀ n ∈ names, n.bound ∈ bound)
    (m : Machine) : (bindNames scope path pos names m).EndsIn (m.Binds bound) := by
  induction names generalizing m with
  | nil => exact .refl m bound
  | cons n rest ih =>
    obtain ⟨hn, hrest⟩ := List.forall_mem_cons.mp hnames
    unfold bindNames
    change (Eval.bind (Eval.read _) _ m).EndsIn _
    simp only [Eval.bind, Eval.read]
    cases m.store.lookup scope n.name with
    | none => exact .refl m bound
    | some v =>
      refine ends_bind (bindLocal_binds n.bound v hn m) ?_ (fun _ h => h) fun _ h => h
      intro _ m' hm'
      exact (ih hrest m').mono (fun _ h => hm'.trans h) fun _ h => h

section Import

variable {fuel : Nat} {m : Machine} (hm : m.store.LacksSetattr) {path : String} {pos : Position}
  (himport : SetsNoAttributes fuel (fun ex => importModule ex path pos) m)

include hm himport

theorem importModule_keepsTables_and_frame : (importModule (exec fuel) path pos m).EndsIn
    fun m' => m.KeepsTables (fun _ => False) m' ∧ m'.frame = m.frame := by
  have htables := importModule_keepsTables hm himport
  have hback := (restoring_discipline.importModule path pos fun program =>
    (growing_exec fuel program).bind growing_settle).endsIn m
  cases hrun : importModule (exec fuel) path pos m with
  | done v m' =>
    rw [hrun] at htables hback
    exact ⟨htables.2, hback.frame⟩
  | fail d m' =>
    rw [hrun] at htables hback
    exact ⟨htables.2, hback.frame⟩
  | starved m' => exact trivial

/-- An import binds the name of the module and nothing else. -/
theorem importAs_keepsNames (name : String) :
    (importAs (exec fuel) path name pos m).EndsIn (m.KeepsNames [name]) := by
  refine ends_bind (importModule_keepsTables_and_frame hm himport) ?_ ?_ fun _ h => h
  · rintro v m' ⟨htables, hframe⟩
    have hbinds := bindLocal_binds name v (List.mem_singleton.mpr rfl) m'
    exact hbinds.mono (fun _ h => htables.binds hframe h) fun _ h => h
  · rintro m' ⟨htables, hframe⟩
    exact htables.binds hframe (.refl m' _)

/-- An import of members binds their names and nothing else. -/
theorem importFrom_keepsNames (names : List ImportName) :
    (importFrom (exec fuel) path names pos m).EndsIn
      (m.KeepsNames (names.map ImportName.bound)) := by
  refine ends_bind (importModule_keepsTables_and_frame hm himport) ?_ ?_ fun _ h => h
  · rintro v m' ⟨htables, hframe⟩
    change (Eval.bind (Eval.load v) _ m').EndsIn _
    simp only [Eval.bind, Eval.load]
    cases m'.store.get v with
    | module path' scope =>
      have hbound : ∀ n ∈ names, n.bound ∈ names.map ImportName.bound :=
        fun n hn => List.mem_map_of_mem hn
      have hbinds := bindNames_binds scope path pos hbound m'
      exact hbinds.mono (fun _ h => htables.binds hframe h) fun _ h => h
    | _ => exact htables.binds hframe (.refl m' _)
  · rintro m' ⟨htables, hframe⟩
    exact htables.binds hframe (.refl m' _)

end Import

/-- Where no code sets attributes, execution writes to the locals of the active frame,
to those of bodies registered in it and to new tables. Calls and imports write to new
tables, and an import statement binds its names besides. -/
theorem execution_keeps_tables (fuel : Nat) (m : Machine) (hm : m.store.LacksSetattr) :
    (∀ body, SetsNoAttributes fuel (fun ex => ex body) m →
      (exec fuel body m).EndsIn
        fun m' => m'.store.LacksSetattr ∧ m.KeepsTables m.frame.Owns m') ∧
    (∀ callee args pos, m.store.RunsCode callee →
      SetsNoAttributes fuel (fun ex => callValue ex callee args pos) m →
      (callValue (exec fuel) callee args pos m).EndsIn
        fun m' => m'.store.LacksSetattr ∧ m.KeepsTables (fun _ => False) m') ∧
    (∀ path pos, SetsNoAttributes fuel (fun ex => importModule ex path pos) m →
      (importModule (exec fuel) path pos m).EndsIn
        (fun m' => m'.store.LacksSetattr ∧ m.KeepsTables (fun _ => False) m') ∧
      (∀ name, (importAs (exec fuel) path name pos m).EndsIn (m.KeepsNames [name])) ∧
      ∀ names, (importFrom (exec fuel) path names pos m).EndsIn
        (m.KeepsNames (names.map ImportName.bound))) := by
  refine ⟨?_, ?_, ?_⟩
  · intro body hbody
    exact exec_keepsTables hm hbody
  · intro callee args pos hcallee hcall
    exact callValue_keepsTables hm hcallee hcall
  · intro path pos himport
    exact ⟨importModule_keepsTables hm himport, importAs_keepsNames hm himport,
      importFrom_keepsNames hm himport⟩

end Eval

/-! Code that sets no attributes. -/

namespace Charter

/-- If all bodies that the charter admits pass the test, no run stops at one. -/
theorem concur_under {c : Charter} {test : List Stmt → Bool} (hendless : c.endless = true)
    (hall : ∀ program, c.test program = true)
    (htest : ∀ {file spot body}, c.Admits file spot body → test body = true) (fuel : Nat) :
    c.Concur (Eval.eval fuel) (Eval.evalUnder test fuel) (Eval.exec fuel)
      (Eval.execUnder test fuel) := by
  induction fuel with
  | zero => exact ⟨fun _ _ _ => by rw [Eval.evalUnder, Eval.eval],
      fun _ _ _ => by rw [Eval.execUnder, Eval.exec]⟩
  | succ fuel ih =>
    have hg := c.governs_eval_and_exec hendless hall fuel
    constructor
    · rintro e m ⟨he, site, hm⟩
      rw [Eval.evalUnder, Eval.eval]
      exact ih.evalStep hg he hm
    · rintro body m ⟨site, spot, hm, hbody, hspot⟩
      rw [Eval.execUnder, htest hbody, if_pos rfl, Eval.exec]
      exact hg.execEach_eq hall hbody hspot fuel
        (fun stmt hstmt m hm => ih.execStep hg hall hstmt hspot fuel hm) hm

end Charter

namespace Eval

section Attainable

variable {m : Machine} (hm : m.IsClosed) {body : List Stmt}
  (hcode : ∀ file placed, Attainable m body file placed →
    placed.2.keepsAttributes = true ∧ placed.2.isClosed = true)

include hcode

theorem concur_attainable (fuel : Nat) :
    (Charter.attainable fun file placed h => (hcode file placed h).2).Concur (eval fuel)
      (evalUnder Stmt.bodyKeeps fuel) (exec fuel) (execUnder Stmt.bodyKeeps fuel) := by
  refine Charter.concur_under rfl (fun _ => rfl) (fun {file spot body'} hadmits => ?_) fuel
  refine Mode.allows_bodyKeeps.mpr (fun stmt hstmt _ => ?_) rfl
  have hplaced : (spot, stmt) ∈ statements spot body' :=
    mem_statements_iff.mpr ⟨stmt, hstmt, Or.inl rfl⟩
  exact (hcode file _ (hadmits.allows _ hplaced)).1

include hm

/-- A run sets no attributes if no statement does that it can come to, and if it can come to
no other text. -/
theorem setsNoAttributes_exec (fuel : Nat) : SetsNoAttributes fuel (fun ex => ex body) m :=
  (concur_attainable hcode fuel).body _ _ ⟨_, _, Charter.attainable_abides _ hm,
    Charter.attainable_admits _, rfl⟩

/-- So does a call of a value. -/
theorem setsNoAttributes_callValue (fuel : Nat) (callee : Value) (args : List Value)
    (pos : Position) : SetsNoAttributes fuel (fun ex => callValue ex callee args pos) m :=
  (concur_attainable hcode fuel).construct
    (Charter.governs_eval_and_exec rfl (fun _ => rfl) fuel)
    (fun h => matches_callValue h callee args pos)
    (fun hex => Charter.runs_callValue hex callee args pos) (Charter.attainable_abides _ hm)

/-- So does the import of a module by a statement of the body. -/
theorem setsNoAttributes_importModule (fuel : Nat) {stmt : Stmt} {path : String}
    (hstmt : stmt ∈ body) (hpath : stmt.path? = some path) (pos : Position) :
    SetsNoAttributes fuel (fun ex => importModule ex path pos) m :=
  (concur_attainable hcode fuel).construct
    (Charter.governs_eval_and_exec rfl (fun _ => rfl) fuel)
    (fun h => matches_importModule h path pos)
    (fun hex => Charter.runs_importModule_of_all (fun _ => rfl) hex
      ((Charter.attainable_admits _).stmt hstmt).allows hpath pos)
    (Charter.attainable_abides _ hm)

end Attainable

/-! Evaluation step by step. -/

/-- A statement that is one expression. -/
theorem exec_expression {fuel : Nat} {e : Expr} {m m' : Machine} {v : Value}
    (h : eval fuel e m = .done v m') (pos : Position) :
    exec (fuel + 1) [.formula (.parallel [[e]]) pos] m = .done .next m' := by
  have hformula : evalFormula (eval fuel) (.parallel [[e]]) m = .done v m' :=
    bind_eq_done_iff.mpr ⟨v, m', h, rfl⟩
  have hstep : execStep (eval fuel) (exec fuel) fuel (.formula (.parallel [[e]]) pos) m =
      .done .next m' :=
    bind_eq_done_iff.mpr ⟨(), m', bind_eq_done_iff.mpr ⟨v, m', hformula, rfl⟩, rfl⟩
  rw [exec, execEach]
  exact bind_eq_done_iff.mpr ⟨.next, m', hstep, rfl⟩

theorem eval_call {fuel : Nat} {name : String} {pos place : Position} {args : List Expr}
    {m m₁ m₂ m₃ : Machine} {callee v : Value} {vs : List Value}
    (hcallee : eval fuel (.ident name place) m = .done callee m₁)
    (hargs : evalEach (eval fuel) args m₁ = .done vs m₂)
    (hcall : callValue (exec fuel) callee vs pos m₂ = .done v m₃) :
    eval (fuel + 1) (.chain (.ident name place) [.call args pos]) m = .done v m₃ := by
  rw [eval]
  refine bind_eq_done_iff.mpr ⟨callee, m₁, hcallee, bind_eq_done_iff.mpr ⟨vs, m₂, hargs, ?_⟩⟩
  exact bind_eq_done_iff.mpr ⟨v, m₃, hcall, rfl⟩

theorem runApart_of_done {ex : Executor} {context : Context} {program : Program}
    {m inner : Machine} (h : (ex program >>= settle)
      ⟨m.store, context, .top context.globals none, m.depth + 1, false, m.library⟩ =
        .done () inner) :
    runApart ex context program m =
      .done ⟨inner.context, none⟩ { m with store := inner.store } := by
  change Eval.bind (ex program) settle _ = _ at h
  simp only [runApart, h]

/-- What a danced program does to the tables stays. -/
theorem dance_of_done {ex : Executor} {code names : Value} {source : String} {table : Dict Value}
    {program : Program} {m inner : Machine} (hcode : m.store.get code = .str source)
    (hnames : m.store.get names = .dict table) (hprogram : Program.ofSource source = .ok program)
    (hrun : (ex program >>= settle)
      ⟨(m.store.newScope table).2, .fresh (m.store.newScope table).1 m.context.lineEnding .none,
        .top (m.store.newScope table).1 none, m.depth + 1, false, m.library⟩ = .done () inner)
    (pos : Position) :
    ∃ v m', dance ex [code, names] pos m = .done v m' ∧ m'.store.scopes = inner.store.scopes := by
  have hload : load code m = .done (.str source) m := by rw [← hcode]; rfl
  have hload' : load names m = .done (.dict table) m := by rw [← hnames]; rfl
  have hdict : danceNames [names] pos m = .done table m :=
    bind_eq_done_iff.mpr ⟨_, _, hload', rfl⟩
  have hsource : danceSource ex source table m =
      .done ⟨inner.context, none⟩ { m with store := inner.store } := by
    refine bind_eq_done_iff.mpr ⟨_, _, rfl, bind_eq_done_iff.mpr ⟨_, _, rfl, ?_⟩⟩
    rw [hprogram]
    exact runApart_of_done hrun
  exact ⟨_, _, bind_eq_done_iff.mpr ⟨_, _, hload, bind_eq_done_iff.mpr ⟨_, _, hdict,
    bind_eq_done_iff.mpr ⟨_, _, hsource, rfl⟩⟩⟩, rfl⟩

end Eval

/-- What holds of nil and of all objects holds of all values. -/
theorem Store.get_of_forall_mem {s : Store} (p : Object → Prop) (hnil : p .nil)
    (h : ∀ object ∈ s.objects, p object) (v : Value) : p (s.get v) := by
  by_cases hlt : v.index < s.objects.size
  · have hget : s.get v = s.objects[v.index] := by simp [Store.get, hlt]
    rw [hget]
    exact h _ (Array.getElem_mem hlt)
  · have hget : s.get v = .nil := by simp [Store.get, hlt]
    rwa [hget]

/-! A program that makes an instance and hands it to a danced program, which sets its
attribute. -/

namespace Loan

open Eval

def fieldOfOne : List Stmt := [.formula (.assignments [[.ident "x" .start, .int 1]]) .start]

def setup : List Stmt :=
  [.struct "S" fieldOfOne .start,
    .formula (.assignments
      [[.ident "s" .start, .chain (.ident "S" .start) [.call [] .start]]]) .start]

def prepared : Machine where
  store :=
    { objects := #[.nil, .int 1, .struct ⟨⟨"S", fieldOfOne⟩, ⟨1⟩, ⟨0⟩, none⟩, .nil, .nil, .int 1,
        .instance ⟨2⟩ ⟨2⟩]
      scopes := #[.ofList [("S", ⟨2⟩), ("s", ⟨6⟩)], .ofList [("x", ⟨1⟩)], .ofList [("x", ⟨5⟩)]]
      files := ⟨[], .empty⟩ }
  context := .fresh ⟨0⟩ .lf .none
  frame := .top ⟨0⟩ none
  depth := 0
  inReference := false
  library := ""

def declared : Machine :=
  { prepared with
    store :=
      { prepared.store with
        objects := #[.nil, .int 1, .struct ⟨⟨"S", fieldOfOne⟩, ⟨1⟩, ⟨0⟩, none⟩]
        scopes := #[.ofList [("S", ⟨2⟩)], .ofList [("x", ⟨1⟩)]] } }

theorem exec_setup : exec 6 setup ((Session.start ⟨[], .empty⟩ "" .lf .none).machine none) =
    .done .next prepared := by
  rw [exec, setup, execEach]
  refine bind_eq_done_iff.mpr ⟨.next, declared, rfl, ?_⟩
  dsimp only
  rw [execEach]
  exact bind_eq_done_iff.mpr ⟨.next, prepared, rfl, rfl⟩

theorem lacksSetattr_prepared : prepared.store.LacksSetattr :=
  Store.get_of_forall_mem (· ≠ .builtin .setattr) nofun (by simp [prepared])

def extended : Machine :=
  { prepared with
    store :=
      { prepared.store with
        objects := prepared.store.objects ++ #[.nil, .int 1, .instance ⟨2⟩ ⟨3⟩]
        scopes := prepared.store.scopes.push (.ofList [("x", ⟨8⟩)]) } }

/-- A call of the struct type runs no body at all that sets attributes. -/
theorem setsNoAttributes_call :
    SetsNoAttributes 6 (fun ex => callValue ex ⟨2⟩ [] .start) prepared := by
  have htested : callValue (execUnder Stmt.bodyKeeps 6) ⟨2⟩ [] .start prepared =
      .done ⟨9⟩ extended := rfl
  have hplain : callValue (exec 6) ⟨2⟩ [] .start prepared = .done ⟨9⟩ extended := rfl
  exact htested.trans hplain.symm

def stockText : String := "\x7b@def f():return 1 end v=f()@\x7d"

def stock : Program :=
  [.function "f" [] none false [.return (some (.parallel [[.int 1]])) ⟨10, 1⟩] ⟨2, 1⟩,
    .formula (.assignments
      [[.ident "v" ⟨23, 1⟩, .chain (.ident "f" ⟨25, 1⟩) [.call [] ⟨26, 1⟩]]]) ⟨23, 1⟩]

theorem ofSource_stock : Program.ofSource stockText = .ok stock := by
  have htokens : (tokenize stockText).toOption = some
      [⟨.codeOpen, ⟨0, 1⟩⟩, ⟨.word .defKw, ⟨2, 1⟩⟩, ⟨.ident "f", ⟨6, 1⟩⟩,
        ⟨.punct .lparen, ⟨7, 1⟩⟩, ⟨.punct .rparen, ⟨8, 1⟩⟩, ⟨.punct .colon, ⟨9, 1⟩⟩,
        ⟨.word .returnKw, ⟨10, 1⟩⟩, ⟨.int 1, ⟨17, 1⟩⟩, ⟨.word .endKw, ⟨19, 1⟩⟩,
        ⟨.ident "v", ⟨23, 1⟩⟩, ⟨.assign, ⟨24, 1⟩⟩, ⟨.ident "f", ⟨25, 1⟩⟩,
        ⟨.punct .lparen, ⟨26, 1⟩⟩, ⟨.punct .rparen, ⟨27, 1⟩⟩, ⟨.codeClose, ⟨28, 1⟩⟩] := by
    decide +kernel
  rw [Program.ofSource_of_tokens htokens]
  rfl

def stocked : Machine :=
  { prepared with store := prepared.store.setFiles ⟨[], .ofList [("/m", .file stockText.toUTF8)]⟩ }

def importing : List Stmt := [.importAs "/m" "m" .start]

theorem readText?_module : stocked.store.files.readText? "/m" = some stockText := by
  have hcontent (bytes : ByteArray) :
      (FileTree.mk [] (.ofList [("/m", .file bytes)])).content? "/m" = some bytes := by cbv
  change (FileTree.mk [] _).readText? "/m" = _
  rw [FileTree.readText?, hcontent, Option.bind_some, Text.ofUtf8?_toUTF8]

theorem findModule?_module (importer : Option String) :
    stocked.store.files.findModule? stocked.library importer "/m" = some "/m" :=
  FileTree.findModule?_eq_self (by cbv) (by cbv) "" importer

/-- The session holds no code yet. -/
theorem isClosed_stocked : stocked.IsClosed where
  dance := Store.get_of_forall_mem (· ≠ .builtin .dance) nofun
    (by simp [stocked, prepared, Store.setFiles])
  openFile := Store.get_of_forall_mem (· ≠ .builtin .openFile) nofun
    (by simp [stocked, prepared, Store.setFiles])
  fileless := Store.get_of_forall_mem (·.isFile = false) rfl
    (by simp [stocked, prepared, Store.setFiles, Object.isFile])
  injections := nofun

/-- The statement sets no attributes and leads to no text but that of the module. -/
def isHarmless (stmt : Stmt) : Bool :=
  stmt.keepsAttributes && stmt.isClosed && stmt.path?.all (· = "/m")

theorem isHarmless_iff {stmt : Stmt} : isHarmless stmt = true ↔
    (stmt.keepsAttributes = true ∧ stmt.isClosed = true) ∧ ∀ path ∈ stmt.path?, path = "/m" := by
  unfold isHarmless
  cases stmt.path? with
  | none => simp
  | some path => simp

theorem isHarmless_of_attainable {file : Option String} {placed : Spot × Stmt}
    (h : Attainable stocked importing file placed) : isHarmless placed.2 = true := by
  have hfunction := Store.get_of_forall_mem (s := stocked.store)
    (fun object => ∀ f, object ≠ .function f) nofun (by simp [stocked, prepared, Store.setFiles])
  have hstruct := Store.get_of_forall_mem (s := stocked.store)
    (fun object => ∀ type, object = .struct type → type.definition.body = fieldOfOne) nofun
    (by simp +contextual [stocked, prepared, Store.setFiles])
  induction h with
  | body hmem =>
    have hall : ((statements ⟨false, false⟩ importing).all (isHarmless ·.2)) = true := by cbv
    exact List.all_eq_true.mp hall _ hmem
  | function hget _ => exact absurd hget (hfunction _ _)
  | struct hget hmem =>
    rw [hstruct _ _ hget] at hmem
    have hall : ((statements .top fieldOfOne).all (isHarmless ·.2)) = true := by cbv
    exact List.all_eq_true.mp hall _ hmem
  | injection hfound _ => cases hfound
  | module _ hpath hfound hread hparse hmem ih =>
    obtain rfl := (isHarmless_iff.mp ih).2 _ hpath
    rw [findModule?_module] at hfound
    cases hfound
    rw [readText?_module] at hread
    cases hread
    rw [ofSource_stock] at hparse
    cases hparse
    have hall : ((statements .top stock).all (isHarmless ·.2)) = true := by cbv
    exact List.all_eq_true.mp hall _ hmem

/-- The import of the module comes to its statements only, and they set no attributes. -/
theorem setsNoAttributes_import (fuel : Nat) :
    SetsNoAttributes fuel (fun ex => importModule ex "/m" .start) stocked :=
  setsNoAttributes_importModule isClosed_stocked
    (fun _ _ h => (isHarmless_iff.mp (isHarmless_of_attainable h)).1) fuel
    (List.mem_singleton.mpr rfl) rfl .start

/-- One more instance is made and a module is imported, and no table that existed is
touched. -/
theorem instance_keeps_tables : (prepared.store.LacksSetattr ∧ prepared.store.RunsCode ⟨2⟩ ∧
      SetsNoAttributes 6 (fun ex => callValue ex ⟨2⟩ [] .start) prepared ∧
      (callValue (exec 6) ⟨2⟩ [] .start prepared).EndsIn fun m' =>
        m'.store.LacksSetattr ∧ prepared.KeepsTables (fun _ => False) m') ∧
    ∀ fuel, SetsNoAttributes fuel (fun ex => importModule ex "/m" .start) stocked ∧
      (importModule (exec fuel) "/m" .start stocked).EndsIn fun m' =>
        m'.store.LacksSetattr ∧ stocked.KeepsTables (fun _ => False) m' := by
  have hcode : prepared.store.RunsCode ⟨2⟩ := Or.inr ⟨_, rfl⟩
  refine ⟨⟨lacksSetattr_prepared, hcode, setsNoAttributes_call, ?_⟩, fun fuel => ?_⟩
  · exact (execution_keeps_tables 6 prepared lacksSetattr_prepared).2.1 ⟨2⟩ [] .start hcode
      setsNoAttributes_call
  · obtain ⟨hend, -⟩ := (execution_keeps_tables fuel stocked lacksSetattr_prepared).2.2 "/m"
      .start (setsNoAttributes_import fuel)
    exact ⟨setsNoAttributes_import fuel, hend⟩

def source : String := "\x7b@ s.x = 2 @\x7d"

def program : Program :=
  [.formula (.assignments [[.chain (.ident "s" ⟨3, 1⟩) [.attr "x" ⟨4, 1⟩], .int 2]]) ⟨3, 1⟩]

theorem ofSource_source : Program.ofSource source = .ok program := by
  have htokens : tokenize source = .ok [⟨.codeOpen, ⟨0, 1⟩⟩, ⟨.ident "s", ⟨3, 1⟩⟩,
      ⟨.punct .dot, ⟨4, 1⟩⟩, ⟨.ident "x", ⟨5, 1⟩⟩, ⟨.assign, ⟨7, 1⟩⟩, ⟨.int 2, ⟨9, 1⟩⟩,
      ⟨.codeClose, ⟨11, 1⟩⟩] := rfl
  rw [Program.ofSource, htokens]
  rfl

def args : List Expr := [.str source, .dict [(.str "s", .ident "s" .start)] .start]

def dancing : Stmt :=
  .formula (.parallel [[.chain (.ident "dance" .start) [.call args .start]]]) .start

def lent : Dict Value := .ofList [("s", ⟨6⟩)]

def called : Machine :=
  { prepared with store := (prepared.store.alloc (.builtin .dance)).2 }

def supplied : Machine :=
  { called with
    store :=
      { called.store with
        objects := called.store.objects ++ #[.str source, .str "s", .dict lent] } }

/-- No statement of the program sets an attribute, and yet its last statement changes a
table that is not its frame's. -/
theorem dance_changes_table : Stmt.bodyKeeps (setup ++ [dancing]) = true ∧
    exec 6 setup ((Session.start ⟨[], .empty⟩ "" .lf .none).machine none) =
      .done .next prepared ∧
    ∃ m', exec 6 [dancing] prepared = .done .next m' ∧
      ¬prepared.KeepsTables prepared.frame.Owns m' := by
  refine ⟨rfl, exec_setup, ?_⟩
  have hcallee : eval 4 (.ident "dance" .start) prepared = .done ⟨7⟩ called := rfl
  have hargs : evalEach (eval 4) args called = .done [⟨8⟩, ⟨10⟩] supplied := rfl
  obtain ⟨inner, hrun, hx⟩ : ∃ inner : Machine, (exec 4 program >>= settle)
      ⟨(supplied.store.newScope lent).2,
        .fresh (supplied.store.newScope lent).1 supplied.context.lineEnding .none,
        .top (supplied.store.newScope lent).1 none, supplied.depth + 1, false, supplied.library⟩ =
        .done () inner ∧ (inner.store.scope ⟨2⟩).get? "x" = some ⟨12⟩ := ⟨_, rfl, rfl⟩
  have hcode : supplied.store.get ⟨8⟩ = .str source := rfl
  have hnames : supplied.store.get ⟨10⟩ = .dict lent := rfl
  obtain ⟨v, m', hdance, hscopes⟩ := dance_of_done hcode hnames ofSource_source hrun .start
  have hcall : callValue (exec 4) ⟨7⟩ [⟨8⟩, ⟨10⟩] .start supplied = .done v m' :=
    bind_eq_done_iff.mpr ⟨_, _, rfl, hdance⟩
  refine ⟨m', exec_expression (eval_call hcallee hargs hcall) .start, fun hkeeps => ?_⟩
  have howns : ¬prepared.frame.Owns ⟨2⟩ := by
    rintro (heq | ⟨name, injection, hfound, -⟩)
    · cases heq
    · cases hfound
  have hsame : m'.store.scope ⟨2⟩ = prepared.store.scope ⟨2⟩ := hkeeps ⟨2⟩ (by decide) howns
  have hscope : m'.store.scope ⟨2⟩ = inner.store.scope ⟨2⟩ := by
    rw [Store.scope, hscopes, Store.scope]
  rw [← hscope, hsame] at hx
  exact absurd hx (by decide)

end Loan

end Stencil
