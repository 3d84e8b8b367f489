import Stencil.Proofs.Eval.Laws
import Stencil.Proofs.Grammar.Complaints
import Stencil.Proofs.Program.Placement

/-!
Runs of code that keeps to a charter. A charter says what each statement may be, in
view of what it stands in and of the file it comes from, and the objects of a store
keep to it if the bodies of its functions and struct types do. No statement may name
`dance`, so all code that runs comes from a program or a module. Then a run keeps to
the charter from beginning to end. What it ends with depends on where it takes place:
a signal comes out of a body only if the body stands in what catches it, and the fuel
is spent only if there is less of it than the levels that are left and the size of
the code call for.
-/

namespace Stencil

namespace Eval

/-- Modules are run only if their programs pass the test. -/
def vetted (test : Program → Bool) (ex : Executor) : Executor := fun program =>
  if test program then ex program else starve

def vettedStep (test : Program → Bool) (ev : Evaluator) (ex : Executor) (rounds : Nat) :
    Stmt → Eval Flow
  | .importAs path name pos => thenNext (importAs (vetted test ex) path name pos)
  | .importFrom path names pos => thenNext (importFrom (vetted test ex) path names pos)
  | stmt => execStep ev ex rounds stmt

mutual

def evalVetted (test : Program → Bool) : Nat → Expr → Eval Value
  | 0, _ => starve
  | fuel + 1, e => evalStep (evalVetted test fuel) (execVetted test fuel) e

def execVetted (test : Program → Bool) : Nat → List Stmt → Eval Flow
  | 0, _ => starve
  | fuel + 1, body =>
    execEach (vettedStep test (evalVetted test fuel) (execVetted test fuel) fuel) body

end

theorem vetted_of_all {test : Program → Bool} (h : ∀ program, test program = true)
    (ex : Executor) : vetted test ex = ex := by
  funext program
  rw [vetted, h, if_pos rfl]

/-- A test that everything passes changes nothing in a statement. -/
theorem vettedStep_of_all {test : Program → Bool} (h : ∀ program, test program = true)
    (ev : Evaluator) (ex : Executor) (rounds : Nat) :
    vettedStep test ev ex rounds = execStep ev ex rounds := by
  have hvetted := vetted_of_all h ex
  funext stmt
  cases stmt with
  | importAs path name pos => rw [vettedStep, hvetted, execStep]
  | importFrom path names pos => rw [vettedStep, hvetted, execStep]
  | _ => rfl

/-- A test that everything passes changes nothing. -/
theorem evalVetted_and_execVetted_of_all {test : Program → Bool}
    (h : ∀ program, test program = true) (fuel : Nat) :
    evalVetted test fuel = eval fuel ∧ execVetted test fuel = exec fuel := by
  induction fuel with
  | zero =>
    constructor
    · funext e
      rw [evalVetted, eval]
    · funext body
      rw [execVetted, exec]
  | succ fuel ih =>
    constructor
    · funext e
      rw [evalVetted, eval, ih.1, ih.2]
    · funext body
      rw [execVetted, exec, ih.1, ih.2, vettedStep_of_all h]

end Eval

/-- A complaint about a text is about no signal. -/
theorem Diagnostic.isStray_of_isAboutText {d : Diagnostic} (h : d.isAboutText = true) :
    d.isStray = false := by
  unfold isAboutText at h
  unfold isStray
  split at h
  · next hcause => rw [hcause]
  · next hcause => rw [hcause]
  · cases h

/-- What code may be. -/
structure Charter where
  /-- Runs may go on for ever. -/
  endless : Bool
  /-- Signals may go stray. -/
  strays : Bool
  /-- The files, unless they may be opened and changed. -/
  files : Option FileTree
  library : String
  /-- What a statement of the code of a file may be. -/
  allows : Option String → Spot × Stmt → Prop
  /-- How large a body may be, unless runs may go on for ever. -/
  size : Nat
  /-- Which modules may be run. -/
  test : Program → Bool
  endless_of_isLoop : ∀ {file spot stmt}, allows file (spot, stmt) → stmt.isLoop = true →
    endless = true
  isPlaced : ∀ {file spot stmt}, allows file (spot, stmt) →
    strays = true ∨ stmt.isPlaced spot = true
  not_dance : ∀ {file spot stmt}, allows file (spot, stmt) → ∀ name ∈ stmt.names,
    Builtin.ofName? name ≠ some .dance
  not_open : ∀ {file spot stmt}, allows file (spot, stmt) → ∀ name ∈ stmt.names,
    Builtin.ofName? name = some .openFile → files = none
  endless_or_test : endless = true ∨ ∀ program, test program = true
  /-- The modules that a statement may import keep to the charter. -/
  module : ∀ {spot stmt path file source program} {m m' : Machine}, m.library = library →
    (∀ tree ∈ files, m.store.files = tree ∧ m'.store.files = tree) →
    allows m.frame.file (spot, stmt) → stmt.path? = some path → m.resolve? path = some file →
    m'.store.files.readText? file = some source → Program.ofSource source = .ok program →
    test program = true →
    (endless = true ∨ sizeOf program ≤ size) ∧
      ∀ placed ∈ statements .top program, allows (some file) placed

structure Site where
  file : Option String
  inFunction : Bool
  depth : Nat

namespace Charter

variable (c : Charter)

structure Admits (file : Option String) (spot : Spot) (body : List Stmt) : Prop where
  size : c.endless = true ∨ sizeOf body ≤ c.size
  allows : ∀ placed ∈ statements spot body, c.allows file placed

structure AdmitsStmt (file : Option String) (spot : Spot) (stmt : Stmt) : Prop where
  allows : c.allows file (spot, stmt)
  inner : ∀ piece ∈ stmt.inner spot, c.Admits file piece.1 piece.2

def AdmitsObject : Object → Prop
  | .function f => c.Admits f.file .ofFunction f.definition.body
  | .struct type => c.Admits type.file .top type.definition.body
  | .builtin .dance => False
  | .builtin .openFile => c.files = none
  | _ => True

structure AdmitsInjection (injection : Injection) : Prop where
  function : injection.function.isSome = true
  body : c.Admits injection.file .ofFunction injection.body

structure AdmitsStore (s : Store) : Prop where
  code : ∀ v, c.AdmitsObject (s.get v)
  files : ∀ tree ∈ c.files, s.files = tree ∧ s.Fileless

structure AdmitsFrame (site : Site) (frame : Frame) : Prop where
  file : frame.file = site.file
  function : frame.function.isSome = site.inFunction
  injections : ∀ name injection, frame.injections.get? name = some injection →
    site.inFunction = true ∧ c.AdmitsInjection injection

structure Abides (site : Site) (m : Machine) : Prop where
  store : c.AdmitsStore m.store
  frame : c.AdmitsFrame site m.frame
  depth : m.depth = site.depth
  library : m.library = c.library

/-- The machine of the outcome keeps to the charter, and a result has the property. Where
the fuel is spent, nothing is known of the machine but its library. -/
def Ends {α : Type} (site : Site) (post : α → Prop) : Outcome α → Prop
  | .done a m => c.Abides site m ∧ post a
  | .fail d m => c.Abides site m ∧ (c.strays = true ∨ d.isStray = false)
  | .starved m => c.endless = true ∧ m.library = c.library

def Runs {α : Type} (site : Site) (post : α → Prop) (x : Eval α) : Prop :=
  ∀ m, c.Abides site m → c.Ends site post (x m)

variable {c}

theorem Admits.stmt {file : Option String} {spot : Spot} {body : List Stmt}
    (h : c.Admits file spot body) {stmt : Stmt} (hstmt : stmt ∈ body) :
    c.AdmitsStmt file spot stmt := by
  refine ⟨h.allows _ (mem_statements_iff.mpr ⟨stmt, hstmt, Or.inl rfl⟩), fun piece hpiece => ?_⟩
  refine ⟨h.size.imp_right fun hsize => ?_, fun placed hplaced => ?_⟩
  · have hinner := Stmt.sizeOf_lt_of_mem_inner hpiece
    have houter := List.sizeOf_lt_of_mem hstmt
    omega
  · exact h.allows _ (mem_statements_iff.mpr ⟨stmt, hstmt, Or.inr ⟨piece, hpiece, hplaced⟩⟩)

/-- Objects without code are admitted by every charter that lets files be open. -/
theorem admitsObject_of_isCode {object : Object} (h : object.isCode = false) :
    c.AdmitsObject object := by
  unfold AdmitsObject
  split
  · cases h
  · cases h
  · cases h
  · cases h
  · trivial

/-- A store that makes no new code stays admitted. -/
theorem AdmitsStore.evolves {s s' : Store} (h : c.AdmitsStore s) (hs : s.Evolves s') :
    c.AdmitsStore s' where
  code v := by
    cases hcode : (s'.get v).isCode with
    | false => exact admitsObject_of_isCode hcode
    | true =>
      rw [hs.code v hcode]
      exact h.code v
  files tree htree := by
    obtain ⟨hfiles, hfileless⟩ := h.files tree htree
    obtain ⟨hfileless', hsame⟩ := hs.files hfileless
    exact ⟨hsame.trans hfiles, hfileless'⟩

/-- An object may be added whose code is admitted, if it is no file. -/
theorem AdmitsStore.alloc {s : Store} (h : c.AdmitsStore s) {object : Object}
    (hobject : c.AdmitsObject object) (hfile : object.isFile = false) :
    c.AdmitsStore (s.alloc object).2 where
  code v := by
    rcases s.get_alloc object v with hget | hget
    · rw [hget]
      exact hobject
    · rw [hget]
      exact h.code v
  files tree htree := by
    obtain ⟨hfiles, hfileless⟩ := h.files tree htree
    refine ⟨hfiles, fun v => ?_⟩
    rcases s.get_alloc object v with hget | hget
    · rw [hget]
      exact hfile
    · rw [hget]
      exact hfileless v

/-! Rules. -/

section Rules

variable {α β : Type} {site : Site}

theorem Ends.mono {post post' : α → Prop} (hpost : ∀ a, post a → post' a) {outcome : Outcome α}
    (h : c.Ends site post outcome) : c.Ends site post' outcome := by
  cases outcome with
  | done a m => exact ⟨h.1, hpost a h.2⟩
  | fail d m => exact h
  | starved m => exact h

theorem Runs.mono {post post' : α → Prop} (hpost : ∀ a, post a → post' a) {x : Eval α}
    (h : c.Runs site post x) : c.Runs site post' x :=
  fun m hm => (h m hm).mono hpost

theorem runs_pure {post : α → Prop} {a : α} (h : post a) :
    c.Runs site post (Pure.pure a : Eval α) := fun _ hm => ⟨hm, h⟩

/-- A sequence keeps to the charter if its second part does wherever the first one leads. -/
theorem Runs.bind {post : α → Prop} {post' : β → Prop} {x : Eval α} {f : α → Eval β}
    (hx : c.Runs site post x) (hf : ∀ a, post a → c.Runs site post' (f a)) :
    c.Runs site post' (x >>= f) := by
  intro m hm
  have hend := hx m hm
  change c.Ends site post' (Eval.bind x f m)
  unfold Eval.bind
  cases hrun : x m with
  | done a m' =>
    rw [hrun] at hend
    exact hf a hend.2 m' hend.1
  | fail d m' =>
    rw [hrun] at hend
    exact hend
  | starved m' =>
    rw [hrun] at hend
    exact hend

/-- A failure keeps to the charter unless it is that of a stray signal that the charter excludes.
-/
theorem runs_fails {post : α → Prop} {f : Machine → Diagnostic}
    (h : c.strays = true ∨ ∀ m, (f m).isStray = false) :
    c.Runs site post (fun m => .fail (f m) m : Eval α) :=
  fun m hm => ⟨hm, h.imp_right fun hf => hf m⟩

theorem runs_fail {post : α → Prop} {fault : Fault} (h : c.strays = true ∨ fault.isStray = false)
    (pos : Position) : c.Runs site post (Eval.fail fault pos : Eval α) :=
  runs_fails (h.imp_right fun hfault _ => hfault)

/-- Fuel may run out only under a charter without a bound. -/
theorem runs_starve {post : α → Prop} (h : c.endless = true) :
    c.Runs site post (Eval.starve : Eval α) := fun _ hm => ⟨h, hm.library⟩

theorem runs_read (post : α → Prop) {f : Machine → α} (h : ∀ m, c.Abides site m → post (f m)) :
    c.Runs site post (Eval.read f) := fun m hm => ⟨hm, h m hm⟩

/-- An object that is looked up is one that the charter admits. -/
theorem runs_load (v : Value) : c.Runs site c.AdmitsObject (Eval.load v) :=
  runs_read _ fun _ hm => hm.store.code v

theorem runs_make {object : Object} (hobject : c.AdmitsObject object)
    (hfile : object.isFile = false) : c.Runs site (fun _ => True) (Eval.make object) :=
  fun _ hm => ⟨⟨hm.store.alloc hobject hfile, hm.frame, hm.depth, hm.library⟩, trivial⟩

/-- A change of the store that brings no code. -/
theorem Abides.evolves {m : Machine} (h : c.Abides site m) {s : Store} (hs : m.store.Evolves s) :
    c.Abides site { m with store := s } :=
  ⟨h.store.evolves hs, h.frame, h.depth, h.library⟩

theorem runs_newScope (names : Dict Value) :
    c.Runs site (fun _ => True) (Eval.newScope names) :=
  fun _ hm => ⟨hm.evolves (.of_eq rfl rfl), trivial⟩

theorem Abides.withContext {m : Machine} (h : c.Abides site m) (context : Context) :
    c.Abides site { m with context := context } :=
  ⟨h.store, h.frame, h.depth, h.library⟩

theorem runs_modifyContext (f : Context → Context) :
    c.Runs site (fun _ => True) (Eval.modifyContext f) :=
  fun _ hm => ⟨hm.withContext _, trivial⟩

/-- Being inside a reference block makes no difference to a charter. -/
theorem Runs.inReferenceBlock {post : α → Prop} {x : Eval α} (hx : c.Runs site post x) :
    c.Runs site post (Eval.inReferenceBlock x) := by
  intro m hm
  have hend := hx { m with inReference := true } ⟨hm.store, hm.frame, hm.depth, hm.library⟩
  unfold Eval.inReferenceBlock
  cases hrun : x { m with inReference := true } with
  | done a m' =>
    rw [hrun] at hend
    exact ⟨⟨hend.1.store, hend.1.frame, hend.1.depth, hend.1.library⟩, hend.2⟩
  | fail d m' =>
    rw [hrun] at hend
    exact ⟨⟨hend.1.store, hend.1.frame, hend.1.depth, hend.1.library⟩, hend.2⟩
  | starved m' =>
    rw [hrun] at hend
    exact hend

/-- Nothing that an expression does by itself departs from a charter. -/
theorem laws (c : Charter) (site : Site) :
    Eval.Laws (fun _ => True) fun _ x => c.Runs site (fun _ => True) x where
  pure _ := runs_pure trivial
  bind hx hf := hx.bind fun a _ => hf a
  failAt? h _ := runs_fails (Or.inr fun _ => h)
  exit _ _ _ := runs_fails (Or.inr fun _ => rfl)
  read _ := runs_read _ fun _ _ => trivial
  act _ hact := by
    intro m hm
    obtain ⟨hevolves, -, hcalm⟩ := hact m.store
    unfold Eval.act
    dsimp only
    split
    · next a s heq =>
      rw [heq] at hevolves
      exact ⟨hm.evolves hevolves, trivial⟩
    · next fault s heq =>
      rw [heq] at hevolves hcalm
      exact ⟨hm.evolves hevolves, Or.inr (hcalm fault rfl)⟩
  make h := by
    obtain ⟨hcode, hfile, -⟩ := Object.isInert_iff.mp h
    exact runs_make (admitsObject_of_isCode hcode) hfile
  newScope _ := runs_newScope _
  newModule _ _ := (runs_newScope _).bind fun _ _ => runs_make (admitsObject_of_isCode rfl) rfl
  updateScope _ _ _ := fun _ hm => ⟨hm.evolves (.of_eq rfl rfl), trivial⟩
  bindLocal _ _ := fun _ hm => ⟨hm.evolves (.of_eq rfl rfl), trivial⟩
  writeOut _ := runs_modifyContext _
  writeErr _ := runs_modifyContext _
  setAlias _ _ _ := runs_modifyContext _
  inReferenceBlock hx := hx.inReferenceBlock

end Rules

end Charter

end Stencil
