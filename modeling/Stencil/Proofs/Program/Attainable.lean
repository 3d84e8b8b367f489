import Stencil.Proofs.Eval.Adherence

/-!
The code that a run can come to. A run comes to the code that it is given, to the functions,
struct types and overriding bodies that there are, and to modules that such code imports. As
long as no program is made while another runs and no file is written, the texts at hand are
all there is, so what is asked of the code of a run can be asked of the texts before it.
-/

namespace Stencil

def FileTree.findModule? (files : FileTree) (library : String) (importer : Option String)
    (path : String) : Option String :=
  ((Session.start files library .lf .none).machine importer).resolve? path

/-- A running module looks for others from its own file. -/
theorem Machine.resolve?_eq_findModule? (m : Machine) (path : String) :
    m.resolve? path = m.store.files.findModule? m.library m.frame.file path := rfl

/-- The programs that a run can come to, each with its file: the program that is run, and
the modules that statements of such programs import. -/
inductive Importable (files : FileTree) (library : String) (file : Option String)
    (program : Program) : Option String → Program → Prop
  | self : Importable files library file program file program
  | module {importer : Option String} {importing imported : Program} {spot : Spot} {stmt : Stmt}
      {path found source : String} :
      Importable files library file program importer importing →
      (spot, stmt) ∈ statements .top importing → stmt.path? = some path →
      files.findModule? library importer path = some found →
      files.readText? found = some source → Program.ofSource source = .ok imported →
      Importable files library file program (some found) imported

/-- A path that leads to a file is found as it stands. -/
theorem FileTree.findModule?_eq_self {files : FileTree} {path : String}
    (hfile : files.isFile path = true) (hpath : files.canonical? path = some path)
    (library : String) (importer : Option String) :
    files.findModule? library importer path = some path := by
  have hfiles : ((Session.start files library .lf .none).machine importer).store.files = files :=
    rfl
  unfold findModule? Machine.resolve? Machine.candidates
  rw [hfiles, List.find?_cons_of_pos hfile]
  exact congrArg (fun found => some (found.getD path)) hpath

/-- Where one module alone is imported, there are two programs. -/
theorem Importable.eq_or_eq {files : FileTree} {library path source : String}
    {file importer : Option String} {program imported importing : Program}
    (hfound : ∀ importer, files.findModule? library importer path = some path)
    (hread : files.readText? path = some source) (hparse : Program.ofSource source = .ok imported)
    (hpaths : ∀ importing ∈ [program, imported],
      ((statements .top importing).all fun placed => placed.2.path?.all (· = path)) = true)
    (h : Importable files library file program importer importing) :
    importing ∈ [program, imported] := by
  induction h with
  | self => exact List.mem_cons_self
  | module _ hmem hpath hfound' hread' hparse' ih =>
    have hsame := List.all_eq_true.mp (hpaths _ ih) _ hmem
    rw [hpath, Option.all_some, decide_eq_true_eq] at hsame
    subst hsame
    rw [hfound] at hfound'
    cases hfound'
    rw [hread] at hread'
    cases hread'
    rw [hparse] at hparse'
    cases hparse'
    exact List.mem_cons_of_mem _ List.mem_cons_self

/-- The statements that a run of a body can come to, each with its file and what it stands
in. -/
inductive Attainable (m : Machine) (body : List Stmt) : Option String → Spot × Stmt → Prop
  | body {placed : Spot × Stmt} :
      placed ∈ statements ⟨false, m.frame.function.isSome⟩ body →
      Attainable m body m.frame.file placed
  | function {v : Value} {f : Function} {placed : Spot × Stmt} : m.store.get v = .function f →
      placed ∈ statements .ofFunction f.definition.body → Attainable m body f.file placed
  | struct {v : Value} {type : StructType} {placed : Spot × Stmt} : m.store.get v = .struct type →
      placed ∈ statements .top type.definition.body → Attainable m body type.file placed
  | injection {name : String} {injection : Injection} {placed : Spot × Stmt} :
      m.frame.injections.get? name = some injection →
      placed ∈ statements .ofFunction injection.body → Attainable m body injection.file placed
  | module {importer : Option String} {spot : Spot} {stmt : Stmt} {path found source : String}
      {imported : Program} {placed : Spot × Stmt} :
      Attainable m body importer (spot, stmt) → stmt.path? = some path →
      m.store.files.findModule? m.library importer path = some found →
      m.store.files.readText? found = some source → Program.ofSource source = .ok imported →
      placed ∈ statements .top imported → Attainable m body (some found) placed

def Stmt.isClosed (stmt : Stmt) : Bool :=
  stmt.names.all fun name => name != "dance" && name != "open"

/-- Closed code names neither `dance` nor `open`. -/
theorem Stmt.isClosed_iff {stmt : Stmt} :
    stmt.isClosed = true ↔ ∀ name ∈ stmt.names, name ≠ "dance" ∧ name ≠ "open" := by
  simp [isClosed]

/-- No value leads out of the code at hand, and only functions have registered bodies. -/
structure Machine.IsClosed (m : Machine) : Prop where
  dance : ∀ v, m.store.get v ≠ .builtin .dance
  openFile : ∀ v, m.store.get v ≠ .builtin .openFile
  fileless : m.store.Fileless
  injections : ∀ name injection, m.frame.injections.get? name = some injection →
    m.frame.function.isSome = true ∧ injection.function.isSome = true

/-- No value is code or a file, and a program is about to run. -/
structure Machine.IsBlank (m : Machine) : Prop where
  code : ∀ v, (m.store.get v).isCode = false
  fileless : m.store.Fileless
  function : m.frame.function = none
  injections : m.frame.injections = .empty

theorem Session.isBlank_prepared (files : FileTree) (library : String) (lineEnding : LineEnding)
    (options : Options) (source : Source) (args : List String) :
    (((start files library lineEnding options).prepared source args).machine
      source.file).IsBlank := by
  constructor
  · intro v
    rw [machine, prepared_store]
    rfl
  · intro v
    rw [machine, prepared_store]
    rfl
  · rfl
  · rfl

namespace Machine.IsBlank

variable {m : Machine} (hm : m.IsBlank)

include hm

theorem isClosed : m.IsClosed where
  dance v hget := by
    have hcode := hm.code v
    rw [hget] at hcode
    cases hcode
  openFile v hget := by
    have hcode := hm.code v
    rw [hget] at hcode
    cases hcode
  fileless := hm.fileless
  injections name injection hfound := by
    rw [hm.injections] at hfound
    cases hfound

/-- Where there is no code yet, what can be attained is the program and what it imports. -/
theorem exists_importable {program : Program} {file : Option String} {placed : Spot × Stmt}
    (h : Attainable m program file placed) : ∃ importing,
      Importable m.store.files m.library m.frame.file program file importing ∧
        placed ∈ statements .top importing := by
  induction h with
  | body hmem =>
    rw [hm.function] at hmem
    exact ⟨program, .self, hmem⟩
  | @function v f placed hget _ =>
    have hcode := hm.code v
    rw [hget] at hcode
    cases hcode
  | @struct v type placed hget _ =>
    have hcode := hm.code v
    rw [hget] at hcode
    cases hcode
  | injection hfound _ =>
    rw [hm.injections] at hfound
    cases hfound
  | module _ hpath hfound hread hparse hmem ih =>
    obtain ⟨importing, himportable, hstmt⟩ := ih
    exact ⟨_, himportable.module hstmt hpath hfound hread hparse, hmem⟩

end Machine.IsBlank

namespace Charter

variable {m : Machine} {body : List Stmt}

def attainable (hcode : ∀ file placed, Attainable m body file placed → placed.2.isClosed = true) :
    Charter where
  endless := true
  strays := true
  files := some m.store.files
  library := m.library
  allows := Attainable m body
  size := 0
  test _ := true
  endless_of_isLoop _ _ := rfl
  isPlaced _ := Or.inl rfl
  not_dance h name hname hfunction :=
    (Stmt.isClosed_iff.mp (hcode _ _ h) name hname).1 (Builtin.name_of_ofName? hfunction).symm
  not_open h name hname hfunction :=
    absurd (Builtin.name_of_ofName? hfunction).symm (Stmt.isClosed_iff.mp (hcode _ _ h) name hname).2
  endless_or_test := Or.inl rfl
  module := by
    rintro spot stmt path found source imported m₁ m₂ hlibrary hfiles hattainable hpath hresolve
      hread hparse -
    obtain ⟨hfirst, hsecond⟩ := hfiles _ rfl
    rw [m₁.resolve?_eq_findModule?, hfirst, hlibrary] at hresolve
    rw [hsecond] at hread
    exact ⟨Or.inl rfl, fun _ => hattainable.module hpath hresolve hread hparse⟩

variable (hcode : ∀ file placed, Attainable m body file placed → placed.2.isClosed = true)

/-- The body of the program may run in the machine that it starts in. -/
theorem attainable_admits : (attainable hcode).Admits m.frame.file
    ⟨false, m.frame.function.isSome⟩ body :=
  ⟨Or.inl rfl, fun _ => .body⟩

/-- The machine of a new session holds only code that can be attained. -/
theorem attainable_abides (hm : m.IsClosed) :
    (attainable hcode).Abides ⟨m.frame.file, m.frame.function.isSome, m.depth⟩ m := by
  refine ⟨⟨fun v => ?_, fun tree htree => ⟨Option.some.inj htree, hm.fileless⟩⟩,
    ⟨rfl, rfl, fun name injection hfound => ?_⟩, rfl, rfl⟩
  · unfold AdmitsObject
    split
    · next f hget => exact ⟨Or.inl rfl, fun _ => .function hget⟩
    · next type hget => exact ⟨Or.inl rfl, fun _ => .struct hget⟩
    · next hget => exact hm.dance v hget
    · next hget => exact absurd hget (hm.openFile v)
    · trivial
  · obtain ⟨hframe, hfunction⟩ := hm.injections name injection hfound
    exact ⟨hframe, hfunction, Or.inl rfl, fun _ => .injection hfound⟩

end Charter

end Stencil
