import Mathlib
import Stencil.Proofs.Eval.Concord
import Stencil.Proofs.Program.Attainable
import Stencil.Proofs.Text.Utf8

/-!
Signals that are well placed are caught. A `break` or `continue` stands inside a loop,
with no definition, struct or overriding body between the two, and a `return` inside a
function, with no struct between them. What catches a signal at run time need not be
what it stands in: a `return` of an overriding body leaves the function whose block it
overrides. Still, if the code of a session, a program and its modules are well placed
and the program does not dance, then no signal ever arrives where nothing catches it.
-/

namespace Stencil

/-- Every signal of the program stands in what catches it, and `dance` is not named. -/
def Program.isWellPlaced (program : Program) : Bool :=
  (statements .top program).all fun placed =>
    placed.2.isPlaced placed.1 && placed.2.names.all fun name => name != "dance"

/-- A program is well placed if each statement may stand where it stands and none names `dance`.
-/
theorem Program.isWellPlaced_iff {program : Program} : program.isWellPlaced = true ↔
    ∀ placed ∈ statements .top program, placed.2.isPlaced placed.1 = true ∧
      ∀ name ∈ placed.2.names, name ≠ "dance" := by
  simp [isWellPlaced]

/-- What well-placed code is made of. Files may be opened. -/
def Charter.wellPlaced (library : String) : Charter where
  endless := true
  strays := false
  files := none
  library := library
  allows _ placed := placed.2.isPlaced placed.1 = true ∧ ∀ name ∈ placed.2.names, name ≠ "dance"
  size := 0
  test := Program.isWellPlaced
  endless_of_isLoop _ _ := rfl
  isPlaced h := Or.inr h.1
  not_dance h name hname hfunction := h.2 name hname (Builtin.name_of_ofName? hfunction).symm
  not_open _ _ _ _ := rfl
  endless_or_test := Or.inl rfl
  module _ _ _ _ _ _ _ htest := ⟨Or.inl rfl, Program.isWellPlaced_iff.mp htest⟩

namespace Session

def IsWellPlaced (s : Session) : Prop := (Charter.wellPlaced s.library).AdmitsStore s.store

/-- The modules that a run imports are well placed: an evaluator that stops at any other
module does the same. -/
def ImportsWellPlaced (fuel : Nat) (s : Session) (program : Program) (file : Option String) :
    Prop :=
  Eval.execVetted Program.isWellPlaced fuel program (s.machine file) =
    Eval.exec fuel program (s.machine file)

/-- If all code that can be attained is well placed and closed, so are the modules that a run
imports. -/
theorem importsWellPlaced_of_attainable {s : Session} {program : Program} {file : Option String}
    (hs : (s.machine file).IsClosed)
    (hcode : ∀ importer placed, Attainable (s.machine file) program importer placed →
      placed.2.isPlaced placed.1 = true ∧ placed.2.isClosed = true) (fuel : Nat) :
    s.ImportsWellPlaced fuel program file := by
  have hclosed : ∀ importer placed, Attainable (s.machine file) program importer placed →
      placed.2.isClosed = true := fun _ _ h => (hcode _ _ h).2
  refine (Charter.concur_vetted (fun {found imported} hadmits => ?_) rfl (fun _ => rfl) fuel).body
    _ _ ⟨_, _, Charter.attainable_abides hclosed hs, Charter.attainable_admits hclosed, rfl⟩
  refine Program.isWellPlaced_iff.mpr fun placed hplaced => ?_
  obtain ⟨hsignal, hnames⟩ := hcode _ _ (hadmits.allows placed hplaced)
  exact ⟨hsignal, fun name hname => (Stmt.isClosed_iff.mp hnames name hname).1⟩

/-- In a new session, the modules that can be imported are all that matters. -/
theorem importsWellPlaced_of_importable (files : FileTree) (library : String)
    (lineEnding : LineEnding) (options : Options) (source : Source) (args : List String)
    {program : Program}
    (hprograms : ∀ importer importing,
      Importable files library source.file program importer importing →
      importing.isWellPlaced = true ∧
        ∀ placed ∈ statements .top importing, placed.2.isClosed = true) (fuel : Nat) :
    ((start files library lineEnding options).prepared source args).ImportsWellPlaced fuel
      program source.file := by
  have hblank := isBlank_prepared files library lineEnding options source args
  refine importsWellPlaced_of_attainable hblank.isClosed (fun importer placed h => ?_) fuel
  obtain ⟨importing, himportable, hplaced⟩ := hblank.exists_importable h
  rw [machine, prepared_store, prepared_library] at himportable
  obtain ⟨hsignals, hclosed⟩ := hprograms importer importing himportable
  exact ⟨(Program.isWellPlaced_iff.mp hsignals placed hplaced).1, hclosed placed hplaced⟩

/-- A new session holds no code that could raise a signal out of its place. -/
theorem isWellPlaced_start (files : FileTree) (library : String) (lineEnding : LineEnding)
    (options : Options) : (start files library lineEnding options).IsWellPlaced :=
  ⟨fun _ => trivial, nofun⟩

/-- A run of a well-placed program leaves a session of the kind it began in, and if it fails,
then for some other reason than a stray signal. -/
theorem runProgram_isWellPlaced {s s' : Session} (hs : s.IsWellPlaced) {fuel : Nat}
    {program : Program} {file : Option String} (hprogram : program.isWellPlaced = true)
    (hmodules : s.ImportsWellPlaced fuel program file)
    (hrun : s.runProgram fuel program file = some s') :
    s'.IsWellPlaced ∧ ∀ d ∈ s'.failure, d.isStray = false := by
  have hadmits : (Charter.wellPlaced s.library).Admits file .top program :=
    ⟨Or.inl rfl, Program.isWellPlaced_iff.mp hprogram⟩
  have hruns : (Charter.wellPlaced s.library).Ends ⟨file, false, 0⟩ (fun _ => True)
      ((Eval.execVetted Program.isWellPlaced fuel program >>= Eval.settle) (s.machine file)) :=
    Charter.runs_program hadmits (Or.inl rfl) _ (abides_machine hs rfl file)
  have hexec : (Eval.execVetted Program.isWellPlaced fuel program >>= Eval.settle)
      (s.machine file) = Eval.runProgram fuel program (s.machine file) := by
    unfold ImportsWellPlaced at hmodules
    change Eval.bind _ _ _ = Eval.bind _ _ _
    simp only [Eval.bind, hmodules]
  rw [hexec] at hruns
  rcases runProgram_cases hrun with ⟨m, hend, rfl⟩ | ⟨d, m, hend, rfl⟩
  · rw [hend] at hruns
    exact ⟨hruns.1.store, fun d hd => absurd hd (Option.not_mem_none d)⟩
  · rw [hend] at hruns
    refine ⟨hruns.1.store, fun d' hd' => ?_⟩
    obtain rfl := Option.mem_some_iff.mp hd'
    exact hruns.2.resolve_left Bool.false_ne_true

/-- No run of a well-placed program ends with a signal that nothing has caught, in a new
session or in one where such programs have run before. -/
theorem run_never_stray :
    (∀ files library lineEnding options,
      (start files library lineEnding options).IsWellPlaced) ∧
    ∀ (s s' : Session) (fuel : Nat) (source : Source) (args : List String), s.IsWellPlaced →
      (∀ program, Program.ofSource source.text = .ok program → program.isWellPlaced = true ∧
        (s.prepared source args).ImportsWellPlaced fuel program source.file) →
      s.run fuel source args = some s' →
      s'.IsWellPlaced ∧ ∀ d ∈ s'.failure,
        ∀ fault ∈ [Fault.strayBreak, .strayContinue, .strayReturn], d.cause ≠ .runtime fault := by
  have hcause : ∀ {d : Diagnostic}, d.isStray = false →
      ∀ fault ∈ [Fault.strayBreak, .strayContinue, .strayReturn], d.cause ≠ .runtime fault := by
    intro d hd fault hfault heq
    have hstray : fault.isStray = true := by
      simp only [List.mem_cons, List.not_mem_nil, or_false] at hfault
      rcases hfault with rfl | rfl | rfl
      · rfl
      · rfl
      · rfl
    rw [Diagnostic.isStray, heq] at hd
    exact Bool.false_ne_true (hd.symm.trans hstray)
  refine ⟨isWellPlaced_start, ?_⟩
  intro s s' fuel source args hs hprogram hrun
  have hprepared : (s.prepared source args).IsWellPlaced := by
    unfold IsWellPlaced
    rw [prepared_store, prepared_library]
    exact hs
  cases hparse : Program.ofSource source.text with
  | error d =>
    rw [s.run_of_error source hparse] at hrun
    cases hrun
    refine ⟨hprepared, fun d' hd' => hcause ?_⟩
    obtain rfl := Option.mem_some_iff.mp hd'
    have htext := Program.isAboutText_of_ofSource hparse
    exact Diagnostic.isStray_of_isAboutText (d := d) htext
  | ok program =>
    rw [s.run_of_ok source hparse] at hrun
    obtain ⟨hplaced, hmodules⟩ := hprogram program hparse
    obtain ⟨hs', hfailure⟩ := runProgram_isWellPlaced hprepared hplaced hmodules hrun
    exact ⟨hs', fun d hd => hcause (hfailure d hd)⟩

end Session

/-! A module has a function that extends another and overrides its block with a body that
returns. A program imports it and calls the function in a loop, which is left by `break`. -/

namespace Leaving

open Eval

def lending : String :=
  "\x7b@def g:block b:end end def f extends g:inject b:return end super()end@\x7d"

def source : String := "\x7b@import \"/m\" as m@\x7d\x7b@for:m.f()break end@\x7d"

def lent : Program :=
  [.function "g" [] none false [.block "b" [] ⟨8, 1⟩] ⟨2, 1⟩,
    .function "f" [] (some "g") false
      [.inject "b" [.return none ⟨49, 1⟩] ⟨40, 1⟩,
        .formula (.parallel [[.chain (.super ⟨60, 1⟩) [.call [] ⟨65, 1⟩]]]) ⟨60, 1⟩] ⟨24, 1⟩]

def program : Program :=
  [.importAs "/m" "m" ⟨2, 1⟩,
    .loop none none none
      [.formula (.parallel [[.chain (.ident "m" ⟨26, 1⟩) [.attr "f" ⟨27, 1⟩, .call [] ⟨29, 1⟩]]])
        ⟨26, 1⟩, .break ⟨31, 1⟩] ⟨22, 1⟩]

theorem ofSource_lending : Program.ofSource lending = .ok lent := by
  have htokens : (tokenize lending).toOption = some
      [⟨.codeOpen, ⟨0, 1⟩⟩,
        ⟨.word .defKw, ⟨2, 1⟩⟩, ⟨.ident "g", ⟨6, 1⟩⟩, ⟨.punct .colon, ⟨7, 1⟩⟩,
        ⟨.word .blockKw, ⟨8, 1⟩⟩, ⟨.ident "b", ⟨14, 1⟩⟩, ⟨.punct .colon, ⟨15, 1⟩⟩,
        ⟨.word .endKw, ⟨16, 1⟩⟩, ⟨.word .endKw, ⟨20, 1⟩⟩,
        ⟨.word .defKw, ⟨24, 1⟩⟩, ⟨.ident "f", ⟨28, 1⟩⟩, ⟨.word .extendsKw, ⟨30, 1⟩⟩,
        ⟨.ident "g", ⟨38, 1⟩⟩, ⟨.punct .colon, ⟨39, 1⟩⟩,
        ⟨.word .injectKw, ⟨40, 1⟩⟩, ⟨.ident "b", ⟨47, 1⟩⟩, ⟨.punct .colon, ⟨48, 1⟩⟩,
        ⟨.word .returnKw, ⟨49, 1⟩⟩, ⟨.word .endKw, ⟨56, 1⟩⟩,
        ⟨.word .superKw, ⟨60, 1⟩⟩, ⟨.punct .lparen, ⟨65, 1⟩⟩, ⟨.punct .rparen, ⟨66, 1⟩⟩,
        ⟨.word .endKw, ⟨67, 1⟩⟩, ⟨.codeClose, ⟨70, 1⟩⟩] := by decide +kernel
  rw [Program.ofSource_of_tokens htokens]
  rfl

theorem ofSource_source : Program.ofSource source = .ok program := by
  have htokens : (tokenize source).toOption = some
      [⟨.codeOpen, ⟨0, 1⟩⟩, ⟨.word .importKw, ⟨2, 1⟩⟩, ⟨.str "/m", ⟨9, 1⟩⟩,
        ⟨.word .asKw, ⟨14, 1⟩⟩, ⟨.ident "m", ⟨17, 1⟩⟩, ⟨.codeClose, ⟨18, 1⟩⟩,
        ⟨.codeOpen, ⟨20, 1⟩⟩, ⟨.word .forKw, ⟨22, 1⟩⟩,
        ⟨.punct .colon, ⟨25, 1⟩⟩, ⟨.ident "m", ⟨26, 1⟩⟩, ⟨.punct .dot, ⟨27, 1⟩⟩,
        ⟨.ident "f", ⟨28, 1⟩⟩, ⟨.punct .lparen, ⟨29, 1⟩⟩, ⟨.punct .rparen, ⟨30, 1⟩⟩,
        ⟨.word .breakKw, ⟨31, 1⟩⟩, ⟨.word .endKw, ⟨37, 1⟩⟩, ⟨.codeClose, ⟨40, 1⟩⟩] := by
    decide +kernel
  rw [Program.ofSource_of_tokens htokens]
  rfl

def files : FileTree := ⟨[], .ofList [("/m", .file lending.toUTF8)]⟩

def session : Session := .start files "" .lf .none

def ready : Session := session.prepared ⟨source, none⟩ []

theorem readText?_module : files.readText? "/m" = some lending := by
  have hcontent (bytes : ByteArray) :
      (FileTree.mk [] (.ofList [("/m", .file bytes)])).content? "/m" = some bytes := by cbv
  rw [files, FileTree.readText?, hcontent, Option.bind_some, Text.ofUtf8?_toUTF8]

theorem findModule?_module (importer : Option String) :
    files.findModule? "" importer "/m" = some "/m" :=
  FileTree.findModule?_eq_self (by cbv) (by cbv) "" importer

def imported : Machine where
  store :=
    { objects := #[.module "/m" ⟨1⟩,
        .function ⟨⟨"g", [], none, false, [.block "b" [] ⟨8, 1⟩]⟩, ⟨1⟩, some "/m"⟩,
        .function ⟨⟨"f", [], some "g", false, [.inject "b" [.return none ⟨49, 1⟩] ⟨40, 1⟩,
          .formula (.parallel [[.chain (.super ⟨60, 1⟩) [.call [] ⟨65, 1⟩]]]) ⟨60, 1⟩]⟩, ⟨1⟩,
          some "/m"⟩]
      scopes := #[.ofList [("m", ⟨0⟩)], .ofList [("g", ⟨1⟩), ("f", ⟨2⟩)]]
      files := files }
  context := { Context.fresh ⟨0⟩ .lf .none with modules := .ofList [("/m", ⟨0⟩)] }
  frame := .top ⟨0⟩ none
  depth := 0
  inReference := false
  library := ""

theorem execStep_import : execStep (eval 8) (exec 8) 8 (.importAs "/m" "m" ⟨2, 1⟩)
    (ready.machine none) = .done .next imported := by
  have himport := importModule_of_unknown (m := ready.machine none) (findModule?_module none) rfl
    readText?_module ofSource_lending (exec 8) ⟨2, 1⟩
  have hrun : runModule (exec 8) "/m" "/m" lent ⟨2, 1⟩ (ready.machine none) = .done ⟨0⟩ _ := rfl
  rw [hrun] at himport
  refine bind_eq_done_iff.mpr ⟨(), imported, bind_eq_done_iff.mpr ⟨_, _, himport, ?_⟩, rfl⟩
  rfl

def comesToEnd : Outcome Flow → Bool
  | .done .next _ => true
  | _ => false

theorem exists_of_comesToEnd {outcome : Outcome Flow} (h : comesToEnd outcome = true) :
    ∃ m, outcome = .done .next m := by
  unfold comesToEnd at h
  split at h
  · exact ⟨_, rfl⟩
  · cases h

/-- The program comes to its end. -/
theorem isSome_runProgram : (ready.runProgram 9 program none).isSome = true := by
  have hends : comesToEnd (execEach (execStep (eval 8) (exec 8) 8) program.tail imported) =
      true := by cbv
  obtain ⟨m, hrest⟩ := exists_of_comesToEnd hends
  have hexec : exec 9 program (ready.machine none) = .done .next m := by
    rw [exec]
    exact bind_eq_done_iff.mpr ⟨.next, imported, execStep_import, hrest⟩
  have hrun : runProgram 9 program (ready.machine none) = .done () m :=
    bind_eq_done_iff.mpr ⟨.next, m, hexec, rfl⟩
  rw [Session.runProgram, hrun]
  rfl

/-- The module and the program are well placed and closed, and there are no others. -/
theorem isWellPlaced_of_importable {importer : Option String} {importing : Program}
    (h : Importable files "" none program importer importing) :
    importing.isWellPlaced = true ∧
      ∀ placed ∈ statements .top importing, placed.2.isClosed = true := by
  have hpaths : ∀ importing ∈ [program, lent],
      ((statements .top importing).all fun placed => placed.2.path?.all (· = "/m")) = true := by
    intro importing hmem
    rcases List.mem_pair.mp hmem with rfl | rfl
    · cbv
    · cbv
  have hmem := h.eq_or_eq findModule?_module readText?_module ofSource_lending hpaths
  rw [← List.all_eq_true]
  rcases List.mem_pair.mp hmem with rfl | rfl
  · exact ⟨by cbv, by cbv⟩
  · exact ⟨by cbv, by cbv⟩

theorem leaving_never_stray : ∃ s', session.run 9 ⟨source, none⟩ [] = some s' ∧
    s'.IsWellPlaced ∧ ∀ d ∈ s'.failure,
      ∀ fault ∈ [Fault.strayBreak, .strayContinue, .strayReturn], d.cause ≠ .runtime fault := by
  obtain ⟨s', hrun⟩ := Option.isSome_iff_exists.mp isSome_runProgram
  have hsession : session.run 9 ⟨source, none⟩ [] = some s' :=
    (session.run_of_ok ⟨source, none⟩ ofSource_source 9 []).trans hrun
  obtain ⟨hstart, hstep⟩ := Session.run_never_stray
  refine ⟨s', hsession, hstep session s' 9 ⟨source, none⟩ [] (hstart _ _ _ _) ?_ hsession⟩
  intro read hparse
  obtain rfl : program = read := Except.ok.inj (ofSource_source.symm.trans hparse)
  have hmodules := Session.importsWellPlaced_of_importable files "" .lf .none ⟨source, none⟩ []
    (fun _ _ => isWellPlaced_of_importable) 9
  exact ⟨(isWellPlaced_of_importable .self).1, hmodules⟩

end Leaving

end Stencil
