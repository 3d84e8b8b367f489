import Mathlib
import Stencil.Proofs.Program.Attainable

/-!
Programs without loops end. Code is run again only by entering it anew, and that takes
one of the levels of nesting, of which there is a fixed number; in between, evaluation
goes from a piece of the text to smaller ones. The texts at hand are those of the
program and of the modules that can be imported, as long as no program is made while
another runs and no file is written. So the levels and the size of the largest text
bound how much fuel a run needs.
-/

namespace Stencil

/-- The program has no loop and names neither `dance` nor `open`. -/
def Program.isLoopFree (program : Program) : Bool :=
  (statements .top program).all fun placed =>
    !placed.2.isLoop && placed.2.names.all fun name => name != "dance" && name != "open"

/-- The size of the program that a file holds, if it holds one. -/
noncomputable def FileNode.programSize : FileNode → Nat
  | .directory => 0
  | .file content =>
    match (Text.ofUtf8? content).map Program.ofSource with
    | some (.ok program) => sizeOf program
    | _ => 0

namespace FileTree

/-- A file with a content is one of the nodes of the tree. -/
theorem mem_nodes_of_content? {files : FileTree} {path : String} {content : ByteArray}
    (h : files.content? path = some content) :
    ∃ name, (name, .file content) ∈ files.nodes.toList := by
  unfold content? at h
  split at h
  · next held hnode =>
    cases h
    obtain ⟨place, -, hplace⟩ := Option.bind_eq_some_iff.mp hnode
    unfold node? at hplace
    split at hplace
    · cases hplace
    · exact ⟨_, (Dict.mem_toList_iff _ _ _).mpr hplace⟩
  · cases h

/-- There are finitely many files, so one of their programs is the largest. -/
theorem exists_size_bound (files : FileTree) :
    ∃ bound, ∀ path source program, files.readText? path = some source →
      Program.ofSource source = .ok program → sizeOf program ≤ bound := by
  refine ⟨(files.nodes.toList.map fun entry => entry.2.programSize).max?.getD 0, ?_⟩
  intro path source program hread hparse
  obtain ⟨content, hcontent, hsource⟩ := Option.bind_eq_some_iff.mp hread
  obtain ⟨name, hentry⟩ := mem_nodes_of_content? hcontent
  have hsize : (FileNode.file content).programSize = sizeOf program := by
    rw [FileNode.programSize, hsource, Option.map_some, hparse]
  rw [← hsize]
  exact List.le_max?_getD_of_mem (List.mem_map.mpr ⟨_, hentry, rfl⟩)

end FileTree

/-- A program that can be imported is no larger than the largest file. -/
theorem Importable.sizeOf_le {files : FileTree} {library : String} {file importer : Option String}
    {program importing : Program} {bound : Nat}
    (hbound : ∀ path source program, files.readText? path = some source →
      Program.ofSource source = .ok program → sizeOf program ≤ bound)
    (h : Importable files library file program importer importing) :
    sizeOf importing ≤ max (sizeOf program) bound := by
  cases h with
  | self => exact Nat.le_max_left _ _
  | module _ _ _ _ hread hparse =>
    exact Nat.le_trans (hbound _ _ _ hread hparse) (Nat.le_max_right _ _)

/-- A program is free of loops if none of its statements is one or names what could run other
texts. -/
theorem Program.isLoopFree_iff {program : Program} : program.isLoopFree = true ↔
    ∀ placed ∈ statements .top program, placed.2.isLoop = false ∧
      ∀ name ∈ placed.2.names, name ≠ "dance" ∧ name ≠ "open" := by
  simp [isLoopFree]

namespace Charter

def loopFree {files : FileTree} {library : String} {file : Option String} {program : Program}
    {size : Nat}
    (hfree : ∀ importer importing, Importable files library file program importer importing →
      importing.isLoopFree = true)
    (hsize : ∀ importer importing, Importable files library file program importer importing →
      sizeOf importing ≤ size) : Charter where
  endless := false
  strays := true
  files := some files
  library := library
  allows importer placed := ∃ importing,
    Importable files library file program importer importing ∧ placed ∈ statements .top importing
  size := size
  test _ := true
  endless_of_isLoop := by
    rintro importer spot stmt ⟨importing, himportable, hmem⟩ hloop
    rw [(Program.isLoopFree_iff.mp (hfree _ _ himportable) _ hmem).1] at hloop
    cases hloop
  isPlaced _ := Or.inl rfl
  not_dance := by
    rintro importer spot stmt ⟨importing, himportable, hmem⟩ name hname hfunction
    obtain ⟨hdance, -⟩ := (Program.isLoopFree_iff.mp (hfree _ _ himportable) _ hmem).2 name hname
    exact hdance (Builtin.name_of_ofName? hfunction).symm
  not_open := by
    rintro importer spot stmt ⟨importing, himportable, hmem⟩ name hname hfunction
    obtain ⟨-, hopen⟩ := (Program.isLoopFree_iff.mp (hfree _ _ himportable) _ hmem).2 name hname
    exact absurd (Builtin.name_of_ofName? hfunction).symm hopen
  endless_or_test := Or.inr fun _ => rfl
  module := by
    rintro spot stmt path found source imported m m' rfl hfiles ⟨importing, himportable, hmem⟩
      hpath hresolve hread hparse -
    obtain ⟨hm, hm'⟩ := hfiles files rfl
    rw [m.resolve?_eq_findModule?, hm] at hresolve
    rw [hm'] at hread
    have hmodule := himportable.module hmem hpath hresolve hread hparse
    exact ⟨Or.inr (hsize _ _ hmodule), fun placed hplaced => ⟨imported, hmodule, hplaced⟩⟩

end Charter

namespace Session

/-- A program without loops that names neither `dance` nor `open`, and whose modules are of the
same kind, ends with a result or a failure, with any fuel from some bound on. The bound is the
size of the code that can run, once for each level of calls. -/
theorem run_isSome_of_isLoopFree (files : FileTree) (library : String) (lineEnding : LineEnding)
    (options : Options) (source : Source) (args : List String)
    (hfree : ∀ program, Program.ofSource source.text = .ok program → ∀ importer importing,
      Importable files library source.file program importer importing →
      importing.isLoopFree = true) :
    ∃ enough, ∀ fuel, enough ≤ fuel →
      ((start files library lineEnding options).run fuel source args).isSome = true := by
  cases hparse : Program.ofSource source.text with
  | error d =>
    refine ⟨0, fun fuel _ => ?_⟩
    rw [run_of_error _ source hparse]
    rfl
  | ok program =>
    obtain ⟨bound, hbound⟩ := files.exists_size_bound
    let c := Charter.loopFree (hfree program hparse) fun _ _ h => h.sizeOf_le hbound
    refine ⟨depthLimit * (c.size + 1) + sizeOf program + 1, fun fuel hfuel => ?_⟩
    let s := (start files library lineEnding options).prepared source args
    have hstore : c.AdmitsStore s.store := by
      rw [prepared_store]
      exact ⟨fun _ => trivial, fun tree htree => ⟨Option.some.inj htree, fun _ => rfl⟩⟩
    have hadmits : c.Admits source.file .top program :=
      ⟨Or.inr (Nat.le_max_left _ _), fun placed hplaced => ⟨program, .self, hplaced⟩⟩
    have hruns := Charter.runs_program hadmits (Or.inr hfuel) _
      (abides_machine hstore (prepared_library _ source args) source.file)
    have hexec : Eval.execVetted c.test fuel = Eval.exec fuel :=
      (Eval.evalVetted_and_execVetted_of_all (fun _ => rfl) fuel).2
    rw [hexec] at hruns
    rw [run_of_ok _ source hparse]
    refine runProgram_isSome fun m hstarved => ?_
    change c.Ends _ _ (Eval.runProgram fuel program (s.machine source.file)) at hruns
    rw [hstarved] at hruns
    cases hruns.1

end Session

/-! A module that imports itself, and a function of it that calls itself without end. -/

namespace Descent

def source : String := "\x7b@ import \"/a\" as a @\x7d\x7b@ a.f() @\x7d"

def descending : String := "\x7b@ import \"/a\" as a @\x7d\x7b@ def f(): f() end @\x7d"

def files : FileTree := ⟨[], .ofList [("/a", .file descending.toUTF8)]⟩

def program : Program :=
  [.importAs "/a" "a" ⟨3, 1⟩,
    .formula (.parallel [[.chain (.ident "a" ⟨25, 1⟩) [.attr "f" ⟨26, 1⟩, .call [] ⟨28, 1⟩]]])
      ⟨25, 1⟩]

def imported : Program :=
  [.importAs "/a" "a" ⟨3, 1⟩,
    .function "f" [] none false
      [.formula (.parallel [[.chain (.ident "f" ⟨34, 1⟩) [.call [] ⟨35, 1⟩]]]) ⟨34, 1⟩] ⟨25, 1⟩]

theorem ofSource_source : Program.ofSource source = .ok program := by
  have htokens : (tokenize source).toOption = some
      [⟨.codeOpen, ⟨0, 1⟩⟩, ⟨.word .importKw, ⟨3, 1⟩⟩, ⟨.str "/a", ⟨10, 1⟩⟩,
        ⟨.word .asKw, ⟨15, 1⟩⟩, ⟨.ident "a", ⟨18, 1⟩⟩, ⟨.codeClose, ⟨20, 1⟩⟩,
        ⟨.codeOpen, ⟨22, 1⟩⟩, ⟨.ident "a", ⟨25, 1⟩⟩, ⟨.punct .dot, ⟨26, 1⟩⟩,
        ⟨.ident "f", ⟨27, 1⟩⟩, ⟨.punct .lparen, ⟨28, 1⟩⟩, ⟨.punct .rparen, ⟨29, 1⟩⟩,
        ⟨.codeClose, ⟨31, 1⟩⟩] := by decide +kernel
  rw [Program.ofSource_of_tokens htokens]
  rfl

theorem ofSource_descending : Program.ofSource descending = .ok imported := by
  have htokens : (tokenize descending).toOption = some
      [⟨.codeOpen, ⟨0, 1⟩⟩, ⟨.word .importKw, ⟨3, 1⟩⟩, ⟨.str "/a", ⟨10, 1⟩⟩,
        ⟨.word .asKw, ⟨15, 1⟩⟩, ⟨.ident "a", ⟨18, 1⟩⟩, ⟨.codeClose, ⟨20, 1⟩⟩,
        ⟨.codeOpen, ⟨22, 1⟩⟩, ⟨.word .defKw, ⟨25, 1⟩⟩, ⟨.ident "f", ⟨29, 1⟩⟩,
        ⟨.punct .lparen, ⟨30, 1⟩⟩, ⟨.punct .rparen, ⟨31, 1⟩⟩, ⟨.punct .colon, ⟨32, 1⟩⟩,
        ⟨.ident "f", ⟨34, 1⟩⟩, ⟨.punct .lparen, ⟨35, 1⟩⟩, ⟨.punct .rparen, ⟨36, 1⟩⟩,
        ⟨.word .endKw, ⟨38, 1⟩⟩, ⟨.codeClose, ⟨42, 1⟩⟩] := by decide +kernel
  rw [Program.ofSource_of_tokens htokens]
  rfl

theorem readText?_module : files.readText? "/a" = some descending := by cbv

theorem findModule?_module (importer : Option String) :
    files.findModule? "" importer "/a" = some "/a" :=
  FileTree.findModule?_eq_self (by cbv) (by cbv) "" importer

/-- The module and the program have no loops, and there are no others. -/
theorem isLoopFree_of_importable {importer : Option String} {importing : Program}
    (h : Importable files "" none program importer importing) : importing.isLoopFree = true := by
  have hpaths : ∀ importing ∈ [program, imported],
      ((statements .top importing).all fun placed => placed.2.path?.all (· = "/a")) = true := by
    intro importing hmem
    rcases List.mem_pair.mp hmem with rfl | rfl
    · cbv
    · cbv
  have hmem := h.eq_or_eq findModule?_module readText?_module ofSource_descending hpaths
  rcases List.mem_pair.mp hmem with rfl | rfl
  · cbv
  · cbv

theorem descent_ends : ∃ enough, ∀ fuel, enough ≤ fuel →
    ((Session.start files "" .lf .none).run fuel ⟨source, none⟩ []).isSome = true := by
  refine Session.run_isSome_of_isLoopFree files "" .lf .none ⟨source, none⟩ [] ?_
  intro read hparse importer importing himportable
  obtain rfl : program = read := Except.ok.inj (ofSource_source.symm.trans hparse)
  exact isLoopFree_of_importable himportable

end Descent

end Stencil
