import Mathlib
import Stencil.Proofs.Diagnostic.Readings

/-!
The excerpt that a failure is shown with. It is cut from the text of the last program
whenever the innermost frame of the failure has the file of that program, so it is
right only as far as the name of the file tells one text from another. The position
of the failure has been assigned by some text that was read under that name: it is one
of the last program if no other text was. Programs without a file all share one name,
and functions outlive the program that defines them, so the excerpt may show a line of
the last program for an error in an earlier one.
-/

namespace Stencil

namespace Diagnostic

/-- An excerpt is cut from a text at a position. -/
theorem of_excerpt_ne {d : Diagnostic} {source : Option String} (h : d.excerpt source ≠ "") :
    ∃ text pos, source = some text ∧ d.pos = some pos := by
  unfold excerpt at h
  split at h
  · next text pos hpos => exact ⟨text, pos, rfl, hpos⟩
  · exact absurd rfl h

end Diagnostic

/-- Nothing has to be known of data. -/
theorem coversObject_of_isPlain {R : Set Reading} {object : Object}
    (h : object.isPlain = true) : CoversObject R object := by
  cases object with
  | function f => cases h
  | struct type => cases h
  | _ => trivial

namespace Session

/-- The texts of an account of a session: its programs, and the modules and danced texts that
the programs take code from. -/
inductive HasRead : Set Reading → Session → Prop
  | start (files : FileTree) (library : String) (lineEnding : LineEnding) (options : Options) :
      HasRead ∅ (.start files library lineEnding options)
  | run {R : Set Reading} {s s' : Session} {fuel : Nat} {source : Source} {args : List String}
      {program : Program} {S : Set Reading} : HasRead R s →
      Program.ofSource source.text = .ok program →
      Eval.Accounts (fun _ _ => True) program (Eval.runProgram fuel program)
        ((s.prepared source args).machine source.file) S →
      s.run fuel source args = some s' →
      HasRead {r | r = ⟨source.file, source.text⟩ ∨ r ∈ R ∨ r ∈ S} s'
  /-- The text is no program. -/
  | complain {R : Set Reading} {s s' : Session} {fuel : Nat} {source : Source}
      {args : List String} {d : Diagnostic} : HasRead R s →
      Program.ofSource source.text = .error d → s.run fuel source args = some s' →
      HasRead {r | r = ⟨source.file, source.text⟩ ∨ r ∈ R} s'
  /-- There is no text to run. -/
  | absent {R : Set Reading} {s s' : Session} {fuel : Nat} {path : String} {args : List String} :
      HasRead R s → s.files.readText? path = none → s.runFile fuel path args = some s' →
      HasRead R s'
  | clear {R : Set Reading} {s : Session} : HasRead R s → HasRead R s.clear
  | clearOutput {R : Set Reading} {s : Session} : HasRead R s → HasRead R s.clearOutput
  | setArgs {R : Set Reading} {s : Session} (args : List String) :
      HasRead R s → HasRead R (s.setArgs args)
  | setLineEnding {R : Set Reading} {s : Session} (lineEnding : LineEnding) :
      HasRead R s → HasRead R (s.setLineEnding lineEnding)
  | setFiles {R : Set Reading} {s : Session} (files : FileTree) :
      HasRead R s → HasRead R (s.setFiles files)
  | setVariable {R : Set Reading} {s : Session} (name : String) (v : Value) :
      HasRead R s → HasRead R (s.setVariable name v)
  | make {R : Set Reading} {s : Session} {object : Object} : HasRead R s →
      object.isPlain = true → HasRead R { s with store := (s.store.alloc object).2 }

/-- A session that runs one more program has read some more texts. -/
theorem exists_hasRead_of_run {R : Set Reading} {s s' : Session} (h : HasRead R s) {fuel : Nat}
    {source : Source} {args : List String} (hrun : s.run fuel source args = some s') :
    ∃ R', HasRead R' s' := by
  cases hparse : Program.ofSource source.text with
  | error d => exact ⟨_, h.complain hparse hrun⟩
  | ok program =>
    obtain ⟨S, hS⟩ := Eval.Sourced.runProgram fuel program
      ((s.prepared source args).machine source.file)
    exact ⟨_, h.run hparse hS hrun⟩

/-- Every session has read some texts. -/
theorem Arises.exists_hasRead {s : Session} (h : s.Arises) : ∃ R, HasRead R s := by
  induction h with
  | start files library lineEnding options => exact ⟨_, .start files library lineEnding options⟩
  | run _ hrun ih =>
    obtain ⟨R, hR⟩ := ih
    exact exists_hasRead_of_run hR hrun
  | @runFile s s' fuel path args _ hrun ih =>
    obtain ⟨R, hR⟩ := ih
    rcases runFile_cases hrun with ⟨text, -, htext⟩ | ⟨hnone, -⟩
    · exact exists_hasRead_of_run hR htext
    · exact ⟨_, hR.absent hnone hrun⟩
  | clear _ ih =>
    obtain ⟨R, hR⟩ := ih
    exact ⟨R, hR.clear⟩
  | clearOutput _ ih =>
    obtain ⟨R, hR⟩ := ih
    exact ⟨R, hR.clearOutput⟩
  | setArgs args _ ih =>
    obtain ⟨R, hR⟩ := ih
    exact ⟨R, hR.setArgs args⟩
  | setLineEnding lineEnding _ ih =>
    obtain ⟨R, hR⟩ := ih
    exact ⟨R, hR.setLineEnding lineEnding⟩
  | setFiles files _ ih =>
    obtain ⟨R, hR⟩ := ih
    exact ⟨R, hR.setFiles files⟩
  | setVariable name v _ ih =>
    obtain ⟨R, hR⟩ := ih
    exact ⟨R, hR.setVariable name v⟩
  | make _ hplain ih =>
    obtain ⟨R, hR⟩ := ih
    exact ⟨R, hR.make hplain⟩

theorem source_of_run {s s' : Session} {fuel : Nat} {source : Source} {args : List String}
    (hrun : s.run fuel source args = some s') : s'.source = some source := by
  rcases run_cases hrun with ⟨program, -, hprogram⟩ | ⟨d, -, rfl⟩
  · rcases runProgram_cases hprogram with ⟨m, -, rfl⟩ | ⟨d, m, -, rfl⟩
    · rfl
    · rfl
  · rfl

/-- The code of the session is covered by readings, and its last failure is backed by
them. -/
structure Backed (R : Set Reading) (s : Session) : Prop where
  store : CoversStore R s.store
  failure : ∀ d ∈ s.failure, d.BackedBy R

/-- A program that is backed by an account of its run leaves a session that is backed. -/
theorem backed_of_runProgram {R : Set Reading} {s s' : Session} (hs : CoversStore R s.store)
    {fuel : Nat} {program : Program} {file : Option String} (hprogram : CoversBody R file program)
    {S : Set Reading} (hS : Eval.Accounts (fun _ _ => True) program
      (Eval.runProgram fuel program) (s.machine file) S) (hR : S ⊆ R)
    (hrun : s.runProgram fuel program file = some s') : s'.Backed R := by
  have hend := hS.backed R file trivial hR ⟨hprogram, hs, rfl, nofun⟩
  rcases runProgram_cases hrun with ⟨m, hout, rfl⟩ | ⟨d, m, hout, rfl⟩
  · rw [hout] at hend
    exact ⟨hend.store, fun d hd => absurd hd (Option.not_mem_none d)⟩
  · rw [hout] at hend
    refine ⟨hend.1.store, fun d' hd' => ?_⟩
    obtain rfl := Option.mem_some_iff.mp hd'
    exact hend.2

/-- Code that was backed by some readings stays so, since readings are only added. -/
theorem HasRead.backed {R : Set Reading} {s : Session} (h : HasRead R s) : s.Backed R := by
  induction h with
  | start files library lineEnding options =>
    exact ⟨fun _ => trivial, fun d hd => absurd hd (Option.not_mem_none d)⟩
  | @run R s s' fuel source args program S _ hparse hS hrun ih =>
    rw [s.run_of_ok source hparse] at hrun
    refine backed_of_runProgram ?_ (.of_reading (Or.inl rfl) hparse) hS
      (fun r hr => Or.inr (Or.inr hr)) hrun
    rw [prepared_store]
    exact ih.store.mono fun r hr => Or.inr (Or.inl hr)
  | @complain R s s' fuel source args d _ hparse hrun ih =>
    rw [s.run_of_error source hparse] at hrun
    cases hrun
    refine ⟨?_, fun d' hd' => ?_⟩
    · change CoversStore _ (s.prepared source args).store
      rw [prepared_store]
      exact ih.store.mono fun r hr => Or.inr hr
    · obtain rfl := Option.mem_some_iff.mp hd'
      exact .complaint (Or.inl rfl) hparse _ _
  | @absent R s s' fuel path args _ hread hrun ih =>
    unfold Session.runFile at hrun
    rw [hread] at hrun
    cases hrun
    refine ⟨ih.store, fun d hd => ?_⟩
    obtain rfl := Option.mem_some_iff.mp hd
    exact fun _ _ pos hpos => absurd hpos (Option.not_mem_none pos)
  | clear _ ih =>
    exact ⟨ih.store.of_evolves (.of_eq rfl rfl), fun d hd => absurd hd (Option.not_mem_none d)⟩
  | clearOutput _ ih => exact ⟨ih.store, ih.failure⟩
  | setArgs args _ ih => exact ⟨ih.store, ih.failure⟩
  | setLineEnding lineEnding _ ih => exact ⟨ih.store, ih.failure⟩
  | setFiles files _ ih => exact ⟨ih.store, ih.failure⟩
  | setVariable name v _ ih => exact ⟨ih.store.of_evolves (.of_eq rfl rfl), ih.failure⟩
  | make _ hplain ih => exact ⟨ih.store.alloc (coversObject_of_isPlain hplain), ih.failure⟩

/-- The source that a failure is shown with has the file of the innermost frame. -/
theorem of_sourceOf? {s : Session} {d : Diagnostic} {text : String}
    (h : s.sourceOf? d = some text) : ∃ source, s.source = some source ∧ source.text = text ∧
      ∀ entry ∈ d.trace.head?, entry.file = source.file := by
  unfold sourceOf? at h
  split at h
  · cases h
  · next source hsource =>
    split at h
    · next htrace =>
      refine ⟨source, hsource, Option.some.inj h, fun entry hentry => ?_⟩
      rw [htrace] at hentry
      cases hentry
    · next entry rest htrace =>
      split at h
      · next hfile =>
        refine ⟨source, hsource, Option.some.inj h, fun other hother => ?_⟩
        rw [htrace] at hother
        obtain rfl : entry = other := Option.some.inj hother
        exact hfile
      · cases h

/-- There is an account of every session, and the position of a failure that is shown with an
excerpt has been assigned by a text that was read under the file of the last program: by
that program itself if no other text was. Signals that nothing has caught are left out. -/
theorem excerpt_position_assigned (s : Session) (hs : s.Arises) (d : Diagnostic)
    (hfailure : s.failure = some d) (hexit : d.exitStatus? = none) (hstray : d.isStray = false)
    (hshown : d.excerpt (s.sourceOf? d) ≠ "") :
    (∃ R, HasRead R s) ∧
    ∀ R, HasRead R s → ∃ source pos, s.source = some source ∧
      s.sourceOf? d = some source.text ∧ d.pos = some pos ∧ Assigned R source.file pos ∧
      ((∀ r ∈ R, r.file = source.file → r.text = source.text) →
        Reading.Assigns ⟨source.file, source.text⟩ pos) := by
  refine ⟨hs.exists_hasRead, fun R hread => ?_⟩
  obtain ⟨text, pos, htext, hpos⟩ := Diagnostic.of_excerpt_ne hshown
  obtain ⟨source, hsource, rfl, hfile⟩ := of_sourceOf? htext
  obtain ⟨entry, hentry, hassigned⟩ := hread.backed.failure d hfailure hexit hstray pos hpos
  have hname : Assigned R source.file pos := hfile entry hentry ▸ hassigned
  refine ⟨source, pos, hsource, htext, hpos, hname, fun hone => ?_⟩
  obtain ⟨⟨file, text⟩, hr, hrfile, hassigns⟩ := hname
  obtain rfl : file = source.file := hrfile
  obtain rfl : text = source.text := hone _ hr rfl
  exact hassigns

end Session

def Session.shown (s : Session) : Option (Option Position × Option Int32 × Bool × String) :=
  s.failure.map fun d => (d.pos, d.exitStatus?, d.isStray, d.excerpt (s.sourceOf? d))

/-! A program reads a name in a reference block that nothing binds. -/

namespace Missing

def source : Source := ⟨"\x7b: missing :\x7d", none⟩

def program : Program := [.reference (.parallel [[.ident "missing" ⟨3, 1⟩]]) ⟨0, 1⟩]

def session : Session := .start ⟨[], .empty⟩ "" .lf .none

theorem tokenize_source : (tokenize source.text).toOption = some
    [⟨.refOpen, ⟨0, 1⟩⟩, ⟨.ident "missing", ⟨3, 1⟩⟩, ⟨.refClose, ⟨11, 1⟩⟩] := by cbv

theorem ofSource_source : Program.ofSource source.text = .ok program := by
  rw [Program.ofSource_of_tokens tokenize_source]
  rfl

theorem shown_source : (session.run 5 source []).bind Session.shown =
    some (some ⟨3, 1⟩, none, false, "\n    \x7b: missing :\x7d\n       ^\n") := by decide +kernel

theorem runProgram_program : ∃ d, Eval.runProgram 5 program
    ((session.prepared source []).machine source.file) =
      .fail d ((session.prepared source []).machine source.file) ∧
    d.pos = some ⟨3, 1⟩ ∧ d.trace.head?.map (·.file) = some none := ⟨_, rfl, rfl, rfl⟩

/-- The position of the name is one of the program's. -/
theorem at_program : Eval.At program ⟨3, 1⟩ := ⟨⟨⟨3, 1⟩, false⟩, by decide +kernel, rfl⟩

/-- The run takes no code from a text. -/
theorem accounts_program : Eval.Accounts (fun _ _ => True) program (Eval.runProgram 5 program)
    ((session.prepared source []).machine source.file) ∅ := by
  refine .quiet fun R file _ hm => ?_
  obtain ⟨d, hrun, hpos, hfile⟩ := runProgram_program
  rw [hrun]
  refine ⟨hm, fun _ _ p hp => ?_⟩
  obtain ⟨entry, hentry, hnone⟩ := Option.map_eq_some_iff.mp hfile
  obtain rfl : ⟨3, 1⟩ = p := Option.some.inj (hpos.symm.trans hp)
  refine ⟨entry, hentry, ?_⟩
  rw [hnone, show none = file from hm.file]
  exact hm.code _ at_program

/-- A name that is not bound is shown at the place that it was read from. -/
theorem missing_position_assigned : ∃ s d, session.run 5 source [] = some s ∧
    s.failure = some d ∧ d.excerpt (s.sourceOf? d) ≠ "" ∧ d.pos = some ⟨3, 1⟩ ∧
    s.source = some source ∧ Reading.Assigns ⟨source.file, source.text⟩ ⟨3, 1⟩ := by
  obtain ⟨s, hrun, hshown⟩ := Option.bind_eq_some_iff.mp shown_source
  obtain ⟨d, hfailure, hd⟩ := Option.map_eq_some_iff.mp hshown
  obtain ⟨hpos, hexit, hstray, hexcerpt⟩ : d.pos = some ⟨3, 1⟩ ∧ d.exitStatus? = none ∧
      d.isStray = false ∧ d.excerpt (s.sourceOf? d) = "\n    \x7b: missing :\x7d\n       ^\n" := by
    simpa only [Prod.mk.injEq] using hd
  have hne : d.excerpt (s.sourceOf? d) ≠ "" := by
    rw [hexcerpt]
    decide
  have hbegin : Session.HasRead ∅ session := .start ⟨[], .empty⟩ "" .lf .none
  have harises : session.Arises := .start ⟨[], .empty⟩ "" .lf .none
  have hread := hbegin.run ofSource_source accounts_program hrun
  have hsource : s.source = some source := Session.source_of_run hrun
  obtain ⟨-, hassigned⟩ := Session.excerpt_position_assigned s (harises.run hrun) d hfailure
    hexit hstray hne
  obtain ⟨source', pos, hsource', -, hpos', -, hown⟩ := hassigned _ hread
  obtain rfl : source = source' := Option.some.inj (hsource.symm.trans hsource')
  obtain rfl : ⟨3, 1⟩ = pos := Option.some.inj (hpos.symm.trans hpos')
  refine ⟨s, d, hrun, hfailure, hne, hpos, hsource, hown ?_⟩
  rintro r (rfl | hr | hr) _
  · rfl
  · exact absurd hr (Set.notMem_empty r)
  · exact absurd hr (Set.notMem_empty r)

end Missing

/-! A program defines a function that reads such a name, and the next one calls it. The
failure is shown with a line of the second program at a position of the first. -/

namespace Leftover

def first : Source := ⟨"\x7b@ def f(): return missing end @\x7d", none⟩

def second : Source := ⟨"\x7b: f() :\x7d and the rest of the line", none⟩

def program : Program :=
  [.reference (.parallel [[.chain (.ident "f" ⟨3, 1⟩) [.call [] ⟨4, 1⟩]]]) ⟨0, 1⟩,
    .text " and the rest of the line"]

def session : Session := .start ⟨[], .empty⟩ "" .lf .none

theorem tokenize_second : (tokenize second.text).toOption = some
    [⟨.refOpen, ⟨0, 1⟩⟩, ⟨.ident "f", ⟨3, 1⟩⟩, ⟨.punct .lparen, ⟨4, 1⟩⟩, ⟨.punct .rparen, ⟨5, 1⟩⟩,
      ⟨.refClose, ⟨7, 1⟩⟩, ⟨.text " and the rest of the line", ⟨9, 1⟩⟩] := by cbv

theorem ofSource_second : Program.ofSource second.text = .ok program := by
  rw [Program.ofSource_of_tokens tokenize_second]
  rfl

theorem shown_second : ((session.run 9 first []).bind fun s => s.run 9 second []).bind
    Session.shown = some (some ⟨19, 1⟩, none, false,
      "\n    \x7b: f() :\x7d and the rest of the line\n                       ^\n") := by
  decide +kernel

theorem marks_program : marks program =
    [⟨⟨0, 1⟩, false⟩, ⟨⟨4, 1⟩, true⟩, ⟨⟨3, 1⟩, false⟩] := by decide +kernel

/-- The second program has nothing at the place at which the first one failed. -/
theorem not_assigned_second : ¬Reading.Assigns ⟨second.file, second.text⟩ ⟨19, 1⟩ := by
  rw [Reading.assigns_of_ok ofSource_second, Eval.At, marks_program]
  decide

/-- The position of a failure that is shown with an excerpt need not be one of the last
program. -/
theorem excerpt_of_last_program : ∃ s s' d pos, session.run 9 first [] = some s ∧
    s.run 9 second [] = some s' ∧ s'.failure = some d ∧ s'.source = some second ∧
    d.excerpt (s'.sourceOf? d) ≠ "" ∧ d.pos = some pos ∧
    ¬Reading.Assigns ⟨second.file, second.text⟩ pos := by
  obtain ⟨s', hruns, hshown⟩ := Option.bind_eq_some_iff.mp shown_second
  obtain ⟨s, hfirst, hsecond⟩ := Option.bind_eq_some_iff.mp hruns
  obtain ⟨d, hfailure, hd⟩ := Option.map_eq_some_iff.mp hshown
  obtain ⟨hpos, -, -, hexcerpt⟩ := by simpa only [Prod.mk.injEq] using hd
  have hsource : s'.source = some second := Session.source_of_run hsecond
  refine ⟨s, s', d, ⟨19, 1⟩, hfirst, hsecond, hfailure, hsource, ?_, hpos, not_assigned_second⟩
  rw [hexcerpt]
  decide

end Leftover

end Stencil
