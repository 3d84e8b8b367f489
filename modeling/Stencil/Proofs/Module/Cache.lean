import Mathlib
import Stencil.Proofs.Eval.Reachable
import Stencil.Proofs.Module.Trace

/-!
The table of known modules. At every step of every run it holds the modules whose
body has run to its end since the session was last cleared and those whose body is
being run now, each as the object that was made when its body began. Between runs
the second kind is empty. So no body runs to its end twice, what a session knows is
never lost or replaced, and a module that fails or exits is not known afterwards and
is run again when it is next imported.
-/

namespace Stencil

namespace Event

def completion? : Event → Option (String × Value)
  | .completes file v => some (file, v)
  | _ => none

def onStack (stack : List (String × Value)) : Event → List (String × Value)
  | .begins file v => (file, v) :: stack
  | .completes .. | .abandons .. => stack.tail
  | .step _ => stack

/-- The modules whose body has run to its end, one entry for each time. -/
def completed (history : List Event) : List (String × Value) := history.filterMap completion?

/-- The modules whose body has begun and not ended, the innermost first. -/
def importStack (history : List Event) : List (String × Value) := history.foldl onStack []

/-- A table holds the modules that have been run and those that are being run, and
among these no file twice. -/
structure Describes (history : List Event) (modules : Dict Value) : Prop where
  get?_iff : ∀ file v, modules.get? file = some v ↔
    (file, v) ∈ completed history ∨ (file, v) ∈ importStack history
  nodup : ((importStack history ++ completed history).map Prod.fst).Nodup

def Faithful (past events : List Event) : Prop :=
  ∀ before m rest, events = before ++ .step m :: rest →
    Describes (past ++ before) m.context.modules

@[simp]
theorem completed_append (past events : List Event) :
    completed (past ++ events) = completed past ++ completed events :=
  List.filterMap_append

theorem importStack_concat (past : List Event) (e : Event) :
    importStack (past ++ [e]) = onStack (importStack past) e := by
  unfold importStack
  rw [List.foldl_append]
  rfl

/-- A history goes on from the modules whose bodies are being run. -/
theorem importStack_append {past : List Event} (h : importStack past = []) (events : List Event) :
    importStack (past ++ events) = importStack events := by
  unfold importStack at h ⊢
  rw [List.foldl_append, h]

theorem mem_completed_iff {history : List Event} {file : String} {v : Value} :
    (file, v) ∈ completed history ↔ .completes file v ∈ history := by
  unfold completed
  rw [List.mem_filterMap]
  constructor
  · rintro ⟨e, he, heq⟩
    cases e with
    | completes f w => cases heq; exact he
    | _ => cases heq
  · exact fun h => ⟨_, h, rfl⟩

namespace Describes

variable {past : List Event} {modules : Dict Value}

theorem nil : Describes [] .empty where
  get?_iff file v := by
    constructor
    · intro h
      cases h
    · rintro (h | h)
      · cases h
      · cases h
  nodup := by simp [importStack, completed]

theorem step (h : Describes past modules) (m : Machine) :
    Describes (past ++ [.step m]) modules := by
  have hcompleted : completed (past ++ [.step m]) = completed past := by
    rw [completed_append]
    exact List.append_nil _
  constructor
  · rw [hcompleted, importStack_concat]
    exact h.get?_iff
  · rw [hcompleted, importStack_concat]
    exact h.nodup

/-- A file that has no entry in the table is neither among those that have been run
nor among those that are being run. -/
theorem notMem (h : Describes past modules) {file : String} (hfile : modules.get? file = none) :
    file ∉ (importStack past ++ completed past).map Prod.fst := by
  intro hmem
  obtain ⟨⟨f, v⟩, hentry, rfl⟩ := List.mem_map.mp hmem
  have hsome : modules.get? f = some v := (h.get?_iff f v).mpr (List.mem_append.mp hentry).symm
  rw [hfile] at hsome
  cases hsome

/-- A module that begins is entered in the table and put on the stack. -/
theorem begins (h : Describes past modules) {file : String} (hfile : modules.get? file = none)
    (v : Value) : Describes (past ++ [.begins file v]) (modules.insert file v) := by
  have hcompleted : completed (past ++ [.begins file v]) = completed past := by
    rw [completed_append]
    exact List.append_nil _
  have hstack : importStack (past ++ [.begins file v]) = (file, v) :: importStack past :=
    importStack_concat past _
  constructor
  · intro f w
    rw [hcompleted, hstack, Dict.get?_insert, List.mem_cons, Prod.mk.injEq]
    by_cases hf : f = file
    · subst hf
      have hnot : ∀ u, (f, u) ∉ completed past ∧ (f, u) ∉ importStack past := by
        intro u
        rw [← not_or, ← h.get?_iff, hfile]
        exact nofun
      simp [hnot w, eq_comm]
    · simp [hf, h.get?_iff]
  · rw [hcompleted, hstack]
    exact List.nodup_cons.mpr ⟨h.notMem hfile, h.nodup⟩

section Ends

variable {file : String} {v : Value} {stack : List (String × Value)}
  (hstack : importStack past = (file, v) :: stack)

include hstack

/-- A module that gets to its end leaves the stack and keeps its entry. -/
theorem completes (h : Describes past modules) :
    Describes (past ++ [.completes file v]) modules ∧
      importStack (past ++ [.completes file v]) = stack := by
  have hcompleted : completed (past ++ [.completes file v]) = completed past ++ [(file, v)] := by
    rw [completed_append]
    rfl
  have hrest : importStack (past ++ [.completes file v]) = stack := by
    rw [importStack_concat, hstack]
    rfl
  refine ⟨⟨fun f w => ?_, ?_⟩, hrest⟩
  · rw [hcompleted, hrest, h.get?_iff, hstack]
    simp only [List.mem_append, List.mem_cons, List.not_mem_nil, or_false]
    rw [or_assoc]
  · have hnodup := h.nodup
    rw [hstack] at hnodup
    rw [hcompleted, hrest, ← List.append_assoc]
    exact ((List.perm_append_singleton _ _).map Prod.fst).nodup_iff.mpr hnodup

/-- A module that is given up leaves the stack and loses its entry. -/
theorem abandons (h : Describes past modules) :
    Describes (past ++ [.abandons file v]) (modules.erase file) ∧
      importStack (past ++ [.abandons file v]) = stack := by
  have hcompleted : completed (past ++ [.abandons file v]) = completed past := by
    rw [completed_append]
    exact List.append_nil _
  have hrest : importStack (past ++ [.abandons file v]) = stack := by
    rw [importStack_concat, hstack]
    rfl
  have hnodup := h.nodup
  rw [hstack] at hnodup
  obtain ⟨hnot, hothers⟩ := List.nodup_cons.mp hnodup
  refine ⟨⟨fun f w => ?_, ?_⟩, hrest⟩
  · rw [hcompleted, hrest, Dict.get?_erase_eq_some_iff, h.get?_iff, hstack, List.mem_cons]
    constructor
    · rintro ⟨hne, hmem | heq | hmem⟩
      · exact Or.inl hmem
      · cases heq
        exact absurd rfl hne
      · exact Or.inr hmem
    · intro hmem
      refine ⟨?_, ?_⟩
      · rintro rfl
        exact hnot (List.mem_map.mpr ⟨(f, w), List.mem_append.mpr hmem.symm, rfl⟩)
      · rcases hmem with hmem | hmem
        · exact Or.inl hmem
        · exact Or.inr (Or.inr hmem)
  · rw [hcompleted, hrest]
    exact hothers

end Ends

end Describes

namespace Faithful

variable {past events more : List Event}

theorem nil : Faithful past [] := by
  intro before m rest h
  cases before with
  | nil => cases h
  | cons e before => cases h

/-- What goes on after a faithful piece may be told behind it. -/
theorem append (h : Faithful past events) (hmore : Faithful (past ++ events) more) :
    Faithful past (events ++ more) := by
  intro before m rest heq
  rcases List.append_eq_append_iff.mp heq with ⟨middle, rfl, hsplit⟩ | ⟨middle, hsplit, hrest⟩
  · rw [← List.append_assoc]
    exact hmore middle m rest hsplit
  · cases middle with
    | nil =>
      rw [List.append_nil] at hsplit
      subst hsplit
      simpa using hmore [] m rest hrest.symm
    | cons e middle =>
      cases hrest
      exact h before m middle hsplit

theorem single {e : Event} (h : ∀ m, e = .step m → Describes past m.context.modules) :
    Faithful past [e] := by
  intro before m rest heq
  cases before with
  | nil =>
    cases heq
    rw [List.append_nil]
    exact h m rfl
  | cons first before =>
    injection heq with _ htail
    cases before with
    | nil => cases htail
    | cons second before => cases htail

end Faithful

end Event

open Event

def Outcome.FailsIn {α : Type} (failed : Machine → Prop) : Outcome α → Prop
  | .done _ _ => False
  | .fail _ m => failed m
  | .starved _ => True

namespace Eval

variable {α : Type} {x : Eval α} {J : Machine → List Event}

/-- What is known of the table of modules at the end of a computation: the history
describes it, and the same bodies are being run as before. -/
def Accounted (past events : List Event) (m : Machine) : Prop :=
  Describes (past ++ events) m.context.modules ∧ importStack (past ++ events) = importStack past

/-- A module that is run is among the known ones while its body runs, and stays if it
gets to its end. -/
theorem describes_runModule {ex : Executor} {path file : String} {program : Program}
    {pos : Position} {past body : List Event} {m : Machine}
    (hpast : Describes past m.context.modules) (hfile : m.context.modules.get? file = none)
    (hbody : ∀ past, Describes past (m.withModule path file).context.modules →
      Faithful past body ∧ (runBody ex (m.moduleFrame file) program pos
        (m.withModule path file)).EndsIn (Accounted past body)) :
    let events := .begins file m.moduleValue :: (body ++ (runBody ex (m.moduleFrame file) program
      pos (m.withModule path file)).ending file m.moduleValue)
    Faithful past events ∧
      (runModule ex path file program pos m).EndsIn (Accounted past events) := by
  intro events
  have hstack : importStack (past ++ [.begins file m.moduleValue]) =
      (file, m.moduleValue) :: importStack past := importStack_concat past _
  obtain ⟨hfaithful, hend⟩ := hbody _ (hpast.begins hfile m.moduleValue)
  have hbegins : Faithful past [.begins file m.moduleValue] := Faithful.single nofun
  have hevents : past ++ events = past ++ [.begins file m.moduleValue] ++ body ++
      (runBody ex (m.moduleFrame file) program pos (m.withModule path file)).ending file
        m.moduleValue := by
    simp [events]
  rw [runModule_eq]
  unfold Accounted
  rw [hevents]
  cases hrun : runBody ex (m.moduleFrame file) program pos (m.withModule path file) with
  | done a m' =>
    rw [hrun] at hend
    refine ⟨hbegins.append (hfaithful.append ?_), hend.1.completes (hend.2.trans hstack)⟩
    rw [hrun]
    exact Faithful.single nofun
  | fail d m' =>
    rw [hrun] at hend
    refine ⟨hbegins.append (hfaithful.append ?_), hend.1.abandons (hend.2.trans hstack)⟩
    rw [hrun]
    exact Faithful.single nofun
  | starved m' =>
    refine ⟨hbegins.append (hfaithful.append ?_), trivial⟩
    rw [hrun]
    exact Faithful.nil

/-- A history describes the table of modules at each step and at its end, where the same bodies
are being run as at its beginning. The history grows with the run, so each part is told behind
all that came before it. -/
theorem Traces.describes (h : Traces x J) {past : List Event} {m : Machine}
    (hpast : Describes past m.context.modules) :
    Faithful past (J m) ∧ (x m).EndsIn (Accounted past (J m)) := by
  have hstill : ∀ {past : List Event} {m : Machine}, Describes past m.context.modules →
      Faithful past [.step m] ∧ Accounted past [.step m] m := by
    intro past m hpast
    refine ⟨Faithful.single fun m' heq => ?_, hpast.step m, importStack_concat past _⟩
    cases heq
    exact hpast
  induction h generalizing past m with
  | step hstep =>
    refine ⟨(hstill hpast).1, Outcome.Ends.mono (hstep.modules m) (fun m' hm' => ?_) fun _ h => h⟩
    unfold Accounted
    rw [hm']
    exact (hstill hpast).2
  | @bind α β x f J K _ _ ihx ihf =>
    obtain ⟨hfaithful, hend⟩ := ihx hpast
    change _ ∧ (Eval.bind x f m).EndsIn _
    unfold Eval.bind
    dsimp only
    cases hrun : x m with
    | done a m' =>
      rw [hrun] at hend
      obtain ⟨hrest, hend'⟩ := ihf a hend.1
      refine ⟨hfaithful.append hrest, ?_⟩
      unfold Accounted at hend'
      rw [hend.2, List.append_assoc] at hend'
      exact hend'
    | fail d m' =>
      rw [hrun] at hend
      simp only [Outcome.events, List.append_nil]
      exact ⟨hfaithful, hend⟩
    | starved m' =>
      simp only [Outcome.events, List.append_nil]
      exact ⟨hfaithful, trivial⟩
  | @inReferenceBlock α x J _ ih =>
    obtain ⟨hfaithful, hend⟩ := ih (m := { m with inReference := true }) hpast
    exact ⟨hfaithful, ends_inReferenceBlock hend (fun _ h => h) fun _ h => h⟩
  | @enter α x J frame pos _ ih =>
    by_cases hdepth : m.depth < depthLimit
    · obtain ⟨hfaithful, hend⟩ := ih (m := m.entered frame) hpast
      simp only [hdepth, if_true]
      exact ⟨hfaithful, ends_enter (fun _ => hend) (fun _ h => h) (fun _ h => h)
        fun hdeep => absurd hdepth hdeep⟩
    · unfold Eval.enter
      simp only [hdepth, if_false]
      exact hstill hpast
  | @importModule ex pos K path hbody ih =>
    rcases importModule_cases ex path pos m with ⟨file, program, hrun, heq⟩ | ⟨hnone, hend⟩
    · simp only [hrun, heq]
      exact describes_runModule hpast (Machine.get?_of_toRun? hrun) fun past hpast =>
        ih (m.moduleFrame file) program hpast
    · simp only [hnone]
      refine ⟨(hstill hpast).1, ?_⟩
      rcases hend with ⟨v, heq⟩ | ⟨d, heq⟩
      · rw [heq]
        exact (hstill hpast).2
      · rw [heq]
        exact (hstill hpast).2

/-- A computation in which the body of a module is given up fails in its turn, and the module is
not known afterwards. No construct catches the failure; what undoes an import on the way only
erases more. -/
theorem Traces.of_abandons (h : Traces x J) {m : Machine} {file : String} {v : Value}
    (hmem : .abandons file v ∈ J m) :
    (x m).FailsIn fun m' => m'.context.modules.get? file = none := by
  induction h generalizing m with
  | step _ => cases List.mem_singleton.mp hmem
  | @bind α β x f J K _ _ ihx ihf =>
    change (Eval.bind x f m).FailsIn _
    unfold Eval.bind
    rcases List.mem_append.mp hmem with hmem | hmem
    · have hfails := ihx hmem
      cases hrun : x m with
      | done a m' => rw [hrun] at hfails; exact hfails.elim
      | fail d m' => rw [hrun] at hfails; exact hfails
      | starved m' => trivial
    · cases hrun : x m with
      | done a m' => rw [hrun] at hmem; exact ihf a hmem
      | fail d m' => rw [hrun] at hmem; cases hmem
      | starved m' => trivial
  | @inReferenceBlock α x J _ ih =>
    have hfails := ih hmem
    unfold Eval.inReferenceBlock
    cases hrun : x { m with inReference := true } with
    | done a m' => rw [hrun] at hfails; exact hfails
    | fail d m' => rw [hrun] at hfails; exact hfails
    | starved m' => trivial
  | @enter α x J frame pos _ ih =>
    by_cases hdepth : m.depth < depthLimit
    · simp only [hdepth, if_true] at hmem
      have hfails := ih hmem
      rw [enter_eq hdepth]
      cases hrun : x (m.entered frame) with
      | done a m' => rw [hrun] at hfails; exact hfails
      | fail d m' => rw [hrun] at hfails; exact hfails
      | starved m' => trivial
    · simp only [hdepth, if_false] at hmem
      cases List.mem_singleton.mp hmem
  | @importModule ex pos K path hbody ih =>
    rcases importModule_cases ex path pos m with ⟨found, program, hfound, heq⟩ | ⟨hnone, -⟩
    · simp only [hfound, List.mem_cons, List.mem_append, reduceCtorEq, false_or] at hmem
      rw [heq, runModule_eq]
      rcases hmem with hmem | hmem
      · have hfails := ih _ _ hmem
        cases hrun : runBody ex (m.moduleFrame found) program pos (m.withModule path found) with
        | done a m' => rw [hrun] at hfails; exact hfails
        | fail d m' =>
          rw [hrun] at hfails
          change (m'.context.modules.erase found).get? file = none
          rw [Dict.get?_erase, hfails, ite_self]
        | starved m' => trivial
      · cases hrun : runBody ex (m.moduleFrame found) program pos (m.withModule path found) with
        | done a m' => rw [hrun] at hmem; cases List.mem_singleton.mp hmem
        | fail d m' =>
          rw [hrun] at hmem
          cases List.mem_singleton.mp hmem
          change (m'.context.modules.erase file).get? file = none
          rw [Dict.get?_erase, if_pos rfl]
        | starved m' => trivial
    · simp only [hnone] at hmem
      cases List.mem_singleton.mp hmem

end Eval

namespace Session

/-- What has happened in a session since it was last cleared. -/
inductive History : Session → List Event → Prop
  | start (files : FileTree) (library : String) (lineEnding : LineEnding) (options : Options) :
      History (.start files library lineEnding options) []
  | clear {s : Session} {history : List Event} : History s history → History s.clear []
  | run {s s' : Session} {history : List Event} {fuel : Nat} {program : Program}
      {file : Option String} {J : Machine → List Event} : History s history →
      Eval.Traces (Eval.runProgram fuel program) J → s.runProgram fuel program file = some s' →
      History s' (history ++ J (s.machine file))
  /-- The host does something that has nothing to do with modules. -/
  | tended {s s' : Session} {history : List Event} : History s history →
      s'.context.modules = s.context.modules → History s' history

/-- A run adds its own history to that of the session. -/
theorem exists_history_run {s s' : Session} {fuel : Nat} {source : Source} {args : List String}
    {history : List Event} (h : s.History history) (hrun : s.run fuel source args = some s') :
    ∃ events, s'.History (history ++ events) := by
  obtain ⟨options, hcontext⟩ := s.exists_prepared_context source args
  have hready : (s.prepared source args).History history := h.tended (by rw [hcontext])
  rcases run_cases hrun with ⟨program, -, hprogram⟩ | ⟨d, -, rfl⟩
  · obtain ⟨J, hJ⟩ := Eval.exists_traces_runProgram fuel program
    exact ⟨_, hready.run hJ hprogram⟩
  · refine ⟨[], ?_⟩
    rw [List.append_nil]
    exact hready.tended rfl

/-- Every session has a history. -/
theorem Arises.exists_history {s : Session} (h : s.Arises) : ∃ history, s.History history := by
  induction h with
  | start files library lineEnding options => exact ⟨[], .start files library lineEnding options⟩
  | run _ hrun ih =>
    obtain ⟨history, hs⟩ := ih
    obtain ⟨events, hs'⟩ := exists_history_run hs hrun
    exact ⟨_, hs'⟩
  | runFile _ hrun ih =>
    obtain ⟨history, hs⟩ := ih
    rcases runFile_cases hrun with ⟨text, -, htext⟩ | ⟨-, rfl⟩
    · obtain ⟨events, hs'⟩ := exists_history_run hs htext
      exact ⟨_, hs'⟩
    · exact ⟨history, hs.tended rfl⟩
  | clear _ ih =>
    obtain ⟨history, hs⟩ := ih
    exact ⟨[], hs.clear⟩
  | clearOutput _ ih | setArgs _ _ ih | setLineEnding _ _ ih | setFiles _ _ ih
  | setVariable _ _ _ ih | make _ _ ih =>
    obtain ⟨history, hs⟩ := ih
    exact ⟨history, hs.tended rfl⟩

/-- Between runs a session knows the modules whose body has run to its end. -/
theorem History.describes {s : Session} {history : List Event} (h : s.History history) :
    Describes history s.context.modules ∧ importStack history = [] := by
  induction h with
  | start files library lineEnding options => exact ⟨.nil, rfl⟩
  | clear _ _ => exact ⟨.nil, rfl⟩
  | @run s s' history fuel program file J _ hJ hrun ih =>
    have hend := (hJ.describes (m := s.machine file) ih.1).2
    obtain ⟨m, failure, haccounted, rfl⟩ := exists_adopt hend hrun
    exact ⟨haccounted.1, haccounted.2.trans ih.2⟩
  | tended _ hmodules ih =>
    rw [hmodules]
    exact ih

/-- A run keeps what the session knows, and afterwards a module that it gave up is not
known. -/
theorem runProgram_modules {s s' : Session} {history : List Event} (h : s.History history)
    {fuel : Nat} {program : Program} {file : Option String} {J : Machine → List Event}
    (hJ : Eval.Traces (Eval.runProgram fuel program) J)
    (hrun : s.runProgram fuel program file = some s') :
    (∀ path v, s.context.modules.get? path = some v → s'.context.modules.get? path = some v) ∧
      ∀ path v, .abandons path v ∈ J (s.machine file) → s'.context.modules.get? path = none := by
  obtain ⟨hbefore, hempty⟩ := h.describes
  obtain ⟨hafter, -⟩ := (h.run hJ hrun).describes
  constructor
  · intro path v hknown
    rw [hbefore.get?_iff, hempty] at hknown
    rcases hknown with hknown | hknown
    · refine (hafter.get?_iff path v).mpr (Or.inl ?_)
      rw [completed_append]
      exact List.mem_append_left _ hknown
    · cases hknown
  · intro path v hmem
    have hfails := hJ.of_abandons hmem
    rcases runProgram_cases hrun with ⟨m, heq, rfl⟩ | ⟨d, m, heq, rfl⟩
    · rw [heq] at hfails
      exact hfails.elim
    · rw [heq] at hfails
      exact hfails

/-- Bodies of modules run to their end at most once between two clears. A session knows
exactly the modules whose bodies did, and at each step of a run the table has besides
these only the modules whose bodies are being run. A run loses and replaces none of them,
whether it ends well or not; what it gave up is not known afterwards. And whether a file
is known decides whether an import runs it. -/
theorem modules_run_once :
    (∀ s : Session, s.Arises → ∃ history, s.History history) ∧
    (∀ fuel program, ∃ J, Eval.Traces (Eval.runProgram fuel program) J) ∧
    (∀ (s : Session) (history : List Event), s.History history →
      ((completed history).map Prod.fst).Nodup ∧
      (∀ path v, s.context.modules.get? path = some v ↔ .completes path v ∈ history) ∧
      ∀ fuel program file J, Eval.Traces (Eval.runProgram fuel program) J →
        (∀ before m rest, J (s.machine file) = before ++ .step m :: rest → ∀ path v,
          m.context.modules.get? path = some v ↔
            .completes path v ∈ history ++ before ∨ (path, v) ∈ importStack before) ∧
        ∀ s', s.runProgram fuel program file = some s' →
          s'.History (history ++ J (s.machine file)) ∧
          (∀ path v, s.context.modules.get? path = some v →
            s'.context.modules.get? path = some v) ∧
          ∀ path v, .abandons path v ∈ J (s.machine file) →
            s'.context.modules.get? path = none) ∧
    ∀ ex path pos (m : Machine) file, m.resolve? path = some file →
      (∀ v, m.context.modules.get? file = some v →
        Eval.importModule ex path pos m = .done v m) ∧
      (m.context.modules.get? file = none → ∀ source program,
        m.store.files.readText? file = some source → Program.ofSource source = .ok program →
        Eval.importModule ex path pos m = Eval.runModule ex path file program pos m) := by
  refine ⟨fun s => Arises.exists_history, Eval.exists_traces_runProgram, ?_, ?_⟩
  · intro s history h
    obtain ⟨hdescribes, hempty⟩ := h.describes
    have hknown : ∀ path v, s.context.modules.get? path = some v ↔ .completes path v ∈ history := by
      intro path v
      rw [hdescribes.get?_iff, hempty, mem_completed_iff]
      simp
    have hnodup := hdescribes.nodup
    rw [hempty, List.nil_append] at hnodup
    refine ⟨hnodup, hknown, fun fuel program file J hJ => ⟨?_, fun s' hrun => ?_⟩⟩
    · intro before m rest heq path v
      have hstep := (hJ.describes (m := s.machine file) hdescribes).1 before m rest heq
      rw [hstep.get?_iff, mem_completed_iff, importStack_append hempty]
    · exact ⟨h.run hJ hrun, runProgram_modules h hJ hrun⟩
  · intro ex path pos m file hfound
    constructor
    · exact fun v hknown => Eval.importModule_of_known hfound hknown ex pos
    · intro hunknown source program hsource hparse
      exact Eval.importModule_of_unknown hfound hunknown hsource hparse ex pos

/-! A module that fails after a module which it imports, and which imports it in turn, has
run to its end. -/

namespace Circle

open Eval

def failing : String := "\x7b@ import \"/b\" as b @\x7d\x7b@ break @\x7d"

def failingBody : Program := [.importAs "/b" "b" ⟨3, 1⟩, .break ⟨25, 1⟩]

def closing : String := "\x7b@ import \"/a\" as a @\x7d"

def closingBody : Program := [.importAs "/a" "a" ⟨3, 1⟩]

def files : FileTree :=
  ⟨[], .ofList [("/a", .file failing.toUTF8), ("/b", .file closing.toUTF8)]⟩

def session : Session := .start files "" .lf .none

theorem ofSource_failing : Program.ofSource failing = .ok failingBody := by cbv

theorem ofSource_closing : Program.ofSource closing = .ok closingBody := by cbv

theorem readText?_a : files.readText? "/a" = some failing := by cbv

theorem readText?_b : files.readText? "/b" = some closing := by cbv

theorem resolve?_of_files {m : Machine} (h : m.store.files = files) {path : String}
    (hpath : path = "/a" ∨ path = "/b") : m.resolve? path = some path := by
  have hfile : files.isFile path = true ∧ files.canonical? path = some path := by
    rcases hpath with rfl | rfl
    · exact ⟨by cbv, by cbv⟩
    · exact ⟨by cbv, by cbv⟩
  unfold Machine.resolve? Machine.candidates
  rw [h, List.find?_cons_of_pos hfile.1]
  simp only [hfile.2, Option.getD_some]

theorem exec_importAs_of_done {fuel : Nat} {path name : String} {pos : Position}
    {rest : List Stmt} {m m' : Machine} {v : Value}
    (h : importModule (exec fuel) path pos m = .done v m') :
    exec (fuel + 1) (.importAs path name pos :: rest) m =
      execEach (execStep (eval fuel) (exec fuel) fuel) rest
        { m' with store := m'.store.bindName m'.frame.locals name v } := by
  have himport : importAs (exec fuel) path name pos m = .done ()
      { m' with store := m'.store.bindName m'.frame.locals name v } :=
    bind_eq_done_iff.mpr ⟨v, m', h, rfl⟩
  have hstep : execStep (eval fuel) (exec fuel) fuel (.importAs path name pos) m = .done .next
      { m' with store := m'.store.bindName m'.frame.locals name v } := bind_of_done himport _
  rw [exec, execEach]
  exact bind_of_done hstep _

def outer : Machine :=
  let m := session.machine none
  (m.withModule "/a" "/a").entered (m.moduleFrame "/a")

def inner : Machine := (outer.withModule "/b" "/b").entered (outer.moduleFrame "/b")

/-- The second module is run while the body of the first is, and its import of the first
finds the module that is being run. -/
theorem importModule_inner : ∃ m, importModule (exec 3) "/b" ⟨3, 1⟩ outer = .done ⟨1⟩ m ∧
    m.context.modules = outer.context.modules.insert "/b" ⟨1⟩ := by
  have hknown : importModule (exec 2) "/a" ⟨3, 1⟩ inner = .done ⟨0⟩ inner :=
    importModule_of_known (resolve?_of_files rfl (Or.inl rfl)) rfl _ _
  have hrun : (exec 3 closingBody >>= fun flow => settle flow)
      ((outer.withModule "/b" "/b").entered (outer.moduleFrame "/b")) = .done () _ :=
    bind_eq_done_iff.mpr ⟨.next, _, exec_importAs_of_done hknown, rfl⟩
  have hfound : outer.resolve? "/b" = some "/b" := resolve?_of_files rfl (Or.inr rfl)
  have himport : importModule (exec 3) "/b" ⟨3, 1⟩ outer =
      runModule (exec 3) "/b" "/b" closingBody ⟨3, 1⟩ outer :=
    importModule_of_unknown hfound rfl readText?_b ofSource_closing _ _
  rw [himport, runModule_eq, runBody, enter_eq (by decide), hrun]
  exact ⟨_, rfl, rfl⟩

/-- The import of the first module fails after the second has run to its end. -/
theorem importModule_outer : ∃ d m, importModule (exec 4) "/a" .start (session.machine none) =
    .fail d m ∧ m.context.modules = (outer.context.modules.insert "/b" ⟨1⟩).erase "/a" := by
  obtain ⟨m, hinner, hmodules⟩ := importModule_inner
  let start := session.machine none
  have hbody : exec 4 failingBody outer = .done (.break ⟨25, 1⟩)
      { m with store := m.store.bindName m.frame.locals "b" ⟨1⟩ } := exec_importAs_of_done hinner
  obtain ⟨d, m', hrun, hcontext⟩ : ∃ d m', (exec 4 failingBody >>= fun flow => settle flow)
      ((start.withModule "/a" "/a").entered (start.moduleFrame "/a")) = .fail d m' ∧
      m'.context = m.context := ⟨_, _, bind_of_done hbody _, rfl⟩
  have hfound : start.resolve? "/a" = some "/a" := resolve?_of_files rfl (Or.inl rfl)
  have himport : importModule (exec 4) "/a" .start start =
      runModule (exec 4) "/a" "/a" failingBody .start start :=
    importModule_of_unknown hfound rfl readText?_a ofSource_failing _ _
  rw [himport, runModule_eq, runBody, enter_eq (by decide), hrun]
  refine ⟨_, _, rfl, ?_⟩
  rw [← hmodules, ← hcontext]

/-- The module that was given up has no entry, and the one that it imported has. -/
theorem run_program : ∃ s', session.runProgram 5 [.importAs "/a" "a" .start] none = some s' ∧
    s'.context.modules.get? "/a" = none ∧ s'.context.modules.get? "/b" = some ⟨1⟩ := by
  obtain ⟨d, m, himport, hmodules⟩ := importModule_outer
  have hrun : Eval.runProgram 5 [.importAs "/a" "a" .start] (session.machine none) = .fail d m := by
    change Eval.bind (Eval.bind (Eval.bind (Eval.bind _ _) _) _) _ _ = _
    simp only [Eval.bind, himport]
  refine ⟨_, by rw [runProgram, hrun], ?_⟩
  change m.context.modules.get? "/a" = none ∧ m.context.modules.get? "/b" = some ⟨1⟩
  rw [hmodules]
  exact ⟨rfl, rfl⟩

/-- The module that is imported first is given up, and the other one stays known. -/
theorem modules_circle : ∃ s' history,
    session.runProgram 5 [.importAs "/a" "a" .start] none = some s' ∧
      s'.History history ∧ .completes "/b" ⟨1⟩ ∈ history ∧ ∀ v, .completes "/a" v ∉ history := by
  obtain ⟨s', hrun, ha, hb⟩ := run_program
  obtain ⟨-, htraces, hsessions, -⟩ := modules_run_once
  obtain ⟨J, hJ⟩ := htraces 5 [.importAs "/a" "a" .start]
  have hstart : session.History [] := .start files "" .lf .none
  obtain ⟨-, hnext⟩ := (hsessions session [] hstart).2.2 5 _ none J hJ
  obtain ⟨hhistory, -, -⟩ := hnext s' hrun
  obtain ⟨-, hknown, -⟩ := hsessions s' _ hhistory
  refine ⟨s', _, hrun, hhistory, (hknown "/b" ⟨1⟩).mp hb, fun v hv => ?_⟩
  have hsome := (hknown "/a" v).mpr hv
  rw [ha] at hsome
  cases hsome

end Circle

end Session

end Stencil
