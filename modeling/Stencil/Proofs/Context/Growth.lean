import Stencil.Proofs.Eval.Reachable
import Stencil.Proofs.Module.Trace

/-!
What a run leaves of its context. Whatever has been written stays: at every step of
every run the output and the error output extend what was there at the steps before
it, no shortcut is lost, and the options, the line end and the table of the global
names are those that the run began with. This holds to the very end, also if the run
fails or exits, since a program that dances writes into a context of its own and hands
its output on at once when it exits. A text that cannot be read as a program changes
nothing at all.
-/

namespace Stencil

/-- A later context of the same run. -/
structure Context.ExtendedBy (before after : Context) : Prop where
  out : ∃ more, after.out = before.out ++ more
  err : ∃ more, after.err = before.err ++ more
  aliases : ∀ key, before.aliases.contains key = true → after.aliases.contains key = true
  options : after.options = before.options
  lineEnding : after.lineEnding = before.lineEnding
  globals : after.globals = before.globals

namespace Context

theorem ExtendedBy.refl (c : Context) : c.ExtendedBy c :=
  ⟨⟨"", String.append_empty.symm⟩, ⟨"", String.append_empty.symm⟩, fun _ h => h, rfl, rfl, rfl⟩

theorem ExtendedBy.trans {c₁ c₂ c₃ : Context} (h : c₁.ExtendedBy c₂) (h' : c₂.ExtendedBy c₃) :
    c₁.ExtendedBy c₃ where
  out := by
    obtain ⟨more, hout⟩ := h.out
    obtain ⟨more', hout'⟩ := h'.out
    exact ⟨more ++ more', by rw [hout', hout, String.append_assoc]⟩
  err := by
    obtain ⟨more, herr⟩ := h.err
    obtain ⟨more', herr'⟩ := h'.err
    exact ⟨more ++ more', by rw [herr', herr, String.append_assoc]⟩
  aliases key hkey := h'.aliases key (h.aliases key hkey)
  options := h'.options.trans h.options
  lineEnding := h'.lineEnding.trans h.lineEnding
  globals := h'.globals.trans h.globals

theorem extendedBy_writeOut (c : Context) (text : String) : c.ExtendedBy (c.writeOut text) :=
  ⟨⟨text, rfl⟩, (ExtendedBy.refl c).err, fun _ h => h, rfl, rfl, rfl⟩

theorem extendedBy_writeErr (c : Context) (text : String) : c.ExtendedBy (c.writeErr text) :=
  ⟨(ExtendedBy.refl c).out, ⟨text, rfl⟩, fun _ h => h, rfl, rfl, rfl⟩

/-- A shortcut that is set again keeps its place among the others. -/
theorem extendedBy_setAlias (c : Context) (key value : String) (note : Option String) :
    c.ExtendedBy (c.setAlias key value note) where
  out := (ExtendedBy.refl c).out
  err := (ExtendedBy.refl c).err
  aliases other hother := by
    change ((c.aliases.insert key ⟨value, note⟩).get? other).isSome = true
    rw [Dict.get?_insert]
    split
    · rfl
    · exact hother
  options := rfl
  lineEnding := rfl
  globals := rfl

/-- What is known of modules is no part of what a run has to keep. -/
theorem ExtendedBy.withModules {c c' : Context} (h : c.ExtendedBy c') (modules : Dict Value) :
    c.ExtendedBy { c' with modules := modules } :=
  ⟨h.out, h.err, h.aliases, h.options, h.lineEnding, h.globals⟩

end Context

namespace Event

def context? : Event → Option Context
  | .step m => some m.context
  | _ => none

def contexts (history : List Event) : List Context := history.filterMap context?

@[simp]
theorem contexts_append (before after : List Event) :
    contexts (before ++ after) = contexts before ++ contexts after :=
  List.filterMap_append

end Event

open Event

theorem Outcome.contexts_ending {α : Type} (outcome : Outcome α) (file : String) (v : Value) :
    contexts (outcome.ending file v) = [] := by
  cases outcome with
  | done a m => rfl
  | fail d m => rfl
  | starved m => rfl

namespace Eval

/-- The steps of a run take nothing away from the context. -/
theorem Elementary.extends {α : Type} {x : Eval α} (h : Elementary x) (m : Machine) :
    (x m).EndsIn fun m' => m.context.ExtendedBy m'.context := by
  have hrefl := Context.ExtendedBy.refl m.context
  cases h with
  | act pos action => exact ends_act hrefl
  | addInjection name body =>
    change m.context.ExtendedBy (if m.frame.injections.contains name then m else _).context
    split
    · exact hrefl
    · exact hrefl
  | runApart ex context program =>
    unfold Eval.runApart
    dsimp only
    split
    · exact hrefl
    · exact hrefl
    · trivial
  | writeOut text => exact m.context.extendedBy_writeOut text
  | writeErr text => exact m.context.extendedBy_writeErr text
  | setAlias key value note => exact m.context.extendedBy_setAlias key value note
  | starve => trivial
  | _ => exact hrefl

/-- Each of the contexts extends those before it, the first one included. -/
def Grows (first : Context) (later : List Context) : Prop :=
  (first :: later).Pairwise Context.ExtendedBy

/-- A context that extends all the others may follow them. -/
theorem Grows.concat {first last : Context} {later : List Context} (h : Grows first later)
    (hlast : ∀ c ∈ first :: later, c.ExtendedBy last) : Grows first (later ++ [last]) := by
  unfold Grows at h ⊢
  rw [← List.cons_append, List.pairwise_append]
  refine ⟨h, List.pairwise_singleton _ _, fun c hc c' hc' => ?_⟩
  rw [List.mem_singleton.mp hc']
  exact hlast c hc

theorem Grows.last {first last : Context} {later : List Context}
    (h : Grows first (later ++ [last])) : ∀ c ∈ first :: later, c.ExtendedBy last := by
  unfold Grows at h
  rw [← List.cons_append, List.pairwise_append] at h
  exact fun c hc => h.2.2 c hc last (List.mem_singleton.mpr rfl)

/-- What follows the end of one piece of a run extends all that the piece went through. -/
theorem Grows.append {first middle : Context} {later more : List Context}
    (h : Grows first (later ++ [middle])) (hmore : Grows middle more) :
    Grows first (later ++ more) := by
  have hlast := h.last
  unfold Grows at h hmore ⊢
  rw [← List.cons_append, List.pairwise_append] at h ⊢
  obtain ⟨hmiddle, hmore⟩ := List.pairwise_cons.mp hmore
  exact ⟨h.1, hmore, fun c hc c' hc' => (hlast c hc).trans (hmiddle c' hc')⟩

/-- A context that differs in its modules extends the same contexts. -/
theorem Grows.withModules {first last : Context} {later : List Context}
    (h : Grows first (later ++ [last])) (modules : Dict Value) :
    Grows first (later ++ [{ last with modules := modules }]) := by
  have hlast : Grows last [{ last with modules := modules }] :=
    List.pairwise_pair.mpr ((Context.ExtendedBy.refl last).withModules modules)
  exact h.append hlast

variable {α : Type} {x : Eval α} {J : Machine → List Event}

def Accrues (first : Context) (later : List Context) (outcome : Outcome α) : Prop :=
  Grows first later ∧ outcome.EndsIn fun m => Grows first (later ++ [m.context])

/-- A single step goes through the context that it begins with, and no other. -/
theorem accrues_step {m : Machine} {outcome : Outcome α}
    (h : outcome.EndsIn fun m' => m.context.ExtendedBy m'.context) :
    Accrues m.context (contexts [.step m]) outcome := by
  have hstep : Grows m.context [m.context] := List.pairwise_pair.mpr (.refl _)
  refine ⟨hstep, Outcome.Ends.mono h (fun m' hm' => hstep.concat ?_) fun _ h => h⟩
  simpa using hm'

/-- The contexts of the steps of a run, and the one that it ends with, each extend those before
them. The second part of a sequence begins with the context that the first one leaves. -/
theorem Traces.accrues (h : Traces x J) (m : Machine) :
    Accrues m.context (contexts (J m)) (x m) := by
  induction h generalizing m with
  | step hstep => exact accrues_step (hstep.extends m)
  | @bind α β x f J K _ _ ihx ihf =>
    obtain ⟨hgrows, hend⟩ := ihx m
    change Accrues _ _ (Eval.bind x f m)
    unfold Eval.bind
    dsimp only
    cases hrun : x m with
    | done a m' =>
      rw [hrun] at hend
      obtain ⟨hmore, hend'⟩ := ihf a m'
      simp only [Outcome.events, contexts_append]
      refine ⟨hend.append hmore, Outcome.Ends.mono hend' (fun m'' hm'' => ?_) fun _ h => h⟩
      rw [List.append_assoc]
      exact hend.append hm''
    | fail d m' =>
      rw [hrun] at hend
      simp only [Outcome.events, List.append_nil]
      exact ⟨hgrows, hend⟩
    | starved m' =>
      simp only [Outcome.events, List.append_nil]
      exact ⟨hgrows, trivial⟩
  | @inReferenceBlock α x J _ ih =>
    obtain ⟨hgrows, hend⟩ := ih { m with inReference := true }
    exact ⟨hgrows, ends_inReferenceBlock hend (fun _ h => h) fun _ h => h⟩
  | @enter α x J frame pos _ ih =>
    by_cases hdepth : m.depth < depthLimit
    · obtain ⟨hgrows, hend⟩ := ih (m.entered frame)
      simp only [hdepth, if_true]
      exact ⟨hgrows, ends_enter (fun _ => hend) (fun _ h => h) (fun _ h => h)
        fun hdeep => absurd hdepth hdeep⟩
    · unfold Eval.enter
      simp only [hdepth, if_false]
      exact accrues_step (Context.ExtendedBy.refl m.context)
  | @importModule ex pos K path hbody ih =>
    rcases importModule_cases ex path pos m with ⟨file, program, hfound, heq⟩ | ⟨hnone, hend⟩
    · have hstart : Grows m.context ([] ++ [(m.withModule path file).context]) :=
        List.pairwise_pair.mpr ((Context.ExtendedBy.refl _).withModules _)
      obtain ⟨hgrows, hend⟩ := ih (m.moduleFrame file) program (m.withModule path file)
      have hevents : contexts (.begins file m.moduleValue ::
          (K (m.moduleFrame file) program (m.withModule path file) ++
            (runBody ex (m.moduleFrame file) program pos (m.withModule path file)).ending file
              m.moduleValue)) =
          contexts (K (m.moduleFrame file) program (m.withModule path file)) := by
        change contexts (_ ++ _) = _
        rw [contexts_append, Outcome.contexts_ending, List.append_nil]
      simp only [hfound, heq, hevents]
      refine ⟨hstart.append hgrows, ?_⟩
      rw [runModule_eq]
      cases hrun : runBody ex (m.moduleFrame file) program pos (m.withModule path file) with
      | done a m' =>
        rw [hrun] at hend
        exact hstart.append hend
      | fail d m' =>
        rw [hrun] at hend
        exact (hstart.append hend).withModules _
      | starved m' => trivial
    · simp only [hnone]
      refine accrues_step ?_
      rcases hend with ⟨v, heq⟩ | ⟨d, heq⟩
      · rw [heq]
        exact Context.ExtendedBy.refl m.context
      · rw [heq]
        exact Context.ExtendedBy.refl m.context

end Eval

namespace Session

def optionsFor (s : Session) (args : List String) : Options :=
  if args.isEmpty then s.context.options else .ofArgs args

theorem prepared_context (s : Session) (source : Source) (args : List String) :
    (s.prepared source args).context = { s.context with options := s.optionsFor args } := by
  unfold prepared optionsFor
  split
  · rfl
  · rfl

/-- The contexts that the run of a program goes through, from the one it begins with to
the one it leaves. -/
theorem runProgram_grows {s s' : Session} {fuel : Nat} {program : Program}
    {file : Option String} {J : Machine → List Event}
    (hJ : Eval.Traces (Eval.runProgram fuel program) J)
    (hrun : s.runProgram fuel program file = some s') :
    Eval.Grows s.context (contexts (J (s.machine file)) ++ [s'.context]) := by
  obtain ⟨-, hend⟩ := hJ.accrues (s.machine file)
  obtain ⟨m, failure, hgrows, rfl⟩ := exists_adopt hend hrun
  exact hgrows

/-- A run extends the context that it begins with, step after step and to its end, however
it ends, and the options are those that it was given. A text that is no program leaves
variables, output, shortcuts and modules as they are, and so does a file that cannot be
read. -/
theorem run_keeps_what_is_there :
    (∀ fuel program, ∃ J, Eval.Traces (Eval.runProgram fuel program) J) ∧
    (∀ (s s' : Session) (fuel : Nat) (source : Source) (args : List String),
      s.run fuel source args = some s' →
      let begun := { s.context with options := s.optionsFor args }
      begun.ExtendedBy s'.context ∧
      (∀ program J, Program.ofSource source.text = .ok program →
        Eval.Traces (Eval.runProgram fuel program) J →
        (begun :: contexts (J ((s.prepared source args).machine source.file)) ++
          [s'.context]).Pairwise Context.ExtendedBy) ∧
      ∀ d, Program.ofSource source.text = .error d → s'.store = s.store ∧ s'.context = begun) ∧
    ∀ (s s' : Session) (fuel : Nat) (path : String) (args : List String),
      s.runFile fuel path args = some s' →
      (∃ text, s.files.readText? path = some text ∧
        s.run fuel ⟨text, some path⟩ args = some s') ∨
      s.files.readText? path = none ∧ s'.store = s.store ∧ s'.context = s.context := by
  refine ⟨Eval.exists_traces_runProgram, ?_, ?_⟩
  · intro s s' fuel source args hrun begun
    have hbegun : (s.prepared source args).context = begun := s.prepared_context source args
    cases hparse : Program.ofSource source.text with
    | ok program =>
      rw [s.run_of_ok source hparse] at hrun
      have hgrows : ∀ J, Eval.Traces (Eval.runProgram fuel program) J →
          Eval.Grows begun (contexts (J ((s.prepared source args).machine source.file)) ++
            [s'.context]) := fun J hJ => hbegun ▸ runProgram_grows hJ hrun
      obtain ⟨J, hJ⟩ := Eval.exists_traces_runProgram fuel program
      refine ⟨(hgrows J hJ).last begun (List.mem_cons_self ..), ?_, fun d hd => by cases hd⟩
      intro read J hread hJ
      cases hread
      exact hgrows J hJ
    | error d =>
      rw [s.run_of_error source hparse] at hrun
      cases hrun
      refine ⟨?_, fun read J hread => (by cases hread), fun _ _ =>
        ⟨s.prepared_store source args, hbegun⟩⟩
      change begun.ExtendedBy (s.prepared source args).context
      rw [hbegun]
      exact .refl begun
  · intro s s' fuel path args hrun
    unfold runFile at hrun
    split at hrun
    · next text htext => exact Or.inl ⟨text, htext, hrun⟩
    · next hnone =>
      cases hrun
      exact Or.inr ⟨hnone, rfl, rfl⟩

end Session

/-! A program writes a text and dances another one that exits. -/

namespace Parting

def source : String := "a\x7b@ dance(\"b\x7b@ exit(2) @\x7d\") @\x7d"

def session : Session := (Session.start ⟨[], .empty⟩ "" .lf .none).modifyContext (·.writeOut "x")

theorem run_source : ((session.run 9 ⟨source, none⟩ []).map fun s' =>
    (s'.exitStatus?, s'.context.out)) = some (some 2, "xab") := by decide +kernel

/-- A program that is left in the midst of a danced one has written what both had written so far.
-/
theorem parting_keeps_output : ∃ s', session.run 9 ⟨source, none⟩ [] = some s' ∧
    s'.exitStatus? = some 2 ∧ s'.context.out = "xab" ∧ session.context.ExtendedBy s'.context := by
  obtain ⟨s', hrun, hend⟩ := Option.map_eq_some_iff.mp run_source
  obtain ⟨hstatus, hout⟩ := Prod.mk.inj hend
  obtain ⟨-, hstep, -⟩ := Session.run_keeps_what_is_there
  exact ⟨s', hrun, hstatus, hout, (hstep session s' 9 ⟨source, none⟩ [] hrun).1⟩

end Parting

end Stencil
