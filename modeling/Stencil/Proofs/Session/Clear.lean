import Mathlib.Data.Option.Basic
import Stencil.Proofs.Renaming.Run
import Stencil.Session

/-!
Sessions that are cleared. The objects and tables of the programs that ran before stay in
the store of a cleared session, but nothing leads to them: the session and a new one are
alike under the renaming that links only the empty tables of their variables. Programs
keep sessions alike, so both answer all further requests in the same way.
-/

namespace Stencil

namespace Renaming

/-- The sessions are alike where the renaming leads. The program that ran last matters
only if it has failed. -/
structure Sessions (r : Renaming) (s s' : Session) : Prop where
  store : r.Stores s.store s'.store
  context : r.Links s.context s'.context
  library : s'.library = s.library
  failure : s'.failure = s.failure
  source : s.failure = none ∨ s'.source = s.source

end Renaming

def Session.Alike (s s' : Session) : Prop := ∃ r : Renaming, r.Sessions s s'

namespace Renaming

/-- What can be seen of the sessions is the same. Of their variables only the references
differ: the renaming is one to one, and it links what linked references lead to. -/
structure Shows (r : Renaming) (s s' : Session) : Prop where
  failure : s'.failure = s.failure
  exitStatus : s'.exitStatus? = s.exitStatus?
  report : ∀ detailed, s'.report detailed = s.report detailed
  out : s'.context.out = s.context.out
  err : s'.context.err = s.context.err
  aliases : s'.context.aliases = s.context.aliases
  options : s'.context.options = s.context.options
  lineEnding : s'.context.lineEnding = s.context.lineEnding
  files : s'.files = s.files
  globals : r.Links s.globals s'.globals
  store : r.Stores s.store s'.store

def nothing : Renaming := ⟨fun _ _ => False, fun _ _ => False⟩

/-- Stores with the same files are alike for those who hold no references. -/
theorem stores_nothing {s s' : Store} (hfiles : s'.files = s.files)
    (hnext : (s'.objects.size - s'.first : Int) = s.objects.size - s.first) :
    nothing.Stores s s' where
  value_lt h := h.elim
  scope_lt h := h.elim
  value_iff h := h.elim
  scope_iff h := h.elim
  get h := h.elim
  scope h := h.elim
  files := hfiles
  identity h := h.elim
  next := hnext

/-- A cleared session is alike to a new one. -/
theorem alike_clear (s : Session) :
    s.clear.Alike (.start s.files s.library s.context.lineEnding s.context.options) := by
  have hstores : nothing.Stores s.store.restart (Store.ofFiles s.files) := by
    refine stores_nothing rfl ?_
    change ((0 : Nat) - (0 : Nat) : Int) = s.store.objects.size - s.store.objects.size
    omega
  obtain ⟨r, -, hstore, hglobals⟩ := hstores.newScope links_empty
  exact ⟨r, hstore, links_fresh hglobals _ _, rfl, rfl, Or.inl rfl⟩

namespace Sessions

variable {r : Renaming} {s s' : Session} (h : r.Sessions s s')

include h

/-- Alike sessions report a failure in the same words. -/
theorem report (detailed : Bool) : s'.report detailed = s.report detailed := by
  unfold Session.report
  rw [h.failure]
  rcases h.source with hnone | hsource
  · rw [hnone]
  · unfold Session.sourceOf?
    rw [hsource]

/-- Alike sessions show the same to those who hold no references. -/
theorem shows : r.Shows s s' where
  failure := h.failure
  exitStatus := congrArg (·.bind Diagnostic.exitStatus?) h.failure
  report := h.report
  out := h.context.out
  err := h.context.err
  aliases := h.context.aliases
  options := h.context.options
  lineEnding := h.context.lineEnding
  files := h.store.files
  globals := h.store.scope h.context.globals
  store := h.store

theorem setArgs (args : List String) : r.Sessions (s.setArgs args) (s'.setArgs args) :=
  { h with context := { h.context with options := rfl } }

theorem setSource (source : Option Source) :
    r.Sessions { s with source := source } { s' with source := source } :=
  { h with source := Or.inr rfl }

theorem setFailure (hsource : s'.source = s.source) (failure : Option Diagnostic) :
    r.Sessions { s with failure := failure } { s' with failure := failure } :=
  { h with failure := rfl, source := Or.inr hsource }

theorem machine (file : Option String) : r.Machines (s.machine file) (s'.machine file) :=
  ⟨h.store, h.context, links_top h.context.globals file, rfl, rfl, h.library⟩

theorem adopt (hsource : s'.source = s.source) {r' : Renaming} {m m' : Machine}
    (hm : r'.Machines m m') (failure : Option Diagnostic) :
    r'.Sessions (s.adopt m failure) (s'.adopt m' failure) :=
  ⟨hm.store, hm.context, h.library, rfl, Or.inr hsource⟩

/-- Programs keep sessions alike. -/
theorem runProgram (hsource : s'.source = s.source) (fuel : Nat) (program : Program)
    (file : Option String) :
    Option.Rel Session.Alike (s.runProgram fuel program file)
      (s'.runProgram fuel program file) := by
  have hend := runs_runProgram fuel program _ _ (h.machine file)
  unfold Session.runProgram
  generalize Eval.runProgram fuel program (s.machine file) = outcome at hend
  generalize Eval.runProgram fuel program (s'.machine file) = outcome' at hend
  cases hend with
  | done _ _ hm => exact .some ⟨_, h.adopt hsource hm none⟩
  | fail d _ hm => exact .some ⟨_, h.adopt hsource hm (some d)⟩
  | starved _ _ => exact .none

/-- Alike sessions run a source to sessions that are alike, or both run short of fuel. -/
theorem run (fuel : Nat) (source : Source) (args : List String) :
    Option.Rel Session.Alike (s.run fuel source args) (s'.run fuel source args) := by
  have hbegin : r.Sessions { if args.isEmpty then s else s.setArgs args with source := some source }
      { if args.isEmpty then s' else s'.setArgs args with source := some source } := by
    split
    · exact h.setSource _
    · exact (h.setArgs args).setSource _
  unfold Session.run
  dsimp only
  split
  · exact hbegin.runProgram rfl fuel _ _
  · exact .some ⟨r, hbegin.setFailure rfl _⟩

theorem runFile (fuel : Nat) (path : String) (args : List String) :
    Option.Rel Session.Alike (s.runFile fuel path args) (s'.runFile fuel path args) := by
  unfold Session.runFile Session.files
  rw [h.store.files]
  split
  · exact h.run fuel _ args
  · exact .some ⟨r, (h.setSource none).setFailure rfl _⟩

end Sessions

end Renaming

inductive Request
  | text (text : String) (args : List String)
  | file (path : String) (args : List String)

namespace Session

def serve (fuel : Nat) (s : Session) : Request → Option Session
  | .text text args => s.run fuel ⟨text, none⟩ args
  | .file path args => s.runFile fuel path args

def serveAll (fuel : Nat) (s : Session) : List Request → Option Session
  | [] => some s
  | request :: rest => (s.serve fuel request).bind (serveAll fuel · rest)

/-- Alike sessions answer a request alike. -/
theorem serve_alike {s s' : Session} (h : s.Alike s') (fuel : Nat) (request : Request) :
    Option.Rel Alike (s.serve fuel request) (s'.serve fuel request) := by
  obtain ⟨r, h⟩ := h
  cases request with
  | text text args => exact h.run fuel _ args
  | file path args => exact h.runFile fuel path args

/-- Alike sessions answer any sequence of requests alike. -/
theorem serveAll_alike {s s' : Session} (h : s.Alike s') (fuel : Nat) (requests : List Request) :
    Option.Rel Alike (s.serveAll fuel requests) (s'.serveAll fuel requests) := by
  induction requests generalizing s s' with
  | nil => exact .some h
  | cons request rest ih =>
    have hend := serve_alike h fuel request
    unfold serveAll
    generalize s.serve fuel request = end₁ at hend
    generalize s'.serve fuel request = end₁' at hend
    cases hend with
    | none => exact .none
    | some hnext => exact ih hnext

/-- A cleared session answers further requests as a new session does that has the same
files, library, line end and options. -/
theorem clear_serves_as_new (s : Session) (fuel : Nat) (requests : List Request) :
    Option.Rel (fun t t' => ∃ r : Renaming, r.Shows t t') (s.clear.serveAll fuel requests)
      ((start s.files s.library s.context.lineEnding s.context.options).serveAll fuel
        requests) := by
  have hend := serveAll_alike (Renaming.alike_clear s) fuel requests
  generalize s.clear.serveAll fuel requests = result at hend
  generalize serveAll fuel _ requests = result' at hend
  cases hend with
  | none => exact .none
  | some halike =>
    obtain ⟨r, halike⟩ := halike
    exact .some ⟨r, halike.shows⟩

end Session

end Stencil
