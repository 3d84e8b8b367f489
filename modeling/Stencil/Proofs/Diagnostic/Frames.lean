import Stencil.Proofs.Eval.Located
import Stencil.Proofs.Eval.Reachable
import Stencil.Proofs.Grammar.Complaints
import Stencil.Proofs.Module.Trace

/-!
Traces and the frames that were active. An account of a failing run says how the run
came to the point where it fails: which computation had ended before, which frame was
entered where, and what the failure began with there. The frames that wait while
others run are listed with the code they run and the place in it at which the next
one was entered, the innermost first. Every failing run has an account, and every
account agrees with the diagnostic: there is one entry for each active frame, in the
same order, with the name and file of the frame and the line of that place.
-/

namespace Stencil

/-- A frame that waits for another one to be left. -/
structure Suspended where
  frame : Frame
  /-- The code that runs in the frame. -/
  code : List Stmt
  /-- The place in the code at which the other frame was entered. -/
  pos : Position

def Frame.entry (frame : Frame) (line : Nat) (message : String) : TraceEntry :=
  ⟨frame.file, line, frame.name, message⟩

def Suspended.entry (waiting : Suspended) (message : String) : TraceEntry :=
  waiting.frame.entry waiting.pos.line message

/-- What a failure begins with in the active frame. -/
inductive Origin
  | raised (cause : Cause) (pos : Option Position)
  /-- The text of a module is no program. -/
  | malformed (file : String) (complaint : Diagnostic) (pos : Position)
  /-- A danced program has exited. -/
  | danced (exit : Diagnostic) (pos : Position)

def raisable : List DiagnosticKind := [.runtime, .importing, .exit]

namespace Origin

/-- Running code raises failures of its kinds only, complaints are those about a text, and
a danced program is passed on only if it exits. -/
def IsProper : Origin → Prop
  | .raised cause _ => cause.kind ∈ raisable
  | .malformed _ complaint _ => ∃ source, Program.ofSource source = .error complaint
  | .danced exit _ => exit.kind = .exit

def diagnostic (m : Machine) : Origin → Diagnostic
  | .raised cause pos => m.diagnose cause pos
  | .malformed file complaint pos =>
    (complaint.push (some file) complaint.line Frame.mainName).push m.frame.file pos.line
      m.frame.name
  | .danced exit pos => m.pass exit pos

end Origin

namespace Diagnostic

def unwound (d : Diagnostic) (stack : List Suspended) : Diagnostic :=
  stack.foldl (fun d waiting => d.push waiting.frame.file waiting.pos.line waiting.frame.name) d

theorem unwound_append (d : Diagnostic) (stack : List Suspended) (waiting : Suspended) :
    d.unwound (stack ++ [waiting]) =
      (d.unwound stack).push waiting.frame.file waiting.pos.line waiting.frame.name := by
  simp only [unwound, List.foldl_append, List.foldl_cons, List.foldl_nil]

/-- Frames that wait add entries to the trace and change nothing else. -/
theorem unwound_eq (d : Diagnostic) (stack : List Suspended) :
    d.unwound stack = { d with trace := d.trace ++ stack.map (·.entry d.message) } := by
  induction stack generalizing d with
  | nil => simp only [unwound, List.foldl_nil, List.map_nil, List.append_nil]
  | cons waiting rest ih =>
    change unwound (d.push waiting.frame.file waiting.pos.line waiting.frame.name) rest = _
    rw [ih]
    simp only [push, message, List.append_assoc, List.map_cons, List.singleton_append]
    rfl

end Diagnostic

namespace Eval

/-- An account of how a computation of some code comes to fail: what the failure begins
with, in which machine, and the frames that have been left waiting on the way there. -/
inductive Raises : List Stmt → ⦃α : Type⦄ → Eval α → Machine → Machine → Origin →
    List Suspended → Prop
  | failWith {code : List Stmt} {α : Type} {cause : Cause} {pos : Option Position} {m : Machine} :
      cause.kind ∈ raisable → Raises code (failWith cause pos : Eval α) m m (.raised cause pos) []
  | act {code : List Stmt} {α : Type} {pos : Position} {action : Action α} {m : Machine}
      {fault : Fault} {store : Store} : action m.store = (.error fault, store) →
      Raises code (act pos action) m { m with store := store }
        (.raised (.runtime fault) (some pos)) []
  | tooDeep {code : List Stmt} {α : Type} {frame : Frame} {pos : Position} {x : Eval α}
      {m : Machine} : ¬m.depth < depthLimit →
      Raises code (enter frame pos x) m m (.raised (.runtime .tooDeep) (some pos)) []
  | malformed {code : List Stmt} {α : Type} {file source : String} {complaint : Diagnostic}
      {pos : Position} {m : Machine} : m.store.files.readText? file = some source →
      Program.ofSource source = .error complaint →
      Raises code (failInModule complaint file pos : Eval α) m m
        (.malformed file complaint pos) []
  | danced {code : List Stmt} {apart : Apart} {exit : Diagnostic} {pos : Position} {m : Machine} :
      apart.failure = some exit → exit.kind = .exit →
      Raises code (exitToo apart exit pos) m
        { m with context := (m.context.writeOut apart.context.out).writeErr apart.context.err }
        (.danced exit pos) []
  | first {code : List Stmt} {α β : Type} {x : Eval α} {f : α → Eval β} {m o : Machine}
      {origin : Origin} {stack : List Suspended} :
      Raises code x m o origin stack → Raises code (x >>= f) m o origin stack
  /-- The first computation has ended, in the frame in which it began. -/
  | next {code : List Stmt} {α β : Type} {x : Eval α} {f : α → Eval β} {a : α}
      {m m₁ o : Machine} {origin : Origin} {stack : List Suspended} :
      x m = .done a m₁ → m.Restored m₁ → Raises code (f a) m₁ o origin stack →
      Raises code (x >>= f) m o origin stack
  | inReferenceBlock {code : List Stmt} {α : Type} {x : Eval α} {m o : Machine} {origin : Origin}
      {stack : List Suspended} : Raises code x { m with inReference := true } o origin stack →
      Raises code (inReferenceBlock x) m o origin stack
  | orElse {code : List Stmt} {α : Type} {x : Eval α} {file : String} {m o : Machine}
      {origin : Origin} {stack : List Suspended} : Raises code x m o origin stack →
      Raises code (orElse x (forget file)) m o origin stack
  /-- A frame is entered for a body, at a place of the code where this can be done. -/
  | enter {code body : List Stmt} {α : Type} {fuel : Nat} {k : Flow → Eval α} {frame : Frame}
      {pos : Position} {m o : Machine} {origin : Origin} {stack : List Suspended} :
      m.depth < depthLimit → ⟨pos, true⟩ ∈ marks code →
      Raises body (exec fuel body >>= k) (m.entered frame) o origin stack →
      Raises code (enter frame pos (exec fuel body >>= k)) m o origin
        (stack ++ [⟨m.frame, code, pos⟩])

namespace Raises

variable {code : List Stmt} {α : Type} {x : Eval α} {m o : Machine} {origin : Origin}
  {stack : List Suspended}

/-- The computation fails as the account says. -/
theorem fails (h : Raises code x m o origin stack) :
    ∃ m', x m = .fail ((origin.diagnostic o).unwound stack) m' := by
  induction h with
  | failWith hkind => exact ⟨_, rfl⟩
  | act haction => exact ⟨_, by simp only [Eval.act, haction]; rfl⟩
  | tooDeep hdeep => exact ⟨_, by simp only [Eval.enter, hdeep]; rfl⟩
  | malformed hread hparse => exact ⟨_, rfl⟩
  | danced hfailure hkind => exact ⟨_, rfl⟩
  | @first code α β x f m o origin stack _ ih =>
    obtain ⟨m', hfail⟩ := ih
    refine ⟨m', ?_⟩
    change Eval.bind x f m = _
    simp only [Eval.bind, hfail]
  | @next code α β x f a m m₁ o origin stack hdone _ _ ih =>
    obtain ⟨m', hfail⟩ := ih
    refine ⟨m', ?_⟩
    change Eval.bind x f m = _
    simp only [Eval.bind, hdone, hfail]
  | inReferenceBlock _ ih =>
    obtain ⟨m', hfail⟩ := ih
    exact ⟨_, by simp only [Eval.inReferenceBlock, hfail]; rfl⟩
  | orElse _ ih =>
    obtain ⟨m', hfail⟩ := ih
    exact ⟨_, by simp only [Eval.orElse, hfail]; rfl⟩
  | @enter code body α fuel k frame pos m o origin stack hdepth _ _ ih =>
    obtain ⟨m', hfail⟩ := ih
    rw [Diagnostic.unwound_append]
    exact ⟨_, by rw [enter_eq hdepth, hfail]⟩

/-- One more frame waits for each level between the beginning and the failure. -/
theorem depth_eq (h : Raises code x m o origin stack) : o.depth = m.depth + stack.length := by
  induction h with
  | next _ hback _ ih => rw [ih, hback.depth]
  | enter _ _ _ ih =>
    rw [ih, List.length_append]
    change _ + 1 + _ = _ + (_ + 1)
    omega
  | first _ ih | inReferenceBlock _ ih | orElse _ ih => exact ih
  | _ => rfl

/-- Each frame that waits has been left at a place of its code that enters others. -/
theorem mem_marks (h : Raises code x m o origin stack) :
    ∀ waiting ∈ stack, ⟨waiting.pos, true⟩ ∈ marks waiting.code := by
  induction h with
  | enter _ hmark _ ih =>
    intro waiting hwaiting
    rcases List.mem_append.mp hwaiting with hwaiting | hwaiting
    · exact ih waiting hwaiting
    · obtain rfl := List.mem_singleton.mp hwaiting
      exact hmark
  | next _ _ _ ih | first _ ih | inReferenceBlock _ ih | orElse _ ih => exact ih
  | _ => exact nofun

/-- The outermost frame is the one in which the computation began. -/
theorem outermost (h : Raises code x m o origin stack) :
    ∃ frame, (o.frame :: stack.map Suspended.frame).getLast? = some frame ∧
      frame.name = m.frame.name ∧ frame.file = m.frame.file := by
  induction h with
  | enter _ _ _ _ =>
    refine ⟨_, ?_, rfl, rfl⟩
    rw [List.map_append, ← List.cons_append]
    exact List.getLast?_concat ..
  | next _ hback _ ih =>
    obtain ⟨frame, hlast, hname, hfile⟩ := ih
    exact ⟨frame, hlast, hname.trans hback.frame.name, hfile.trans hback.frame.file⟩
  | first _ ih | inReferenceBlock _ ih | orElse _ ih => exact ih
  | _ => exact ⟨_, rfl, rfl, rfl⟩

/-- What begins a failure is of a kind that running code can raise. -/
theorem isProper (h : Raises code x m o origin stack) : origin.IsProper := by
  induction h with
  | failWith hkind => exact hkind
  | act _ => exact List.mem_cons_self ..
  | tooDeep _ => exact List.mem_cons_self ..
  | malformed _ hparse => exact ⟨_, hparse⟩
  | danced _ hkind => exact hkind
  | enter _ _ _ ih | next _ _ _ ih | first _ ih | inReferenceBlock _ ih | orElse _ ih => exact ih

theorem read {β : Type} {f : Machine → β} {k : β → Eval α}
    (h : Raises code (k (f m)) m o origin stack) :
    Raises code (Eval.read f >>= k) m o origin stack :=
  .next rfl (Machine.HandedBack.refl m).restored h

end Raises

/-- If the computation fails in the machine, there is an account of it. -/
def HasAccount (code : List Stmt) {α : Type} (x : Eval α) (m : Machine) : Prop :=
  ∀ d m', x m = .fail d m' → ∃ o origin stack, Raises code x m o origin stack

/-- The computation hands back the frame in which it began, and whenever it fails there is
an account of it. -/
structure Traced (code : List Stmt) ⦃α : Type⦄ (x : Eval α) : Prop where
  growing : Growing x
  account : ∀ m, HasAccount code x m

namespace Traced

variable {code : List Stmt} {α β : Type}

theorem of_done {x : Eval α} (hx : Steady (fun _ => False) x)
    (hdone : ∀ m, ∃ a m', x m = .done a m') : Traced code x := by
  refine ⟨hx.growing, fun m d m' hfail => ?_⟩
  obtain ⟨a, m₁, hrun⟩ := hdone m
  rw [hrun] at hfail
  cases hfail

theorem make (object : Object) : Traced code (Eval.make object) :=
  of_done ((steady_primitives _).make object) fun _ => ⟨_, _, rfl⟩

theorem newScope (names : Dict Value) : Traced code (Eval.newScope names) :=
  of_done ((steady_primitives _).newScope names) fun _ => ⟨_, _, rfl⟩

theorem failWith {cause : Cause} (h : cause.kind ∈ raisable) (pos : Option Position) :
    Traced code (Eval.failWith cause pos : Eval α) :=
  ⟨((steady_primitives _).fails _).growing, fun m _ _ _ => ⟨m, _, _, .failWith h⟩⟩

theorem fail (fault : Fault) (pos : Position) : Traced code (Eval.fail fault pos : Eval α) :=
  failWith (List.mem_cons_self ..) _

/-- A failure of a sequence is one of its first part, or one of the second where the first has
ended well. -/
theorem bind {x : Eval α} {f : α → Eval β} (hx : Traced code x)
    (hf : ∀ a, Traced code (f a)) : Traced code (x >>= f) := by
  refine ⟨hx.growing.bind fun a => (hf a).growing, fun m d m' hfail => ?_⟩
  have hback := hx.growing m
  change Eval.bind x f m = _ at hfail
  unfold Eval.bind at hfail
  cases hrun : x m with
  | done a m₁ =>
    rw [hrun] at hfail hback
    obtain ⟨o, origin, stack, hraises⟩ := (hf a).account m₁ d m' hfail
    exact ⟨o, origin, stack, .next hrun hback hraises⟩
  | fail d₁ m₁ =>
    obtain ⟨o, origin, stack, hraises⟩ := hx.account m d₁ m₁ hrun
    exact ⟨o, origin, stack, .first hraises⟩
  | starved m₁ =>
    rw [hrun] at hfail
    cases hfail

/-- Work on the store fails in the active frame. -/
theorem act (pos : Position) (action : Action α) : Traced code (Eval.act pos action) := by
  refine ⟨((steady_primitives _).act pos action).growing, fun m d m' hfail => ?_⟩
  unfold Eval.act at hfail
  dsimp only at hfail
  split at hfail
  · cases hfail
  · next haction => exact ⟨_, _, _, .act haction⟩

/-- Being inside a reference block makes no difference to the frames. -/
theorem inReferenceBlock {x : Eval α} (hx : Traced code x) :
    Traced code (Eval.inReferenceBlock x) := by
  refine ⟨hx.growing.inReferenceBlock, fun m d m' hfail => ?_⟩
  unfold Eval.inReferenceBlock at hfail
  dsimp only at hfail
  split at hfail
  · cases hfail
  · next hrun =>
    obtain ⟨o, origin, stack, hraises⟩ := hx.account _ _ _ hrun
    exact ⟨o, origin, stack, .inReferenceBlock hraises⟩
  · cases hfail

/-- A frame is entered for a body, and the body is accounted for by its own code. -/
theorem enter {body : List Stmt} {fuel : Nat} {k : Flow → Eval α} {mark : Mark}
    (hx : Traced body (Eval.exec fuel body >>= k)) (hmark : mark ∈ marks code)
    (henters : mark.enters = true) (frame : Frame) :
    Traced code (Eval.enter frame mark.pos (Eval.exec fuel body >>= k)) := by
  refine ⟨(Steady.enter _ frame mark.pos hx.growing).growing, fun m d m' hfail => ?_⟩
  by_cases hdepth : m.depth < depthLimit
  · rw [enter_eq hdepth] at hfail
    split at hfail
    · cases hfail
    · next hrun =>
      obtain ⟨o, origin, stack, hraises⟩ := hx.account _ _ _ hrun
      obtain ⟨pos, enters⟩ := mark
      obtain rfl : enters = true := henters
      exact ⟨o, origin, _, .enter hdepth hmark hraises⟩
    · cases hfail
  · exact ⟨m, _, _, .tooDeep hdepth⟩

theorem laws (code : List Stmt) : Laws (At code) (Traced code) := by
  have S := steady_primitives fun _ => False
  exact {
    pure := fun a => of_done (S.pure a) fun _ => ⟨_, _, rfl⟩
    bind := fun hx hf => hx.bind hf
    failAt? := fun _ _ => failWith (List.mem_cons_self ..) _
    exit := fun status _ _ => by
      refine failWith ?_ _
      change DiagnosticKind.exit ∈ raisable
      decide
    read := fun f => of_done (S.read f) fun _ => ⟨_, _, rfl⟩
    act := fun _ _ => act _ _
    make := fun _ => make _
    newScope := newScope
    newModule := fun _ table => (newScope table).bind fun _ => make _
    updateScope := fun _ _ _ => of_done (S.modifyStore _) fun _ => ⟨_, _, rfl⟩
    bindLocal := fun name v => of_done (S.bindLocal name v) fun _ => ⟨_, _, rfl⟩
    writeOut := fun text => of_done (S.writeOut text) fun _ => ⟨_, _, rfl⟩
    writeErr := fun text => of_done (S.writeErr text) fun _ => ⟨_, _, rfl⟩
    setAlias := fun key value note => of_done (S.setAlias key value note) fun _ => ⟨_, _, rfl⟩
    inReferenceBlock := fun hx => hx.inReferenceBlock }

/-! Calls. -/

section Call

variable {fuel : Nat} (hex : ∀ body, Traced body (Eval.exec fuel body))

include hex

theorem settled (body : List Stmt) : Traced body (Eval.exec fuel body >>= settle) := by
  refine (hex body).bind fun flow => ?_
  cases flow with
  | next => exact (laws body).pure _
  | «break» pos => exact fail _ pos
  | «continue» pos => exact fail _ pos
  | «return» v pos => exact fail _ pos

theorem answered (body : List Stmt) : Traced body (Eval.exec fuel body >>= returned) := by
  refine (hex body).bind fun flow => ?_
  cases flow with
  | next => exact (laws body).make rfl
  | «break» pos => exact fail _ pos
  | «continue» pos => exact fail _ pos
  | «return» v pos => exact (laws body).pure _

variable {mark : Mark} (hmark : mark ∈ marks code) (henters : mark.enters = true)

include hmark henters

/-- The body of a function is accounted for in a frame of its own, above the one that calls it.
-/
theorem callFunction (callee : Value) (args : List Value) (injections : Dict Injection) :
    Traced code (Eval.callFunction (Eval.exec fuel) callee args mark.pos injections) := by
  unfold Eval.callFunction
  refine ((laws code).load callee).bind fun object => ?_
  split
  · dsimp only
    split
    · refine ((laws code).newScope _).bind fun locals => ?_
      exact (answered hex _).enter hmark henters _
    · exact fail _ _
  · exact fail _ _

theorem runBody (frame : Frame) (body : List Stmt) :
    Traced code (Eval.runBody (Eval.exec fuel) frame body mark.pos) :=
  (settled hex body).enter hmark henters frame

theorem instantiate (callee : Value) (args : List Value) :
    Traced code (Eval.instantiate (Eval.exec fuel) callee args mark.pos) := by
  unfold Eval.instantiate
  refine ((laws code).load callee).bind fun object => ?_
  split
  · refine ((laws code).newScope _).bind fun fields => ?_
    refine (runBody hex hmark henters _ _).bind fun _ => ((laws code).read _).bind fun names => ?_
    have hfill := (laws code).updateScope fields fun table =>
      table.keys_prefix_insertAll (names.zip args)
    exact hfill.bind fun _ => make _
  · exact fail _ _

/-- The function that is extended runs above the one that extends it. -/
theorem callSuper (args : List Value) :
    Traced code (Eval.callSuper (Eval.exec fuel) args mark.pos) := by
  unfold Eval.callSuper
  refine ((laws code).read _).bind fun function => ?_
  cases function with
  | none => exact fail _ _
  | some function =>
    refine ((laws code).load function).bind fun object => ?_
    split
    · refine ((laws code).read _).bind fun base => ?_
      cases base with
      | error fault => exact fail _ _
      | ok base =>
        exact ((laws code).read _).bind fun injections => callFunction hex hmark henters base args _
    · exact fail _ _

omit hmark henters

/-- A danced program may fail, but the dance does not. -/
theorem danceSource (source : String) (names : Dict Value) :
    Traced code (Eval.danceSource (Eval.exec fuel) source names) := by
  unfold Eval.danceSource
  refine ((laws code).newScope names).bind fun globals => ?_
  refine ((laws code).read _).bind fun context => ?_
  split
  · next program _ =>
    refine ⟨(Steady.runApart _ context program (settled hex program).growing).growing, ?_⟩
    intro m d m' hfail
    unfold Eval.runApart at hfail
    dsimp only at hfail
    split at hfail
    · cases hfail
    · cases hfail
    · cases hfail
  · exact (laws code).pure _

theorem dance (args : List Value) (pos : Position) :
    Traced code (Eval.dance (Eval.exec fuel) args pos) := by
  unfold Eval.dance
  cases args with
  | nil => exact fail _ pos
  | cons source rest =>
    refine ((laws code).load source).bind fun object => ?_
    split
    · exact fail _ pos
    · next text _ =>
      have hnames : Traced code (Eval.danceNames rest pos) := by
        unfold Eval.danceNames
        split
        · exact (laws code).pure _
        · next v _ =>
          refine ((laws code).load v).bind fun object => ?_
          split
          · exact (laws code).pure _
          · exact fail _ pos
      refine hnames.bind fun names => (danceSource hex text names).bind fun apart => ?_
      split
      · next status place trace hfailure =>
        refine ⟨(restoring_discipline.exitToo apart _ pos).growing, fun m d m' _ => ?_⟩
        exact ⟨_, _, _, .danced hfailure rfl⟩
      · exact (make _).bind fun out => (make _).bind fun complaint => make _

/-- Of the built-in functions only `dance` runs code, and it fails in its own name. -/
theorem callBuiltin (function : Builtin) (args : List Value) {pos : Position} (hpos : At code pos) :
    Traced code (Eval.callBuiltin (Eval.exec fuel) function args pos) := by
  cases function with
  | dance => exact dance hex args pos
  | openFile => exact act pos _
  | _ => exact (laws code).callBuiltin_of_isInert _ rfl args hpos

include hmark henters

theorem callValue (callee : Value) (args : List Value) :
    Traced code (Eval.callValue (Eval.exec fuel) callee args mark.pos) := by
  unfold Eval.callValue
  refine ((laws code).load callee).bind fun object => ?_
  split
  · exact callFunction hex hmark henters callee args .empty
  · exact callFunction hex hmark henters _ _ .empty
  · exact act _ _
  · exact callBuiltin hex _ args (.of_mem hmark)
  · exact instantiate hex hmark henters callee args
  · exact act _ _
  · exact fail _ _

/-! Modules, structs and blocks. -/

theorem runModule (path file : String) (program : Program) :
    Traced code (Eval.runModule (Eval.exec fuel) path file program mark.pos) := by
  have hcontext : ∀ f, Traced code (Eval.modifyContext f) := fun f =>
    of_done (Steady.modifyContext _ f) fun _ => ⟨_, _, rfl⟩
  unfold Eval.runModule
  refine (newScope _).bind fun scope => (make _).bind fun v => ?_
  refine (hcontext _).bind fun _ => Traced.bind ?_ fun _ => (laws code).pure _
  have hbody := runBody hex hmark henters (.top scope (some file)) program
  have hsteady : Steady (fun _ => False) _ :=
    Steady.enter _ (.top scope (some file)) mark.pos (settled hex program).growing
  refine ⟨(Steady.orElse _ hsteady (Steady.modifyContext _ _)).growing, fun m d m' hfail => ?_⟩
  unfold Eval.orElse at hfail
  split at hfail
  · cases hfail
  · cases hfail
  · next hrun =>
    obtain ⟨o, origin, stack, hraises⟩ := hbody.account _ _ _ hrun
    exact ⟨o, origin, stack, .orElse hraises⟩

/-- The program of a module is accounted for above the frame that imports it, as is a text that
is no program. -/
theorem importModule (path : String) :
    Traced code (Eval.importModule (Eval.exec fuel) path mark.pos) := by
  refine ⟨(restoring_discipline.importModule path mark.pos fun program =>
    (settled hex program).growing).growing, fun m d m' hfail => ?_⟩
  have himport : DiagnosticKind.importing ∈ raisable := by decide
  cases hfound : m.resolve? path with
  | none => exact ⟨m, _, _, .read (by rw [hfound]; exact .failWith himport)⟩
  | some file =>
    suffices h : ∃ o origin stack, Raises code _ m o origin stack by
      obtain ⟨o, origin, stack, hraises⟩ := h
      exact ⟨o, origin, stack, .read (by rw [hfound]; exact .read hraises)⟩
    cases hknown : m.context.modules.get? file with
    | some v =>
      rw [importModule_of_known hfound hknown] at hfail
      cases hfail
    | none =>
      cases hread : m.store.files.readText? file with
      | none => exact ⟨m, _, _, .read (by rw [hread]; exact .failWith himport)⟩
      | some source =>
        cases hparse : Program.ofSource source with
        | error complaint =>
          exact ⟨m, _, _, .read (by simp only [hread, hparse]; exact .malformed hread hparse)⟩
        | ok program =>
          rw [importModule_of_unknown hfound hknown hread hparse] at hfail
          have hrun := runModule hex hmark henters path file program
          obtain ⟨o, origin, stack, hraises⟩ := hrun.account m d m' hfail
          exact ⟨o, origin, stack, .read (by simp only [hread, hparse]; exact hraises)⟩

theorem defineStruct (definition : StructDef) :
    Traced code (Eval.defineStruct (Eval.exec fuel) definition mark.pos) := by
  unfold Eval.defineStruct
  refine ((laws code).read _).bind fun frame => ((laws code).newScope _).bind fun fields => ?_
  refine (runBody hex hmark henters _ _).bind fun _ => ?_
  exact (make _).bind fun v => (laws code).bindLocal _ v

/-- A block that is overridden runs the overriding body in a frame of its own. -/
theorem runBlock {body : List Stmt} (hbody : Traced code (Eval.exec fuel body)) (name : String) :
    Traced code (Eval.runBlock (Eval.exec fuel) name body mark.pos) := by
  unfold Eval.runBlock
  refine ((laws code).read _).bind fun injections => ?_
  split
  · exact hbody
  · next injection _ =>
    have hinner := (hex injection.body).bind fun flow => (laws injection.body).pure flow
    have henter := hinner.enter hmark henters (.ofInjection injection injections)
    rwa [bind_pure] at henter

end Call

theorem registerInjection (name : String) (body : List Stmt) (pos : Position) :
    Traced code (Eval.registerInjection name body pos) := by
  unfold Eval.registerInjection
  refine ((laws code).read _).bind fun function => ?_
  cases function with
  | none => exact fail _ pos
  | some function =>
    refine ((laws code).read _).bind fun declared => ?_
    split
    · exact fail _ pos
    · exact fail _ pos
    · exact ⟨growing_addInjection name body, fun m d m' hfail => by cases hfail⟩

theorem discipline : CodeDiscipline Traced where
  laws := laws
  starve _ _ := ⟨(steady_primitives _).starve.growing, fun m d m' hfail => by cases hfail⟩
  builtin _ _ := make _
  defineFunction _ := of_done (restoring_discipline.defineFunction _) fun _ => ⟨_, _, rfl⟩
  registerInjection name _ _ := registerInjection name _ _
  callValue hex hmark henters := callValue hex hmark henters
  callSuper hex hmark henters := callSuper hex hmark henters
  importModule path hex hmark henters := importModule hex hmark henters path
  defineStruct hex hmark henters _ := defineStruct hex hmark henters _
  runBlock name hex hmark henters hbody := runBlock hex hmark henters hbody name

end Traced

/-- The entries for the frames that wait, below those for the active one. -/
theorem Raises.trace_eq {code : List Stmt} {α : Type} {x : Eval α} {m o m' : Machine}
    {origin : Origin} {stack : List Suspended} {d : Diagnostic}
    (h : Raises code x m o origin stack) (hfail : x m = .fail d m') :
    d.cause = (origin.diagnostic o).cause ∧ d.pos = (origin.diagnostic o).pos ∧
      d.trace = (origin.diagnostic o).trace ++ stack.map (·.entry d.message) := by
  obtain ⟨m₁, hraised⟩ := h.fails
  rw [hfail] at hraised
  obtain ⟨rfl, rfl⟩ := Outcome.fail.inj hraised
  rw [Diagnostic.unwound_eq]
  exact ⟨rfl, rfl, rfl⟩

/-- The trace of a failure mirrors the frames that were active. A failure that running code
raises has one entry for each of them; a module whose text is no program has one more in front,
and only exits of danced programs are left out. The origins of failures differ only in the
entries that they put before those of the waiting frames. -/
theorem trace_mirrors_frames (fuel : Nat) (program : Program) (s : Session) (file : Option String)
    (d : Diagnostic) (m' : Machine) (hfail : runProgram fuel program (s.machine file) = .fail d m') :
    (∃ o origin stack,
      Raises program (runProgram fuel program) (s.machine file) o origin stack) ∧
    ∀ o origin stack, Raises program (runProgram fuel program) (s.machine file) o origin stack →
      stack.length = o.depth ∧
      (∀ waiting ∈ stack, ⟨waiting.pos, true⟩ ∈ marks waiting.code) ∧
      (∃ frame, (o.frame :: stack.map Suspended.frame).getLast? = some frame ∧
        frame.name = Frame.mainName ∧ frame.file = file) ∧
      match origin with
      | .raised cause pos =>
        d.cause = cause ∧ d.kind ∈ [.runtime, .importing, .exit] ∧ d.trace.length = o.depth + 1 ∧
          d.trace = o.frame.entry ((pos.map Position.line).getD 0) d.message ::
            stack.map (·.entry d.message)
      | .malformed module complaint pos =>
        d.cause = complaint.cause ∧ d.kind ∈ [.lexical, .grammar] ∧
          d.trace = ⟨some module, complaint.line, Frame.mainName, d.message⟩ ::
            o.frame.entry pos.line d.message :: stack.map (·.entry d.message)
      | .danced _ _ => d.kind = .exit := by
  have haccount : Traced program (runProgram fuel program) :=
    Traced.settled (Traced.discipline.exec fuel) program
  refine ⟨haccount.account _ d m' hfail, fun o origin stack h => ?_⟩
  have hdepth : stack.length = o.depth := by
    rw [h.depth_eq]
    exact (Nat.zero_add _).symm
  refine ⟨hdepth, h.mem_marks, h.outermost, ?_⟩
  obtain ⟨hcause, -, htrace⟩ := h.trace_eq hfail
  have hproper := h.isProper
  cases origin with
  | raised cause pos =>
    obtain rfl : d.cause = cause := hcause
    refine ⟨rfl, hproper, ?_, htrace⟩
    rw [htrace, List.length_append, List.length_map, hdepth, Nat.add_comm]
    rfl
  | malformed module complaint pos =>
    obtain ⟨source, hparse⟩ := hproper
    obtain ⟨hkind, hempty⟩ :=
      Diagnostic.kind_and_trace_of_isAboutText (Program.isAboutText_of_ofSource hparse)
    have hmessage : complaint.message = d.message := congrArg Cause.message hcause.symm
    refine ⟨hcause, ?_, ?_⟩
    · change d.cause.kind ∈ _
      rw [hcause]
      exact hkind
    · rw [htrace]
      simp only [Origin.diagnostic, Diagnostic.push, hempty, List.nil_append]
      rw [← hmessage]
      rfl
  | danced exit pos =>
    change d.cause.kind = _
    rw [hcause]
    exact hproper

/-! A function that reads a name which nothing binds is called in line 4 of a file. -/

namespace Unbound

def program : Program :=
  [.function "f" [] none false
      [.formula (.parallel [[.ident "missing" ⟨14, 2⟩]]) ⟨14, 2⟩] ⟨2, 1⟩,
    .formula (.parallel [[.chain (.ident "f" ⟨26, 4⟩) [.call [] ⟨27, 4⟩]]]) ⟨26, 4⟩]

def session : Session := .start ⟨[], .empty⟩ "" .lf .none

def summary : Outcome Unit → List (Nat × String)
  | .fail d _ => d.trace.map fun entry => (entry.line, entry.function)
  | _ => []

theorem summary_program : summary (runProgram 5 program (session.machine (some "a"))) =
    [(2, "f"), (4, Frame.mainName)] := by decide +kernel

/-- A function that fails below the program has its line before that of the call. -/
theorem mirrored : ∃ d m', runProgram 5 program (session.machine (some "a")) = .fail d m' ∧
    d.trace.map (fun entry => (entry.line, entry.function)) = [(2, "f"), (4, Frame.mainName)] ∧
    ∃ o origin stack, Raises program (runProgram 5 program) (session.machine (some "a")) o origin
      stack ∧ stack.length = o.depth := by
  have hsummary := summary_program
  cases hrun : runProgram 5 program (session.machine (some "a")) with
  | done a m' =>
    rw [hrun] at hsummary
    cases hsummary
  | starved m' =>
    rw [hrun] at hsummary
    cases hsummary
  | fail d m' =>
    rw [hrun] at hsummary
    obtain ⟨⟨o, origin, stack, hraises⟩, hmirror⟩ :=
      trace_mirrors_frames 5 program session (some "a") d m' hrun
    exact ⟨d, m', rfl, hsummary, o, origin, stack, hraises, (hmirror o origin stack hraises).1⟩

end Unbound

end Eval

end Stencil
