import Mathlib.Data.Set.Insert
import Stencil.Proofs.Eval.Located
import Stencil.Proofs.Eval.Reachable
import Stencil.Proofs.Grammar.Complaints
import Stencil.Proofs.Module.Trace

/-!
Where positions come from. A position is assigned when a text is read as a program,
and it stays with the code when a function, a struct type or an overriding body keeps
the code for later. Texts are read under the name of a file, or under none if the
text is a danced one. All code that a machine holds is backed by readings: each
position of a body has been assigned by a text that was read under the file of that
body. So is the position of a failure, with the file of the frame it was raised in.
An account of a run follows its steps and gathers the texts that it takes code from,
and these, with the texts that backed its beginning, back its end. Signals that nothing
has caught are left out, since they arrive in another frame than that of their own code.
-/

namespace Stencil

/-- A text that is read as a program, and the file under whose name its code runs. -/
structure Reading where
  file : Option String
  text : String

/-- The position has been assigned in reading the text: the program that it is read as has
it, or the text is complained about there. -/
def Reading.Assigns (r : Reading) (pos : Position) : Prop :=
  (∃ program, Program.ofSource r.text = .ok program ∧ Eval.At program pos) ∨
    ∃ d, Program.ofSource r.text = .error d ∧ d.pos = some pos

def Assigned (R : Set Reading) (file : Option String) (pos : Position) : Prop :=
  ∃ r ∈ R, r.file = file ∧ r.Assigns pos

theorem Assigned.mono {R R' : Set Reading} (h : R ⊆ R') {file : Option String} {pos : Position}
    (hpos : Assigned R file pos) : Assigned R' file pos := by
  obtain ⟨r, hr, hfile, hassigns⟩ := hpos
  exact ⟨r, h hr, hfile, hassigns⟩

/-- The positions that a text assigns are those of the program that it is read as. -/
theorem Reading.assigns_of_ok {text : String} {program : Program}
    (h : Program.ofSource text = .ok program) (file : Option String) (pos : Position) :
    (⟨file, text⟩ : Reading).Assigns pos ↔ Eval.At program pos := by
  simp only [Assigns, h, Except.ok.injEq, exists_eq_left', reduceCtorEq, false_and, exists_false,
    or_false]

/-- The position of the failure has been assigned under the file of the frame in which it
was raised. Nothing is said of exits and of signals that nothing has caught. -/
def Diagnostic.BackedBy (R : Set Reading) (d : Diagnostic) : Prop :=
  d.exitStatus? = none → d.isStray = false →
    ∀ pos ∈ d.pos, ∃ entry ∈ d.trace.head?, Assigned R entry.file pos

namespace Diagnostic.BackedBy

variable {R : Set Reading} {d : Diagnostic}

/-- Outer frames do not change where a failure was raised. -/
theorem push (h : d.BackedBy R) (file : Option String) (line : Nat) (function : String) :
    (d.push file line function).BackedBy R := by
  intro hexit hstray pos hpos
  obtain ⟨entry, hentry, hassigned⟩ := h hexit hstray pos hpos
  refine ⟨entry, ?_, hassigned⟩
  change (d.trace ++ _).head? = _
  rw [List.head?_append_of_ne_nil]
  · exact hentry
  · rintro hnil
    rw [hnil] at hentry
    cases hentry

/-- The failure is raised in a frame that has the file. -/
theorem first {cause : Cause} {pos : Option Position} {file : Option String}
    (h : ∀ p ∈ pos, Assigned R file p) (line : Nat) (function : String) :
    ((⟨cause, pos, []⟩ : Diagnostic).push file line function).BackedBy R :=
  fun _ _ p hp => ⟨_, rfl, h p hp⟩

/-- A complaint about a text is about a position in it. -/
theorem complaint {file : Option String} {text : String} (hmem : ⟨file, text⟩ ∈ R)
    (hparse : Program.ofSource text = .error d) (line : Nat) (function : String) :
    (d.push file line function).BackedBy R := by
  obtain ⟨-, hempty⟩ := kind_and_trace_of_isAboutText (Program.isAboutText_of_ofSource hparse)
  obtain ⟨cause, pos, trace⟩ := d
  obtain rfl : trace = [] := hempty
  exact first (fun p hp => ⟨⟨file, text⟩, hmem, rfl, Or.inr ⟨_, hparse, hp⟩⟩) line function

end Diagnostic.BackedBy

def CoversBody (R : Set Reading) (file : Option String) (body : List Stmt) : Prop :=
  ∀ pos, Eval.At body pos → Assigned R file pos

def CoversObject (R : Set Reading) : Object → Prop
  | .function f => CoversBody R f.file f.definition.body
  | .struct type => CoversBody R type.file type.definition.body
  | _ => True

def CoversInjections (R : Set Reading) (injections : Dict Injection) : Prop :=
  ∀ name injection, injections.get? name = some injection →
    CoversBody R injection.file injection.body

def CoversStore (R : Set Reading) (s : Store) : Prop := ∀ v, CoversObject R (s.get v)

/-- Parts of code that is covered are covered. -/
theorem CoversBody.of_subset {R : Set Reading} {file : Option String} {code body : List Stmt}
    (h : CoversBody R file code) (hbody : marks body ⊆ marks code) : CoversBody R file body := by
  rintro pos ⟨mark, hmark, rfl⟩
  exact h _ (.of_mem (hbody hmark))

theorem CoversBody.of_reading {R : Set Reading} {file : Option String} {text : String}
    {program : Program} (hmem : ⟨file, text⟩ ∈ R) (hparse : Program.ofSource text = .ok program) :
    CoversBody R file program :=
  fun _ hpos => ⟨⟨file, text⟩, hmem, rfl, Or.inl ⟨program, hparse, hpos⟩⟩

/-- Nothing has to be known of objects without code. -/
theorem coversObject_of_isCode {R : Set Reading} {object : Object} (h : object.isCode = false) :
    CoversObject R object := by
  unfold CoversObject
  split
  · cases h
  · cases h
  · trivial

namespace CoversStore

variable {R : Set Reading} {s s' : Store}

/-- A store that makes no new code stays covered. -/
theorem of_evolves (h : CoversStore R s) (hs : s.Evolves s') : CoversStore R s' := by
  intro v
  cases hcode : (s'.get v).isCode with
  | false => exact coversObject_of_isCode hcode
  | true =>
    rw [hs.code v hcode]
    exact h v

/-- An object whose code is covered may be added. -/
theorem alloc (h : CoversStore R s) {object : Object} (hobject : CoversObject R object) :
    CoversStore R (s.alloc object).2 := by
  intro v
  rcases s.get_alloc object v with hget | hget
  · rw [hget]
    exact hobject
  · rw [hget]
    exact h v

theorem mono (h : CoversStore R s) {R' : Set Reading} (hR : R ⊆ R') : CoversStore R' s := by
  intro v
  have hv := h v
  unfold CoversObject at hv ⊢
  split
  · next f hget =>
    rw [hget] at hv
    exact fun pos hpos => (hv pos hpos).mono hR
  · next type hget =>
    rw [hget] at hv
    exact fun pos hpos => (hv pos hpos).mono hR
  · trivial

end CoversStore

namespace Machine

def danced (m : Machine) (names : Dict Value) : Machine :=
  let (globals, store) := m.store.newScope names
  { store, context := .fresh globals m.context.lineEnding .none, frame := .top globals none,
    depth := m.depth + 1, inReference := false, library := m.library }

structure Backed (R : Set Reading) (code : List Stmt) (file : Option String) (m : Machine) :
    Prop where
  code : CoversBody R file code
  store : CoversStore R m.store
  file : m.frame.file = file
  injections : CoversInjections R m.frame.injections

end Machine

def Outcome.handedBack (m : Machine) : Outcome Unit → Outcome Eval.Apart
  | .done _ inner => .done ⟨inner.context, none⟩ { m with store := inner.store }
  | .fail d inner => .done ⟨inner.context, some d⟩ { m with store := inner.store }
  | .starved inner => .starved inner

def Outcome.Backed {α : Type} (R : Set Reading) (code : List Stmt) (file : Option String) :
    Outcome α → Prop
  | .done _ m => m.Backed R code file
  | .fail d m => m.Backed R code file ∧ d.BackedBy R
  | .starved _ => True

namespace Eval

/-- An account of the texts from which a run of the computation, made for the code, takes
further code. It may use the fact `pre` about all readings and the file of the frame. -/
inductive Accounts : (pre : Set Reading → Option String → Prop) → (code : List Stmt) →
    ⦃α : Type⦄ → Eval α → Machine → Set Reading → Prop
  /-- A part of the run that leaves backed what was backed takes code from no text. -/
  | quiet {pre : Set Reading → Option String → Prop} {code : List Stmt} {α : Type} {x : Eval α}
      {m : Machine} : (∀ R file, pre R file → m.Backed R code file → (x m).Backed R code file) →
      Accounts pre code x m ∅
  | given {pre fact : Set Reading → Option String → Prop} {code : List Stmt} {α : Type}
      {x : Eval α} {m : Machine} {S : Set Reading} :
      (∀ R file, pre R file → m.Backed R code file → fact R file) →
      Accounts fact code x m S → Accounts pre code x m S
  | bind {pre : Set Reading → Option String → Prop} {code : List Stmt} {α β : Type} {x : Eval α}
      {f : α → Eval β} {m : Machine} {S T : Set Reading} : Accounts pre code x m S →
      (∀ a m', x m = .done a m' → Accounts pre code (f a) m' T) →
      Accounts pre code (x >>= f) m (S ∪ T)
  | inReferenceBlock {pre : Set Reading → Option String → Prop} {code : List Stmt} {α : Type}
      {x : Eval α} {m : Machine} {S : Set Reading} :
      Accounts pre code x { m with inReference := true } S →
      Accounts pre code (inReferenceBlock x) m S
  | orElse {pre : Set Reading → Option String → Prop} {code : List Stmt} {α : Type}
      {x : Eval α} {file : String} {m : Machine} {S : Set Reading} : Accounts pre code x m S →
      Accounts pre code (orElse x (forget file)) m S
  /-- A frame is entered for a body that is covered under the file of the frame. -/
  | enter {pre : Set Reading → Option String → Prop} {code body : List Stmt} {α : Type}
      {x : Eval α} {frame : Frame} {pos : Position} {m : Machine} {S : Set Reading} :
      m.depth < depthLimit → (∀ R file, pre R file → CoversBody R frame.file body) →
      (∀ R file, pre R file → CoversInjections R frame.injections) →
      Accounts (fun _ _ => True) body x (m.entered frame) S →
      Accounts pre code (enter frame pos x) m S
  /-- The text of a module is read under its file. -/
  | module {pre : Set Reading → Option String → Prop} {code : List Stmt} {ex : Executor}
      {path file text : String} {program : Program} {pos : Position} {m : Machine}
      {S : Set Reading} : m.resolve? path = some file → m.context.modules.get? file = none →
      m.store.files.readText? file = some text → Program.ofSource text = .ok program →
      Accounts (fun R _ => CoversBody R (some file) program) code
        (runModule ex path file program pos) m S →
      Accounts pre code (importModule ex path pos) m (insert ⟨some file, text⟩ S)
  /-- So is a text that is no program. -/
  | complaint {pre : Set Reading → Option String → Prop} {code : List Stmt} {ex : Executor}
      {path file text : String} {d : Diagnostic} {pos : Position} {m : Machine} :
      m.resolve? path = some file → m.context.modules.get? file = none →
      m.store.files.readText? file = some text → Program.ofSource text = .error d →
      Accounts pre code (importModule ex path pos) m {⟨some file, text⟩}
  /-- A danced text is read under no name. -/
  | dance {pre : Set Reading → Option String → Prop} {code : List Stmt} {ex : Executor}
      {text : String} {names : Dict Value} {program : Program} {m : Machine} {S : Set Reading} :
      Program.ofSource text = .ok program →
      Accounts (fun _ _ => True) program (ex program >>= settle) (m.danced names) S →
      Accounts pre code (danceSource ex text names) m (insert ⟨none, text⟩ S)

theorem runApart_eq (ex : Executor) (context : Context) (program : Program) (m : Machine) :
    runApart ex context program m =
      ((ex program >>= settle) { m with
        context := context
        frame := .top context.globals none
        depth := m.depth + 1
        inReference := false }).handedBack m := by
  obtain ⟨store, caller, frame, depth, inReference, library⟩ := m
  change _ = (Eval.bind (ex program) settle
    ⟨store, context, .top context.globals none, depth + 1, false, library⟩).handedBack _
  unfold runApart
  dsimp only
  cases Eval.bind (ex program) settle
    ⟨store, context, .top context.globals none, depth + 1, false, library⟩ <;> rfl

/-- A danced program runs in the machine made for it, and the caller gets back how it has ended.
-/
theorem danceSource_of_ok {text : String} {program : Program}
    (hparse : Program.ofSource text = .ok program) (ex : Executor) (names : Dict Value)
    (m : Machine) :
    danceSource ex text names m = ((ex program >>= settle) (m.danced names)).handedBack m := by
  simp only [danceSource, hparse]
  exact runApart_eq ex (m.danced names).context program { m with store := (m.danced names).store }

/-- A danced text that is no program fails before it runs. -/
theorem danceSource_of_error {text : String} {d : Diagnostic}
    (hparse : Program.ofSource text = .error d) (ex : Executor) (names : Dict Value)
    (m : Machine) : danceSource ex text names m =
      .done ⟨(m.danced names).context, some d⟩ { m with store := (m.danced names).store } := by
  simp only [danceSource, hparse]
  rfl

/-- The caller of a dance keeps all but the store, also if the text is no program. -/
theorem ends_danceSource {ex : Executor} {text : String} {names : Dict Value} {m : Machine}
    {ended halted ended' halted' : Machine → Prop}
    (hx : ∀ program, ((ex program >>= settle) (m.danced names)).Ends ended halted)
    (he : ∀ inner, ended inner → ended' { m with store := inner.store })
    (hh : ∀ inner, halted inner → halted' inner)
    (hnone : ended' { m with store := (m.danced names).store }) :
    (danceSource ex text names m).Ends ended' halted' := by
  cases hparse : Program.ofSource text with
  | error d =>
    rw [danceSource_of_error hparse]
    exact hnone
  | ok program =>
    have hend := hx program
    rw [danceSource_of_ok hparse]
    cases hrun : (ex program >>= settle) (m.danced names) with
    | done a inner =>
      rw [hrun] at hend
      exact he inner hend
    | fail d inner =>
      rw [hrun] at hend
      exact he inner hend
    | starved inner =>
      rw [hrun] at hend
      exact hh inner hend

/-! What keeps machines backed by readings. -/

section Backed

variable {R : Set Reading} {code : List Stmt} {file : Option String} {m : Machine} {α β : Type}
  {x : Eval α}

/-- A sequence leaves a backed machine if both of its parts do. -/
theorem backed_bind {f : α → Eval β} (hx : (x m).Backed R code file)
    (hf : ∀ a m', x m = .done a m' → m'.Backed R code file → (f a m').Backed R code file) :
    ((x >>= f) m).Backed R code file := by
  change (Eval.bind x f m).Backed R code file
  unfold Eval.bind
  cases hrun : x m with
  | done a m' =>
    rw [hrun] at hx
    exact hf a m' hrun hx
  | fail d m' =>
    rw [hrun] at hx
    exact hx
  | starved m' => trivial

theorem backed_inReferenceBlock (hx : (x { m with inReference := true }).Backed R code file) :
    (inReferenceBlock x m).Backed R code file := by
  unfold inReferenceBlock
  dsimp only
  cases hrun : x { m with inReference := true } with
  | done a m' =>
    rw [hrun] at hx
    exact ⟨hx.code, hx.store, hx.file, hx.injections⟩
  | fail d m' =>
    rw [hrun] at hx
    exact ⟨⟨hx.1.code, hx.1.store, hx.1.file, hx.1.injections⟩, hx.2⟩
  | starved m' => trivial

theorem backed_orElse_forget (hx : (x m).Backed R code file) (name : String) :
    (orElse x (forget name) m).Backed R code file := by
  unfold orElse
  cases hrun : x m with
  | done a m' =>
    rw [hrun] at hx
    exact hx
  | fail d m' =>
    rw [hrun] at hx
    exact ⟨⟨hx.1.code, hx.1.store, hx.1.file, hx.1.injections⟩, hx.2⟩
  | starved m' => trivial

/-- Whatever code the frame is entered for, the caller is backed as it was. -/
theorem backed_enter (hm : m.Backed R code file) (hdepth : m.depth < depthLimit) {frame : Frame}
    {body : List Stmt} (hx : (x (m.entered frame)).Backed R body frame.file) (pos : Position) :
    (enter frame pos x m).Backed R code file := by
  rw [enter_eq hdepth]
  cases hrun : x (m.entered frame) with
  | done a m' =>
    rw [hrun] at hx
    exact ⟨hm.code, hx.store, hm.file, hm.injections⟩
  | fail d m' =>
    rw [hrun] at hx
    exact ⟨⟨hm.code, hx.1.store, hm.file, hm.injections⟩, hx.2.push _ _ _⟩
  | starved m' => trivial

/-- So it is whatever has been danced. -/
theorem backed_handedBack (hm : m.Backed R code file) {program : List Stmt}
    {danced : Option String} {outcome : Outcome Unit} (h : outcome.Backed R program danced) :
    (outcome.handedBack m).Backed R code file := by
  cases outcome with
  | done a inner => exact ⟨hm.code, h.store, hm.file, hm.injections⟩
  | fail d inner => exact ⟨hm.code, h.1.store, hm.file, hm.injections⟩
  | starved inner => trivial

end Backed

/-- A run that begins backed by readings, those of an account of it among them, ends so. Only
entering a body changes the code at hand. -/
theorem Accounts.backed {pre : Set Reading → Option String → Prop} {code : List Stmt} {α : Type}
    {x : Eval α} {m : Machine} {S : Set Reading} (h : Accounts pre code x m S) :
    ∀ R file, pre R file → S ⊆ R → m.Backed R code file → (x m).Backed R code file := by
  induction h with
  | quiet hquiet => exact fun R file hpre _ hm => hquiet R file hpre hm
  | given hfact _ ih => exact fun R file hpre hS hm => ih R file (hfact R file hpre hm) hS hm
  | bind _ _ ihx ihf =>
    intro R file hpre hST hm
    obtain ⟨hS, hT⟩ := Set.union_subset_iff.mp hST
    exact backed_bind (ihx R file hpre hS hm) fun a m' hrun => ihf a m' hrun R file hpre hT
  | inReferenceBlock _ ih =>
    intro R file hpre hS hm
    exact backed_inReferenceBlock (ih R file hpre hS ⟨hm.code, hm.store, hm.file, hm.injections⟩)
  | @orElse pre code α x name m S _ ih =>
    intro R file hpre hS hm
    exact backed_orElse_forget (ih R file hpre hS hm) name
  | @enter pre code body α x frame pos m S hdepth hbody hinjections _ ih =>
    intro R file hpre hS hm
    have hstart : (m.entered frame).Backed R body frame.file :=
      ⟨hbody R file hpre, hm.store, rfl, hinjections R file hpre⟩
    exact backed_enter hm hdepth (ih R frame.file trivial hS hstart) pos
  | module hfound hknown hread hparse _ ih =>
    intro R name hpre hS hm
    obtain ⟨hmem, hS⟩ := Set.insert_subset_iff.mp hS
    rw [importModule_of_unknown hfound hknown hread hparse]
    exact ih R name (.of_reading hmem hparse) hS hm
  | complaint hfound hknown hread hparse =>
    intro R name hpre hS hm
    have hmem := Set.singleton_subset_iff.mp hS
    unfold Eval.importModule
    simp only [Eval.read_bind, hfound, hknown, hread, hparse]
    exact ⟨hm, (Diagnostic.BackedBy.complaint hmem hparse _ _).push _ _ _⟩
  | @dance pre code ex text names program m S hparse _ ih =>
    intro R file hpre hS hm
    obtain ⟨hmem, hS⟩ := Set.insert_subset_iff.mp hS
    have hstore : CoversStore R (m.danced names).store := hm.store.of_evolves (.of_eq rfl rfl)
    have hstart : (m.danced names).Backed R program none :=
      ⟨.of_reading hmem hparse, hstore, rfl, nofun⟩
    rw [danceSource_of_ok hparse]
    exact backed_handedBack hm (ih R none trivial hS hstart)

/-- The computation belongs to the code: there is an account of each of its runs. -/
def Sourced (pre : Set Reading → Option String → Prop) (code : List Stmt) ⦃α : Type⦄
    (x : Eval α) : Prop :=
  ∀ m, ∃ S, Accounts pre code x m S

namespace Sourced

variable {pre : Set Reading → Option String → Prop} {code : List Stmt} {α β : Type}

/-- What leaves every backed machine backed needs no further texts. -/
theorem of_backed {x : Eval α}
    (h : ∀ R file m, pre R file → m.Backed R code file → (x m).Backed R code file) :
    Sourced pre code x :=
  fun m => ⟨∅, .quiet fun R file hpre hm => h R file m hpre hm⟩

theorem mono {pre' : Set Reading → Option String → Prop} {x : Eval α} (h : Sourced pre code x)
    (hpre : ∀ R file, pre' R file → pre R file) : Sourced pre' code x := by
  intro m
  obtain ⟨S, hS⟩ := h m
  exact ⟨S, hS.given fun R file hfact _ => hpre R file hfact⟩

/-- The texts of a sequence are those of its parts. -/
theorem bind {x : Eval α} {f : α → Eval β} (hx : Sourced pre code x)
    (hf : ∀ a, Sourced pre code (f a)) : Sourced pre code (x >>= f) := by
  intro m
  obtain ⟨S, hS⟩ := hx m
  cases hrun : x m with
  | done a m' =>
    obtain ⟨T, hT⟩ := hf a m'
    refine ⟨S ∪ T, hS.bind fun b m'' hb => ?_⟩
    obtain ⟨rfl, rfl⟩ := Outcome.done.inj (hrun.symm.trans hb)
    exact hT
  | fail d m' =>
    refine ⟨S ∪ ∅, hS.bind fun b m'' hb => ?_⟩
    cases hrun.symm.trans hb
  | starved m' =>
    refine ⟨S ∪ ∅, hS.bind fun b m'' hb => ?_⟩
    cases hrun.symm.trans hb

/-- What is read off the machine comes with a fact about it. -/
theorem read_bind {f : Machine → α} {k : α → Eval β}
    (fact : α → Set Reading → Option String → Prop)
    (hf : ∀ R file m, pre R file → m.Backed R code file → fact (f m) R file)
    (hk : ∀ a, Sourced (fun R file => pre R file ∧ fact a R file) code (k a)) :
    Sourced pre code (Eval.read f >>= k) := by
  intro m
  obtain ⟨S, hS⟩ := hk (f m) m
  have hread : Accounts pre code (Eval.read f) m ∅ := .quiet fun _ _ _ hm => hm
  refine ⟨∅ ∪ S, hread.bind fun a m' ha => ?_⟩
  obtain ⟨rfl, rfl⟩ := Outcome.done.inj ha
  exact hS.given fun R file hpre hm => ⟨hpre, hf R file m hpre hm⟩

/-- The code of an object that is looked up is covered. -/
theorem load_bind {v : Value} {k : Object → Eval β}
    (hk : ∀ object, Sourced (fun R file => pre R file ∧ CoversObject R object) code (k object)) :
    Sourced pre code (Eval.load v >>= k) :=
  read_bind (fun object R _ => CoversObject R object) (fun _ _ _ _ hm => hm.store v) hk

/-- The code of the active frame is covered. -/
theorem frame_bind {k : Frame → Eval β}
    (hk : ∀ frame,
      Sourced (fun R file => pre R file ∧ CoversBody R frame.file code) code (k frame)) :
    Sourced pre code (Eval.frame >>= k) :=
  read_bind (fun frame R _ => CoversBody R frame.file code)
    (fun _ _ _ _ hm => hm.file.symm ▸ hm.code) hk

theorem failWith {cause : Cause} {pos : Option Position} (h : ∀ p ∈ pos, At code p) :
    Sourced pre code (Eval.failWith cause pos : Eval α) := by
  refine of_backed fun R file m _ hm => ⟨hm, ?_⟩
  refine Diagnostic.BackedBy.first (fun p hp => ?_) _ _
  rw [hm.file]
  exact hm.code p (h p hp)

theorem fail {fault : Fault} {pos : Position} (h : At code pos) :
    Sourced pre code (Eval.fail fault pos : Eval α) :=
  failWith fun _ hp => Option.mem_some_iff.mp hp ▸ h

/-- Signals that nothing has caught are not followed. -/
theorem failStray {fault : Fault} (h : fault.isStray = true) (pos : Position) :
    Sourced pre code (Eval.fail fault pos : Eval α) :=
  of_backed fun _ _ _ _ hm => ⟨hm, fun _ hstray => absurd hstray (by
    change ¬fault.isStray = false
    rw [h]
    decide)⟩

/-- Work on the store that makes no code needs no text. -/
theorem act_of_evolves {pos : Position} (hpos : At code pos) {action : Action α}
    (h : ∀ R s, CoversStore R s → CoversStore R (action s).2) :
    Sourced pre code (Eval.act pos action) := by
  refine of_backed fun R file m _ hm => ?_
  have hstore := h R m.store hm.store
  unfold Eval.act
  dsimp only
  split
  · next heq =>
    rw [heq] at hstore
    exact ⟨hm.code, hstore, hm.file, hm.injections⟩
  · next heq =>
    rw [heq] at hstore
    refine ⟨⟨hm.code, hstore, hm.file, hm.injections⟩, ?_⟩
    refine Diagnostic.BackedBy.first (fun p hp => ?_) _ _
    obtain rfl := Option.mem_some_iff.mp hp
    change Assigned R m.frame.file _
    rw [hm.file]
    exact hm.code _ hpos

/-- An object may be made if its code is covered. -/
theorem make {object : Object} (h : ∀ R file, pre R file → CoversObject R object) :
    Sourced pre code (Eval.make object) :=
  of_backed fun R file _ hpre hm =>
    ⟨hm.code, hm.store.alloc (h R file hpre), hm.file, hm.injections⟩

theorem newScope (names : Dict Value) : Sourced pre code (Eval.newScope names) :=
  of_backed fun _ _ _ _ hm =>
    ⟨hm.code, hm.store.of_evolves (.of_eq rfl rfl), hm.file, hm.injections⟩

theorem bindLocal (name : String) (v : Value) : Sourced pre code (Eval.bindLocal name v) :=
  of_backed fun _ _ _ _ hm =>
    ⟨hm.code, hm.store.of_evolves (.of_eq rfl rfl), hm.file, hm.injections⟩

theorem modifyContext (f : Context → Context) : Sourced pre code (Eval.modifyContext f) :=
  of_backed fun _ _ _ _ hm => ⟨hm.code, hm.store, hm.file, hm.injections⟩

theorem updateScope (id : ScopeId) (f : Dict Value → Dict Value) :
    Sourced pre code (Eval.modifyStore (·.updateScope id f)) :=
  of_backed fun _ _ _ _ hm =>
    ⟨hm.code, hm.store.of_evolves (.of_eq rfl rfl), hm.file, hm.injections⟩

theorem inReferenceBlock {x : Eval α} (hx : Sourced pre code x) :
    Sourced pre code (Eval.inReferenceBlock x) := by
  intro m
  obtain ⟨S, hS⟩ := hx { m with inReference := true }
  exact ⟨S, hS.inReferenceBlock⟩

theorem orElse {x : Eval α} (hx : Sourced pre code x) (file : String) :
    Sourced pre code (Eval.orElse x (forget file)) := by
  intro m
  obtain ⟨S, hS⟩ := hx m
  exact ⟨S, hS.orElse⟩

/-- A body that is entered needs the texts of its own code. -/
theorem enter {body : List Stmt} {x : Eval α} {frame : Frame} {pos : Position}
    (hx : Sourced (fun _ _ => True) body x) (hpos : At code pos)
    (hbody : ∀ R file, pre R file → CoversBody R frame.file body)
    (hinjections : ∀ R file, pre R file → CoversInjections R frame.injections) :
    Sourced pre code (Eval.enter frame pos x) := by
  intro m
  by_cases hdepth : m.depth < depthLimit
  · obtain ⟨S, hS⟩ := hx (m.entered frame)
    exact ⟨S, .enter hdepth hbody hinjections hS⟩
  · refine ⟨∅, .quiet fun R file _ hm => ?_⟩
    unfold Eval.enter
    rw [if_neg hdepth]
    refine ⟨hm, Diagnostic.BackedBy.first (fun p hp => ?_) _ _⟩
    obtain rfl := Option.mem_some_iff.mp hp
    rw [hm.file]
    exact hm.code _ hpos

theorem laws (code : List Stmt) : Laws (At code) (Sourced (fun _ _ => True) code) where
  pure _ := of_backed fun _ _ _ _ hm => hm
  bind hx hf := hx.bind hf
  failAt? _ hpos := failWith hpos
  exit _ _ hpos := failWith fun _ hp => Option.mem_some_iff.mp hp ▸ hpos
  read _ := of_backed fun _ _ _ _ hm => hm
  act hpos htame := act_of_evolves hpos fun _ s hs => hs.of_evolves (htame s).evolves
  make h := make fun _ _ _ => coversObject_of_isCode (Object.isInert_iff.mp h).1
  newScope names := newScope names
  newModule _ table := (newScope table).bind fun _ => make fun _ _ _ => coversObject_of_isCode rfl
  updateScope id _ _ := updateScope id _
  bindLocal name v := bindLocal name v
  writeOut _ := modifyContext _
  writeErr _ := modifyContext _
  setAlias _ _ _ := modifyContext _
  inReferenceBlock hx := hx.inReferenceBlock

/-- What needs no fact can be used along with any. -/
theorem anyway {x : Eval α} (h : Sourced (fun _ _ => True) code x) : Sourced pre code x :=
  h.mono fun _ _ _ => trivial

/-! Calls. -/

section Call

variable {fuel : Nat} (hex : ∀ body, Sourced (fun _ _ => True) body (Eval.exec fuel body))

include hex

theorem settled (body : List Stmt) :
    Sourced (fun _ _ => True) body (Eval.exec fuel body >>= settle) := by
  refine (hex body).bind fun flow => ?_
  cases flow with
  | next => exact (laws body).pure _
  | «break» pos => exact failStray rfl pos
  | «continue» pos => exact failStray rfl pos
  | «return» v pos => exact failStray rfl pos

theorem answered (body : List Stmt) :
    Sourced (fun _ _ => True) body (Eval.exec fuel body >>= returned) := by
  refine (hex body).bind fun flow => ?_
  cases flow with
  | next => exact (laws body).make rfl
  | «break» pos => exact failStray rfl pos
  | «continue» pos => exact failStray rfl pos
  | «return» v pos => exact (laws body).pure _

variable {pos : Position} (hpos : At code pos)

include hpos

/-- A call takes the code of its function from the store, and that is covered. -/
theorem callFunction (callee : Value) (args : List Value) (injections : Dict Injection) :
    Sourced (fun R _ => CoversInjections R injections) code
      (Eval.callFunction (Eval.exec fuel) callee args pos injections) := by
  unfold Eval.callFunction
  refine load_bind fun object => ?_
  split
  · dsimp only
    split
    · refine (newScope _).bind fun locals => (answered hex _).enter hpos ?_ ?_
      · exact fun R file hpre => hpre.2
      · exact fun R file hpre => hpre.1
    · exact fail hpos
  · exact fail hpos

theorem callOrdinary (callee : Value) (args : List Value) :
    Sourced pre code (Eval.callFunction (Eval.exec fuel) callee args pos .empty) :=
  (callFunction hex hpos callee args .empty).mono fun _ _ _ => nofun

/-- The body of a struct or module. -/
theorem runBody {frame : Frame} {body : List Stmt} (hframe : frame.injections = .empty)
    (hbody : ∀ R file, pre R file → CoversBody R frame.file body) :
    Sourced pre code (Eval.runBody (Eval.exec fuel) frame body pos) := by
  refine (settled hex body).enter hpos hbody fun R file _ name injection hfound => ?_
  rw [hframe] at hfound
  cases hfound

theorem instantiate (callee : Value) (args : List Value) :
    Sourced pre code (Eval.instantiate (Eval.exec fuel) callee args pos) := by
  unfold Eval.instantiate
  refine load_bind fun object => ?_
  split
  · refine (newScope _).bind fun fields => ?_
    refine (runBody hex hpos rfl fun R file hpre => hpre.2).bind fun _ => ?_
    refine ((laws code).read _).anyway.bind fun names => ?_
    exact (updateScope _ _).bind fun _ => make fun _ _ _ => coversObject_of_isCode rfl
  · exact fail hpos

theorem callSuper (args : List Value) :
    Sourced pre code (Eval.callSuper (Eval.exec fuel) args pos) := by
  unfold Eval.callSuper
  refine ((laws code).read _).anyway.bind fun function => ?_
  cases function with
  | none => exact fail hpos
  | some function =>
    refine ((laws code).load function).anyway.bind fun object => ?_
    split
    · refine ((laws code).read _).anyway.bind fun base => ?_
      cases base with
      | error fault => exact fail hpos
      | ok base =>
        refine read_bind (fun injections R _ => CoversInjections R injections)
          (fun R file m _ hm => hm.injections) fun injections => ?_
        exact (callFunction hex hpos base args injections).mono fun R file hpre => hpre.2
    · exact fail hpos

omit hpos

/-- A danced text is a reading without a file. -/
theorem danceSource (text : String) (names : Dict Value) :
    Sourced pre code (Eval.danceSource (Eval.exec fuel) text names) := by
  intro m
  cases hparse : Program.ofSource text with
  | error d =>
    refine ⟨∅, .quiet fun R file _ hm => ?_⟩
    rw [danceSource_of_error hparse]
    exact ⟨hm.code, hm.store.of_evolves (.of_eq rfl rfl), hm.file, hm.injections⟩
  | ok program =>
    obtain ⟨S, hS⟩ := settled hex program (m.danced names)
    exact ⟨_, .dance hparse hS⟩

include hpos

theorem dance (args : List Value) :
    Sourced pre code (Eval.dance (Eval.exec fuel) args pos) := by
  unfold Eval.dance
  cases args with
  | nil => exact fail hpos
  | cons source rest =>
    refine ((laws code).load source).anyway.bind fun object => ?_
    split
    · exact fail hpos
    · next text _ =>
      have hnames : Sourced pre code (Eval.danceNames rest pos) := by
        unfold Eval.danceNames
        split
        · exact ((laws code).pure _).anyway
        · next v _ =>
          refine ((laws code).load v).anyway.bind fun object => ?_
          split
          · exact ((laws code).pure _).anyway
          · exact fail hpos
      refine hnames.bind fun names => (danceSource hex text names).bind fun apart => ?_
      split
      · refine (modifyContext _).bind fun _ => (modifyContext _).bind fun _ => ?_
        exact of_backed fun R file m _ hm => ⟨hm, fun hexit => by cases hexit⟩
      · have hcomplaint : Sourced pre code (Eval.make apart.complaint) := by
          refine make fun R file _ => coversObject_of_isCode ?_
          unfold Apart.complaint
          split
          · rfl
          · split
            · rfl
            · rfl
        refine ((laws code).make rfl).anyway.bind fun out => hcomplaint.bind fun complaint => ?_
        exact ((laws code).make rfl).anyway

/-- Only a dance takes code from a text. -/
theorem callBuiltin (function : Builtin) (args : List Value) :
    Sourced pre code (Eval.callBuiltin (Eval.exec fuel) function args pos) := by
  cases function with
  | dance => exact dance hex hpos args
  | openFile =>
    change Sourced pre code (Eval.act pos _)
    split
    · refine act_of_evolves hpos fun R s hs => ?_
      rcases Builtin.openNamed_cases _ _ s with ⟨fault, hfault, heq⟩ | ⟨name, handle, files, heq⟩
      · rw [heq]
        exact hs
      · rw [heq]
        have hfiles : CoversStore R (s.setFiles files) := hs
        exact hfiles.alloc trivial
    · exact act_of_evolves hpos fun R s hs => hs.of_evolves (Action.isTame_fail rfl s).evolves
  | _ => exact ((laws code).callBuiltin_of_isInert _ rfl args hpos).anyway

theorem callValue (callee : Value) (args : List Value) :
    Sourced pre code (Eval.callValue (Eval.exec fuel) callee args pos) := by
  unfold Eval.callValue
  refine ((laws code).load callee).anyway.bind fun object => ?_
  split
  · exact callOrdinary hex hpos callee args
  · exact callOrdinary hex hpos _ _
  · exact ((laws code).act hpos (Method.isTame_call _ _ args)).anyway
  · exact callBuiltin hex hpos _ args
  · exact instantiate hex hpos callee args
  · exact ((laws code).act hpos (TypeTag.isTame_construct _ args)).anyway
  · exact fail hpos

/-! Modules, structs and blocks. -/

theorem runModule (path file : String) (program : Program) :
    Sourced (fun R _ => CoversBody R (some file) program) code
      (Eval.runModule (Eval.exec fuel) path file program pos) := by
  unfold Eval.runModule
  refine (newScope _).bind fun scope => ?_
  refine (make fun _ _ _ => coversObject_of_isCode rfl).bind fun v => ?_
  refine (modifyContext _).bind fun _ => ?_
  have hbody : Sourced (fun R _ => CoversBody R (some file) program) code
      (Eval.runBody (Eval.exec fuel) (.top scope (some file)) program pos) :=
    runBody hex hpos rfl fun R _ hpre => hpre
  exact (hbody.orElse file).bind fun _ => ((laws code).pure _).anyway

/-- Only a file that is read and not yet known adds readings; a fault before that is placed at
the import itself. -/
theorem importModule (path : String) :
    Sourced pre code (Eval.importModule (Eval.exec fuel) path pos) := by
  intro m
  have hfault : ∀ {fault : ImportFault} {R : Set Reading} {file : Option String},
      m.Backed R code file →
      (Eval.failWith (.importing fault) (some pos) m : Outcome Value).Backed R code file := by
    intro fault R file hm
    refine ⟨hm, Diagnostic.BackedBy.first (fun p hp => ?_) _ _⟩
    obtain rfl := Option.mem_some_iff.mp hp
    rw [hm.file]
    exact hm.code _ hpos
  cases hfound : m.resolve? path with
  | none =>
    refine ⟨∅, .quiet fun R file _ hm => ?_⟩
    unfold Eval.importModule
    rw [Eval.read_bind, hfound]
    exact hfault hm
  | some name =>
    cases hknown : m.context.modules.get? name with
    | some v =>
      refine ⟨∅, .quiet fun R file _ hm => ?_⟩
      rw [importModule_of_known hfound hknown]
      exact hm
    | none =>
      cases hread : m.store.files.readText? name with
      | none =>
        refine ⟨∅, .quiet fun R file _ hm => ?_⟩
        unfold Eval.importModule
        simp only [Eval.read_bind, hfound, hknown, hread]
        exact hfault hm
      | some text =>
        cases hparse : Program.ofSource text with
        | error d => exact ⟨_, .complaint hfound hknown hread hparse⟩
        | ok program =>
          obtain ⟨S, hS⟩ := runModule hex hpos path name program m
          exact ⟨_, .module hfound hknown hread hparse hS⟩

theorem defineStruct {definition : StructDef} (hbody : marks definition.body ⊆ marks code) :
    Sourced pre code (Eval.defineStruct (Eval.exec fuel) definition pos) := by
  unfold Eval.defineStruct
  refine frame_bind fun frame => (newScope _).bind fun fields => ?_
  refine (runBody hex hpos rfl fun R file hpre => hpre.2.of_subset hbody).bind fun _ => ?_
  have hmake : Sourced (fun R file => pre R file ∧ CoversBody R frame.file code) code (Eval.make
      (.struct { definition, fields, globals := frame.globals, file := frame.file })) :=
    make fun R file hpre => hpre.2.of_subset hbody
  exact hmake.bind fun v => bindLocal _ v

/-- An overriding body is covered like the frame in which it was registered. -/
theorem runBlock {body : List Stmt} (hbody : Sourced pre code (Eval.exec fuel body))
    (name : String) : Sourced pre code (Eval.runBlock (Eval.exec fuel) name body pos) := by
  unfold Eval.runBlock
  refine read_bind (fun injections R _ => CoversInjections R injections)
    (fun R file m _ hm => hm.injections) fun injections => ?_
  split
  · exact hbody.mono fun _ _ hpre => hpre.1
  · next injection hfound =>
    refine (hex injection.body).enter hpos ?_ ?_
    · exact fun R file hpre => hpre.2 name injection hfound
    · exact fun R file hpre => hpre.2

end Call

/-- A function that is defined has a body from the code at hand. -/
theorem defineFunction {definition : FunctionDef} (hbody : marks definition.body ⊆ marks code) :
    Sourced pre code (Eval.defineFunction definition) := by
  unfold Eval.defineFunction
  refine frame_bind fun frame => ?_
  have hmake : Sourced (fun R file => pre R file ∧ CoversBody R frame.file code) code (Eval.make
      (.function { definition, globals := frame.globals, file := frame.file })) :=
    make fun R file hpre => hpre.2.of_subset hbody
  exact hmake.bind fun v => bindLocal _ v

theorem addInjection {body : List Stmt} (hbody : marks body ⊆ marks code) (name : String) :
    Sourced pre code (Eval.addInjection name body) := by
  refine of_backed fun R file m _ hm => ?_
  unfold Eval.addInjection Eval.modify
  change Machine.Backed R code file (if m.frame.injections.contains name then m else _)
  split
  · exact hm
  · refine ⟨hm.code, hm.store, hm.file, fun other injection hfound => ?_⟩
    change (m.frame.injections.insert name (m.frame.injection body)).get? other = _ at hfound
    rw [Dict.get?_insert] at hfound
    split at hfound
    · cases hfound
      change CoversBody R m.frame.file body
      rw [hm.file]
      exact hm.code.of_subset hbody
    · exact hm.injections other injection hfound

/-- A body that is registered is a part of the code at hand. -/
theorem registerInjection {body : List Stmt} {pos : Position} (name : String) (hpos : At code pos)
    (hbody : marks body ⊆ marks code) :
    Sourced pre code (Eval.registerInjection name body pos) := by
  unfold Eval.registerInjection
  refine ((laws code).read _).anyway.bind fun function => ?_
  cases function with
  | none => exact fail hpos
  | some function =>
    refine ((laws code).read _).anyway.bind fun declared => ?_
    split
    · exact fail hpos
    · exact fail hpos
    · exact addInjection hbody name

/-- Every computation that programs are made of keeps what it does backed by readings. -/
theorem discipline : CodeDiscipline (Sourced fun _ _ => True) where
  laws := laws
  starve _ _ := of_backed fun _ _ _ _ _ => trivial
  builtin _ _ := make fun _ _ _ => trivial
  defineFunction hbody := defineFunction hbody
  registerInjection name hpos hbody := registerInjection name hpos hbody
  callValue hex hmark _ := callValue hex (.of_mem hmark)
  callSuper hex hmark _ := callSuper hex (.of_mem hmark)
  importModule path hex hmark _ := importModule hex (.of_mem hmark) path
  defineStruct hex hmark _ hbody := defineStruct hex (.of_mem hmark) hbody
  runBlock name hex hmark _ hbody := runBlock hex (.of_mem hmark) hbody name

/-- The run of a whole program. -/
theorem runProgram (fuel : Nat) (program : Program) :
    Sourced (fun _ _ => True) program (Eval.runProgram fuel program) :=
  settled (discipline.exec fuel) program

end Sourced

end Eval

end Stencil
