import Stencil.Proofs.Eval.Reach
import Stencil.Proofs.Scope.Action

/-!
Two runs side by side. Machines are alike under a policy when they have the same
frame, context and objects and differ at most in the hidden tables. A computation
keeps to the policy if, started on alike machines, it ends in the same way on
both, with the same result or diagnostic, on machines that are alike again, and
no frozen table has been written.

The frame that is active has to be one that the policy admits: its own tables can
be read and written, its globals may be referred to, and the locals of a function
are secret. What calls do in a frame of their own needs less of the frame they
stand in, so the condition on the frame is a parameter.
-/

namespace Stencil

def Machine.leftTo (m caller : Machine) : Machine :=
  ⟨m.store, m.context, caller.frame, m.depth - 1, caller.inReference, m.library⟩

namespace Policy

variable {mode : Mode}

/-- Code may run with these tables. -/
structure Hosts (p : Policy mode) (n : Nat) (locals globals : ScopeId) (function : Option Value) :
    Prop where
  readable : ¬p.hidden locals
  writable : ¬p.frozen locals
  globals : p.Links n globals
  secret : mode = .separate → function.isSome = true → p.secret locals

def AdmitsInjections (p : Policy mode) (n : Nat) (injections : Dict Injection) : Prop :=
  ∀ name injection, injections.get? name = some injection →
    p.Hosts n injection.locals injection.globals injection.function

structure AdmitsFrame (p : Policy mode) (n : Nat) (frame : Frame) : Prop where
  own : p.Hosts n frame.locals frame.globals frame.function
  injections : p.AdmitsInjections n frame.injections

theorem Hosts.mono {p : Policy mode} {n n' : Nat} {locals globals : ScopeId}
    {function : Option Value} (h : p.Hosts n locals globals function) (hle : n ≤ n') :
    p.Hosts n' locals globals function :=
  ⟨h.readable, h.writable, h.globals.mono hle, h.secret⟩

theorem AdmitsFrame.mono {p : Policy mode} {n n' : Nat} {frame : Frame}
    (h : p.AdmitsFrame n frame) (hle : n ≤ n') : p.AdmitsFrame n' frame :=
  ⟨h.own.mono hle, fun name injection hfound => (h.injections name injection hfound).mono hle⟩

end Policy

/-- A condition on the active frame, in a store with so many tables, that stays true
as the store grows. -/
structure FrameRule where
  holds : Nat → Frame → Prop
  mono : ∀ {n n' : Nat} {frame : Frame}, n ≤ n' → holds n frame → holds n' frame

def FrameRule.any : FrameRule := ⟨fun _ _ => True, fun _ _ => trivial⟩

namespace Policy

variable {mode : Mode} (p : Policy mode)

def writing : FrameRule := ⟨fun _ frame => ¬p.frozen frame.locals, fun _ h => h⟩

def admitting : FrameRule := ⟨p.AdmitsFrame, fun hle h => h.mono hle⟩

/-- Machines that differ at most in hidden tables. -/
structure Alike (m₁ m₂ : Machine) : Prop where
  store : p.AlikeStores m₁.store m₂.store
  context : m₂.context = m₁.context
  frame : m₂.frame = m₁.frame
  depth : m₂.depth = m₁.depth
  inReference : m₂.inReference = m₁.inReference
  library : m₂.library = m₁.library

/-- Alike machines on which a computation may start. -/
structure Ready (rule : FrameRule) (m₁ m₂ : Machine) : Prop extends p.Alike m₁ m₂ where
  rule : rule.holds m₁.store.scopes.size m₁.frame

structure Keeps (m m' : Machine) : Prop where
  store : p.KeepsStore m.store m'.store
  globals : m'.context.globals = m.context.globals
  library : m'.library = m.library

inductive Agrees {α : Type} (rule : FrameRule) (m : Machine) (post : α → Machine → Prop) :
    Outcome α → Outcome α → Prop
  | done {a : α} {m₁ m₂ : Machine} : p.Ready rule m₁ m₂ → p.Keeps m m₁ → post a m₁ →
      Agrees rule m post (.done a m₁) (.done a m₂)
  | fail {d : Diagnostic} {m₁ m₂ : Machine} : p.Ready rule m₁ m₂ → p.Keeps m m₁ →
      Agrees rule m post (.fail d m₁) (.fail d m₂)
  | starved {m₁ m₂ : Machine} : p.Alike m₁ m₂ → m₁.library = m.library →
      Agrees rule m post (.starved m₁) (.starved m₂)

def Runs {α : Type} (rule : FrameRule) (x : Eval α) (m₁ m₂ : Machine)
    (post : α → Machine → Prop) : Prop :=
  p.Agrees rule m₁ post (x m₁) (x m₂)

/-- The computation keeps to the policy wherever it may start. -/
def Secures (rule : FrameRule) ⦃α : Type⦄ (x : Eval α) : Prop :=
  ∀ m₁ m₂, p.Ready rule m₁ m₂ → p.Runs rule x m₁ m₂ fun _ _ => True

variable {p} {rule : FrameRule} {α β : Type} {m₁ m₂ : Machine}

theorem Keeps.refl (m : Machine) : p.Keeps m m := ⟨.refl _, rfl, rfl⟩

theorem Keeps.trans {m m' m'' : Machine} (h : p.Keeps m m') (h' : p.Keeps m' m'') :
    p.Keeps m m'' :=
  ⟨h.store.trans h'.store, h'.globals.trans h.globals, h'.library.trans h.library⟩

/-- A machine that is alike to another is alike to itself. -/
theorem Alike.right (h : p.Alike m₁ m₂) : p.Alike m₂ m₂ := ⟨h.store.right, rfl, rfl, rfl, rfl, rfl⟩

/-- What agrees after a part that keeps the store agrees from its beginning. -/
theorem Agrees.after {post : α → Machine → Prop} {m m' : Machine} {o₁ o₂ : Outcome α}
    (h : p.Agrees rule m' post o₁ o₂) (hkeeps : p.Keeps m m') : p.Agrees rule m post o₁ o₂ := by
  cases h with
  | done hready hkeeps' ha => exact .done hready (hkeeps.trans hkeeps') ha
  | fail hready hkeeps' => exact .fail hready (hkeeps.trans hkeeps')
  | starved halike hlibrary => exact .starved halike (hlibrary.trans hkeeps.library)

/-- A sequence keeps to the policy if its parts do. The second part may rely on what the first
has left. -/
theorem Runs.bind {x : Eval α} {f : α → Eval β} {post : α → Machine → Prop}
    {post' : β → Machine → Prop} (hx : p.Runs rule x m₁ m₂ post)
    (hf : ∀ a m₁' m₂', p.Ready rule m₁' m₂' → p.Keeps m₁ m₁' → post a m₁' →
      p.Runs rule (f a) m₁' m₂' post') : p.Runs rule (x >>= f) m₁ m₂ post' := by
  unfold Runs at hx
  change p.Agrees rule m₁ post' (Eval.bind x f m₁) (Eval.bind x f m₂)
  unfold Eval.bind
  generalize x m₁ = o₁ at hx
  generalize x m₂ = o₂ at hx
  cases hx with
  | done hready hkeeps ha => exact (hf _ _ _ hready hkeeps ha).after hkeeps
  | fail hready hkeeps => exact .fail hready hkeeps
  | starved halike hlibrary => exact .starved halike hlibrary

theorem Secures.bind {x : Eval α} {f : α → Eval β} (hx : p.Secures rule x)
    (hf : ∀ a, p.Secures rule (f a)) : p.Secures rule (x >>= f) :=
  fun m₁ m₂ h => (hx m₁ m₂ h).bind fun a m₁' m₂' h' _ _ => hf a m₁' m₂' h'

theorem secures_pure (a : α) : p.Secures rule (pure a) :=
  fun m₁ _ h => .done h (.refl m₁) trivial

theorem secures_starve : p.Secures rule (Eval.starve : Eval α) :=
  fun _ _ h => .starved h.toAlike rfl

theorem secures_fails {f : Machine → Diagnostic}
    (hf : ∀ m₁ m₂, p.Alike m₁ m₂ → f m₂ = f m₁) :
    p.Secures rule (fun m => .fail (f m) m : Eval α) := by
  intro m₁ m₂ h
  change p.Agrees rule m₁ _ (.fail (f m₁) m₁) (.fail (f m₂) m₂)
  rw [hf m₁ m₂ h.toAlike]
  exact .fail h (.refl m₁)

theorem Alike.diagnose (h : p.Alike m₁ m₂) (cause : Cause) (pos : Option Position) :
    m₂.diagnose cause pos = m₁.diagnose cause pos := by
  rw [Machine.diagnose, Machine.diagnose, h.frame]

theorem runs_failWith (h : p.Ready rule m₁ m₂) (cause : Cause) (pos : Option Position)
    {post : α → Machine → Prop} :
    p.Runs rule (Eval.failWith cause pos : Eval α) m₁ m₂ post := by
  change p.Agrees rule m₁ _ (.fail (m₁.diagnose cause pos) m₁) (.fail (m₂.diagnose cause pos) m₂)
  rw [h.diagnose]
  exact .fail h (.refl m₁)

theorem secures_failWith (cause : Cause) (pos : Option Position) :
    p.Secures rule (Eval.failWith cause pos : Eval α) :=
  fun _ _ h => runs_failWith h cause pos

theorem secures_fail (fault : Fault) (pos : Position) :
    p.Secures rule (Eval.fail fault pos : Eval α) :=
  secures_failWith _ _

theorem secures_failAt? (fault : Fault) (pos : Option Position) :
    p.Secures rule (Eval.failAt? fault pos : Eval α) :=
  secures_failWith _ _

/-- What is read is the same, and the machine goes on as it is. -/
theorem runs_read_bind {f : Machine → α} {g : α → Eval β} {post : β → Machine → Prop}
    (hf : f m₂ = f m₁) (hg : p.Runs rule (g (f m₁)) m₁ m₂ post) :
    p.Runs rule (Eval.read f >>= g) m₁ m₂ post := by
  change p.Agrees rule m₁ post (g (f m₁) m₁) (g (f m₂) m₂)
  rw [hf]
  exact hg

theorem secures_read {f : Machine → α} (hf : ∀ m₁ m₂, p.Ready rule m₁ m₂ → f m₂ = f m₁) :
    p.Secures rule (Eval.read f) := by
  intro m₁ m₂ h
  change p.Agrees rule m₁ _ (.done (f m₁) m₁) (.done (f m₂) m₂)
  rw [hf m₁ m₂ h]
  exact .done h (.refl m₁) trivial

theorem runs_load_bind_of_get (h : p.Ready rule m₁ m₂) {v : Value} {object : Object}
    (hobject : m₁.store.get v = object) {g : Object → Eval β} {post : β → Machine → Prop}
    (hg : p.Admits m₁.store.scopes.size object → p.Runs rule (g object) m₁ m₂ post) :
    p.Runs rule (Eval.load v >>= g) m₁ m₂ post := by
  change p.Agrees rule m₁ post (g (m₁.store.get v) m₁) (g (m₂.store.get v) m₂)
  have hadmits := h.store.admits v
  rw [hobject] at hadmits
  rw [h.store.get v, hobject]
  exact hg hadmits

theorem runs_load_bind (h : p.Ready rule m₁ m₂) (v : Value) {g : Object → Eval β}
    {post : β → Machine → Prop}
    (hg : ∀ object, p.Admits m₁.store.scopes.size object → p.Runs rule (g object) m₁ m₂ post) :
    p.Runs rule (Eval.load v >>= g) m₁ m₂ post :=
  runs_load_bind_of_get h rfl (hg _)

theorem secures_load (v : Value) : p.Secures rule (Eval.load v) :=
  secures_read fun _ _ h => h.store.get v

theorem secures_isTruthy (v : Value) : p.Secures rule (Eval.isTruthy v) :=
  secures_read fun _ _ h => congrArg Object.truthy (h.store.get v)

/-- The store of a machine is replaced by a later one. -/
theorem Ready.withStore (h : p.Ready rule m₁ m₂) {s₁ s₂ : Store} (hs : p.AlikeStores s₁ s₂)
    (hkeeps : p.KeepsStore m₁.store s₁) :
    p.Ready rule { m₁ with store := s₁ } { m₂ with store := s₂ } where
  store := hs
  context := h.context
  frame := h.frame
  depth := h.depth
  inReference := h.inReference
  library := h.library
  rule := rule.mono hkeeps.size_le h.rule

theorem Keeps.ofStore {m : Machine} {s : Store} (h : p.KeepsStore m.store s) :
    p.Keeps m { m with store := s } :=
  ⟨h, rfl, rfl⟩

theorem runs_act (h : p.Ready rule m₁ m₂) (pos : Position) {action : Action α}
    (haction : p.Honoured action) :
    p.Runs rule (Eval.act pos action) m₁ m₂ fun _ _ => True := by
  obtain ⟨hresult, halike, hkeeps, -⟩ := haction m₁.store m₂.store h.store
  unfold Runs Eval.act
  dsimp only
  generalize action m₁.store = left at hresult halike hkeeps
  generalize action m₂.store = right at hresult halike
  obtain ⟨r, t₁⟩ := left
  obtain ⟨r', t₂⟩ := right
  obtain rfl : r' = r := hresult
  have hready := h.withStore halike hkeeps
  cases r' with
  | ok a => exact .done hready (.ofStore hkeeps) trivial
  | error fault =>
    dsimp only
    rw [hready.diagnose]
    exact .fail hready (.ofStore hkeeps)

theorem secures_act (pos : Position) {action : Action α} (haction : p.Honoured action) :
    p.Secures rule (Eval.act pos action) :=
  fun _ _ h => runs_act h pos haction

theorem runs_make (h : p.Ready rule m₁ m₂) {object : Object}
    (hobject : p.Admits m₁.store.scopes.size object) :
    p.Runs rule (Eval.make object) m₁ m₂ fun _ _ => True := by
  change p.Agrees rule m₁ _ (.done (m₁.store.alloc object).1 _)
    (.done (m₂.store.alloc object).1 _)
  rw [h.store.alloc_value]
  exact .done (h.withStore (h.store.alloc hobject) (keepsStore_alloc _ _))
    (.ofStore (keepsStore_alloc _ _)) trivial

theorem secures_make {object : Object} (hobject : object.isData = true) :
    p.Secures rule (Eval.make object) :=
  fun _ _ h => runs_make h (admits_data hobject)

/-- A new table stands after all that the policy knows. -/
theorem runs_newScope (h : p.Ready rule m₁ m₂) (names : Dict Value) :
    p.Runs rule (Eval.newScope names) m₁ m₂ fun id m =>
      p.base ≤ id.index ∧ id.index < m.store.scopes.size := by
  change p.Agrees rule m₁ _ (.done (m₁.store.newScope names).1 _)
    (.done (m₂.store.newScope names).1 _)
  rw [h.store.newScope_id]
  have hkeeps := h.store.keepsStore_newScope names
  refine .done (h.withStore (h.store.newScope names) hkeeps) (.ofStore hkeeps) ?_
  refine ⟨h.store.base_le, ?_⟩
  change m₁.store.scopes.size < (m₁.store.newScope names).2.scopes.size
  rw [Store.size_newScope]
  exact Nat.lt_succ_self _

theorem runs_updateScope (h : p.Ready rule m₁ m₂) {id : ScopeId} (hid : ¬p.frozen id)
    (f : Dict Value → Dict Value) :
    p.Runs rule (Eval.modifyStore (·.updateScope id f)) m₁ m₂ fun _ _ => True :=
  have hkeeps := keepsStore_updateScope m₁.store hid f
  .done (h.withStore (h.store.updateScope id f) hkeeps) (.ofStore hkeeps) trivial

theorem runs_bindLocal (h : p.Ready rule m₁ m₂) (hlocals : ¬p.frozen m₁.frame.locals)
    (name : String) (v : Value) :
    p.Runs rule (Eval.bindLocal name v) m₁ m₂ fun _ _ => True := by
  have hkeeps := keepsStore_updateScope m₁.store hlocals (·.insert name v)
  have hsame : m₂.store.bindName m₂.frame.locals name v =
      m₂.store.updateScope m₁.frame.locals (·.insert name v) := by
    rw [h.frame]
    rfl
  change p.Agrees rule m₁ _ (.done () { m₁ with store := m₁.store.bindName _ name v })
    (.done () { m₂ with store := m₂.store.bindName _ name v })
  rw [hsame]
  exact .done (h.withStore (h.store.updateScope _ _) hkeeps) (.ofStore hkeeps) trivial

/-- A name may be bound where the frame is admitted. -/
theorem secures_bindLocal (name : String) (v : Value) :
    p.Secures p.admitting (Eval.bindLocal name v) :=
  fun _ _ h => runs_bindLocal h h.rule.own.writable name v

theorem secures_modifyContext (f : Context → Context) (hf : ∀ c, (f c).globals = c.globals) :
    p.Secures rule (Eval.modifyContext f) := by
  intro m₁ m₂ h
  refine .done ⟨⟨h.store, ?_, h.frame, h.depth, h.inReference, h.library⟩, h.rule⟩
    ⟨.refl _, hf _, rfl⟩ trivial
  exact congrArg f h.context

theorem secures_writeOut (text : String) : p.Secures rule (Eval.writeOut text) :=
  secures_modifyContext _ fun _ => rfl

theorem secures_writeErr (text : String) : p.Secures rule (Eval.writeErr text) :=
  secures_modifyContext _ fun _ => rfl

theorem Runs.orElse {x : Eval α} {undo : Eval Unit} {post : α → Machine → Prop}
    (hrun : p.Runs rule x m₁ m₂ post) (hundo : p.Secures rule undo) :
    p.Runs rule (Eval.orElse x undo) m₁ m₂ post := by
  unfold Runs at hrun ⊢
  unfold Eval.orElse
  generalize x m₁ = o₁ at hrun
  generalize x m₂ = o₂ at hrun
  cases hrun with
  | done hready hkeeps ha => exact .done hready hkeeps ha
  | starved halike hlibrary => exact .starved halike hlibrary
  | @fail d m₁' m₂' hready hkeeps =>
    have hrun' := hundo _ _ hready
    unfold Runs at hrun'
    dsimp only
    generalize undo m₁' = u₁ at hrun'
    generalize undo m₂' = u₂ at hrun'
    cases hrun' with
    | done hready' hkeeps' _ => exact .fail hready' (hkeeps.trans hkeeps')
    | fail hready' hkeeps' => exact .fail hready' (hkeeps.trans hkeeps')
    | starved halike hlibrary => exact .starved halike (hlibrary.trans hkeeps.library)

theorem Secures.inReferenceBlock {x : Eval α} (hx : p.Secures rule x) :
    p.Secures rule (Eval.inReferenceBlock x) := by
  intro m₁ m₂ h
  have hinside : p.Ready rule { m₁ with inReference := true } { m₂ with inReference := true } :=
    ⟨⟨h.store, h.context, h.frame, h.depth, rfl, h.library⟩, h.rule⟩
  have hrun := hx _ _ hinside
  unfold Runs at hrun ⊢
  unfold Eval.inReferenceBlock
  dsimp only
  generalize x { m₁ with inReference := true } = o₁ at hrun
  generalize x { m₂ with inReference := true } = o₂ at hrun
  cases hrun with
  | done hready hkeeps _ =>
    exact .done ⟨⟨hready.store, hready.context, hready.frame, hready.depth, h.inReference,
      hready.library⟩, hready.rule⟩ ⟨hkeeps.store, hkeeps.globals, hkeeps.library⟩ trivial
  | fail hready hkeeps =>
    exact .fail ⟨⟨hready.store, hready.context, hready.frame, hready.depth, h.inReference,
      hready.library⟩, hready.rule⟩ ⟨hkeeps.store, hkeeps.globals, hkeeps.library⟩
  | starved halike hlibrary => exact .starved halike hlibrary

/-! Frames of their own. -/

/-- A policy that restricts more tables from being referred to, and no others from
being read. -/
structure Refines (q p : Policy mode) : Prop where
  base_le : p.base ≤ q.base
  secret : ∀ id, p.secret id → q.secret id
  hidden : ∀ id, q.hidden id → p.hidden id
  frozen : ∀ id, p.frozen id → q.frozen id

theorem Refines.refl (p : Policy mode) : Refines p p :=
  ⟨Nat.le_refl _, fun _ h => h, fun _ h => h, fun _ h => h⟩

section Refine

variable {q : Policy mode} (hq : Refines q p)

include hq

/-- A finer policy finds fewer stores alike. -/
theorem Refines.alikeStores {s₁ s₂ : Store} (h : q.AlikeStores s₁ s₂) : p.AlikeStores s₁ s₂ where
  objects := h.objects
  files := h.files
  first := h.first
  size := h.size
  base_le := Nat.le_trans hq.base_le h.base_le
  scope id hid := h.scope id fun hhidden => hid (hq.hidden id hhidden)
  admits v := by
    refine ⟨fun id hmem hmode => ?_, (h.admits v).builtin⟩
    obtain ⟨hlt, hsecret⟩ := (h.admits v).links id hmem hmode
    exact ⟨hlt, fun hp => hsecret (hq.secret id hp)⟩

theorem Refines.alike (h : q.Alike m₁ m₂) : p.Alike m₁ m₂ :=
  ⟨hq.alikeStores h.store, h.context, h.frame, h.depth, h.inReference, h.library⟩

theorem Refines.keepsStore {s s' : Store} (h : q.KeepsStore s s') : p.KeepsStore s s' :=
  ⟨h.size_le, fun id hid => h.scope id (hq.frozen id hid)⟩

theorem Refines.ready_left (h : p.Ready rule m₁ m₂) {inner₁ inner₂ : Machine}
    {rule' : FrameRule} (hinner : q.Ready rule' inner₁ inner₂)
    (hkeeps : q.KeepsStore m₁.store inner₁.store) :
    p.Ready rule (inner₁.leftTo m₁) (inner₂.leftTo m₂) where
  store := hq.alikeStores hinner.store
  context := hinner.context
  frame := h.frame
  depth := congrArg (· - 1) hinner.depth
  inReference := h.inReference
  library := hinner.library
  rule := rule.mono hkeeps.size_le h.rule

/-- A body may run in its frame under a finer policy, which the caller's frame need not satisfy.
-/
theorem runs_enter_of_refines (h : p.Ready rule m₁ m₂) (frame : Frame) (pos : Position)
    {x : Eval α} {rule' : FrameRule}
    (hx : q.Runs rule' x (m₁.entered frame) (m₂.entered frame) fun _ _ => True) :
    p.Runs rule (Eval.enter frame pos x) m₁ m₂ fun _ _ => True := by
  unfold Runs at hx ⊢
  unfold Eval.enter
  rw [h.depth]
  split
  · unfold Machine.entered at hx
    dsimp only
    generalize x ⟨m₁.store, _, _, _, _, _⟩ = o₁ at hx
    generalize x ⟨m₂.store, _, _, _, _, _⟩ = o₂ at hx
    cases hx with
    | done hready hkeeps _ =>
      exact .done (hq.ready_left h hready hkeeps.store)
        ⟨hq.keepsStore hkeeps.store, hkeeps.globals, hkeeps.library⟩ trivial
    | @fail d inner₁ inner₂ hready hkeeps =>
      have hframe : d.push m₂.frame.file pos.line m₂.frame.name =
          d.push m₁.frame.file pos.line m₁.frame.name := by rw [h.frame]
      dsimp only
      rw [hframe]
      exact .fail (hq.ready_left h hready hkeeps.store)
        ⟨hq.keepsStore hkeeps.store, hkeeps.globals, hkeeps.library⟩
    | starved halike hlibrary => exact .starved (hq.alike halike) hlibrary
  · exact secures_fail .tooDeep pos m₁ m₂ h

end Refine

theorem Ready.entered (h : p.Ready rule m₁ m₂) {frame : Frame} {rule' : FrameRule}
    (hframe : rule'.holds m₁.store.scopes.size frame) :
    p.Ready rule' (m₁.entered frame) (m₂.entered frame) :=
  ⟨⟨h.store, h.context, rfl, congrArg (· + 1) h.depth, rfl, h.library⟩, hframe⟩

theorem runs_enter (h : p.Ready rule m₁ m₂) {frame : Frame} (pos : Position) {x : Eval α}
    (hframe : p.AdmitsFrame m₁.store.scopes.size frame) (hx : p.Secures p.admitting x) :
    p.Runs rule (Eval.enter frame pos x) m₁ m₂ fun _ _ => True :=
  runs_enter_of_refines (.refl p) h frame pos (hx _ _ (h.entered hframe))

end Policy

end Stencil
