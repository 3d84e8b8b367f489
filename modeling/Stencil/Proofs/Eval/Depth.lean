import Stencil.Proofs.Eval.Reachable
import Stencil.Proofs.Value.Graph

/-!
How deep evaluation nests. Calls, struct bodies, injected bodies and modules enter
a frame of their own, which is refused at the limit. A danced program is counted
as one level but is not refused, so that beyond the limit stand the frames of
danced programs and no others; through dances alone every depth is reached.
-/

namespace Stencil

/-- The frame of a danced program: the frame of a program, without a file. -/
structure Frame.IsDanced (frame : Frame) : Prop where
  locals : frame.locals = frame.globals
  function : frame.function = none
  name : frame.name = mainName
  file : frame.file = none

theorem Frame.isDanced_top (globals : ScopeId) : (Frame.top globals none).IsDanced :=
  ⟨rfl, rfl, rfl, rfl⟩

theorem Frame.IsDanced.extendedBy {before after : Frame} (h : before.IsDanced)
    (hext : before.ExtendedBy after) : after.IsDanced where
  locals := by rw [hext.locals, hext.globals, h.locals]
  function := hext.function.trans h.function
  name := hext.name.trans h.name
  file := hext.file.trans h.file

/-- The limit is kept, or a danced program is running. -/
def Machine.WithinLimit (m : Machine) : Prop := m.depth ≤ depthLimit ∨ m.frame.IsDanced

namespace Machine

/-- What hands the active frame back leaves the limit kept. -/
theorem WithinLimit.restored {m m' : Machine} (h : m.WithinLimit) (hback : m.Restored m') :
    m'.WithinLimit := by
  rcases h with hdepth | hdanced
  · exact Or.inl (hback.depth ▸ hdepth)
  · exact Or.inr (hdanced.extendedBy hback.frame)

theorem WithinLimit.handedBack {m m' : Machine} (h : m.WithinLimit) (hback : m.HandedBack m') :
    m'.WithinLimit :=
  h.restored hback.restored

/-- Below the limit there is room for one more frame. -/
theorem withinLimit_entered {m : Machine} (h : m.depth < depthLimit) (frame : Frame) :
    (m.entered frame).WithinLimit :=
  Or.inl h

end Machine

namespace Eval

def SteadyWithin ⦃α : Type⦄ (x : Eval α) : Prop :=
  ∀ m, m.WithinLimit → (x m).Ends m.HandedBack fun m' => m'.library = m.library

def GrowingWithin ⦃α : Type⦄ (x : Eval α) : Prop :=
  ∀ m, m.WithinLimit → (x m).Ends m.Restored fun m' => m'.library = m.library

/-- What hands the frame back at any depth does so within the limit. -/
theorem Steady.within {α : Type} {x : Eval α} (hx : Steady (fun _ => False) x) :
    SteadyWithin x := by
  intro m _
  refine (hx m).mono (fun _ h => h) ?_
  rintro m' (h | h)
  · exact h
  · exact h.elim

theorem Growing.within {α : Type} {x : Eval α} (hx : Growing x) : GrowingWithin x :=
  fun m _ => hx m

theorem SteadyWithin.growing {α : Type} {x : Eval α} (hx : SteadyWithin x) : GrowingWithin x :=
  fun m hm => (hx m hm).mono (fun _ h => h.restored) fun _ h => h

theorem SteadyWithin.bind {α β : Type} {x : Eval α} {f : α → Eval β} (hx : SteadyWithin x)
    (hf : ∀ a, SteadyWithin (f a)) : SteadyWithin (x >>= f) := by
  intro m hm
  refine ends_bind (hx m hm) ?_ (fun m' h => h) (fun m' h => h)
  intro a m' h
  exact (hf a m' (hm.handedBack h)).mono (fun m'' h' => h.trans h') fun m'' h' => h'.trans h.library

theorem GrowingWithin.bind {α β : Type} {x : Eval α} {f : α → Eval β} (hx : GrowingWithin x)
    (hf : ∀ a, GrowingWithin (f a)) : GrowingWithin (x >>= f) := by
  intro m hm
  refine ends_bind (hx m hm) ?_ (fun m' h => h) (fun m' h => h)
  intro a m' h
  exact (hf a m' (hm.restored h)).mono (fun m'' h' => h.trans h') fun m'' h' => h'.trans h.library

theorem SteadyWithin.orElse {α : Type} {x : Eval α} {undo : Eval Unit} (hx : SteadyWithin x)
    (hu : SteadyWithin undo) : SteadyWithin (Eval.orElse x undo) := by
  intro m hm
  refine ends_orElse (hx m hm) ?_ (fun m' h => h) (fun m' h => h)
  intro m' h
  exact (hu m' (hm.handedBack h)).mono (fun m'' h' => h.trans h') fun m'' h' => h'.trans h.library

theorem SteadyWithin.inReferenceBlock {α : Type} {x : Eval α} (hx : SteadyWithin x) :
    SteadyWithin (Eval.inReferenceBlock x) := by
  intro m hm
  refine ends_inReferenceBlock (hx _ hm) ?_ fun m' h => h
  intro m' h
  exact ⟨h.frame, h.depth, rfl, h.library⟩

/-- A frame is entered below the limit only, so its body starts within it. -/
theorem SteadyWithin.enter {α : Type} {x : Eval α} (frame : Frame) (pos : Position)
    (hx : GrowingWithin x) : SteadyWithin (Eval.enter frame pos x) := by
  intro m _
  have hbody : m.depth < depthLimit → _ := fun hdepth =>
    hx (m.entered frame) (Machine.withinLimit_entered hdepth frame)
  refine ends_enter hbody ?_ (fun m' h => h) fun _ => .refl m
  intro m' h
  exact ⟨rfl, Nat.sub_eq_of_eq_add h.depth, rfl, h.library⟩

/-- The body of a module starts within the limit, as every body does that is entered. -/
theorem SteadyWithin.runModule {ex : Executor} (path file : String) (program : Program)
    (pos : Position) (hx : GrowingWithin (ex program >>= settle)) :
    SteadyWithin (Eval.runModule ex path file program pos) := by
  have hcontext : ∀ f, SteadyWithin (Eval.modifyContext f) := fun f =>
    (Steady.modifyContext _ f).within
  have hbody : ∀ frame, SteadyWithin
      (Eval.orElse (Eval.enter frame pos (ex program >>= settle)) (forget file)) := fun frame =>
    SteadyWithin.orElse (SteadyWithin.enter frame pos hx) (hcontext _)
  refine SteadyWithin.bind ((steady_discipline _).newScope _).within fun scope => ?_
  refine SteadyWithin.bind ((steady_discipline _).make _).within fun v => ?_
  refine SteadyWithin.bind (hcontext _) fun _ => ?_
  exact SteadyWithin.bind (hbody _) fun _ => ((steady_discipline _).pure _).within

/-- A danced program starts at any depth, in a frame of its own kind. -/
theorem SteadyWithin.runApart {ex : Executor} (context : Context) (program : Program)
    (hx : GrowingWithin (ex program >>= settle)) :
    SteadyWithin (Eval.runApart ex context program) := by
  intro m _
  exact ends_runApart (hx _ (Or.inr (Frame.isDanced_top _))) (fun m' _ => ⟨rfl, rfl, rfl, rfl⟩)
    fun m' h => h

theorem within_primitives : Primitives SteadyWithin where
  pure a := ((steady_discipline _).pure a).within
  bind := SteadyWithin.bind
  starve := (steady_discipline _).starve.within
  fails f := ((steady_discipline _).fails f).within
  read f := ((steady_discipline _).read f).within
  act pos action := ((steady_discipline _).act pos action).within
  make object := ((steady_discipline _).make object).within
  newScope names := ((steady_discipline _).newScope names).within
  modifyStore f := ((steady_discipline _).modifyStore f).within
  bindLocal name v := ((steady_discipline _).bindLocal name v).within
  writeOut text := ((steady_discipline _).writeOut text).within
  writeErr text := ((steady_discipline _).writeErr text).within
  setAlias key value note := ((steady_discipline _).setAlias key value note).within
  inReferenceBlock := SteadyWithin.inReferenceBlock

/-- Calls, struct bodies and overriding bodies are entered below the limit only. -/
theorem within_discipline : BodyDiscipline SteadyWithin GrowingWithin where
  toPrimitives := within_primitives
  settled hx := hx.bind fun flow => (growing_settle flow).within
  returned hx := hx.bind fun flow => (growing_returned flow).within
  enter := SteadyWithin.enter
  importModule path pos hx :=
    within_primitives.importModule path pos fun file program =>
      SteadyWithin.runModule path file program pos (hx program)
  runApart := SteadyWithin.runApart
  weaken := SteadyWithin.growing
  sequence := GrowingWithin.bind
  addInjection name body := (growing_addInjection name body).within

/-- The evaluators keep the limit, danced programs apart. -/
theorem maintained_withinLimit :
    Maintained Machine.WithinLimit SteadyWithin GrowingWithin where
  localP hagree hx m hm := hagree m hm ▸ hx m hm
  localQ hagree hx m hm := hagree m hm ▸ hx m hm
  keepsP hx hm := (hx _ hm).mono (fun _ h => hm.handedBack h) fun _ h => h
  keepsQ hx hm := (hx _ hm).mono (fun _ h => hm.restored h) fun _ h => h
  starveP := within_discipline.starve
  starveQ := within_discipline.weaken within_discipline.starve
  evalStep e hev hex := within_discipline.evalStep hev hex e
  execEach rounds body hev hex :=
    within_discipline.execEach (within_discipline.execStep hev hex rounds) body
  follow v links hev hex := within_discipline.follow hev hex v links

/-- Wherever a program gets to, the limit is kept or a danced program is running. -/
theorem Reachable.withinLimit {m : Machine} (h : Reachable m) : m.WithinLimit :=
  maintained_withinLimit.reachable (fun _ _ _ => Or.inl (Nat.zero_le _)) h

end Eval

def Outcome.IsTooDeep {α : Type} (pos : Position) : Outcome α → Prop
  | .fail d _ => d.kind = .runtime ∧ d.message = "reached maximum recursion depth" ∧
      d.pos = some pos
  | _ => False

namespace Eval

section Refusal

/-- At the limit no frame is entered. -/
theorem enter_isTooDeep {α : Type} {m : Machine} (h : depthLimit ≤ m.depth) (frame : Frame)
    (pos : Position) (body : Eval α) : (enter frame pos body m).IsTooDeep pos := by
  rw [enter, if_neg (Nat.not_lt.mpr h)]
  exact ⟨rfl, rfl, rfl⟩

theorem bind_isTooDeep_of_done {α β : Type} {x : Eval α} {f : α → Eval β} {m m' : Machine} {a : α}
    {pos : Position} (hx : x m = .done a m') (hf : (f a m').IsTooDeep pos) :
    ((x >>= f) m).IsTooDeep pos := by
  change (Eval.bind x f m).IsTooDeep pos
  simpa only [Eval.bind, hx] using hf

theorem bind_isTooDeep {α β : Type} {x : Eval α} {f : α → Eval β} {m : Machine} {pos : Position}
    (hx : (x m).IsTooDeep pos) : ((x >>= f) m).IsTooDeep pos := by
  change (Eval.bind x f m).IsTooDeep pos
  unfold Eval.bind
  cases hrun : x m with
  | fail d m' =>
    rw [hrun] at hx
    exact hx
  | done a m' =>
    rw [hrun] at hx
    exact hx.elim
  | starved m' =>
    rw [hrun] at hx
    exact hx.elim

/-- An import that is undone has failed all the same. -/
theorem orElse_isTooDeep {α : Type} {x : Eval α} {undo : Eval Unit} {m : Machine}
    {pos : Position} (hx : (x m).IsTooDeep pos) (hundo : ∀ m', ∃ m'', undo m' = .done () m'') :
    (orElse x undo m).IsTooDeep pos := by
  unfold Eval.orElse
  cases hrun : x m with
  | fail d m' =>
    rw [hrun] at hx
    obtain ⟨m'', hdone⟩ := hundo m'
    simp only [hdone]
    exact hx
  | done a m' =>
    rw [hrun] at hx
    exact hx.elim
  | starved m' =>
    rw [hrun] at hx
    exact hx.elim

variable {m : Machine} (h : depthLimit ≤ m.depth) (ex : Executor) (pos : Position)

include h

theorem runBody_isTooDeep (frame : Frame) (body : List Stmt) :
    (runBody ex frame body pos m).IsTooDeep pos :=
  enter_isTooDeep h frame pos _

/-- At the limit no function is called. -/
theorem callFunction_isTooDeep {callee : Value} {f : Function} {args : List Value}
    (hf : m.store.get callee = .function f) (hargs : args.length = f.definition.params.length)
    (injections : Dict Injection) :
    (callFunction ex callee args pos injections m).IsTooDeep pos := by
  refine bind_isTooDeep_of_done rfl ?_
  simp only [hf, hargs, if_true]
  refine bind_isTooDeep_of_done rfl ?_
  refine enter_isTooDeep ?_ _ pos _
  exact h

theorem instantiate_isTooDeep {callee : Value} {type : StructType}
    (hf : m.store.get callee = .struct type) (args : List Value) :
    (instantiate ex callee args pos m).IsTooDeep pos := by
  refine bind_isTooDeep_of_done rfl ?_
  simp only [hf]
  refine bind_isTooDeep_of_done rfl (bind_isTooDeep (runBody_isTooDeep ?_ ex pos _ _))
  exact h

theorem defineStruct_isTooDeep (definition : StructDef) :
    (defineStruct ex definition pos m).IsTooDeep pos := by
  refine bind_isTooDeep_of_done rfl (bind_isTooDeep_of_done rfl ?_)
  refine bind_isTooDeep (runBody_isTooDeep ?_ ex pos _ _)
  exact h

theorem runModule_isTooDeep (path file : String) (program : Program) :
    (runModule ex path file program pos m).IsTooDeep pos := by
  refine bind_isTooDeep_of_done rfl (bind_isTooDeep_of_done rfl (bind_isTooDeep_of_done rfl ?_))
  refine bind_isTooDeep (orElse_isTooDeep (runBody_isTooDeep ?_ ex pos _ _) fun m' => ⟨_, rfl⟩)
  exact h

/-- At the limit no overriding body runs. -/
theorem runBlock_isTooDeep {name : String} {injection : Injection}
    (hfound : m.frame.injections.get? name = some injection) (body : List Stmt) :
    (runBlock ex name body pos m).IsTooDeep pos := by
  refine bind_isTooDeep_of_done rfl ?_
  simp only [hfound]
  exact enter_isTooDeep h _ pos _

end Refusal

/-- Nesting is limited, danced programs apart: at the limit every call, struct body,
module and overriding body is refused, and only a danced program stands beyond it. -/
theorem nesting_limited_outside_dances (m : Machine) (h : Reachable m) :
    (m.depth ≤ depthLimit ∨ m.frame.IsDanced) ∧
    (depthLimit ≤ m.depth → ∀ (ex : Executor) (pos : Position),
      (∀ callee f args injections, m.store.get callee = .function f →
        args.length = f.definition.params.length →
        (callFunction ex callee args pos injections m).IsTooDeep pos) ∧
      (∀ callee type args, m.store.get callee = .struct type →
        (instantiate ex callee args pos m).IsTooDeep pos) ∧
      (∀ definition, (defineStruct ex definition pos m).IsTooDeep pos) ∧
      (∀ path file program, (runModule ex path file program pos m).IsTooDeep pos) ∧
      (∀ name injection body, m.frame.injections.get? name = some injection →
        (runBlock ex name body pos m).IsTooDeep pos)) := by
  refine ⟨h.withinLimit, ?_⟩
  intro hdepth ex pos
  refine ⟨?_, ?_, ?_, ?_, ?_⟩
  · intro callee f args injections hf hargs
    exact callFunction_isTooDeep hdepth ex pos hf hargs injections
  · intro callee type args hf
    exact instantiate_isTooDeep hdepth ex pos hf args
  · exact defineStruct_isTooDeep hdepth ex pos
  · exact runModule_isTooDeep hdepth ex pos
  · intro name injection body hfound
    exact runBlock_isTooDeep hdepth ex pos hfound body

end Eval

/-! Dances inside dances. -/

def Machine.dancing (m : Machine) : Machine :=
  let (globals, store) := m.store.newScope .empty
  ⟨store, .fresh globals m.context.lineEnding .none, .top globals none, m.depth + 1, false,
    m.library⟩

namespace Eval

def emptyDance : Expr := .chain (.ident "dance" .start) [.call [.str ""] .start]

theorem ofSource_empty : Program.ofSource "" = .ok [] := by
  cbv

/-- A danced program starts one level deeper, whatever the level is. -/
theorem comesTo_runApart {ex : Executor} {m : Machine} (context : Context) (program : Program) :
    ComesTo (fun ex => runApart ex context program) ex m program
      ⟨m.store, context, .top context.globals none, m.depth + 1, false, m.library⟩ := by
  intro halted
  unfold runApart
  simp only [Eval.bind, haltingAt_self]

/-- A dance comes to run its text one level deeper. -/
theorem comesTo_dance {ex : Executor} {code : Value} {m : Machine} {pos : Position}
    (hcode : m.store.get code = .str "") :
    ComesTo (fun ex => dance ex [code] pos) ex m [] m.dancing := by
  refine comesTo_bind_iff.mpr ⟨.str "", m, by rw [← hcode]; rfl, ?_⟩
  refine comesTo_bind_iff.mpr ⟨_, _, rfl, ComesTo.bind ?_ _⟩
  refine comesTo_bind_iff.mpr ⟨_, _, rfl, comesTo_bind_iff.mpr ⟨_, _, rfl, ?_⟩⟩
  simp only [ofSource_empty]
  exact comesTo_runApart _ _

/-- The word `dance` means the function where no variable has this name. -/
theorem eval_dance {m : Machine} (h : m.bound? "dance" = none) :
    eval 1 (.ident "dance" .start) m = make (.builtin .dance) m := by
  change (readName "dance" .start) m = _
  have hlookup : lookup "dance" m = (do return some (← make (.builtin .dance)) : Eval _) m := by
    unfold lookup
    change Eval.bind (Eval.read _) _ m = _
    simp only [Eval.bind, Eval.read, h]
    rfl
  change Eval.bind _ _ m = _
  simp only [Eval.bind, hlookup]
  rfl

theorem comesTo_emptyDance {m : Machine} (h : m.bound? "dance" = none) :
    ∃ m₁ : Machine, m₁.depth = m.depth ∧
      ComesTo (fun ex => evalStep (eval 1) ex emptyDance) (exec 1) m [] m₁.dancing := by
  let m₁ : Machine := { m with store := ((m.store.alloc (.builtin .dance)).2.alloc (.str "")).2 }
  refine ⟨m₁, rfl, ?_⟩
  refine comesTo_bind_iff.mpr ⟨_, _, eval_dance h, ?_⟩
  refine comesTo_bind_iff.mpr ⟨_, m₁, rfl, ComesTo.bind ?_ _⟩
  have hcallee : m₁.store.get ⟨m.store.objects.size⟩ = .builtin .dance := by
    rw [Store.get_alloc_of_lt _ _ (by simp), Store.get_alloc_self]
  refine comesTo_bind_iff.mpr ⟨.builtin .dance, m₁, by rw [← hcallee]; rfl, ?_⟩
  refine comesTo_dance ?_
  exact Store.get_alloc_self _ _

/-- In a danced program without variables no name is bound. -/
theorem bound?_dancing (m : Machine) (name : String) : m.dancing.bound? name = none := by
  have hempty : m.dancing.store.scope ⟨m.store.scopes.size⟩ = .empty := by
    simp [Machine.dancing, Store.scope, Store.newScope]
  have hlookup : m.dancing.store.lookup ⟨m.store.scopes.size⟩ name = none := by
    rw [Store.lookup, hempty]
    rfl
  change (m.dancing.store.lookup ⟨m.store.scopes.size⟩ name).or
    (m.dancing.store.lookup ⟨m.store.scopes.size⟩ name) = none
  rw [hlookup, Option.none_or]

/-- Through dances every depth is reached. -/
theorem exists_reachable_depth (n : Nat) :
    ∃ m, Reachable m ∧ m.depth = n ∧ m.bound? "dance" = none := by
  induction n with
  | zero =>
    exact ⟨_, .start none (.start ⟨[], .empty⟩ "" .lf .none), rfl, rfl⟩
  | succ n ih =>
    obtain ⟨m, hm, hdepth, hbound⟩ := ih
    obtain ⟨m₁, hsame, hcomes⟩ := comesTo_emptyDance hbound
    refine ⟨m₁.dancing, .call hm hcomes, ?_, bound?_dancing m₁ _⟩
    exact congrArg (· + 1) (hsame.trans hdepth)

/-- The limit does not hold of danced programs. -/
theorem reachable_beyond_limit : ∃ m, Reachable m ∧ depthLimit < m.depth := by
  obtain ⟨m, hm, hdepth, -⟩ := exists_reachable_depth (depthLimit + 1)
  exact ⟨m, hm, by omega⟩

/-- Such a program can dance again, but no struct can be defined in it. -/
theorem danced_program_beyond_limit :
    ∃ m, Reachable m ∧ depthLimit ≤ m.depth ∧ m.frame.IsDanced ∧
      (defineStruct (exec 1) ⟨"S", []⟩ .start m).IsTooDeep .start := by
  obtain ⟨m, hm, hdepth, -⟩ := exists_reachable_depth (depthLimit + 1)
  obtain ⟨hlimit, hrefused⟩ := nesting_limited_outside_dances m hm
  have hle : depthLimit ≤ m.depth := by omega
  refine ⟨m, hm, hle, ?_, (hrefused hle (exec 1) .start).2.2.1 ⟨"S", []⟩⟩
  rcases hlimit with hkept | hdanced
  · omega
  · exact hdanced

end Eval

end Stencil
