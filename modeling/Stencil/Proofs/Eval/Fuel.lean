import Mathlib.Tactic.ByContra
import Stencil.Eval.Run

/-!
More fuel. One computation matches another if that one does the same, unless the first is
cut short in a way that is named. Every construct keeps this relation between the
evaluators and executors that it is built over, also where targets are exchanged for others
that are assigned to alike. If any end of the fuel counts, the first computation
approximates the second: evaluation with some fuel approximates evaluation with any more.
What a body comes to is then what it ends with from some fuel on, and a body that never
ends diverges.
-/

namespace Stencil

namespace Outcome

variable {α : Type}

def isStarved : Outcome α → Bool
  | .starved _ => true
  | _ => false

/-- The computation has no end, and the machine that it is left in is of the kind. -/
def CutShort (halts : Machine → Prop) : Outcome α → Prop
  | .starved m => halts m
  | _ => False

end Outcome

/-! Other targets. -/

namespace Formula

def mapTargets {α : Type} (f : α → α) (items : List α) : List α :=
  items.dropLast.map f ++ items.getLast?.toList

section Targets

variable {α : Type} (f : α → α) (items : List α)

theorem dropLast_mapTargets : (mapTargets f items).dropLast = items.dropLast.map f := by
  rcases items.eq_nil_or_concat with rfl | ⟨init, last, rfl⟩
  · rfl
  · simp [mapTargets]

theorem getLast?_mapTargets : (mapTargets f items).getLast? = items.getLast? := by
  rcases items.eq_nil_or_concat with rfl | ⟨init, last, rfl⟩
  · rfl
  · simp [mapTargets]

theorem mapTargets_id : mapTargets id items = items := by
  rcases items.eq_nil_or_concat with rfl | ⟨init, last, rfl⟩
  · rfl
  · simp [mapTargets]

end Targets

def retarget (f : Expr → Expr) : Formula → Formula
  | .assignments chains => .assignments (chains.map (mapTargets f))
  | .parallel lists => .parallel (mapTargets (·.map f) lists)

theorem retarget_id (formula : Formula) : formula.retarget id = formula := by
  have hchain : mapTargets (id : Expr → Expr) = id := funext (mapTargets_id ·)
  have hlist : (fun list : List Expr => list.map id) = id := funext List.map_id
  cases formula with
  | assignments chains => rw [retarget, hchain, List.map_id]
  | parallel lists => rw [retarget, hlist, mapTargets_id]

theorem map_retarget_id (clause : Option Formula) : clause.map (retarget id) = clause := by
  cases clause with
  | none => rfl
  | some formula => exact congrArg some formula.retarget_id

end Formula

def Stmt.retarget (g : Expr → Expr) : Stmt → Stmt
  | .reference f pos => .reference (f.retarget g) pos
  | .formula f pos => .formula (f.retarget g) pos
  | .loop init test update body pos =>
    .loop (init.map (.retarget g)) (test.map (.retarget g)) (update.map (.retarget g)) body pos
  | .return value pos => .return (value.map (.retarget g)) pos
  | stmt => stmt

/-- A statement with its own targets is the statement. -/
theorem Stmt.retarget_id (stmt : Stmt) : stmt.retarget id = stmt := by
  cases stmt with
  | reference f pos => rw [retarget, f.retarget_id]
  | formula f pos => rw [retarget, f.retarget_id]
  | loop init test update body pos => simp only [retarget, Formula.map_retarget_id]
  | «return» value pos => rw [retarget, Formula.map_retarget_id]
  | _ => rfl

namespace Eval

variable {α β : Type}

/-- The second computation does the same as the first, unless the first one is cut short in
a machine of the kind. -/
def Matches (halts : Machine → Prop) (x y : Eval α) : Prop :=
  ∀ m, ¬(x m).CutShort halts → y m = x m

abbrev Approximates (x y : Eval α) : Prop := Matches (fun _ => True) x y

/-- A computation that ends does so with more fuel. -/
theorem Approximates.eq_of_ends {x y : Eval α} (h : Approximates x y) {m : Machine}
    (hends : (x m).isStarved = false) : y m = x m := by
  refine h m fun hcut => ?_
  cases hrun : x m with
  | starved m' =>
    rw [hrun] at hends
    cases hends
  | _ =>
    rw [hrun] at hcut
    exact hcut

namespace Matches

variable {halts : Machine → Prop} {x y z : Eval α}

theorem refl (x : Eval α) : Matches halts x x := fun _ _ => rfl

theorem trans (h : Matches halts x y) (h' : Matches halts y z) : Matches halts x z := by
  intro m hends
  have hsame := h m hends
  exact (h' m (hsame ▸ hends)).trans hsame

/-- Where the fuel is spent at once, anything may follow. -/
theorem starve (hall : ∀ m, halts m) (x : Eval α) : Matches halts Eval.starve x :=
  fun m hends => absurd (hall m) hends

/-- Sequences match if their parts do. -/
theorem bind {f g : α → Eval β} (hx : Matches halts x y) (hf : ∀ a, Matches halts (f a) (g a)) :
    Matches halts (x >>= f) (y >>= g) := by
  intro m hends
  have hsame := hx m
  change ¬(Eval.bind x f m).CutShort halts at hends
  change Eval.bind y g m = Eval.bind x f m
  unfold Eval.bind at hends ⊢
  cases hrun : x m with
  | done a m' =>
    rw [hrun] at hends hsame
    rw [hsame not_false]
    exact hf a m' hends
  | fail d m' =>
    rw [hrun] at hsame
    rw [hsame not_false]
  | starved m' =>
    rw [hrun] at hends hsame
    rw [hsame hends]

/-- Only what comes next differs. -/
theorem andThen (x : Eval α) {f g : α → Eval β} (hf : ∀ a, Matches halts (f a) (g a)) :
    Matches halts (x >>= f) (x >>= g) :=
  (refl x).bind hf

/-- A part of the state is read before. -/
theorem afterRead {g : Machine → β} {f : β → Eval α} (h : ∀ b, Matches halts (f b) x) :
    Matches halts (read g >>= f) x :=
  fun m => h (g m) m

/-- Bodies that match do so in a frame of their own. -/
theorem enter (frame : Frame) (pos : Position) (h : Matches halts x y) :
    Matches halts (Eval.enter frame pos x) (Eval.enter frame pos y) := by
  intro m hends
  unfold Eval.enter at hends ⊢
  split
  · next hdepth =>
    rw [if_pos hdepth] at hends
    have hsame := h ⟨m.store, m.context, frame, m.depth + 1, false, m.library⟩
    dsimp only at hends ⊢
    split at hends
    · next hrun => rw [hsame (by rw [hrun]; exact not_false), hrun]
    · next hrun => rw [hsame (by rw [hrun]; exact not_false), hrun]
    · next hrun => rw [hsame (by rw [hrun]; exact hends), hrun]
  · rfl

theorem inReferenceBlock (h : Matches halts x y) :
    Matches halts (Eval.inReferenceBlock x) (Eval.inReferenceBlock y) := by
  intro m hends
  have hsame := h { m with inReference := true }
  unfold Eval.inReferenceBlock at hends ⊢
  dsimp only at hends ⊢
  split at hends
  · next hrun => rw [hsame (by rw [hrun]; exact not_false), hrun]
  · next hrun => rw [hsame (by rw [hrun]; exact not_false), hrun]
  · next hrun => rw [hsame (by rw [hrun]; exact hends), hrun]

theorem orElse (undo : Eval Unit) (h : Matches halts x y) :
    Matches halts (Eval.orElse x undo) (Eval.orElse y undo) := by
  intro m hends
  have hsame := h m
  unfold Eval.orElse at hends ⊢
  cases hrun : x m with
  | starved m' =>
    rw [hrun] at hends
    rw [hsame (by rw [hrun]; exact hends), hrun]
  | _ => rw [hsame (by rw [hrun]; exact not_false), hrun]

theorem runApart {ex ex' : Executor} (h : ∀ body, Matches halts (ex body) (ex' body))
    (context : Context) (program : Program) :
    Matches halts (Eval.runApart ex context program) (Eval.runApart ex' context program) := by
  intro m hends
  have hsame := (h program).bind (fun flow => refl (settle flow))
    ⟨m.store, context, .top context.globals none, m.depth + 1, false, m.library⟩
  change ¬(Eval.bind (ex program) settle _).CutShort halts → Eval.bind (ex' program) settle _ =
    Eval.bind (ex program) settle _ at hsame
  unfold Eval.runApart at hends ⊢
  dsimp only at hends ⊢
  split at hends
  · next hrun => rw [hsame (by rw [hrun]; exact not_false), hrun]
  · next hrun => rw [hsame (by rw [hrun]; exact not_false), hrun]
  · next hrun => rw [hsame (by rw [hrun]; exact hends), hrun]

end Matches

/-! Constructs. -/

section Constructs

variable {halts : Machine → Prop}
variable {ev ev' : Evaluator} (hev : ∀ e, Matches halts (ev e) (ev' e))
variable {ex ex' : Executor} (hex : ∀ body, Matches halts (ex body) (ex' body))

/-! Calls and imports. -/

include hex

theorem matches_runBody (frame : Frame) (body : List Stmt) (pos : Position) :
    Matches halts (runBody ex frame body pos) (runBody ex' frame body pos) :=
  ((hex body).bind fun flow => .refl (settle flow)).enter frame pos

/-- Calls match if the bodies that they run do. -/
theorem matches_callFunction (callee : Value) (args : List Value) (pos : Position)
    (injections : Dict Injection) :
    Matches halts (callFunction ex callee args pos injections)
      (callFunction ex' callee args pos injections) := by
  refine .andThen (load callee) fun object => ?_
  split
  · dsimp only
    split
    · refine .andThen (newScope _) fun locals => ?_
      exact ((hex _).bind fun flow => .refl (returned flow)).enter _ pos
    · exact .refl _
  · exact .refl _

theorem matches_instantiate (callee : Value) (args : List Value) (pos : Position) :
    Matches halts (instantiate ex callee args pos) (instantiate ex' callee args pos) := by
  refine .andThen (load callee) fun object => ?_
  split
  · refine .andThen (newScope .empty) fun fields => ?_
    exact (matches_runBody hex _ _ pos).bind fun _ => .refl _
  · exact .refl _

theorem matches_callSuper (args : List Value) (pos : Position) :
    Matches halts (callSuper ex args pos) (callSuper ex' args pos) := by
  refine .andThen (read _) fun function => ?_
  split
  · exact .refl _
  · refine .andThen (load _) fun object => ?_
    split
    · refine .andThen (read _) fun base => ?_
      split
      · exact .andThen (read _) fun injections =>
          matches_callFunction hex _ args pos injections
      · exact .refl _
    · exact .refl _

theorem matches_danceSource (source : String) (names : Dict Value) :
    Matches halts (danceSource ex source names) (danceSource ex' source names) := by
  refine .andThen (newScope names) fun globals => .andThen (read _) fun context => ?_
  split
  · exact .runApart hex context _
  · exact .refl _

theorem matches_dance (args : List Value) (pos : Position) :
    Matches halts (dance ex args pos) (dance ex' args pos) := by
  unfold dance
  split
  · exact .refl _
  · refine .andThen (load _) fun object => ?_
    split
    · exact .refl _
    · refine .andThen (danceNames _ pos) fun names => ?_
      exact (matches_danceSource hex _ names).bind fun apart => .refl _

/-- Built-in functions match if what they dance does. -/
theorem matches_callBuiltin (function : Builtin) (args : List Value) (pos : Position) :
    Matches halts (callBuiltin ex function args pos) (callBuiltin ex' function args pos) := by
  unfold callBuiltin
  split
  · exact .refl _
  · cases function with
    | dance => exact matches_dance hex args pos
    | _ => exact .refl _

/-- Calls of any value match if the bodies that they run do. -/
theorem matches_callValue (callee : Value) (args : List Value) (pos : Position) :
    Matches halts (callValue ex callee args pos) (callValue ex' callee args pos) := by
  refine .andThen (load callee) fun object => ?_
  split
  · exact matches_callFunction hex _ _ pos _
  · exact matches_callFunction hex _ _ pos _
  · exact .refl _
  · exact matches_callBuiltin hex _ args pos
  · exact matches_instantiate hex _ _ pos
  · exact .refl _
  · exact .refl _

/-- Imports match if the programs of the modules do. -/
theorem matches_importModule (path : String) (pos : Position) :
    Matches halts (importModule ex path pos) (importModule ex' path pos) := by
  have hrun : ∀ file program, Matches halts (runModule ex path file program pos)
      (runModule ex' path file program pos) := by
    intro file program
    refine .andThen (newScope .empty) fun scope => .andThen (make _) fun v => ?_
    refine .andThen (remember file v) fun _ => ?_
    exact ((matches_runBody hex _ program pos).orElse (forget file)).bind fun _ => .refl _
  refine .andThen (read _) fun found => ?_
  split
  · exact .refl _
  · refine .andThen (read _) fun known => ?_
    split
    · exact .refl _
    · refine .andThen (read _) fun text => ?_
      split
      · exact .refl _
      · split
        · exact .refl _
        · exact hrun _ _

theorem matches_defineStruct (definition : StructDef) (pos : Position) :
    Matches halts (defineStruct ex definition pos) (defineStruct ex' definition pos) := by
  refine .andThen Eval.frame fun frame => .andThen (newScope .empty) fun fields => ?_
  exact (matches_runBody hex _ _ pos).bind fun _ => .refl _

theorem matches_runBlock (name : String) (body : List Stmt) (pos : Position) :
    Matches halts (runBlock ex name body pos) (runBlock ex' name body pos) := by
  refine .andThen (read _) fun injections => ?_
  split
  · exact hex body
  · exact (hex _).enter _ pos

/-! Expressions. -/

omit hex

include hev

theorem matches_evalEach (items : List Expr) :
    Matches halts (evalEach ev items) (evalEach ev' items) := by
  induction items with
  | nil => exact .refl _
  | cons e rest ih => exact (hev e).bind fun v => ih.bind fun vs => .refl _

theorem matches_evalEntries (pos : Position) (table : Dict Value)
    (entries : List (Expr × Expr)) :
    Matches halts (evalEntries ev pos table entries) (evalEntries ev' pos table entries) := by
  induction entries generalizing table with
  | nil => exact .refl _
  | cons entry rest ih =>
    refine (hev entry.1).bind fun key => .andThen (load key) fun object => ?_
    split
    · exact .refl _
    · exact (hev entry.2).bind fun v => ih _

theorem matches_combineAll (acc : Value) (rest : List (ArithOp × Expr × Position)) :
    Matches halts (combineAll ev acc rest) (combineAll ev' acc rest) := by
  induction rest generalizing acc with
  | nil => exact .refl _
  | cons step rest ih => exact (hev step.2.1).bind fun v => .andThen (act _ _) fun w => ih w

theorem matches_compareAll (acc : Value) (rest : List (CompOp × Expr × Position)) :
    Matches halts (compareAll ev acc rest) (compareAll ev' acc rest) := by
  induction rest generalizing acc with
  | nil => exact .refl _
  | cons step rest ih =>
    refine (hev step.2.1).bind fun v => .andThen (act _ _) fun holds => ?_
    exact .andThen (make _) fun w => ih w

theorem matches_decideAll (stop : Bool) (items : List Expr) :
    Matches halts (decideAll ev stop items) (decideAll ev' stop items) := by
  induction items with
  | nil => exact .refl _
  | cons e rest ih =>
    cases rest with
    | nil => exact hev e
    | cons next rest =>
      refine (hev e).bind fun v => .andThen (isTruthy v) fun truthy => ?_
      split
      · exact .refl _
      · exact ih

/-- The same target leads to the same place. -/
theorem matches_placeOf (target : Expr) :
    Matches halts (placeOf ev target) (placeOf ev' target) := by
  unfold placeOf
  split
  · exact .refl _
  · split
    · exact .refl _
    · refine (hev _).bind fun owner => ?_
      split
      · exact .refl _
      · exact (hev _).bind fun key => .refl _
      · exact .refl _
  · exact .refl _

theorem matches_assign (v : Value) (target : Expr) :
    Matches halts (assign ev v target) (assign ev' v target) :=
  (matches_placeOf hev target).bind fun place => .refl (place.set v)

theorem matches_evalList (items : List Expr) :
    Matches halts (evalList ev items) (evalList ev' items) := by
  unfold evalList
  split
  · exact hev _
  · exact (matches_evalEach hev _).bind fun vs => .refl _

/-- Assignments to other targets are matched by those to the targets themselves. -/
structure Retargets (halts : Machine → Prop) (ev ev' : Evaluator) (f : Expr → Expr) : Prop where
  assign : ∀ v target, Matches halts (assign ev v (f target)) (assign ev' v target)
  pos? : ∀ target, (f target).pos? = target.pos?

theorem retargets_id : Retargets halts ev ev' id :=
  ⟨matches_assign hev, fun _ => rfl⟩

section Targets

omit hev

variable {f : Expr → Expr} (hf : Retargets halts ev ev' f)

include hf

theorem matches_assignEach (v : Value) (targets : List Expr) :
    Matches halts (assignEach ev v (targets.map f)) (assignEach ev' v targets) := by
  induction targets with
  | nil => exact .refl _
  | cons target rest ih => exact (hf.assign v target).bind fun _ => ih

/-- Pairs are assigned in turn, each to its own target. -/
theorem matches_assignPairs (pairs : List (Expr × Value)) :
    Matches halts (assignPairs ev (pairs.map (Prod.map f id))) (assignPairs ev' pairs) := by
  induction pairs with
  | nil => exact .refl _
  | cons pair rest ih => exact (hf.assign pair.2 pair.1).bind fun _ => ih

theorem matches_assignSpread (targets : List Expr) (v : Value) :
    Matches halts (assignSpread ev (targets.map f) v) (assignSpread ev' targets v) := by
  have hpos : (targets.map f).head?.bind Expr.pos? = targets.head?.bind Expr.pos? := by
    cases targets with
    | nil => rfl
    | cons target rest => exact hf.pos? target
  unfold assignSpread
  rw [hpos, List.length_map]
  refine .andThen (load v) fun object => ?_
  split
  · split
    · rw [List.zip_map_left]
      exact matches_assignPairs hf _
    · exact .refl _
  · exact .refl _

/-- A list of targets takes what it took. -/
theorem matches_assignList (v : Value) (targets : List Expr) :
    Matches halts (assignList ev v (targets.map f)) (assignList ev' v targets) := by
  match targets with
  | [] => exact matches_assignSpread hf [] v
  | [target] => exact hf.assign v target
  | first :: second :: rest => exact matches_assignSpread hf (first :: second :: rest) v

theorem matches_assignLists (v : Value) (lists : List (List Expr)) :
    Matches halts (assignLists ev v (lists.map (·.map f))) (assignLists ev' v lists) := by
  induction lists with
  | nil => exact .refl _
  | cons targets rest ih => exact (matches_assignList hf v targets).bind fun _ => ih

include hev

/-- The last of a chain is a value, and stays it. -/
theorem matches_evalChains (last : Value) (chains : List (List Expr)) :
    Matches halts (evalChains ev last (chains.map (Formula.mapTargets f)))
      (evalChains ev' last chains) := by
  induction chains generalizing last with
  | nil => exact .refl _
  | cons chain rest ih =>
    rw [List.map_cons]
    unfold evalChains
    rw [Formula.getLast?_mapTargets, Formula.dropLast_mapTargets, ← List.map_reverse]
    split
    · exact ih last
    · exact (hev _).bind fun v => (matches_assignEach hf v _).bind fun _ => ih v

/-- Formulas match if their targets and their values do. -/
theorem matches_evalFormula (formula : Formula) :
    Matches halts (evalFormula ev (formula.retarget f)) (evalFormula ev' formula) := by
  cases formula with
  | assignments chains =>
    exact .andThen (make .nil) fun v => matches_evalChains hev hf v chains
  | parallel lists =>
    unfold Formula.retarget evalFormula
    dsimp only
    rw [Formula.getLast?_mapTargets, Formula.dropLast_mapTargets, ← List.map_reverse]
    split
    · exact .refl _
    · exact (matches_evalList hev _).bind fun v =>
        (matches_assignLists hf v _).bind fun _ => .refl _

theorem matches_runClause (clause : Option Formula) :
    Matches halts (runClause ev (clause.map (.retarget f))) (runClause ev' clause) := by
  cases clause with
  | none => exact .refl _
  | some formula => exact (matches_evalFormula hev hf formula).bind fun _ => .refl _

theorem matches_goesOn (test : Option Formula) :
    Matches halts (goesOn ev (test.map (.retarget f))) (goesOn ev' test) := by
  cases test with
  | none => exact .refl _
  | some formula => exact (matches_evalFormula hev hf formula).bind fun v => .refl _

end Targets

include hex

/-- Links match if the keys and the arguments in them do. -/
theorem matches_follow (v : Value) (links : List Link) :
    Matches halts (follow ev ex v links) (follow ev' ex' v links) := by
  induction links generalizing v with
  | nil => exact .refl _
  | cons link rest ih =>
    cases link with
    | attr name pos => exact .andThen (getAttr v name pos) fun w => ih w
    | index key pos => exact (hev key).bind fun k => .andThen (act _ _) fun w => ih w
    | call args pos =>
      exact (matches_evalEach hev args).bind fun vs =>
        (matches_callValue hex v vs pos).bind fun w => ih w

theorem matches_evalChain (head : Expr) (links : List Link) :
    Matches halts (evalChain ev ex head links) (evalChain ev' ex' head links) := by
  unfold evalChain
  split
  · exact (matches_evalEach hev _).bind fun vs =>
      (matches_callSuper hex vs _).bind fun v => matches_follow hev hex v _
  · exact (hev _).bind fun v => matches_follow hev hex v _

/-- An expression matches if those inside it do, and so do the bodies that its calls run. -/
theorem matches_evalStep (e : Expr) :
    Matches halts (evalStep ev ex e) (evalStep ev' ex' e) := by
  cases e with
  | array items pos => exact (matches_evalEach hev items).bind fun vs => .refl _
  | dict entries pos =>
    exact (matches_evalEntries hev pos .empty entries).bind fun _ => .refl _
  | chain head links => exact matches_evalChain hev hex head links
  | negative operand pos => exact (hev operand).bind fun v => .refl _
  | arith first rest => exact (hev first).bind fun v => matches_combineAll hev v rest
  | augment target rest =>
    refine (matches_placeOf hev target).bind fun place => .andThen place.get fun v => ?_
    exact (matches_combineAll hev v rest).bind fun w => .refl _
  | comparison first rest => exact (hev first).bind fun v => matches_compareAll hev v rest
  | not operand pos => exact (hev operand).bind fun v => .refl _
  | and items => exact matches_decideAll hev false items
  | or items => exact matches_decideAll hev true items
  | _ => exact .refl _

/-! Statements. -/

omit hev hex

/-- The rounds that the second computation has are as many, or no fewer where it does not
matter how the first is cut short. -/
def LastsAsLong (halts : Machine → Prop) (rounds rounds' : Nat) : Prop :=
  rounds = rounds' ∨ rounds ≤ rounds' ∧ ∀ m, halts m

/-- Where there is a round to spend, the other computation has one too. -/
theorem LastsAsLong.exists_succ {rounds rounds' : Nat}
    (h : LastsAsLong halts (rounds + 1) rounds') :
    ∃ more, rounds' = more + 1 ∧ LastsAsLong halts rounds more := by
  rcases h with rfl | ⟨hle, hall⟩
  · exact ⟨rounds, rfl, Or.inl rfl⟩
  · obtain ⟨more, rfl⟩ := Nat.exists_eq_add_of_le' hle
    exact ⟨more + rounds, rfl, Or.inr ⟨Nat.le_add_left rounds more, hall⟩⟩

theorem Matches.thenNext {x y : Eval Unit} (h : Matches halts x y) :
    Matches halts (thenNext x) (thenNext y) :=
  h.bind fun _ => .refl _

theorem matches_execEach {step step' : Stmt → Eval Flow}
    (hstep : ∀ stmt, Matches halts (step stmt) (step' stmt)) (body : List Stmt) :
    Matches halts (execEach step body) (execEach step' body) := by
  induction body with
  | nil => exact .refl _
  | cons stmt rest ih =>
    refine (hstep stmt).bind fun flow => ?_
    cases flow with
    | next => exact ih
    | _ => exact .refl _

include hev hex

theorem matches_execBranches (otherwise : Option (List Stmt))
    (branches : List (Expr × List Stmt)) :
    Matches halts (execBranches ev ex otherwise branches)
      (execBranches ev' ex' otherwise branches) := by
  induction branches with
  | nil =>
    cases otherwise with
    | none => exact .refl _
    | some body => exact hex body
  | cons branch rest ih =>
    refine (hev branch.1).bind fun v => .andThen (isTruthy v) fun truthy => ?_
    split
    · exact hex branch.2
    · exact ih

variable {f : Expr → Expr} (hf : Retargets halts ev ev' f)

include hf

/-- Loops match if their bodies do and the rounds last. -/
theorem matches_execRounds (test update : Option Formula) (body : List Stmt)
    {rounds rounds' : Nat} (hrounds : LastsAsLong halts rounds rounds') :
    Matches halts
      (execRounds ev ex (test.map (.retarget f)) (update.map (.retarget f)) body rounds)
      (execRounds ev' ex' test update body rounds') := by
  induction rounds generalizing rounds' with
  | zero =>
    rcases hrounds with rfl | ⟨-, hall⟩
    · exact .refl _
    · exact .starve hall _
  | succ rounds ih =>
    obtain ⟨rounds', rfl, hless⟩ := hrounds.exists_succ
    have hnext := (matches_runClause hev hf update).bind fun _ => ih hless
    refine (matches_goesOn hev hf test).bind fun going => ?_
    split
    · refine (hex body).bind fun flow => ?_
      cases flow with
      | next => exact hnext
      | «continue» pos => exact hnext
      | _ => exact .refl _
    · exact .refl _

/-- A statement matches if the expressions and the bodies inside it do. -/
theorem matches_execStep {rounds rounds' : Nat} (hrounds : LastsAsLong halts rounds rounds')
    (stmt : Stmt) :
    Matches halts (execStep ev ex rounds (stmt.retarget f)) (execStep ev' ex' rounds' stmt) := by
  cases stmt with
  | reference formula pos =>
    have hvalue := (matches_evalFormula hev hf formula).inReferenceBlock
    exact (hvalue.bind fun v => .refl _).thenNext
  | formula formula pos => exact (matches_runClause hev hf (some formula)).thenNext
  | cond branches otherwise pos => exact matches_execBranches hev hex otherwise branches
  | loop init test update body pos =>
    exact (matches_runClause hev hf init).bind fun _ =>
      matches_execRounds hev hex hf test update body hrounds
  | «return» value pos =>
    cases value with
    | none => exact .refl _
    | some formula => exact (matches_evalFormula hev hf formula).bind fun v => .refl _
  | importAs path name pos =>
    exact ((matches_importModule hex path pos).bind fun v => .refl _).thenNext
  | importFrom path names pos =>
    exact ((matches_importModule hex path pos).bind fun v => .refl _).thenNext
  | struct name body pos => exact (matches_defineStruct hex _ pos).thenNext
  | block name body pos => exact matches_runBlock hex name body pos
  | _ => exact .refl _

end Constructs

/-! Evaluation. -/

/-- With more fuel the evaluators do what they do. -/
theorem approximates_eval_and_exec {fuel fuel' : Nat} (hle : fuel ≤ fuel') :
    (∀ e, Approximates (eval fuel e) (eval fuel' e)) ∧
      ∀ body, Approximates (exec fuel body) (exec fuel' body) := by
  induction fuel generalizing fuel' with
  | zero =>
    refine ⟨fun e => ?_, fun body => ?_⟩
    · rw [eval]
      exact .starve (fun _ => trivial) _
    · rw [exec]
      exact .starve (fun _ => trivial) _
  | succ fuel ih =>
    obtain ⟨more, rfl⟩ := Nat.exists_eq_add_of_le' hle
    have hless : fuel ≤ more + fuel := Nat.le_add_left _ _
    obtain ⟨hev, hex⟩ := ih hless
    refine ⟨matches_evalStep hev hex, matches_execEach fun stmt => ?_⟩
    have hrounds : LastsAsLong (fun _ => True) fuel (more + fuel) :=
      Or.inr ⟨hless, fun _ => trivial⟩
    have hstep := matches_execStep hev hex (retargets_id hev) hrounds stmt
    rwa [stmt.retarget_id] at hstep

theorem approximates_eval {fuel fuel' : Nat} (hle : fuel ≤ fuel') (e : Expr) :
    Approximates (eval fuel e) (eval fuel' e) :=
  (approximates_eval_and_exec hle).1 e

theorem approximates_exec {fuel fuel' : Nat} (hle : fuel ≤ fuel') (body : List Stmt) :
    Approximates (exec fuel body) (exec fuel' body) :=
  (approximates_eval_and_exec hle).2 body

/-! With enough fuel. -/

def Rises (x : Nat → Eval α) : Prop :=
  ∀ fuel fuel', fuel ≤ fuel' → Approximates (x fuel) (x fuel')

/-- With enough fuel the computation ends so. -/
def EndsAs (x : Nat → Eval α) (m : Machine) (outcome : Outcome α) : Prop :=
  ∃ fuel, x fuel m = outcome ∧ outcome.isStarved = false

/-- With no fuel does the computation end. -/
def Diverges (x : Nat → Eval α) (m : Machine) : Prop := ∀ fuel, (x fuel m).isStarved = true

variable {x y : Nat → Eval α} {m : Machine}

/-- A computation diverges if it ends in no way. -/
theorem diverges_iff : Diverges x m ↔ ∀ outcome, ¬EndsAs x m outcome := by
  constructor
  · rintro h _ ⟨fuel, rfl, hends⟩
    rw [h fuel] at hends
    cases hends
  · intro h fuel
    by_contra hends
    exact h _ ⟨fuel, rfl, Bool.eq_false_iff.mpr hends⟩

theorem rises_exec (body : List Stmt) : Rises fun fuel => exec fuel body :=
  fun _ _ hle => approximates_exec hle body

theorem rises_runClause (clause : Option Formula) :
    Rises fun fuel => runClause (eval fuel) clause := by
  intro fuel fuel' hle
  have hev := approximates_eval hle
  have hclause := matches_runClause hev (retargets_id hev) clause
  rwa [Formula.map_retarget_id] at hclause

theorem rises_goesOn (test : Option Formula) : Rises fun fuel => goesOn (eval fuel) test := by
  intro fuel fuel' hle
  have hev := approximates_eval hle
  have htest := matches_goesOn hev (retargets_id hev) test
  rwa [Formula.map_retarget_id] at htest

/-- The parts of a sequence may need different fuel. -/
theorem Rises.bind {f : Nat → α → Eval β} (hx : Rises x) (hf : ∀ a, Rises fun n => f n a) :
    Rises fun n => x n >>= f n :=
  fun n n' hle => (hx n n' hle).bind fun a => hf a n n' hle

theorem rises_const (x : Eval α) : Rises fun _ => x := fun _ _ _ => .refl x

/-- Once the fuel lasts, more changes nothing. -/
theorem Rises.eq_of_le (hx : Rises x) {fuel fuel' : Nat} (hle : fuel ≤ fuel')
    {outcome : Outcome α} (hrun : x fuel m = outcome) (hends : outcome.isStarved = false) :
    x fuel' m = outcome :=
  ((hx fuel fuel' hle).eq_of_ends (hrun ▸ hends)).trans hrun

/-- A computation ends in one way only. -/
theorem EndsAs.unique (hx : Rises x) {outcome outcome' : Outcome α} (h : EndsAs x m outcome)
    (h' : EndsAs x m outcome') : outcome = outcome' := by
  obtain ⟨fuel, hrun, hends⟩ := h
  obtain ⟨fuel', hrun', hends'⟩ := h'
  rw [← hx.eq_of_le (Nat.le_max_left fuel fuel') hrun hends]
  exact hx.eq_of_le (Nat.le_max_right fuel fuel') hrun' hends'

/-- Computations that differ only in how much fuel they need. -/
theorem endsAs_congr {outcome : Outcome α} (hxy : ∀ n, ∃ n', Approximates (x n) (y n'))
    (hyx : ∀ n, ∃ n', Approximates (y n) (x n')) :
    EndsAs x m outcome ↔ EndsAs y m outcome := by
  constructor
  · rintro ⟨n, rfl, hends⟩
    obtain ⟨n', happrox⟩ := hxy n
    exact ⟨n', happrox.eq_of_ends hends, hends⟩
  · rintro ⟨n, rfl, hends⟩
    obtain ⟨n', happrox⟩ := hyx n
    exact ⟨n', happrox.eq_of_ends hends, hends⟩

/-- One unit of fuel more or less does not matter in the end. -/
theorem Rises.endsAs_succ_iff (hx : Rises x) {outcome : Outcome α} :
    EndsAs (fun n => x (n + 1)) m outcome ↔ EndsAs x m outcome :=
  endsAs_congr (fun n => ⟨n + 1, .refl _⟩) fun n => ⟨n, hx n (n + 1) (Nat.le_succ n)⟩

/-- A sequence ends where its first part fails, or as its second part does. The larger of two
amounts of fuel serves both parts. -/
theorem endsAs_bind_iff {f : Nat → α → Eval β} (hx : Rises x) (hf : ∀ a, Rises fun n => f n a)
    {outcome : Outcome β} :
    EndsAs (fun n => x n >>= f n) m outcome ↔
      (∃ a m₁, EndsAs x m (.done a m₁) ∧ EndsAs (fun n => f n a) m₁ outcome) ∨
        ∃ d m₁, EndsAs x m (.fail d m₁) ∧ outcome = .fail d m₁ := by
  constructor
  · rintro ⟨n, rfl, hends⟩
    change (Eval.bind (x n) (f n) m).isStarved = false at hends
    change (∃ a m₁, _ ∧ EndsAs _ _ (Eval.bind (x n) (f n) m)) ∨
      ∃ d m₁, _ ∧ Eval.bind (x n) (f n) m = _
    unfold Eval.bind at hends ⊢
    cases hrun : x n m with
    | done a m₁ =>
      rw [hrun] at hends
      exact Or.inl ⟨a, m₁, ⟨n, hrun, rfl⟩, n, rfl, hends⟩
    | fail d m₁ => exact Or.inr ⟨d, m₁, ⟨n, hrun, rfl⟩, rfl⟩
    | starved m₁ =>
      rw [hrun] at hends
      cases hends
  · rintro (⟨a, m₁, ⟨n, hrun, hends⟩, n', hrun', hends'⟩ | ⟨d, m₁, ⟨n, hrun, -⟩, rfl⟩)
    · have hx' := hx.eq_of_le (Nat.le_max_left n n') hrun hends
      have hf' := (hf a).eq_of_le (Nat.le_max_right n n') hrun' hends'
      refine ⟨max n n', ?_, hends'⟩
      change Eval.bind (x (max n n')) (f (max n n')) m = outcome
      unfold Eval.bind
      rw [hx']
      exact hf'
    · refine ⟨n, ?_, rfl⟩
      change Eval.bind (x n) (f n) m = _
      unfold Eval.bind
      rw [hrun]

/-- Sequences end alike if their first parts do, and their second parts wherever the first
part leads. -/
theorem endsAs_bind_congr {f g : Nat → α → Eval β} (hx : Rises x) (hy : Rises y)
    (hf : ∀ a, Rises fun n => f n a) (hg : ∀ a, Rises fun n => g n a)
    (hxy : ∀ outcome, EndsAs x m outcome ↔ EndsAs y m outcome)
    (hfg : ∀ a m₁, EndsAs x m (.done a m₁) → ∀ outcome,
      EndsAs (fun n => f n a) m₁ outcome ↔ EndsAs (fun n => g n a) m₁ outcome)
    (outcome : Outcome β) :
    EndsAs (fun n => x n >>= f n) m outcome ↔ EndsAs (fun n => y n >>= g n) m outcome := by
  rw [endsAs_bind_iff hx hf, endsAs_bind_iff hy hg]
  refine or_congr ?_ ?_
  · constructor
    · rintro ⟨a, m₁, hfirst, hsecond⟩
      exact ⟨a, m₁, (hxy _).mp hfirst, (hfg a m₁ hfirst outcome).mp hsecond⟩
    · rintro ⟨a, m₁, hfirst, hsecond⟩
      have hfirst' := (hxy _).mpr hfirst
      exact ⟨a, m₁, hfirst', (hfg a m₁ hfirst' outcome).mpr hsecond⟩
  · simp only [hxy]

end Eval

end Stencil
