import Stencil.Proofs.Eval.Restored

/-!
What a run does in the active frame itself. The visits of a run are the
statements it executes and the formulas and conditions it evaluates in that
frame, in order, each with the machine in which it begins; what calls, struct
bodies, overriding bodies and modules do in frames of their own is not among
them. Of all this only the visits of `inject` statements change the frame, so
the frame at any visit is the one at the start with the bodies of the earlier
`inject` statements registered in their order.
-/

namespace Stencil

/-- Something that a run does in the active frame, with the fuel for its parts
and the machine in which it begins. -/
inductive Visit
  | statement (fuel : Nat) (stmt : Stmt) (start : Machine)
  | formula (fuel : Nat) (formula : Formula) (start : Machine)
  | condition (fuel : Nat) (condition : Expr) (start : Machine)

namespace Visit

def start : Visit → Machine
  | .statement _ _ m | .formula _ _ m | .condition _ _ m => m

def registration? : Visit → Option (String × Injection)
  | .statement _ (.inject name body _) m => some (name, m.frame.injection body)
  | _ => none

end Visit

def registrations (visits : List Visit) : List (String × Injection) :=
  visits.filterMap Visit.registration?

def Outcome.thenVisits {α : Type} (next : α → Machine → List Visit) : Outcome α → List Visit
  | .done a m => next a m
  | _ => []

namespace Eval

section Visits

variable (n : Nat) (inner : List Stmt → Machine → List Visit)

def clauseVisits : Option Formula → Machine → List Visit
  | none, _ => []
  | some formula, m => [.formula n formula m]

def branchVisits (otherwise : Option (List Stmt)) :
    List (Expr × List Stmt) → Machine → List Visit
  | [], m =>
    match otherwise with
    | some body => inner body m
    | none => []
  | (condition, body) :: rest, m =>
    .condition n condition m :: (eval n condition m).thenVisits fun v m =>
      if (m.store.get v).truthy then inner body m else branchVisits otherwise rest m

def roundVisits (test update : Option Formula) (body : List Stmt) :
    Nat → Machine → List Visit
  | 0, _ => []
  | rounds + 1, m =>
    clauseVisits n test m ++ (goesOn (eval n) test m).thenVisits fun going m =>
      if going then
        inner body m ++ (exec n body m).thenVisits fun flow m =>
          match flow with
          | .next | .continue _ =>
            clauseVisits n update m ++ (runClause (eval n) update m).thenVisits fun _ m =>
              roundVisits test update body rounds m
          | _ => []
      else []

def stmtVisits : Stmt → Machine → List Visit
  | .reference formula _, m => [.formula n formula { m with inReference := true }]
  | .formula formula _, m => [.formula n formula m]
  | .return (some formula) _, m => [.formula n formula m]
  | .cond branches otherwise _, m => branchVisits n inner otherwise branches m
  | .loop init test update body _, m =>
    clauseVisits n init m ++ (runClause (eval n) init m).thenVisits fun _ m =>
      roundVisits n inner test update body n m
  | .block name body _, m => if m.frame.injections.contains name then [] else inner body m
  | _, _ => []

def bodyVisits : List Stmt → Machine → List Visit
  | [], _ => []
  | stmt :: rest, m =>
    .statement n stmt m :: (stmtVisits n inner stmt m ++
      (execStep (eval n) (exec n) n stmt m).thenVisits fun flow m =>
        match flow with
        | .next => bodyVisits rest m
        | _ => [])

end Visits

def visits : Nat → List Stmt → Machine → List Visit
  | 0, _, _ => []
  | n + 1, body, m => bodyVisits n (visits n) body m

end Eval

namespace Frame

def register (frame : Frame) (entry : String × Injection) : Frame :=
  if frame.injections.contains entry.1 then frame
  else { frame with injections := frame.injections.insert entry.1 entry.2 }

def registerAll (frame : Frame) (entries : List (String × Injection)) : Frame :=
  entries.foldl register frame

theorem get?_register (frame : Frame) (entry : String × Injection) (name : String) :
    (frame.register entry).injections.get? name =
      (frame.injections.get? name).or ([entry].lookup name) := by
  obtain ⟨key, injection⟩ := entry
  unfold register
  simp only [Dict.lookup_cons_eq, List.lookup_nil]
  split
  · next hpresent =>
    rw [Dict.contains, Option.isSome_iff_exists] at hpresent
    obtain ⟨old, hold⟩ := hpresent
    by_cases hname : name = key
    · simp [hname, hold]
    · simp [hname]
  · next habsent =>
    rw [Dict.contains, Option.not_isSome_iff_eq_none] at habsent
    rw [Dict.get?_insert]
    by_cases hname : name = key
    · simp [hname, habsent]
    · simp [hname]

/-- A name is bound to what it was bound to, or else to its first registration. -/
theorem get?_registerAll (frame : Frame) (entries : List (String × Injection)) (name : String) :
    (frame.registerAll entries).injections.get? name =
      (frame.injections.get? name).or (entries.lookup name) := by
  induction entries generalizing frame with
  | nil => simp [registerAll]
  | cons entry rest ih =>
    obtain ⟨key, injection⟩ := entry
    change ((frame.register (key, injection)).registerAll rest).injections.get? name = _
    rw [ih, get?_register, Option.or_assoc]
    congr 1
    simp only [Dict.lookup_cons_eq, List.lookup_nil]
    split <;> simp

end Frame

def Machine.registering (m : Machine) (name : String) (body : List Stmt) : Machine :=
  { m with frame := m.frame.register (name, m.frame.injection body) }

/-- Each visit begins in the frame that the registrations before it have left. -/
def Follows (frame : Frame) : List Visit → Prop
  | [] => True
  | visit :: rest =>
    visit.start.frame = frame ∧ Follows (frame.registerAll (registrations [visit])) rest

/-- The registrations of two stretches of a run are those of the first, and then those of the
second. -/
theorem registrations_append (left right : List Visit) :
    registrations (left ++ right) = registrations left ++ registrations right :=
  List.filterMap_append

theorem registerAll_append (frame : Frame) (left right : List (String × Injection)) :
    frame.registerAll (left ++ right) = (frame.registerAll left).registerAll right :=
  List.foldl_append

/-- A table follows two stretches if it follows the first, and with its registrations made it
follows the second. -/
theorem follows_append {frame : Frame} {left right : List Visit} :
    Follows frame (left ++ right) ↔
      Follows frame left ∧ Follows (frame.registerAll (registrations left)) right := by
  induction left generalizing frame with
  | nil => simp [Follows, registrations, Frame.registerAll]
  | cons visit rest ih =>
    have hregistrations : registrations (visit :: rest) =
        registrations [visit] ++ registrations rest := registrations_append [visit] rest
    simp only [List.cons_append, Follows, ih, hregistrations, registerAll_append, and_assoc]

/-- The visits of a computation begin in the right frames, and the registrations
among them are all that it has done to the frame if it has a result. -/
structure Records {α : Type} (visits : List Visit) (m : Machine) (outcome : Outcome α) : Prop where
  follows : Follows m.frame visits
  done : ∀ a m', outcome = .done a m' → m'.frame = m.frame.registerAll (registrations visits)

namespace Records

variable {α β : Type}

/-- What the parts of a sequence register one after the other is what the sequence registers. -/
theorem bind {x : Eval α} {f : α → Eval β} {m : Machine} {before : List Visit}
    {next : α → Machine → List Visit} (hx : Records before m (x m))
    (hf : ∀ a m', x m = .done a m' → Records (next a m') m' (f a m')) :
    Records (before ++ (x m).thenVisits next) m ((x >>= f) m) := by
  change Records _ m (Eval.bind x f m)
  unfold Eval.bind
  cases hrun : x m with
  | done a m' =>
    have hframe := hx.done a m' hrun
    obtain ⟨hfollows, hdone⟩ := hf a m' hrun
    rw [hframe] at hfollows
    refine ⟨follows_append.mpr ⟨hx.follows, hfollows⟩, ?_⟩
    intro b m'' hend
    rw [registrations_append, registerAll_append, ← hframe]
    exact hdone b m'' hend
  | fail d m' =>
    refine ⟨?_, fun _ _ hend => by cases hend⟩
    simpa only [Outcome.thenVisits, List.append_nil] using hx.follows
  | starved m' =>
    refine ⟨?_, fun _ _ hend => by cases hend⟩
    simpa only [Outcome.thenVisits, List.append_nil] using hx.follows

theorem pure (a : α) (m : Machine) : Records [] m ((Pure.pure a : Eval α) m) := by
  refine ⟨trivial, ?_⟩
  intro b m' hend
  cases hend
  rfl

/-- Whatever is no `inject` statement may be counted in where it begins. -/
theorem cons {outcome : Outcome α} {m : Machine} {visits : List Visit} {visit : Visit}
    (h : Records visits m outcome) (hstart : visit.start.frame = m.frame)
    (hnone : visit.registration? = none) : Records (visit :: visits) m outcome := by
  have hempty : registrations [visit] = [] := by simp [registrations, hnone]
  have hall : registrations (visit :: visits) = registrations visits := by
    simp [registrations, hnone]
  refine ⟨⟨hstart, ?_⟩, ?_⟩
  · rw [hempty]
    exact h.follows
  · rw [hall]
    exact h.done

end Records

namespace Eval

variable {α : Type}

/-- What hands the frame back registers nothing. -/
theorem Steady.records {x : Eval α} (hx : Steady (fun _ => False) x) (m : Machine) :
    Records [] m (x m) := by
  refine ⟨trivial, ?_⟩
  intro a m' hend
  have h := hx m
  rw [hend] at h
  exact Machine.HandedBack.frame h

/-- A registration changes the table of the active frame and nothing else. -/
theorem addInjection_eq (name : String) (body : List Stmt) (m : Machine) :
    addInjection name body m = .done () (m.registering name body) := by
  unfold addInjection modify Machine.registering Frame.register
  dsimp only
  split <;> rfl

/-- An `inject` statement succeeds when a function that the active one extends
declares the block, and then registers its body. -/
theorem registerInjection_eq_done_iff {name : String} {body : List Stmt} {pos : Position}
    {m m' : Machine} :
    registerInjection name body pos m = .done () m' ↔
      ∃ function, m.frame.function = some function ∧
        m.store.ancestorDeclares name depthLimit function = .ok true ∧
        m' = m.registering name body := by
  unfold registerInjection
  rw [bind_eq_done_iff]
  constructor
  · rintro ⟨active, m₁, hread, h⟩
    cases hread
    cases hfunction : m.frame.function with
    | none =>
      simp only [hfunction] at h
      cases h
    | some function =>
      simp only [hfunction] at h
      obtain ⟨declared, m₁, hread, h⟩ := bind_eq_done_iff.mp h
      cases hread
      cases hdeclared : m.store.ancestorDeclares name depthLimit function with
      | error fault =>
        simp only [hdeclared] at h
        cases h
      | ok declares =>
        simp only [hdeclared] at h
        cases declares with
        | false => cases h
        | true =>
          simp only [addInjection_eq, Outcome.done.injEq, true_and] at h
          exact ⟨function, rfl, hdeclared, h.symm⟩
  · rintro ⟨function, hfunction, hdeclared, rfl⟩
    refine ⟨some function, m, by rw [← hfunction]; rfl, ?_⟩
    refine bind_eq_done_iff.mpr ⟨.ok true, m, by rw [← hdeclared]; rfl, ?_⟩
    exact addInjection_eq name body m

section Visits

variable {n : Nat} {inner : List Stmt → Machine → List Visit}

theorem records_runClause (clause : Option Formula) (m : Machine) :
    Records (clauseVisits n clause m) m (runClause (eval n) clause m) := by
  have h := (restoring_discipline.runClause (steady_eval n) clause).records m
  cases clause with
  | none => exact h
  | some formula => exact h.cons rfl rfl

theorem records_goesOn (clause : Option Formula) (m : Machine) :
    Records (clauseVisits n clause m) m (goesOn (eval n) clause m) := by
  have h := (restoring_discipline.goesOn (steady_eval n) clause).records m
  cases clause with
  | none => exact h
  | some formula => exact h.cons rfl rfl

variable (hinner : ∀ body m, Records (inner body m) m (exec n body m))

include hinner

theorem records_execBranches (otherwise : Option (List Stmt))
    (branches : List (Expr × List Stmt)) (m : Machine) :
    Records (branchVisits n inner otherwise branches m) m
      (execBranches (eval n) (exec n) otherwise branches m) := by
  induction branches generalizing m with
  | nil =>
    cases otherwise with
    | none => exact Records.pure _ m
    | some body => exact hinner body m
  | cons branch rest ih =>
    obtain ⟨condition, body⟩ := branch
    have hcondition : Records [.condition n condition m] m (eval n condition m) :=
      ((steady_eval n condition).records m).cons rfl rfl
    refine hcondition.bind ?_
    intro v m' _
    have htruthy : Records [] m' (isTruthy v m') := (restoring_discipline.isTruthy v).records m'
    change Records ([] ++ (isTruthy v m').thenVisits fun truthy m =>
      if truthy then inner body m else branchVisits n inner otherwise rest m) m' _
    refine htruthy.bind ?_
    intro truthy m'' _
    cases truthy with
    | true => exact hinner body m''
    | false => exact ih m''

/-- A loop registers what its rounds register, in the order of the rounds. -/
theorem records_execRounds (test update : Option Formula) (body : List Stmt) (rounds : Nat)
    (m : Machine) :
    Records (roundVisits n inner test update body rounds m) m
      (execRounds (eval n) (exec n) test update body rounds m) := by
  induction rounds generalizing m with
  | zero => exact ⟨trivial, fun _ _ hend => by cases hend⟩
  | succ rounds ih =>
    refine (records_goesOn test m).bind ?_
    intro going m₁ _
    cases going with
    | false => exact Records.pure _ m₁
    | true =>
      refine (hinner body m₁).bind ?_
      intro flow m₂ _
      cases flow with
      | next => exact (records_runClause update m₂).bind fun _ m₃ _ => ih m₃
      | «continue» pos => exact (records_runClause update m₂).bind fun _ m₃ _ => ih m₃
      | «break» pos => exact Records.pure _ m₂
      | «return» v pos => exact Records.pure _ m₂

omit hinner in
theorem records_simple {stmt : Stmt} (hs : stmt.isSimple = true) (m : Machine) :
    Records (.statement n stmt m :: stmtVisits n inner stmt m) m
      (execStep (eval n) (exec n) n stmt m) := by
  have h :=
    (restoring_discipline.execStep_of_isSimple (steady_eval n) (growing_exec n) n hs).records m
  cases stmt with
  | reference formula pos => exact (h.cons rfl rfl).cons rfl rfl
  | formula formula pos => exact (h.cons rfl rfl).cons rfl rfl
  | «return» value pos =>
    cases value with
    | none => exact h.cons rfl rfl
    | some formula => exact (h.cons rfl rfl).cons rfl rfl
  | cond branches otherwise pos => simp [Stmt.isSimple] at hs
  | loop init test update body pos => simp [Stmt.isSimple] at hs
  | block name body pos => simp [Stmt.isSimple] at hs
  | inject name body pos => simp [Stmt.isSimple] at hs
  | _ => exact h.cons rfl rfl

theorem records_runBlock (name : String) (body : List Stmt) (pos : Position) (m : Machine) :
    Records (stmtVisits n inner (.block name body pos) m) m
      (runBlock (exec n) name body pos m) := by
  unfold runBlock stmtVisits
  change Records _ m (Eval.bind (Eval.read _) _ m)
  simp only [Eval.bind, Eval.read]
  cases hfound : m.frame.injections.get? name with
  | none =>
    simp only [Dict.contains, hfound, Option.isSome_none, Bool.false_eq_true, if_false]
    exact hinner body m
  | some injection =>
    simp only [Dict.contains, hfound, Option.isSome_some, if_true]
    exact (Steady.enter _ _ pos (growing_exec n injection.body)).records m

/-- A statement registers what its own visits say, whichever statement it is. -/
theorem records_execStep (stmt : Stmt) (m : Machine) :
    Records (.statement n stmt m :: stmtVisits n inner stmt m) m
      (execStep (eval n) (exec n) n stmt m) := by
  by_cases hs : stmt.isSimple = true
  · exact records_simple hs m
  · cases stmt with
    | cond branches otherwise pos =>
      exact (records_execBranches hinner otherwise branches m).cons rfl rfl
    | loop init test update body pos =>
      refine Records.cons ?_ rfl rfl
      refine (records_runClause init m).bind fun _ m' _ => ?_
      exact records_execRounds hinner test update body n m'
    | block name body pos => exact (records_runBlock hinner name body pos m).cons rfl rfl
    | inject name body pos =>
      refine ⟨⟨rfl, trivial⟩, ?_⟩
      intro flow m' hend
      obtain ⟨a, m₁, hrun, hend⟩ := bind_eq_done_iff.mp hend
      cases hend
      obtain ⟨function, -, -, rfl⟩ := registerInjection_eq_done_iff.mp hrun
      rfl
    | _ => exact absurd rfl hs

theorem records_execEach (body : List Stmt) (m : Machine) :
    Records (bodyVisits n inner body m) m
      (execEach (execStep (eval n) (exec n) n) body m) := by
  induction body generalizing m with
  | nil => exact Records.pure _ m
  | cons stmt rest ih =>
    refine (records_execStep hinner stmt m).bind ?_
    intro flow m' _
    cases flow with
    | next => exact ih m'
    | «break» pos => exact Records.pure _ m'
    | «continue» pos => exact Records.pure _ m'
    | «return» v pos => exact Records.pure _ m'

end Visits

/-- With any fuel a body registers what its visits say. -/
theorem records_exec (n : Nat) (body : List Stmt) (m : Machine) :
    Records (visits n body m) m (exec n body m) := by
  induction n generalizing body m with
  | zero => exact ⟨trivial, fun _ _ hend => by cases hend⟩
  | succ n ih => exact records_execEach ih body m

/-- A visit begins in the frame of the run with all earlier registrations made. -/
theorem visit_frame {n : Nat} {body : List Stmt} {m : Machine} {before after : List Visit}
    {visit : Visit} (h : visits n body m = before ++ visit :: after) :
    visit.start.frame = m.frame.registerAll (registrations before) := by
  have hfollows := (records_exec n body m).follows
  rw [h, follows_append] at hfollows
  exact hfollows.2.1

end Eval

end Stencil
