import Stencil.Proofs.Diagnostic.Readings

/-!
Programs that dance. A danced program works on the store of its caller, and functions
that the caller hands it are the caller's own; but whatever runs, runs in the context
of the dance, and the caller takes back its own context and frame. The caller learns
what was printed and what went wrong from the result alone. An exit is the exception:
it ends the caller too, after the output of the dance has been handed on, and so ends
whatever the caller itself is danced by.
-/

namespace Stencil

/-- How a computation has ended that did not run out of fuel: in which machine, and with
which failure. -/
def Outcome.ending? {α : Type} : Outcome α → Option (Machine × Option Diagnostic)
  | .done _ m => some (m, none)
  | .fail d m => some (m, some d)
  | .starved _ => none

namespace Machine

def dance (m : Machine) (ex : Executor) (text : String) (names : Dict Value) : Outcome Unit :=
  match Program.ofSource text with
  | .ok program => (ex program >>= Eval.settle) (m.danced names)
  | .error d => .fail d (m.danced names)

/-- The arguments of a dance are a text and perhaps a dict of variables. -/
def HandsOver (m : Machine) (args : List Value) (text : String) (names : Dict Value) : Prop :=
  ∃ code rest, args = code :: rest ∧ m.store.get code = .str text ∧
    (rest = [] ∧ names = .empty ∨ ∃ v more, rest = v :: more ∧ m.store.get v = .dict names)

end Machine

namespace Eval

/-- The variables of a dance are those of a dict, if there is one. -/
theorem danceNames_eq {m : Machine} {rest : List Value} {names : Dict Value}
    (h : rest = [] ∧ names = .empty ∨ ∃ v more, rest = v :: more ∧ m.store.get v = .dict names)
    (pos : Position) : danceNames rest pos m = .done names m := by
  rcases h with ⟨rfl, rfl⟩ | ⟨v, more, rfl, hget⟩
  · rfl
  · have hload : load v m = .done (.dict names) m := by rw [← hget]; rfl
    exact bind_of_done hload _

/-- The caller gets back all but the store. -/
theorem danceSource_eq {ex : Executor} {m inner : Machine} {text : String} {names : Dict Value}
    {failure : Option Diagnostic} (h : (m.dance ex text names).ending? = some (inner, failure)) :
    danceSource ex text names m =
      .done ⟨inner.context, failure⟩ { m with store := inner.store } := by
  unfold Machine.dance at h
  split at h
  · next program hparse =>
    rw [danceSource_of_ok hparse]
    cases hrun : (ex program >>= settle) (m.danced names) with
    | done a inner' =>
      rw [hrun] at h
      cases h
      rfl
    | fail d inner' =>
      rw [hrun] at h
      cases h
      rfl
    | starved inner' =>
      rw [hrun] at h
      cases h
  · next d hparse =>
    cases h
    exact danceSource_of_error hparse ex names m

/-- A dance comes to what follows the danced run, in the caller's own frame and context. -/
theorem dance_eq {ex : Executor} {m inner : Machine} {args : List Value} {text : String}
    {names : Dict Value} {failure : Option Diagnostic} (hargs : m.HandsOver args text names)
    (h : (m.dance ex text names).ending? = some (inner, failure)) (pos : Position) :
    dance ex args pos m =
      (match failure with
        | some ⟨.exit status, place, trace⟩ =>
          exitToo ⟨inner.context, failure⟩ ⟨.exit status, place, trace⟩ pos
        | _ => do
          let out ← make (.str inner.context.out)
          let complaint ← make (Apart.complaint ⟨inner.context, failure⟩)
          make (.array #[out, complaint])) { m with store := inner.store } := by
  obtain ⟨code, rest, rfl, hcode, hrest⟩ := hargs
  have hload : load code m = .done (.str text) m := by rw [← hcode]; rfl
  unfold dance
  dsimp only
  rw [bind_of_done hload]
  change (danceNames rest pos >>= _) m = _
  refine (bind_of_done (danceNames_eq hrest pos) _).trans ?_
  refine (bind_of_done (danceSource_eq h) _).trans ?_
  rcases failure with _ | ⟨cause, place, trace⟩
  · rfl
  · cases cause <;> rfl

/-- The exit goes on after what the dance has printed. -/
theorem exitToo_eq (apart : Apart) (d : Diagnostic) (pos : Position) (m : Machine) :
    ∃ d', d'.cause = d.cause ∧ exitToo apart d pos m =
      .fail d' { m with
        context := { m.context with
          out := m.context.out ++ apart.context.out
          err := m.context.err ++ apart.context.err } } :=
  ⟨Machine.pass
    { m with context := (m.context.writeOut apart.context.out).writeErr apart.context.err } d pos,
    rfl, rfl⟩

/-- What the result of a dance holds. -/
theorem makePair_eq (first second : Object) (m : Machine) :
    ∃ result a b store,
      (do
        let x ← make first
        let y ← make second
        make (.array #[x, y])) m = .done result { m with store := store } ∧
      store.get result = .array #[a, b] ∧ store.get a = first ∧ store.get b = second := by
  let s₁ := (m.store.alloc first).2
  let s₂ := (s₁.alloc second).2
  let a : Value := ⟨m.store.objects.size⟩
  let b : Value := ⟨s₁.objects.size⟩
  have hb : b.index < s₂.objects.size := by
    rw [Store.size_alloc]
    exact Nat.lt_succ_self _
  have ha : a.index < s₁.objects.size := by
    rw [Store.size_alloc]
    exact Nat.lt_succ_self _
  refine ⟨⟨s₂.objects.size⟩, a, b, (s₂.alloc (.array #[a, b])).2, rfl, ?_, ?_, ?_⟩
  · exact s₂.get_alloc_self _
  · rw [s₂.get_alloc_of_lt _ (Nat.lt_trans ha hb), s₁.get_alloc_of_lt _ ha]
    exact m.store.get_alloc_self _
  · rw [s₂.get_alloc_of_lt _ hb]
    exact s₁.get_alloc_self _

/-- A dance that does not end in an exit makes its result of what was printed and of what
went wrong. -/
theorem dance_of_not_exit {ex : Executor} {m inner : Machine} {args : List Value} {text : String}
    {names : Dict Value} {failure : Option Diagnostic} (hargs : m.HandsOver args text names)
    (h : (m.dance ex text names).ending? = some (inner, failure))
    (hexit : failure.bind Diagnostic.exitStatus? = none) (pos : Position) :
    dance ex args pos m = (do
      let out ← make (.str inner.context.out)
      let complaint ← make (Apart.complaint ⟨inner.context, failure⟩)
      make (.array #[out, complaint])) { m with store := inner.store } := by
  rw [dance_eq hargs h pos]
  rcases failure with _ | ⟨cause, place, trace⟩
  · rfl
  · cases cause with
    | exit status => cases hexit
    | _ => rfl

/-- The exit of a dance goes on. -/
theorem dance_of_exit {ex : Executor} {m inner : Machine} {args : List Value} {text : String}
    {names : Dict Value} {failure : Option Diagnostic} (hargs : m.HandsOver args text names)
    (h : (m.dance ex text names).ending? = some (inner, failure)) {status : Int32}
    (hexit : failure.bind Diagnostic.exitStatus? = some status) (pos : Position) :
    ∃ d, d.exitStatus? = some status ∧ dance ex args pos m =
      .fail d { m with
        store := inner.store
        context := { m.context with
          out := m.context.out ++ inner.context.out
          err := m.context.err ++ inner.context.err } } := by
  rw [dance_eq hargs h pos]
  rcases failure with _ | ⟨cause, place, trace⟩
  · cases hexit
  · cases cause with
    | exit code =>
      obtain rfl : code = status := Option.some.inj hexit
      obtain ⟨d, hcause, hrun⟩ := exitToo_eq ⟨inner.context, some ⟨.exit code, place, trace⟩⟩
        ⟨.exit code, place, trace⟩ pos { m with store := inner.store }
      exact ⟨d, congrArg Cause.exitStatus? hcause, hrun⟩
    | _ => cases hexit

/-- A dance leaves no trace in the caller's context and frame: its output, and its failure if
it has one, make up the result. Only an exit goes on through the caller, whose output grows
by that of the dance. The caller may itself be danced, and the exit may have come through
dances inside this one. -/
theorem dance_apart_from_caller (fuel : Nat) (m inner : Machine) (args : List Value)
    (text : String) (names : Dict Value) (failure : Option Diagnostic) (pos : Position)
    (hargs : m.HandsOver args text names)
    (hends : (m.dance (exec fuel) text names).ending? = some (inner, failure)) :
    (failure.bind Diagnostic.exitStatus? = none →
      ∃ result out complaint store,
        callBuiltin (exec fuel) .dance args pos m = .done result { m with store := store } ∧
        store.get result = .array #[out, complaint] ∧
        store.get out = .str inner.context.out ∧
        store.get complaint = match failure with
          | none => if inner.context.err = "" then .nil else .str inner.context.err
          | some d => .str (inner.context.err ++ d.message)) ∧
    ∀ status, failure.bind Diagnostic.exitStatus? = some status →
      ∃ d store, d.exitStatus? = some status ∧
        callBuiltin (exec fuel) .dance args pos m = .fail d { m with
          store := store
          context := { m.context with
            out := m.context.out ++ inner.context.out
            err := m.context.err ++ inner.context.err } } := by
  have hdance : callBuiltin (exec fuel) .dance args pos m = dance (exec fuel) args pos m := rfl
  rw [hdance]
  constructor
  · intro hexit
    rw [dance_of_not_exit hargs hends hexit pos]
    obtain ⟨result, out, complaint, store, hrun, hresult, hout, hcomplaint⟩ :=
      makePair_eq (.str inner.context.out) (Apart.complaint ⟨inner.context, failure⟩)
        { m with store := inner.store }
    refine ⟨result, out, complaint, store, hrun, hresult, hout, hcomplaint.trans ?_⟩
    cases failure with
    | none => simp only [Apart.complaint, String.isEmpty_iff]
    | some d => rfl
  · intro status hexit
    obtain ⟨d, hstatus, hrun⟩ := dance_of_exit hargs hends hexit pos
    exact ⟨d, inner.store, hstatus, hrun⟩

/-! A dance in a dance exits. -/

namespace Encore

def text : String := "b\x7b@ dance(\"c\x7b@ exit(3) @\x7d\") @\x7dd"

def caller : Machine :=
  let session := (Session.start ⟨[], .empty⟩ "" .lf .none).modifyContext (·.writeOut "a")
  let m := session.machine none
  { m with store := (m.store.alloc (.str text)).2 }

def code : Value := ⟨caller.store.objects.size - 1⟩

theorem handsOver : caller.HandsOver [code] text .empty :=
  ⟨code, [], rfl, rfl, .inl ⟨rfl, rfl⟩⟩

/-- The danced program has an exit of its own, with the output of both. -/
theorem ending_dance :
    ((caller.dance (exec 9) text .empty).ending?.map fun (inner, failure) =>
      (inner.context.out, inner.context.err, failure.bind Diagnostic.exitStatus?)) =
      some ("bc", "", some 3) := by decide +kernel

/-- The exit goes on through the dance that danced it, and the output is kept. -/
theorem dance_exits_with_caller : ∃ d m',
    callBuiltin (exec 9) .dance [code] .start caller = .fail d m' ∧
      d.exitStatus? = some 3 ∧ m'.context.out = "abc" := by
  obtain ⟨⟨inner, failure⟩, hends, hfacts⟩ := Option.map_eq_some_iff.mp ending_dance
  simp only [Prod.mk.injEq] at hfacts
  obtain ⟨hout, -, hexit⟩ := hfacts
  obtain ⟨d, store, hstatus, hrun⟩ :=
    (dance_apart_from_caller 9 caller inner [code] text .empty failure .start handsOver hends).2
      3 hexit
  refine ⟨d, _, hrun, hstatus, ?_⟩
  have hbefore : caller.context.out = "a" := rfl
  simp only [hout, hbefore]
  rfl

end Encore

end Eval

end Stencil
