import Mathlib.Data.List.Range
import Mathlib.Data.Nat.Find
import Stencil.Options
import Stencil.Proofs.Dict

/-!
What becomes of the arguments of a program. The place of an argument decides its role: all
that start with a hyphen are flags, apart from the program's name; what follows a flag and
is none is its value; and everything else is positional. Reading keeps the positional
arguments in their order and binds every flag to its value, so that the last flag of a
name decides. The invariant says what has been read up to a place: the flag that stands
there is still to be bound.
-/

namespace Stencil.Options

/-- An argument that is a flag of a name: the name is the text after two leading hyphens,
or else after one. -/
def IsFlag (arg name : String) : Prop :=
  arg = "--" ++ name ∨ arg = "-" ++ name ∧ ∀ rest, arg ≠ "--" ++ rest

/-- A flag of a name stands at a place. The first argument is the program's name. -/
def FlagAt (argv : List String) (i : Nat) (name : String) : Prop :=
  0 < i ∧ ∃ arg, argv[i]? = some arg ∧ IsFlag arg name

inductive Role
  | flag
  | value
  | positional
deriving DecidableEq

def isHyphened (argv : List String) (i : Nat) : Bool :=
  i != 0 && argv[i]?.any (·.toList.head? == some '-')

/-- What an argument is, by where it stands. -/
def roleAt (argv : List String) (i : Nat) : Role :=
  if isHyphened argv i then .flag
  else if isHyphened argv (i - 1) then .value
  else .positional

def positionalsBelow (argv : List String) (n : Nat) : List String :=
  (List.range n).filterMap fun i => if roleAt argv i = .positional then argv[i]? else .none

def valueAt (argv : List String) (i : Nat) : String :=
  if roleAt argv (i + 1) = .value then argv[i + 1]?.getD "" else ""

def nameAt (argv : List String) (i : Nat) : Option String :=
  if i = 0 then .none else argv[i]?.bind flag?

def boundBelow (argv : List String) : Nat → Dict String
  | 0 => .empty
  | n + 1 =>
    match nameAt argv n with
    | some name => (boundBelow argv n).insert name (valueAt argv n)
    | .none => boundBelow argv n

variable {argv : List String} {arg name value : String} {i n : Nat}

/-! IsFlag. -/

/-- A flag is read as the name that its hyphens leave. -/
theorem flag?_eq_some_iff : flag? arg = some name ↔ IsFlag arg name := by
  have htwo : ∀ rest, arg = "--" ++ rest ↔ arg.toList = '-' :: '-' :: rest.toList := by
    intro rest
    rw [← String.toList_inj, String.toList_append]
    rfl
  have hone : arg = "-" ++ name ↔ arg.toList = '-' :: name.toList := by
    rw [← String.toList_inj, String.toList_append]
    rfl
  simp only [IsFlag, ne_eq, htwo, hone]
  unfold flag?
  split
  · next rest hlist =>
    have hname : rest = name.toList ↔ String.ofList rest = name := by
      rw [← String.toList_inj, String.toList_ofList]
    simp only [hlist, List.cons.injEq, true_and, Option.some.injEq, ← hname]
    refine ⟨.inl, ?_⟩
    rintro (h | ⟨-, h⟩)
    · exact h
    · exact absurd (String.toList_ofList (l := rest)).symm (h (String.ofList rest))
  · next rest htwo hlist =>
    have hname : rest = name.toList ↔ String.ofList rest = name := by
      rw [← String.toList_inj, String.toList_ofList]
    simp only [hlist, List.cons.injEq, true_and, Option.some.injEq, ← hname]
    constructor
    · intro h
      exact .inr ⟨h, fun other hrest => htwo other.toList (by rw [hrest])⟩
    · rintro (h | ⟨h, -⟩)
      · exact absurd (by rw [h]) (htwo name.toList)
      · exact h
  · next htwo hone =>
    refine iff_of_false nofun ?_
    rintro (h | ⟨h, -⟩)
    · exact htwo _ h
    · exact hone _ h

theorem isSome_flag? (arg : String) : (flag? arg).isSome = (arg.toList.head? == some '-') := by
  unfold flag?
  split
  · next hlist => rw [hlist]; rfl
  · next hlist => rw [hlist]; rfl
  · next hone =>
    cases hlist : arg.toList with
    | nil => rfl
    | cons c rest =>
      have hc : c ≠ '-' := fun hc => hone rest (hc ▸ hlist)
      simp [hc]

theorem nameAt_eq_some_iff : nameAt argv i = some name ↔ FlagAt argv i name := by
  unfold nameAt FlagAt
  split
  · next hi => exact iff_of_false nofun fun h => absurd h.1 (by omega)
  · next hi =>
    rw [Option.bind_eq_some_iff]
    simp only [flag?_eq_some_iff, Nat.pos_of_ne_zero hi, true_and]

theorem lt_length_of_nameAt (h : nameAt argv i = some name) : i < argv.length := by
  obtain ⟨-, arg, harg, -⟩ := nameAt_eq_some_iff.mp h
  exact (List.getElem?_eq_some_iff.mp harg).1

theorem isHyphened_eq (argv : List String) (i : Nat) :
    isHyphened argv i = (nameAt argv i).isSome := by
  unfold isHyphened nameAt
  split
  · next hi => simp [hi]
  · next hi =>
    cases argv[i]? with
    | none => simp
    | some arg => simp [hi, isSome_flag?]

theorem roleAt_of_some (h : nameAt argv i = some name) : roleAt argv i = .flag := by
  rw [roleAt, isHyphened_eq, h]
  rfl

theorem roleAt_succ_of_none (h : nameAt argv (n + 1) = .none) :
    roleAt argv (n + 1) = if (nameAt argv n).isSome then .value else .positional := by
  rw [roleAt, isHyphened_eq, h, Nat.add_sub_cancel, isHyphened_eq]
  rfl

theorem isHyphened_iff : isHyphened argv i = true ↔ ∃ name, FlagAt argv i name := by
  simp only [isHyphened_eq, Option.isSome_iff_exists, nameAt_eq_some_iff]

/-- A flag is an argument with a name. -/
theorem roleAt_eq_flag_iff : roleAt argv i = .flag ↔ ∃ name, FlagAt argv i name := by
  rw [← isHyphened_iff]
  unfold roleAt
  split
  · next h => simp [h]
  · next h =>
    simp only [h]
    split
    · simp
    · simp

/-- A value is an argument behind a flag that is none itself. -/
theorem roleAt_eq_value_iff : roleAt argv i = .value ↔
    (¬∃ name, FlagAt argv i name) ∧ ∃ name, FlagAt argv (i - 1) name := by
  rw [← isHyphened_iff, ← isHyphened_iff]
  unfold roleAt
  split
  · next h => simp [h]
  · next h =>
    split
    · next hbefore => simp [h, hbefore]
    · next hbefore => simp [hbefore]

/-! The table of the flags. -/

/-- A name is bound to the value of its last flag. -/
theorem get?_boundBelow (argv : List String) (n : Nat) (name value : String) :
    (boundBelow argv n).get? name = some value ↔
      ∃ i, i < n ∧ nameAt argv i = some name ∧
        (∀ j, i < j → j < n → nameAt argv j ≠ some name) ∧ value = valueAt argv i := by
  induction n with
  | zero =>
    refine iff_of_false nofun ?_
    rintro ⟨i, hi, -⟩
    exact absurd hi (Nat.not_lt_zero i)
  | succ n ih =>
    by_cases hlatest : nameAt argv n = some name
    · have htable : (boundBelow argv (n + 1)).get? name = some (valueAt argv n) := by
        simp only [boundBelow, hlatest, Dict.get?_insert, if_true]
      rw [htable, Option.some.injEq]
      constructor
      · intro hvalue
        exact ⟨n, by omega, hlatest, fun j hnj hj => absurd hj (by omega), hvalue.symm⟩
      · rintro ⟨i, hi, -, hlast, rfl⟩
        have hin : ¬i < n := fun hin => hlast n hin (by omega) hlatest
        rw [show i = n by omega]
    · have htable : (boundBelow argv (n + 1)).get? name = (boundBelow argv n).get? name := by
        rw [boundBelow]
        split
        · next other hother =>
          have hne : name ≠ other := fun heq => hlatest (heq ▸ hother)
          rw [Dict.get?_insert, if_neg hne]
        · rfl
      rw [htable, ih]
      constructor
      · rintro ⟨i, hi, hname, hlast, hvalue⟩
        refine ⟨i, by omega, hname, fun j hij hj => ?_, hvalue⟩
        by_cases hjn : j = n
        · rwa [hjn]
        · exact hlast j hij (by omega)
      · rintro ⟨i, hi, hname, hlast, hvalue⟩
        have hin : i ≠ n := fun hin => hlatest (hin ▸ hname)
        exact ⟨i, by omega, hname, fun j hij hj => hlast j hij (by omega), hvalue⟩

/-! Reading. -/

/-- What has been read once the argument at a place has been looked at: the flags before it
are bound, and a flag there is pending. -/
structure ReadTo (argv : List String) (n : Nat) (o : Options) (pending : Option String) :
    Prop where
  positionals_eq : o.positionals = positionalsBelow argv (n + 1)
  flags_eq : o.flags = boundBelow argv n
  pending_eq : pending = nameAt argv n

section Step

variable {o : Options} {pending : Option String}

theorem nameAt_succ (harg : argv[n + 1]? = some arg) : nameAt argv (n + 1) = flag? arg := by
  rw [nameAt, if_neg (Nat.succ_ne_zero n), harg]
  rfl

/-- Each positional argument comes after those before it. -/
theorem positionalsBelow_succ (argv : List String) (n : Nat) :
    positionalsBelow argv (n + 1) = positionalsBelow argv n ++
      (if roleAt argv n = .positional then argv[n]? else .none).toList := by
  rw [positionalsBelow, List.range_succ, List.filterMap_append]
  rw [List.filterMap_cons]
  split
  · next h => rw [h]; rfl
  · next h => rw [h]; rfl

/-- The program's name is the first argument. -/
theorem ReadTo.first (program : String) (rest : List String) :
    ReadTo (program :: rest) 0 (none.addPositional program) .none where
  positionals_eq := rfl
  flags_eq := rfl
  pending_eq := rfl

/-- The next argument settles what becomes of a pending flag, and may be pending itself. -/
theorem ReadTo.step (h : ReadTo argv n o pending) (harg : argv[n + 1]? = some arg)
    (rest : List String) :
    ∃ o', readFrom o pending (arg :: rest) = readFrom o' (flag? arg) rest ∧
      ReadTo argv (n + 1) o' (flag? arg) := by
  obtain ⟨hpositionals, hflags, hpending⟩ := h
  have hname := nameAt_succ harg
  cases hflag : flag? arg with
  | some name =>
    have hrole : roleAt argv (n + 1) = .flag := roleAt_of_some (hname.trans hflag)
    have hvalue : valueAt argv n = "" := by rw [valueAt, hrole]; rfl
    cases pending with
    | some previous =>
      refine ⟨o.setFlag previous "", by simp [readFrom, hflag], ?_, ?_, by rw [hname, hflag]⟩
      · rw [positionalsBelow_succ, hrole]
        simp [setFlag, hpositionals]
      · simp [setFlag, boundBelow, ← hpending, hflags, hvalue]
    | none =>
      refine ⟨o, by simp [readFrom, hflag], ?_, ?_, by rw [hname, hflag]⟩
      · rw [positionalsBelow_succ, hrole]
        simp [hpositionals]
      · simp [boundBelow, ← hpending, hflags]
  | none =>
    cases pending with
    | some previous =>
      have hrole : roleAt argv (n + 1) = .value := by
        rw [roleAt_succ_of_none (hname.trans hflag), ← hpending]
        rfl
      have hvalue : valueAt argv n = arg := by rw [valueAt, hrole, harg]; rfl
      refine ⟨o.setFlag previous arg, by simp [readFrom, hflag], ?_, ?_, by rw [hname, hflag]⟩
      · rw [positionalsBelow_succ, hrole]
        simp [setFlag, hpositionals]
      · simp [setFlag, boundBelow, ← hpending, hflags, hvalue]
    | none =>
      have hrole : roleAt argv (n + 1) = .positional := by
        rw [roleAt_succ_of_none (hname.trans hflag), ← hpending]
        rfl
      refine ⟨o.addPositional arg, by simp [readFrom, hflag], ?_, ?_, by rw [hname, hflag]⟩
      · rw [positionalsBelow_succ, hrole]
        simp [addPositional, hpositionals, harg]
      · simp [addPositional, boundBelow, ← hpending, hflags]

/-- At the end a pending flag is bound to the empty value. -/
theorem ReadTo.finish (h : ReadTo argv n o pending) (hend : argv[n + 1]? = .none) :
    readFrom o pending [] =
      ⟨boundBelow argv (n + 1), positionalsBelow argv (n + 1)⟩ := by
  obtain ⟨hpositionals, hflags, hpending⟩ := h
  have hvalue : valueAt argv n = "" := by
    rw [valueAt, hend]
    exact ite_self ""
  cases pending with
  | some previous => simp [readFrom, setFlag, boundBelow, ← hpending, hflags, hpositionals, hvalue]
  | none =>
    rw [readFrom, boundBelow, ← hpending, ← hflags, ← hpositionals]

/-- Reading goes on to the end from any place. -/
theorem ReadTo.readFrom {rest : List String} (h : ReadTo argv n o pending)
    (hn : n < argv.length) (hrest : argv.drop (n + 1) = rest) :
    Options.readFrom o pending rest =
      ⟨boundBelow argv argv.length, positionalsBelow argv argv.length⟩ := by
  induction rest generalizing n o pending with
  | nil =>
    have hlength : argv.length = n + 1 := by
      have := List.drop_eq_nil_iff.mp hrest
      omega
    rw [hlength]
    exact h.finish (List.getElem?_eq_none (Nat.le_of_eq hlength))
  | cons arg rest ih =>
    have harg : argv[n + 1]? = some arg := by
      rw [← List.head?_drop, hrest, List.head?_cons]
    obtain ⟨o', hstep, h'⟩ := h.step harg rest
    rw [hstep]
    refine ih h' (List.getElem?_eq_some_iff.mp harg).1 ?_
    rw [← List.tail_drop, hrest, List.tail_cons]

end Step

/-- Everything that is read, by place. -/
theorem ofArgs_eq (argv : List String) :
    ofArgs argv = ⟨boundBelow argv argv.length, positionalsBelow argv argv.length⟩ := by
  cases argv with
  | nil => rfl
  | cons program rest => exact (ReadTo.first program rest).readFrom (by simp) rfl

/-- The program's name is the first positional argument. -/
theorem head?_positionalsBelow (program : String) (rest : List String) (n : Nat) :
    (positionalsBelow (program :: rest) (n + 1)).head? = some program := by
  induction n with
  | zero => rfl
  | succ n ih => rw [positionalsBelow_succ, List.head?_append, ih, Option.some_or]

/-- The positional arguments are counted by their role. -/
theorem length_positionalsBelow (argv : List String) (hn : n ≤ argv.length) :
    (positionalsBelow argv n).length =
      (List.range n).countP (roleAt argv · = .positional) := by
  induction n with
  | zero => rfl
  | succ n ih =>
    rw [positionalsBelow_succ, List.length_append, ih (by omega), List.range_succ,
      List.countP_append, List.countP_singleton]
    by_cases hrole : roleAt argv n = .positional
    · simp [hrole, List.getElem?_eq_getElem hn]
    · simp [hrole]

/-- A name that has a flag has a last one. -/
theorem exists_last (h : ∃ i, FlagAt argv i name) :
    ∃ i, FlagAt argv i name ∧ ∀ j, i < j → ¬FlagAt argv j name := by
  classical
  obtain ⟨i, hi⟩ := h
  have hbound : ∀ {j}, FlagAt argv j name → j ≤ argv.length := fun hj =>
    Nat.le_of_lt (lt_length_of_nameAt (nameAt_eq_some_iff.mpr hj))
  refine ⟨Nat.findGreatest (FlagAt argv · name) argv.length,
    Nat.findGreatest_spec (P := (FlagAt argv · name)) (hbound hi) hi, fun j hij hj => ?_⟩
  exact Nat.findGreatest_is_greatest hij (hbound hj) hj

/-- The last flag of a name decides. -/
theorem get?_ofArgs (argv : List String) (name value : String) :
    (ofArgs argv).get? name = some value ↔
      ∃ i, FlagAt argv i name ∧ (∀ j, i < j → ¬FlagAt argv j name) ∧
        value = valueAt argv i := by
  rw [ofArgs_eq, get?, get?_boundBelow]
  simp only [← nameAt_eq_some_iff]
  constructor
  · rintro ⟨i, -, hname, hlast, hvalue⟩
    exact ⟨i, hname, fun j hij hj => hlast j hij (lt_length_of_nameAt hj) hj, hvalue⟩
  · rintro ⟨i, hname, hlast, hvalue⟩
    exact ⟨i, lt_length_of_nameAt hname, hname, fun j hij _ => hlast j hij, hvalue⟩

theorem has_ofArgs (argv : List String) (name : String) :
    (ofArgs argv).has name = true ↔ ∃ i, FlagAt argv i name := by
  have hhas : (ofArgs argv).has name = true ↔ ∃ value, (ofArgs argv).get? name = some value :=
    Option.isSome_iff_exists
  simp only [hhas, get?_ofArgs]
  constructor
  · rintro ⟨value, i, hflag, -⟩
    exact ⟨i, hflag⟩
  · intro hflag
    obtain ⟨i, hi, hlast⟩ := exists_last hflag
    exact ⟨valueAt argv i, i, hi, hlast, rfl⟩

theorem positional?_zero_ofArgs (argv : List String) :
    (ofArgs argv).positional? 0 = argv[0]? := by
  cases argv with
  | nil => rfl
  | cons program rest =>
    rw [ofArgs_eq, positional?, if_neg (by decide)]
    exact List.head?_eq_getElem?.symm.trans (head?_positionalsBelow program rest rest.length)

/-- Every argument is accounted for by its role: the flags are the arguments with a name, the
values follow a flag and are none, and all others are positional. The positional arguments
are kept in their order, the program's name first. A name is bound if there is a flag of this
name, and then to the value of the last one. -/
theorem arguments_accounted_for (argv : List String) :
    (∀ i, roleAt argv i = .flag ↔ ∃ name, FlagAt argv i name) ∧
    (∀ i, roleAt argv i = .value ↔
      (¬∃ name, FlagAt argv i name) ∧ ∃ name, FlagAt argv (i - 1) name) ∧
    (ofArgs argv).positional? 0 = argv[0]? ∧
    (ofArgs argv).positionals = positionalsBelow argv argv.length ∧
    (ofArgs argv).positionalCount =
      (List.range argv.length).countP (roleAt argv · = .positional) ∧
    (∀ name, (ofArgs argv).has name = true ↔ ∃ i, FlagAt argv i name) ∧
    ∀ name value, (ofArgs argv).get? name = some value ↔
      ∃ i, FlagAt argv i name ∧ (∀ j, i < j → ¬FlagAt argv j name) ∧
        value = valueAt argv i := by
  have hpositionals : (ofArgs argv).positionals = positionalsBelow argv argv.length := by
    rw [ofArgs_eq]
  refine ⟨fun i => roleAt_eq_flag_iff, fun i => roleAt_eq_value_iff, positional?_zero_ofArgs argv,
    hpositionals, ?_, has_ofArgs argv, get?_ofArgs argv⟩
  rw [positionalCount, hpositionals, length_positionalsBelow argv (Nat.le_refl _)]

example : ofArgs ["run", "a", "--k", "v", "b", "-k", "--"] =
    ⟨.ofList [("k", ""), ("", "")], ["run", "a", "b"]⟩ := rfl

end Stencil.Options
