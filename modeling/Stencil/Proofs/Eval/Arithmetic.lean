import Mathlib.Data.Int.ModEq
import Stencil.Proofs.Place.Lookup

/-!
Arithmetic on whole numbers. An expression of sums, differences, products and minus signs
has an exact value, in which truth values count as zero and one and the operators of a
level apply from left to right. What evaluation has at each point is the exact value of
that point, reduced to 64 bits, since the reduction agrees with these operators; it makes
objects on the way and does nothing else, so that names keep their values. A quotient is
cut off toward zero. Only the quotient of the least number by minus one does not fit.
-/

namespace Stencil

def ArithOp.exactly? (op : ArithOp) (x y : Int) : Option Int :=
  match op with
  | .add => some (x + y)
  | .sub => some (x - y)
  | .mul => some (x * y)
  | .div | .mod => none

namespace Expr

mutual

/-- The exact value of an expression over numbers, truth values and names. -/
def exactly? (names : String → Option Int) : Expr → Option Int
  | .int value => some value.toInt
  | .bool value => some (if value then 1 else 0)
  | .ident name _ => names name
  | .negative operand _ => do return -(← exactly? names operand)
  | .arith first rest => do exactFold? names (← exactly? names first) rest
  | _ => none

def exactFold? (names : String → Option Int) (x : Int) :
    List (ArithOp × Expr × Position) → Option Int
  | [] => some x
  | (op, operand, _) :: rest => do
    let y ← exactly? names operand
    exactFold? names (← op.exactly? x y) rest

end

mutual

def height : Expr → Nat
  | .negative operand _ => height operand + 1
  | .arith first rest => max (height first) (heightAll rest) + 1
  | _ => 1

def heightAll : List (ArithOp × Expr × Position) → Nat
  | [] => 0
  | (_, operand, _) :: rest => max (height operand) (heightAll rest)

end

def hasOperator : Expr → Bool
  | .negative .. => true
  | .arith first rest => hasOperator first || !rest.isEmpty
  | _ => false

theorem height_pos (e : Expr) : 0 < e.height := by
  cases e with
  | _ => simp [height]

theorem height_le_heightAll {rest : List (ArithOp × Expr × Position)}
    {step : ArithOp × Expr × Position} (h : step ∈ rest) : step.2.1.height ≤ heightAll rest := by
  induction rest with
  | nil => cases h
  | cons first rest ih =>
    obtain ⟨op, operand, pos⟩ := first
    rw [heightAll]
    rcases List.mem_cons.mp h with rfl | h
    · exact Nat.le_max_left ..
    · exact Nat.le_trans (ih h) (Nat.le_max_right ..)

end Expr

def Store.adding (s : Store) (made : Array Object) : Store :=
  { s with objects := s.objects ++ made }

namespace Machine

def whole? (m : Machine) (name : String) : Option Int :=
  (m.bound? name).bind fun v => (m.store.get v).int?.map Int64.toInt

def adding (m : Machine) (made : Array Object) : Machine :=
  { m with store := m.store.adding made }

def Gives (m : Machine) (names : String → Option Int) : Prop :=
  ∀ name x, names name = some x → m.whole? name = some x

end Machine

section Adding

variable {s : Store} {m : Machine} {made more : Array Object} {v : Value}

@[simp]
theorem Store.adding_empty : s.adding #[] = s := by
  rw [adding, Array.append_empty]

theorem Store.adding_adding : (s.adding made).adding more = s.adding (made ++ more) := by
  simp only [adding, Array.append_assoc]

theorem Store.get_adding (hv : v.index < s.objects.size) : (s.adding made).get v = s.get v := by
  simp [get, adding, Array.getElem?_append_left hv]

/-- Adding objects changes none of the others. -/
theorem Store.extends_adding (s : Store) (made : Array Object) : s.Extends (s.adding made) where
  objects_le := by simp [adding]
  scopes_le := Nat.le_refl _
  get_eq _ hv := get_adding hv
  scope_eq _ _ := rfl
  files_eq := rfl

/-- A whole number that is there stays. -/
theorem Store.int?_adding {n : Int64} (h : (s.get v).int? = some n) (made : Array Object) :
    ((s.adding made).get v).int? = some n := by
  rw [get_adding (lt_size_of_get_ne_nil fun hnil => by rw [hnil] at h; cases h), h]

@[simp]
theorem Machine.adding_empty : m.adding #[] = m := by
  rw [adding, Store.adding_empty]

theorem Machine.adding_adding : (m.adding made).adding more = m.adding (made ++ more) := by
  simp only [adding, Store.adding_adding]

/-- Variables keep their values when objects are made. -/
theorem Machine.Gives.adding {names : String → Option Int} (h : m.Gives names)
    (made : Array Object) : (m.adding made).Gives names := by
  intro name x hname
  obtain ⟨v, hbound, hv⟩ := Option.bind_eq_some_iff.mp (h name x hname)
  obtain ⟨n, hn, hx⟩ := Option.map_eq_some_iff.mp hv
  refine Option.bind_eq_some_iff.mpr ⟨v, hbound, Option.map_eq_some_iff.mpr ⟨n, ?_, hx⟩⟩
  exact Store.int?_adding hn made

end Adding

/-! The operators at 64 bits. -/

namespace Int64Arith

/-- Reduction to 64 bits agrees with the operators that have an exact result. -/
theorem apply_ofInt {op : ArithOp} {x y z : Int} (h : op.exactly? x y = some z) :
    apply op (.ofInt x) (.ofInt y) = .ok (.ofInt z) := by
  cases op with
  | add =>
    obtain rfl := Option.some.inj h
    exact congrArg Except.ok (Int64.ofInt_add x y).symm
  | sub =>
    obtain rfl := Option.some.inj h
    exact congrArg Except.ok (Int64.ofInt_sub x y).symm
  | mul =>
    obtain rfl := Option.some.inj h
    exact congrArg Except.ok (Int64.ofInt_mul x y).symm
  | div => cases h
  | mod => cases h

/-- Only division by zero has no quotient. -/
theorem apply_div {x y : Int64} (hy : y ≠ 0) : apply .div x y = .ok (x / y) := if_neg hy

theorem apply_mod {x y : Int64} (hy : y ≠ 0) : apply .mod x y = .ok (x % y) := if_neg hy

/-- A quotient and a remainder as division at 64 bits has to give them. -/
structure Divides (x y q r : Int64) : Prop where
  recombined : q.toInt * y.toInt + r.toInt ≡ x.toInt [ZMOD 2 ^ 64]
  remainder_lt : |r.toInt| < |y.toInt|
  remainder_sign : r = 0 ∨ r.toInt.sign = x.toInt.sign
  toward_zero : ¬(x = Int64.minValue ∧ y = -1) → q.toInt = x.toInt.tdiv y.toInt
  wraps : x = Int64.minValue → y = -1 → q = Int64.minValue ∧ r = 0

/-- Division at 64 bits cuts the quotient off towards zero, and the remainder makes up for it. -/
theorem divides {x y : Int64} (hy : y ≠ 0) : Divides x y (x / y) (x % y) where
  recombined := by
    have hbase : (2 : Int) ^ 64 = ((2 ^ 64 : Nat) : Int) := rfl
    rw [Int64.toInt_div, Int64.toInt_mod]
    have hexact : x.toInt.tdiv y.toInt * y.toInt + x.toInt.tmod y.toInt = x.toInt := by
      rw [Int.mul_comm, Int.mul_tdiv_add_tmod]
    calc (x.toInt.tdiv y.toInt).bmod (2 ^ 64) * y.toInt + x.toInt.tmod y.toInt
        ≡ x.toInt.tdiv y.toInt * y.toInt + x.toInt.tmod y.toInt [ZMOD 2 ^ 64] := by
          refine Int.ModEq.add_right _ (Int.ModEq.mul_right _ ?_)
          rw [hbase]
          exact Int.bmod_emod
      _ = x.toInt := hexact
  remainder_lt := by
    have hy' : y.toInt ≠ 0 := fun h => hy (Int64.toInt_inj.mp (h.trans Int64.toInt_zero.symm))
    rw [Int64.toInt_mod, Int.abs_eq_natAbs, Int.abs_eq_natAbs, Int.natAbs_tmod]
    exact Int.ofNat_lt.mpr (Nat.mod_lt _ (Int.natAbs_pos.mpr hy'))
  remainder_sign := by
    have hsign := Int.sign_tmod x.toInt y.toInt
    rw [← Int64.toInt_mod] at hsign
    split at hsign
    · have hzero : (x % y).toInt = (0 : Int64).toInt :=
        (Int.sign_eq_zero_iff_zero.mp hsign).trans Int64.toInt_zero.symm
      exact .inl (Int64.toInt_inj.mp hzero)
    · exact .inr hsign
  toward_zero h := by
    rcases not_and_or.mp h with hx | hy
    · exact Int64.toInt_div_of_ne_left x y hx
    · exact Int64.toInt_div_of_ne_right x y hy
  wraps := by
    rintro rfl rfl
    decide

end Int64Arith

namespace Object

variable {a b : Object} {x y : Int64}

/-- Truth values count as one and zero. -/
theorem arith_whole (ha : a.int? = some x) (hb : b.int? = some y) (op : ArithOp) :
    Object.arith op a b = (Int64Arith.apply op x y).map .int := by
  cases a with
  | bool u =>
    obtain rfl := Option.some.inj ha
    cases b with
    | bool w => obtain rfl := Option.some.inj hb; cases op <;> rfl
    | int w => obtain rfl := Option.some.inj hb; cases op <;> rfl
    | _ => cases hb
  | int u =>
    obtain rfl := Option.some.inj ha
    cases b with
    | bool w => obtain rfl := Option.some.inj hb; cases op <;> rfl
    | int w => obtain rfl := Option.some.inj hb; cases op <;> rfl
    | _ => cases hb
  | _ => cases ha

theorem negate_whole (ha : a.int? = some x) : a.negate = .ok (.int (-x)) := by
  cases a with
  | bool u =>
    obtain rfl := Option.some.inj ha
    rfl
  | int u =>
    obtain rfl := Option.some.inj ha
    rfl
  | _ => cases ha

end Object

namespace Eval

variable {m : Machine} {a b : Value} {x y : Int64}

/-- A new object comes after all others. -/
theorem make_adding (object : Object) :
    make object m = .done ⟨m.store.objects.size⟩ (m.adding #[object]) := by
  simp only [make, Store.alloc, Machine.adding, Store.adding, Array.append_singleton]

theorem get_adding_self (object : Object) :
    (m.adding #[object]).store.get ⟨m.store.objects.size⟩ = object := by
  simp [Machine.adding, Store.adding, Store.get]

/-- An action that makes an object after having worked it out. -/
theorem act_makes {action : Action Value} {object : Object}
    (h : action m.store = Action.make object m.store) (pos : Position) :
    act pos action m = .done ⟨m.store.objects.size⟩ (m.adding #[object]) :=
  (act_of_ok h pos).trans (make_adding object)

/-- The negation of a whole number is a new number. -/
theorem negate_adding (ha : (m.store.get a).int? = some x) (pos : Position) :
    act pos (Value.negate a) m = .done ⟨m.store.objects.size⟩ (m.adding #[.int (-x)]) :=
  act_makes (congrArg (fun result => (Action.ofExcept result >>= Action.make) m.store)
    (Object.negate_whole ha)) pos

section Operator

variable {op : ArithOp} (ha : (m.store.get a).int? = some x) (hb : (m.store.get b).int? = some y)

include ha hb

theorem arith_store : Value.arith op a b m.store =
    (Action.ofExcept ((Int64Arith.apply op x y).map Object.int) >>= Action.make) m.store :=
  congrArg (fun result => (Action.ofExcept result >>= Action.make) m.store)
    (Object.arith_whole ha hb op)

/-- An operator on whole numbers makes a new number, if it has a result. -/
theorem arith_adding {n : Int64} (hn : Int64Arith.apply op x y = .ok n) (pos : Position) :
    act pos (Value.arith op a b) m = .done ⟨m.store.objects.size⟩ (m.adding #[.int n]) := by
  refine act_makes ((arith_store ha hb).trans ?_) pos
  rw [hn]
  rfl

/-- Without a result nothing is made, and the fault is placed at the operator. -/
theorem arith_fail {fault : Fault} (hn : Int64Arith.apply op x y = .error fault)
    (pos : Position) : act pos (Value.arith op a b) m = fail fault pos m := by
  refine act_of_error ((arith_store ha hb).trans ?_) pos
  rw [hn]
  rfl

end Operator

/-- The evaluation makes objects only and its value is a whole number; where an operator was
applied the value is a number and no truth value. -/
def Yields (applied : Bool) (n : Int64) (m : Machine) (outcome : Outcome Value) : Prop :=
  ∃ made v, outcome = .done v (m.adding made) ∧
    ((m.adding made).store.get v).int? = some n ∧
    (applied = true → (m.adding made).store.get v = .int n)

theorem yields_make (object : Object) {n : Int64} (h : object.int? = some n) :
    Yields false n m (make object m) := by
  refine ⟨#[object], _, make_adding object, ?_, nofun⟩
  rw [get_adding_self, h]

/-- Objects may have been made before. -/
theorem Yields.of_adding {applied : Bool} {outcome : Outcome Value} (made : Array Object)
    (h : Yields applied x (m.adding made) outcome) : Yields applied x m outcome := by
  obtain ⟨more, v, hrun, hint, hget⟩ := h
  rw [Machine.adding_adding] at hrun hint hget
  exact ⟨made ++ more, v, hrun, hint, hget⟩

/-- A new number is no truth value. -/
theorem Yields.applied {n : Int64} {outcome : Outcome Value}
    (h : outcome = .done ⟨m.store.objects.size⟩ (m.adding #[.int n])) :
    Yields true n m outcome := by
  refine ⟨#[.int n], _, h, ?_, fun _ => ?_⟩
  · rw [get_adding_self]
    rfl
  · rw [get_adding_self]

/-- The operands are combined from left to right, as the exact value is, each once it has been
worked out. -/
theorem yields_combineAll {names : String → Option Int} {ev : Evaluator}
    {rest : List (ArithOp × Expr × Position)}
    (hev : ∀ step ∈ rest, ∀ {m : Machine} {x : Int}, m.Gives names →
      step.2.1.exactly? names = some x → Yields step.2.1.hasOperator (.ofInt x) m (ev step.2.1 m))
    {applied : Bool} {x z : Int} (hm : m.Gives names) (hz : Expr.exactFold? names x rest = some z)
    (ha : (m.store.get a).int? = some (.ofInt x))
    (happlied : applied = true → m.store.get a = .int (.ofInt x)) :
    Yields (applied || !rest.isEmpty) (.ofInt z) m (combineAll ev a rest m) := by
  induction rest generalizing m a x applied with
  | nil =>
    obtain rfl := Option.some.inj hz
    refine ⟨#[], a, by rw [Machine.adding_empty]; rfl, by rwa [Machine.adding_empty], ?_⟩
    rw [Machine.adding_empty]
    intro h
    exact happlied (by simpa using h)
  | cons step rest ih =>
    obtain ⟨op, operand, pos⟩ := step
    obtain ⟨y, hy, hz⟩ := Option.bind_eq_some_iff.mp hz
    obtain ⟨w, hw, hz⟩ := Option.bind_eq_some_iff.mp hz
    obtain ⟨hoperand, hrest⟩ := List.forall_mem_cons.mp hev
    obtain ⟨made, v, hrun, hv, -⟩ := hoperand hm hy
    have hstep := arith_adding (Store.int?_adding ha made) hv
      (Int64Arith.apply_ofInt hw) pos
    rw [combineAll, bind_of_done hrun, bind_of_done hstep]
    refine .of_adding made (.of_adding #[.int (.ofInt w)] ?_)
    have hget := get_adding_self (m := m.adding made) (.int (.ofInt w))
    have hall : Yields (true || !rest.isEmpty) _ _ (combineAll ev _ rest _) :=
      ih hrest ((hm.adding made).adding _) hz (by rw [hget]; rfl) fun _ => hget
    simpa using hall

/-- Evaluation finds the exact value as far as 64 bits hold it. -/
theorem yields_eval {names : String → Option Int} {fuel : Nat} {e : Expr} {x : Int}
    (hfuel : e.height ≤ fuel) (hm : m.Gives names) (hx : e.exactly? names = some x) :
    Yields e.hasOperator (.ofInt x) m (eval fuel e m) := by
  induction fuel generalizing e m x with
  | zero => exact absurd e.height_pos (by omega)
  | succ fuel ih =>
    rw [eval]
    cases e with
    | int value =>
      obtain rfl := Option.some.inj hx
      rw [Int64.ofInt_toInt]
      exact yields_make (.int value) rfl
    | bool value =>
      obtain rfl := Option.some.inj hx
      refine yields_make (.bool value) ?_
      cases value with
      | false => rfl
      | true => rfl
    | ident name pos =>
      obtain ⟨v, hbound, hv⟩ := Option.bind_eq_some_iff.mp (hm name x hx)
      obtain ⟨n, hn, rfl⟩ := Option.map_eq_some_iff.mp hv
      rw [Int64.ofInt_toInt]
      refine ⟨#[], v, ?_, by rwa [Machine.adding_empty], fun h => absurd h Bool.false_ne_true⟩
      rw [Machine.adding_empty]
      rw [evalStep, readName, bind_of_done (lookup_of_bound hbound)]
      rfl
    | negative operand pos =>
      obtain ⟨y, hy, hx⟩ := Option.bind_eq_some_iff.mp hx
      obtain rfl := Option.some.inj hx
      rw [Expr.height] at hfuel
      obtain ⟨made, v, hrun, hv, -⟩ := ih (by omega) hm hy
      rw [Int64.ofInt_neg]
      refine .of_adding made (.applied ?_)
      rw [evalStep, bind_of_done hrun]
      exact negate_adding hv pos
    | arith first rest =>
      obtain ⟨y, hy, hx⟩ := Option.bind_eq_some_iff.mp hx
      rw [Expr.height] at hfuel
      obtain ⟨made, v, hrun, hv, hget⟩ := ih (by omega) hm hy
      refine .of_adding made ?_
      rw [evalStep, bind_of_done hrun]
      refine yields_combineAll (fun step hstep _ _ hm hy => ih ?_ hm hy) (hm.adding made) hx hv hget
      have hheight := Expr.height_le_heightAll hstep
      omega
    | _ => cases hx

/-- Two operands under one operator. -/
theorem eval_operands {fuel : Nat} {left right : Expr} {m₁ m₂ : Machine}
    (hleft : eval fuel left m = .done a m₁) (hright : eval fuel right m₁ = .done b m₂)
    (op : ArithOp) (pos : Position) :
    eval (fuel + 1) (.arith left [(op, right, pos)]) m = act pos (Value.arith op a b) m₂ := by
  rw [eval, evalStep, bind_of_done hleft, combineAll, bind_of_done hright]
  exact congrFun (bind_pure _) m₂

/-- Arithmetic on whole numbers is exact modulo 2^64. An expression of sums, differences,
products and minus signs over numbers, truth values and variables for them never fails, and
its value is what its exact value leaves in the 64-bit range. Division fails, at its
operator, exactly when the second operand is zero; otherwise the quotient is cut off toward
zero and the remainder is smaller than the second operand and has the sign of the first. -/
theorem arithmetic_exact_modulo :
    (∀ (m : Machine) (e : Expr) (x : Int) (fuel : Nat), e.exactly? m.whole? = some x →
      e.hasOperator = true → e.height ≤ fuel →
        ∃ made v n, eval fuel e m = .done v (m.adding made) ∧
          (m.adding made).store.get v = .int n ∧ n.toInt = x.bmod (2 ^ 64)) ∧
    ∀ (fuel : Nat) (left right : Expr) (pos : Position) (m m₁ m₂ : Machine) (a b : Value)
      (x y : Int64), eval fuel left m = .done a m₁ → eval fuel right m₁ = .done b m₂ →
      (m₂.store.get a).int? = some x → (m₂.store.get b).int? = some y →
        (y = 0 → ∀ op ∈ [ArithOp.div, .mod],
          eval (fuel + 1) (.arith left [(op, right, pos)]) m = fail .zeroDivision pos m₂) ∧
        (y ≠ 0 → ∃ q r, Int64Arith.Divides x y q r ∧
          eval (fuel + 1) (.arith left [(.div, right, pos)]) m =
            .done ⟨m₂.store.objects.size⟩ (m₂.adding #[.int q]) ∧
          eval (fuel + 1) (.arith left [(.mod, right, pos)]) m =
            .done ⟨m₂.store.objects.size⟩ (m₂.adding #[.int r])) := by
  refine ⟨?_, ?_⟩
  · intro m e x fuel hx hoperator hfuel
    obtain ⟨made, v, hrun, -, hget⟩ := yields_eval hfuel (fun _ _ h => h) hx
    exact ⟨made, v, .ofInt x, hrun, hget hoperator, Int64.toInt_ofInt⟩
  · intro fuel left right pos m m₁ m₂ a b x y hleft hright ha hb
    have hpair := fun op => eval_operands hleft hright op pos
    refine ⟨?_, ?_⟩
    · rintro rfl op hop
      rw [hpair op]
      refine arith_fail ha hb ?_ pos
      rcases List.mem_pair.mp hop with rfl | rfl
      · rfl
      · rfl
    · intro hy
      refine ⟨x / y, x % y, Int64Arith.divides hy, ?_, ?_⟩
      · rw [hpair .div]
        exact arith_adding ha hb (Int64Arith.apply_div hy) pos
      · rw [hpair .mod]
        exact arith_adding ha hb (Int64Arith.apply_mod hy) pos

/-! Sums that wrap round, a quotient that is cut off and a division by zero. -/

namespace Sums

def machine : Machine := (Session.start ⟨[], .empty⟩ "" .lf .none).machine none

def wrapping : Expr :=
  .arith (.bool true) [(.add, .arith (.int Int64.maxValue) [(.mul, .int 2, .start)], .start),
    (.sub, .negative (.int 5) .start, .start)]

/-- The exact value of the sum is 2^64 + 4. The quotient is that of -7 by 2. -/
theorem sum_wraps_and_quotient_cut_off :
    (∃ made v n, eval 99 wrapping machine = .done v (machine.adding made) ∧
      (machine.adding made).store.get v = .int n ∧ n.toInt = 4) ∧
    (∃ m v, eval 9 (.arith (.int (-7)) [(.div, .int 2, .start)]) machine = .done v m ∧
      m.store.get v = .int (-3)) ∧
    ∃ m, eval 9 (.arith (.int 7) [(.mod, .bool false, .start)]) machine =
      fail .zeroDivision .start m := by
  refine ⟨?_, ?_, ?_⟩
  · exact arithmetic_exact_modulo.1 machine wrapping (2 ^ 64 + 4) 99 (by decide) (by decide)
      (by decide)
  · obtain ⟨-, hdivides⟩ := arithmetic_exact_modulo.2 8 (.int (-7)) (.int 2) .start machine _ _ _ _
      (-7) 2 rfl rfl rfl rfl
    obtain ⟨q, r, hqr, hquotient, -⟩ := hdivides (by decide)
    have hq : q = -3 := Int64.toInt_inj.mp (hqr.toward_zero (by decide))
    exact ⟨_, _, hquotient, by rw [get_adding_self, hq]⟩
  · have hzero := arithmetic_exact_modulo.2 8 (.int 7) (.bool false) .start machine _ _ _ _
      7 0 rfl rfl rfl rfl
    exact ⟨_, hzero.1 rfl .mod (by decide)⟩

end Sums

end Eval

end Stencil
