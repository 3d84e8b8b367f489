import Mathlib.Logic.Relation
import Stencil.Proofs.Dict
import Stencil.Proofs.Number.Comparison
import Stencil.Value.Equal

/-!
Relations on the values of a store that are justified pair by pair: a related pair
is one object twice, two equal scalars, or two containers of one shape whose
elements are related again. Such a relation may be turned round. Two of them may
be composed where no decimal is involved; whole numbers that differ can be equal
to one decimal.
-/

namespace Stencil

theorem Num.equal_comm (x y : Num) : x.equal y = y.equal x := by
  cases x with
  | int m =>
    cases y with
    | int n => exact decide_eq_decide.mpr eq_comm
    | float y => exact Number.float_beq_comm _ _
  | float x => cases y <;> exact Number.float_beq_comm _ _

theorem Num.eq_int_of_ofObject? {object : Object} {x : Num} (h : ofObject? object = some x)
    (hfloat : ∀ y, object ≠ .float y) : ∃ n, x = .int n := by
  unfold ofObject? at h
  split at h
  · exact ⟨_, (Option.some.inj h).symm⟩
  · exact ⟨_, (Option.some.inj h).symm⟩
  · exact absurd rfl (hfloat _)
  · cases h

inductive Store.Holds (s : Store) (v w : Value) : Prop
  | item {items : Array Value} (i : Nat) (h : s.get v = .array items) (hi : items[i]? = some w)
  | entry {entries : Dict Value} (key : String) (h : s.get v = .dict entries)
      (hkey : entries.get? key = some w)

namespace Value

/-- What two related values must have in common, given how their elements are
related. -/
inductive Agree (s : Store) (R : Value → Value → Prop) (a b : Value) : Prop
  | same (h : a = b)
  | numbers {x y : Num} (hx : Num.ofObject? (s.get a) = some x)
      (hy : Num.ofObject? (s.get b) = some y) (h : x.equal y = true)
  | nils (hx : s.get a = .nil) (hy : s.get b = .nil)
  | texts {content : String} (hx : s.get a = .str content) (hy : s.get b = .str content)
  | types {tag : TypeTag} (hx : s.get a = .type tag) (hy : s.get b = .type tag)
  | builtins {function : Builtin} (hx : s.get a = .builtin function)
      (hy : s.get b = .builtin function)
  | arrays {xs ys : Array Value} (hx : s.get a = .array xs) (hy : s.get b = .array ys)
      (size : xs.size = ys.size)
      (items : ∀ (i : Nat) x y, xs[i]? = some x → ys[i]? = some y → R x y)
  | dicts {xs ys : Dict Value} (hx : s.get a = .dict xs) (hy : s.get b = .dict ys)
      (keys : ∀ key, key ∈ xs.keys ↔ key ∈ ys.keys)
      (items : ∀ key x y, xs.get? key = some x → ys.get? key = some y → R x y)

/-- A relation that holds of a pair only for a reason. -/
def Bisimulation (s : Store) (R : Value → Value → Prop) : Prop :=
  ∀ a b, R a b → Agree s R a b

/-- A relation that holds of more parts justifies more pairs. -/
theorem Agree.imp {s : Store} {R R' : Value → Value → Prop} {a b : Value} (h : Agree s R a b)
    (hR : ∀ x y, s.Holds a x → s.Holds b y → R x y → R' x y) : Agree s R' a b := by
  cases h with
  | same h => exact .same h
  | numbers hx hy h => exact .numbers hx hy h
  | nils hx hy => exact .nils hx hy
  | texts hx hy => exact .texts hx hy
  | types hx hy => exact .types hx hy
  | builtins hx hy => exact .builtins hx hy
  | arrays hx hy size items =>
    refine .arrays hx hy size fun i x y hxi hyi => ?_
    exact hR x y (.item i hx hxi) (.item i hy hyi) (items i x y hxi hyi)
  | dicts hx hy keys items =>
    refine .dicts hx hy keys fun key x y hxk hyk => ?_
    exact hR x y (.entry key hx hxk) (.entry key hy hyk) (items key x y hxk hyk)

/-- A pair is justified either way round. -/
theorem Agree.symm {s : Store} {R : Value → Value → Prop} {a b : Value} (h : Agree s R a b) :
    Agree s (fun x y => R y x) b a := by
  cases h with
  | same h => exact .same h.symm
  | numbers hx hy h => exact .numbers hy hx (by rw [Num.equal_comm, h])
  | nils hx hy => exact .nils hy hx
  | texts hx hy => exact .texts hy hx
  | types hx hy => exact .types hy hx
  | builtins hx hy => exact .builtins hy hx
  | arrays hx hy size items =>
    exact .arrays hy hx size.symm fun i y x hyi hxi => items i x y hxi hyi
  | dicts hx hy keys items =>
    exact .dicts hy hx (fun key => (keys key).symm) fun key y x hyk hxk => items key x y hxk hyk

theorem Bisimulation.symm {s : Store} {R : Value → Value → Prop} (h : Bisimulation s R) :
    Bisimulation s fun x y => R y x := by
  intro a b hab
  exact (h b a hab).symm

/-- No decimal is the value or an element of an element of it, at any depth. -/
def FloatFree (s : Store) (v : Value) : Prop :=
  ∀ w, Relation.ReflTransGen s.Holds v w → ∀ x, s.get w ≠ .float x

section FloatFree

variable {s : Store} {a b c : Value}

theorem FloatFree.not_float (h : FloatFree s a) (x : Float) : s.get a ≠ .float x :=
  h a .refl x

theorem FloatFree.of_holds (h : FloatFree s a) (hab : s.Holds a b) : FloatFree s b := by
  intro w hw
  exact h w (.head hab hw)

def Composed (s : Store) (R : Value → Value → Prop) (a c : Value) : Prop :=
  ∃ b, (FloatFree s a ∧ FloatFree s b ∧ FloatFree s c) ∧ R a b ∧ R b c

/-- What the three values hold is as free of decimals as they are. -/
theorem composed_of_holds {R : Value → Value → Prop} (ha : FloatFree s a) (hb : FloatFree s b)
    (hc : FloatFree s c) {x y z : Value} (hx : s.Holds a x) (hy : s.Holds b y)
    (hz : s.Holds c z) (hxy : R x y) (hyz : R y z) : Composed s R x z :=
  ⟨y, ⟨ha.of_holds hx, hb.of_holds hy, hc.of_holds hz⟩, hxy, hyz⟩

/-- Two pairs that are justified compose. Without decimals the equality of numbers is that of
whole numbers, which is transitive. -/
theorem Agree.trans {R : Value → Value → Prop} (hrefl : ∀ x, R x x)
    (ha : FloatFree s a) (hb : FloatFree s b) (hc : FloatFree s c)
    (hab : Agree s R a b) (hbc : Agree s R b c) : Agree s (Composed s R) a c := by
  by_cases heq : b = c
  · subst heq
    exact hab.imp fun x y hx hy hxy => composed_of_holds ha hb hb hx hy hy hxy (hrefl y)
  cases hab with
  | same heq =>
    subst heq
    exact hbc.imp fun x y hx hy hxy => composed_of_holds ha ha hc hx hx hy (hrefl x) hxy
  | numbers hx hy hxy =>
    cases hbc with
    | numbers hy' hz hyz =>
      obtain ⟨l, rfl⟩ := Num.eq_int_of_ofObject? hx ha.not_float
      obtain ⟨m, rfl⟩ := Num.eq_int_of_ofObject? hy hb.not_float
      obtain ⟨n, rfl⟩ := Num.eq_int_of_ofObject? hz hc.not_float
      cases hy.symm.trans hy'
      refine .numbers hx hz (decide_eq_true ?_)
      exact (of_decide_eq_true hxy).trans (of_decide_eq_true hyz)
    | _ => simp_all [Num.ofObject?]
  | nils hx hy =>
    cases hbc with
    | nils hy' hz => exact .nils hx hz
    | _ => simp_all [Num.ofObject?]
  | texts hx hy =>
    cases hbc with
    | texts hy' hz =>
      cases hy.symm.trans hy'
      exact .texts hx hz
    | _ => simp_all [Num.ofObject?]
  | types hx hy =>
    cases hbc with
    | types hy' hz =>
      cases hy.symm.trans hy'
      exact .types hx hz
    | _ => simp_all [Num.ofObject?]
  | builtins hx hy =>
    cases hbc with
    | builtins hy' hz =>
      cases hy.symm.trans hy'
      exact .builtins hx hz
    | _ => simp_all [Num.ofObject?]
  | @arrays xs ys hx hy size items =>
    cases hbc with
    | @arrays _ zs hy' hz size' items' =>
      cases hy.symm.trans hy'
      refine .arrays hx hz (size.trans size') fun i x z hxi hzi => ?_
      obtain ⟨y, hyi⟩ : ∃ y, ys[i]? = some y := by
        have hlt := (Array.getElem?_eq_some_iff.mp hxi).1
        exact ⟨ys[i], Array.getElem?_eq_getElem (size ▸ hlt)⟩
      exact composed_of_holds ha hb hc (.item i hx hxi) (.item i hy hyi) (.item i hz hzi)
        (items i x y hxi hyi) (items' i y z hyi hzi)
    | _ => simp_all [Num.ofObject?]
  | @dicts xs ys hx hy keys items =>
    cases hbc with
    | @dicts _ zs hy' hz keys' items' =>
      cases hy.symm.trans hy'
      refine .dicts hx hz (fun key => (keys key).trans (keys' key)) fun key x z hxk hzk => ?_
      obtain ⟨y, hyk⟩ := (Dict.mem_keys_iff ys key).mp
        ((keys key).mp ((Dict.mem_keys_iff xs key).mpr ⟨x, hxk⟩))
      exact composed_of_holds ha hb hc (.entry key hx hxk) (.entry key hy hyk) (.entry key hz hzk)
        (items key x y hxk hyk) (items' key y z hyk hzk)
    | _ => simp_all [Num.ofObject?]

theorem Bisimulation.trans {R : Value → Value → Prop} (hrefl : ∀ x, R x x)
    (h : Bisimulation s R) : Bisimulation s (Composed s R) := by
  rintro a c ⟨b, ⟨ha, hb, hc⟩, hab, hbc⟩
  exact Agree.trans hrefl ha hb hc (h a b hab) (h b c hbc)

end FloatFree

end Value

end Stencil
