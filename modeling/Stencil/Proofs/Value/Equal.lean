import Mathlib.Data.List.ProdSigma
import Stencil.Proofs.Value.Bisimulation
import Stencil.Proofs.Value.Graph

/-!
Equality on arbitrary graphs of values. Two values are equal exactly when some
relation that is justified pair by pair holds of them. The comparison takes a pair
it has met before to be equal. When it answers true, the pairs it has met form
such a relation; when such a relation exists, no part of the comparison can fail.
Every pair of containers is entered at most once, so the budget is never used up.
-/

namespace Stencil

namespace Value

/-- Equality of scalars is one of the reasons. -/
theorem agree_of_scalarEqual {s : Store} {R : Value → Value → Prop} {a b : Value}
    (h : scalarEqual (s.get a) (s.get b) = true) : Agree s R a b := by
  unfold scalarEqual at h
  split at h
  · next x y hx hy => exact .numbers hx hy h
  · split at h
    · next hx hy => exact .nils hx hy
    · next x y hx hy =>
      obtain rfl : x = y := of_decide_eq_true h
      exact .texts hx hy
    · next x y hx hy =>
      obtain rfl : x = y := of_decide_eq_true h
      exact .types hx hy
    · next x y hx hy =>
      obtain rfl : x = y := of_decide_eq_true h
      exact .builtins hx hy
    · cases h

section Pairing

variable {s : Store} {R : Value → Value → Prop} {a b : Value}

/-- Two containers of one kind: whether they have one size, and the elements of
the first with their partners. -/
def pairing : Object → Object → Option (Bool × List (Value × Option Value))
  | .array xs, .array ys => some (xs.size = ys.size, xs.toList.zip (ys.toList.map some))
  | .dict xs, .dict ys =>
    some (xs.size = ys.size, xs.toList.map fun (key, x) => (x, ys.get? key))
  | _, _ => none

/-- Containers that have not been met are entered; all else is decided at once. -/
theorem equalFrom_succ (budget : Nat) (seen : Pairs) (a b : Value) :
    equalFrom s (budget + 1) seen a b =
      if a = b then (true, seen)
      else match pairing (s.get a) (s.get b) with
        | none => (scalarEqual (s.get a) (s.get b), seen)
        | some (sameSize, items) =>
          if (a, b) ∈ seen then (true, seen)
          else if sameSize then allEqual (equalFrom s budget) ((a, b) :: seen) items
          else (false, seen) := by
  rw [equalFrom]
  by_cases hab : a = b
  · rw [if_pos hab, if_pos hab]
  · rw [if_neg hab, if_neg hab]
    split
    · next xs ys hx hy => simp [hx, hy, pairing]
    · next xs ys hx hy => simp [hx, hy, pairing]
    · next hxs hys =>
      have hnone : pairing (s.get a) (s.get b) = none := by
        unfold pairing
        split
        · next xs ys hx hy => exact absurd hy (hxs xs ys hx)
        · next xs ys hx hy => exact absurd hy (hys xs ys hx)
        · rfl
      rw [hnone]

theorem agree_of_pairing {items : List (Value × Option Value)}
    (h : pairing (s.get a) (s.get b) = some (true, items))
    (hitems : ∀ x o, (x, o) ∈ items → ∃ y, o = some y ∧ R x y) : Agree s R a b := by
  unfold pairing at h
  split at h
  · next xs ys hx hy =>
    simp only [Option.some.injEq, Prod.mk.injEq, decide_eq_true_eq] at h
    obtain ⟨hsize, rfl⟩ := h
    refine .arrays hx hy hsize fun i x y hxi hyi => ?_
    have hmem : (x, some y) ∈ xs.toList.zip (ys.toList.map some) := by
      apply List.mem_of_getElem? (i := i)
      simp [List.getElem?_zip_eq_some, hxi, hyi]
    obtain ⟨y', hy', hR⟩ := hitems x (some y) hmem
    cases hy'
    exact hR
  · next xs ys hx hy =>
    simp only [Option.some.injEq, Prod.mk.injEq, decide_eq_true_eq] at h
    obtain ⟨hsize, rfl⟩ := h
    have hpartner : ∀ key x, xs.get? key = some x → ∃ y, ys.get? key = some y ∧ R x y := by
      intro key x hx
      apply hitems x (ys.get? key)
      exact List.mem_map.mpr ⟨(key, x), (Dict.mem_toList_iff xs key x).mpr hx, rfl⟩
    refine .dicts hx hy ?_ ?_
    · apply Dict.mem_keys_iff_of_subset hsize
      intro key hkey
      obtain ⟨x, hx⟩ := (Dict.mem_keys_iff xs key).mp hkey
      obtain ⟨y, hy, -⟩ := hpartner key x hx
      exact (Dict.mem_keys_iff ys key).mpr ⟨y, hy⟩
    · intro key x y hx hy
      obtain ⟨y', hy', hR⟩ := hpartner key x hx
      cases hy.symm.trans hy'
      exact hR
  · cases h

/-- Two different values that agree are equal scalars or containers of one shape. -/
theorem Agree.pairing_cases (h : Agree s R a b) (hab : a ≠ b) :
    (pairing (s.get a) (s.get b) = none ∧ scalarEqual (s.get a) (s.get b) = true) ∨
    ∃ items, pairing (s.get a) (s.get b) = some (true, items) ∧
      ∀ x o, (x, o) ∈ items → ∃ y, o = some y ∧ R x y := by
  cases h with
  | same h => exact absurd h hab
  | @numbers x y hx hy h =>
    left
    constructor
    · unfold pairing
      split
      · next hx' _ => simp [hx', Num.ofObject?] at hx
      · next hx' _ => simp [hx', Num.ofObject?] at hx
      · rfl
    · simp [scalarEqual, hx, hy, h]
  | nils hx hy => left; simp [hx, hy, pairing, scalarEqual, Num.ofObject?]
  | texts hx hy => left; simp [hx, hy, pairing, scalarEqual, Num.ofObject?]
  | types hx hy => left; simp [hx, hy, pairing, scalarEqual, Num.ofObject?]
  | builtins hx hy => left; simp [hx, hy, pairing, scalarEqual, Num.ofObject?]
  | @arrays xs ys hx hy size items =>
    right
    refine ⟨xs.toList.zip (ys.toList.map some), by simp [hx, hy, pairing, size], ?_⟩
    intro x o hmem
    obtain ⟨i, hi⟩ := List.mem_iff_getElem?.mp hmem
    rw [List.getElem?_zip_eq_some, List.getElem?_map, Option.map_eq_some_iff] at hi
    obtain ⟨hxi, y, hyi, rfl⟩ := hi
    exact ⟨y, rfl, items i x y (by simpa using hxi) (by simpa using hyi)⟩
  | @dicts xs ys hx hy keys items =>
    right
    have hsize : xs.size = ys.size := Dict.size_eq_of_mem_keys_iff keys
    refine ⟨xs.toList.map fun (key, x) => (x, ys.get? key),
      by simp [hx, hy, pairing, hsize], ?_⟩
    intro x o hmem
    obtain ⟨⟨key, x'⟩, hentry, heq⟩ := List.mem_map.mp hmem
    cases heq
    have hx' := (Dict.mem_toList_iff xs key x).mp hentry
    obtain ⟨y, hy'⟩ := (Dict.mem_keys_iff ys key).mp
      ((keys key).mp ((Dict.mem_keys_iff xs key).mpr ⟨x, hx'⟩))
    exact ⟨y, hy', items key x y hx' hy'⟩

/-- Only allocated objects are containers. -/
theorem lt_size_of_pairing {r : Bool × List (Value × Option Value)}
    (h : pairing (s.get a) (s.get b) = some r) :
    a.index < s.objects.size ∧ b.index < s.objects.size := by
  unfold pairing at h
  split at h
  · next hx hy =>
    exact ⟨Store.lt_size_of_get_ne_nil (by simp [hx]), Store.lt_size_of_get_ne_nil (by simp [hy])⟩
  · next hx hy =>
    exact ⟨Store.lt_size_of_get_ne_nil (by simp [hx]), Store.lt_size_of_get_ne_nil (by simp [hy])⟩
  · cases h

end Pairing

section Sound

variable (s : Store)

def Met (seen : Pairs) (a b : Value) : Prop :=
  a = b ∨ scalarEqual (s.get a) (s.get b) = true ∨ (a, b) ∈ seen

/-- The pairs met since are justified by all pairs met. -/
structure Covers (seen seen' : Pairs) : Prop where
  subset : seen ⊆ seen'
  agree : ∀ a b, (a, b) ∈ seen' → (a, b) ∈ seen ∨ Agree s (Met s seen') a b

variable {s}

theorem Met.mono {seen seen' : Pairs} (hsub : seen ⊆ seen') {a b : Value}
    (h : Met s seen a b) : Met s seen' a b := by
  rcases h with h | h | h
  · exact Or.inl h
  · exact Or.inr (Or.inl h)
  · exact Or.inr (Or.inr (hsub h))

theorem Covers.refl (seen : Pairs) : Covers s seen seen :=
  ⟨fun _ h => h, fun _ _ h => Or.inl h⟩

theorem Covers.trans {seen₁ seen₂ seen₃ : Pairs} (h : Covers s seen₁ seen₂)
    (h' : Covers s seen₂ seen₃) : Covers s seen₁ seen₃ := by
  refine ⟨fun p hp => h'.subset (h.subset hp), ?_⟩
  intro a b hab
  rcases h'.agree a b hab with hold | hagree
  · rcases h.agree a b hold with holder | hagree
    · exact Or.inl holder
    · exact Or.inr (hagree.imp fun x y _ _ hxy => hxy.mono h'.subset)
  · exact Or.inr hagree

/-- A pair may be entered before it is justified. -/
theorem Covers.of_enter {seen seen' : Pairs} {a b : Value}
    (h : Covers s ((a, b) :: seen) seen') (hagree : Agree s (Met s seen') a b) :
    Covers s seen seen' := by
  refine ⟨fun p hp => h.subset (List.mem_cons_of_mem _ hp), ?_⟩
  intro x y hxy
  rcases h.agree x y hxy with hmem | hxy
  · rcases List.mem_cons.mp hmem with heq | hmem
    · cases heq
      exact Or.inr hagree
    · exact Or.inl hmem
  · exact Or.inr hxy

/-- Items that are found equal have been met pair by pair. -/
theorem allEqual_sound {equal : Pairs → Value → Value → Bool × Pairs}
    (hequal : ∀ seen a b seen', equal seen a b = (true, seen') →
      Covers s seen seen' ∧ Met s seen' a b)
    {items : List (Value × Option Value)} {seen seen' : Pairs}
    (h : allEqual equal seen items = (true, seen')) :
    Covers s seen seen' ∧ ∀ a o, (a, o) ∈ items → ∃ b, o = some b ∧ Met s seen' a b := by
  induction items generalizing seen with
  | nil =>
    cases h
    exact ⟨.refl _, by simp⟩
  | cons item rest ih =>
    obtain ⟨a, o⟩ := item
    cases o with
    | none => cases h
    | some b =>
      unfold allEqual at h
      cases hab : equal seen a b with
      | mk answer seen₁ =>
        simp only [hab] at h
        cases answer with
        | false => cases h
        | true =>
          obtain ⟨hcovers, hmet⟩ := hequal seen a b seen₁ hab
          obtain ⟨hcovers', hrest⟩ := ih h
          refine ⟨hcovers.trans hcovers', ?_⟩
          intro a' o' hmem
          rcases List.mem_cons.mp hmem with heq | hmem
          · cases heq
            exact ⟨b, rfl, hmet.mono hcovers'.subset⟩
          · exact hrest a' o' hmem

/-- A comparison that answers true justifies the pairs that it has met. A pair is entered before
its parts are compared, and it is these that justify it. -/
theorem equalFrom_sound (budget : Nat) (seen : Pairs) (a b : Value) (seen' : Pairs)
    (h : equalFrom s budget seen a b = (true, seen')) :
    Covers s seen seen' ∧ Met s seen' a b := by
  induction budget generalizing seen a b seen' with
  | zero => cases h
  | succ budget ih =>
    rw [equalFrom_succ] at h
    split at h
    · next hab =>
      cases h
      exact ⟨.refl _, Or.inl hab⟩
    · split at h
      · obtain ⟨hscalar, rfl⟩ := Prod.mk.inj h
        exact ⟨.refl _, Or.inr (Or.inl hscalar)⟩
      · next sameSize items hpairing =>
        split at h
        · next hmem =>
          cases h
          exact ⟨.refl _, Or.inr (Or.inr hmem)⟩
        · split at h
          · next hsize =>
            obtain ⟨hcovers, hitems⟩ := allEqual_sound ih h
            have hagree : Agree s (Met s seen') a b :=
              agree_of_pairing (hsize ▸ hpairing) hitems
            refine ⟨hcovers.of_enter hagree, Or.inr (Or.inr ?_)⟩
            exact hcovers.subset List.mem_cons_self
          · cases h

/-- The pairs that a comparison has met when it answers true justify one another. -/
theorem bisimulation_met {seen : Pairs} (h : Covers s [] seen) : Bisimulation s (Met s seen) := by
  intro a b hab
  rcases hab with hsame | hscalar | hmem
  · exact .same hsame
  · exact agree_of_scalarEqual hscalar
  · rcases h.agree a b hmem with hnil | hagree
    · cases hnil
    · exact hagree

end Sound

section Complete

variable {s : Store}

/-- Pairs of allocated objects, each entered once. -/
structure Entered (s : Store) (seen : Pairs) : Prop where
  nodup : seen.Nodup
  lt_size : ∀ a b, (a, b) ∈ seen → a.index < s.objects.size ∧ b.index < s.objects.size

/-- There are only so many pairs to enter. -/
theorem Entered.length_le {seen : Pairs} (h : Entered s seen) :
    seen.length ≤ s.objects.size * s.objects.size := by
  have hsub : seen ⊆ s.values ×ˢ s.values := by
    rintro ⟨a, b⟩ hab
    obtain ⟨ha, hb⟩ := h.lt_size a b hab
    exact List.mem_product.mpr ⟨Store.mem_values ha, Store.mem_values hb⟩
  have hlength := h.nodup.length_le_of_subset hsub
  rwa [List.length_product, Store.length_values] at hlength

theorem Entered.cons {seen : Pairs} {a b : Value} (h : Entered s seen) (hab : (a, b) ∉ seen)
    (hlt : a.index < s.objects.size ∧ b.index < s.objects.size) :
    Entered s ((a, b) :: seen) := by
  refine ⟨List.nodup_cons.mpr ⟨hab, h.nodup⟩, ?_⟩
  intro x y hxy
  rcases List.mem_cons.mp hxy with heq | hxy
  · cases heq
    exact hlt
  · exact h.lt_size x y hxy

structure Affordable (s : Store) (budget : Nat) (seen : Pairs) : Prop extends Entered s seen where
  budget_lt : s.objects.size * s.objects.size < budget + seen.length

theorem Affordable.nil {budget : Nat} (h : s.objects.size * s.objects.size < budget) :
    Affordable s budget [] := by
  refine ⟨⟨List.nodup_nil, by simp⟩, ?_⟩
  simpa using h

theorem Affordable.not_zero {seen : Pairs} (h : Affordable s 0 seen) : False := by
  have hlength := h.length_le
  have hbudget := h.budget_lt
  omega

/-- Entering a pair pays for one step of the budget. -/
theorem Affordable.enter {budget budget' : Nat} {seen : Pairs} {a b : Value}
    {r : Bool × List (Value × Option Value)} (h : Affordable s budget seen)
    (hpairing : pairing (s.get a) (s.get b) = some r) (hab : (a, b) ∉ seen)
    (hle : budget ≤ budget' + 1) : Affordable s budget' ((a, b) :: seen) := by
  refine ⟨h.toEntered.cons hab (lt_size_of_pairing hpairing), ?_⟩
  have hbudget := h.budget_lt
  rw [List.length_cons]
  omega

/-- What every comparison of two elements keeps, their comparison in turn keeps. -/
theorem allEqual_invariant {equal : Pairs → Value → Value → Bool × Pairs} {P : Pairs → Prop}
    (hequal : ∀ seen a b, P seen → P (equal seen a b).2)
    (items : List (Value × Option Value)) {seen : Pairs} (hseen : P seen) :
    P (allEqual equal seen items).2 := by
  induction items generalizing seen with
  | nil => exact hseen
  | cons item rest ih =>
    obtain ⟨a, o⟩ := item
    cases o with
    | none => exact hseen
    | some b =>
      have hab := hequal seen a b hseen
      unfold allEqual
      split
      · next heq =>
        rw [heq] at hab
        exact ih hab
      · next heq =>
        rw [heq] at hab
        exact hab

/-- Entering pairs leaves the budget of the surrounding comparison large enough. -/
theorem equalFrom_affordable (budget : Nat) {k : Nat} {seen : Pairs} (a b : Value)
    (h : Affordable s k seen) : Affordable s k (equalFrom s budget seen a b).2 := by
  induction budget generalizing k seen a b with
  | zero => exact h
  | succ budget ih =>
    rw [equalFrom_succ]
    split
    · exact h
    · split
      · exact h
      · next sameSize items hpairing =>
        split
        · exact h
        · next hab =>
          split
          · have hk : Affordable s k ((a, b) :: seen) := h.enter hpairing hab (Nat.le_succ k)
            exact allEqual_invariant (fun seen x y => ih x y) items hk
          · exact h

theorem allEqual_true {equal : Pairs → Value → Value → Bool × Pairs} {P : Pairs → Prop}
    {R : Value → Value → Prop}
    (hequal : ∀ seen a b, P seen → R a b → (equal seen a b).1 = true ∧ P (equal seen a b).2)
    {items : List (Value × Option Value)}
    (hitems : ∀ a o, (a, o) ∈ items → ∃ b, o = some b ∧ R a b) {seen : Pairs} (hseen : P seen) :
    (allEqual equal seen items).1 = true := by
  induction items generalizing seen with
  | nil => rfl
  | cons item rest ih =>
    obtain ⟨a, o⟩ := item
    obtain ⟨b, rfl, hR⟩ := hitems a o List.mem_cons_self
    obtain ⟨htrue, hP⟩ := hequal seen a b hseen hR
    unfold allEqual
    split
    · next heq =>
      rw [heq] at hP
      exact ih (fun a' o' hmem => hitems a' o' (List.mem_cons_of_mem _ hmem)) hP
    · next heq => simp [heq] at htrue

/-- Values that some relation justifies are found equal. -/
theorem equalFrom_complete {R : Value → Value → Prop} (hR : Bisimulation s R) (budget : Nat)
    {seen : Pairs} {a b : Value} (h : Affordable s budget seen) (hab : R a b) :
    (equalFrom s budget seen a b).1 = true := by
  induction budget generalizing seen a b with
  | zero => exact h.not_zero.elim
  | succ budget ih =>
    rw [equalFrom_succ]
    split
    · rfl
    · next hne =>
      rcases (hR a b hab).pairing_cases hne with ⟨hnone, hscalar⟩ | ⟨items, hsome, hitems⟩
      · rw [hnone]
        exact hscalar
      · rw [hsome]
        by_cases hmem : (a, b) ∈ seen
        · simp [hmem]
        · simp only [hmem, if_false, if_true]
          refine allEqual_true ?_ hitems (h.enter hsome hmem (Nat.le_refl _))
          intro seen' x y hseen' hxy
          exact ⟨ih hseen' hxy, equalFrom_affordable budget x y hseen'⟩

theorem allEqual_congr {equal equal' : Pairs → Value → Value → Bool × Pairs} {P : Pairs → Prop}
    (hequal : ∀ seen a b, P seen → equal seen a b = equal' seen a b ∧ P (equal' seen a b).2)
    (items : List (Value × Option Value)) {seen : Pairs} (hseen : P seen) :
    allEqual equal seen items = allEqual equal' seen items := by
  induction items generalizing seen with
  | nil => rfl
  | cons item rest ih =>
    obtain ⟨a, o⟩ := item
    cases o with
    | none => rfl
    | some b =>
      obtain ⟨heq, hP⟩ := hequal seen a b hseen
      simp only [allEqual, heq]
      split
      · next hab =>
        rw [hab] at hP
        exact ih hP
      · rfl

/-- No comparison uses up a budget for all pairs that are left. -/
theorem equalFrom_add (budget extra : Nat) {seen : Pairs} (a b : Value)
    (h : Affordable s budget seen) :
    equalFrom s (budget + extra) seen a b = equalFrom s budget seen a b := by
  induction budget generalizing seen a b with
  | zero => exact h.not_zero.elim
  | succ budget ih =>
    rw [Nat.add_right_comm, equalFrom_succ, equalFrom_succ]
    split
    · rfl
    · split
      · rfl
      · next sameSize items hpairing =>
        split
        · rfl
        · next hab =>
          split
          · refine allEqual_congr ?_ items (h.enter hpairing hab (Nat.le_refl _))
            intro seen' x y hseen'
            exact ⟨ih x y hseen', equalFrom_affordable budget x y hseen'⟩
          · rfl

/-- Values are equal if some relation justifies them. -/
theorem equal_iff_exists_bisimulation (s : Store) (a b : Value) :
    equal s a b = true ↔ ∃ R, R a b ∧ Bisimulation s R := by
  constructor
  · intro h
    obtain ⟨hcovers, hmet⟩ := equalFrom_sound _ [] a b _ (Prod.ext h rfl)
    exact ⟨_, hmet, bisimulation_met hcovers⟩
  · rintro ⟨R, hab, hR⟩
    exact equalFrom_complete hR _ (.nil (Nat.lt_succ_self _)) hab

end Complete

theorem equal_self (s : Store) (a : Value) : equal s a a = true :=
  (equal_iff_exists_bisimulation s a a).mpr ⟨Eq, rfl, fun _ _ h => .same h⟩

/-- Equality is itself justified pair by pair. -/
theorem bisimulation_equal (s : Store) : Bisimulation s fun a b => equal s a b = true := by
  intro a b hab
  obtain ⟨R, hR, hbisim⟩ := (equal_iff_exists_bisimulation s a b).mp hab
  refine (hbisim a b hR).imp fun x y _ _ hxy => ?_
  exact (equal_iff_exists_bisimulation s x y).mpr ⟨R, hxy, hbisim⟩

theorem equal_symm {s : Store} {a b : Value} (h : equal s a b = true) : equal s b a = true :=
  (equal_iff_exists_bisimulation s b a).mpr ⟨_, h, (bisimulation_equal s).symm⟩

/-- Without decimals equality is transitive. -/
theorem equal_trans {s : Store} {a b c : Value} (ha : FloatFree s a) (hb : FloatFree s b)
    (hc : FloatFree s c) (hab : equal s a b = true) (hbc : equal s b c = true) :
    equal s a c = true :=
  (equal_iff_exists_bisimulation s a c).mpr
    ⟨_, ⟨b, ⟨ha, hb, hc⟩, hab, hbc⟩, (bisimulation_equal s).trans (equal_self s)⟩

/-- Comparing two values of any store answers true exactly when some relation
holds of them of which every pair is one object, two equal numbers, texts, types
or builtins, nil twice, or two arrays or dicts whose elements are related again.
The answer comes before the budget is used up, whatever budget beyond the number
of pairs of objects is given. Equality is symmetric, and an equivalence among the
values that reach no decimal. -/
theorem equal_decides_bisimilarity (s : Store) :
    (∀ a b, equal s a b = true ↔ ∃ R : Value → Value → Prop,
      R a b ∧ ∀ x y, R x y → Agree s R x y) ∧
    (∀ a b budget, s.objects.size * s.objects.size < budget →
      equalFrom s budget [] a b = equalFrom s (s.objects.size * s.objects.size + 1) [] a b) ∧
    (∀ a b, equal s a b = equal s b a) ∧
    Equivalence fun a b : { v // FloatFree s v } => equal s a b = true := by
  refine ⟨equal_iff_exists_bisimulation s, ?_, ?_, ?_⟩
  · intro a b budget hbudget
    obtain ⟨extra, rfl⟩ := Nat.exists_eq_add_of_lt hbudget
    rw [Nat.add_right_comm]
    exact equalFrom_add _ extra a b (.nil (Nat.lt_succ_self _))
  · intro a b
    rw [Bool.eq_iff_iff]
    exact ⟨equal_symm, equal_symm⟩
  · refine ⟨fun a => equal_self s a, equal_symm, ?_⟩
    intro a b c hab hbc
    exact equal_trans a.2 b.2 c.2 hab hbc

end Value

end Stencil
