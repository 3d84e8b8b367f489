import Mathlib.Data.Set.Function
import Stencil.Proofs.Value.Copy
import Stencil.Proofs.Value.Equal

/-!
A deep copy is a new graph of the same form. The table of copies, once the run is
over, sends the containers that are reached from the value one to one onto those
that are reached from its copy. A container and its copy have one shape, and what
stands at a place of the copy is what stands for the part at that place. Where
nothing forbids it, the copy is equal to the value.
-/

namespace Stencil

def Store.containersFrom (s : Store) (v : Value) : Set Value :=
  { x | s.Reaches v x ∧ s.IsContainer x }

namespace Value

/-- The second graph is a copy of the first along a map of the containers. -/
structure IsomorphicCopy (s : Store) (v : Value) (s' : Store) (w : Value) (f : Value → Value) :
    Prop where
  bijOn : Set.BijOn f (s.containersFrom v) (s'.containersFrom w)
  root : Copied s s' (f · = ·) v w
  shape?_eq : ∀ x ∈ s.containersFrom v, s'.shape? (f x) = s.shape? x
  parts : ∀ x ∈ s.containersFrom v,
    List.Forall₂ (Copied s s' (f · = ·)) (s.parts x) (s'.parts (f x))
  newer : ∀ y ∈ s'.containersFrom w, s.Newer s' y
  grounded : s'.Grounded w
  unchanged : s.Extends s'

theorem exists_of_mem_left {R : Value → Value → Prop} {xs ys : List Value}
    (h : List.Forall₂ R xs ys) {x : Value} (hx : x ∈ xs) : ∃ y ∈ ys, R x y := by
  induction h with
  | nil => cases hx
  | cons hab _ ih =>
    rcases List.mem_cons.mp hx with rfl | hx
    · exact ⟨_, List.mem_cons_self, hab⟩
    · obtain ⟨y, hy, hxy⟩ := ih hx
      exact ⟨y, List.mem_cons_of_mem _ hy, hxy⟩

theorem exists_of_mem_right {R : Value → Value → Prop} {xs ys : List Value}
    (h : List.Forall₂ R xs ys) {y : Value} (hy : y ∈ ys) : ∃ x ∈ xs, R x y :=
  exists_of_mem_left (List.Forall₂.flip h) hy

section Complete

variable {s : Store} {st : CopyState} {v w x y : Value}

structure Complete (s : Store) (v w : Value) (st : CopyState) : Prop extends Copying s st where
  newer : ∀ x y, st.Has x y → s.Newer st.store y
  finished : ∀ x y, st.Has x y → Finished s st x y
  root : Copied s st.store st.Has v w

theorem Copied.has_of_isContainer (h : Copied s st.store st.Has x y) (hx : s.IsContainer x) :
    st.Has x y := by
  cases h with
  | container _ hxy => exact hxy
  | scalar h _ _ _ =>
    rw [Store.not_isScalar_of_isContainer hx] at h
    cases h
  | shared h _ _ => exact absurd hx h

/-- Only copies of containers are containers that stand for something. -/
theorem Copied.has_of_copy_isContainer (h : Copied s st.store st.Has x y)
    (hstore : s.Extends st.store) (hx : s.Allocated x) (hy : st.store.IsContainer y) :
    st.Has x y := by
  cases h with
  | container _ hxy => exact hxy
  | scalar h hget _ _ =>
    rw [← hget, Store.not_isScalar_of_isContainer hy] at h
    cases h
  | shared h _ heq =>
    subst heq
    rw [Store.IsContainer, (hstore.sameAt hx).shape?_eq] at hy
    exact absurd hy h

theorem Complete.reaches_copy (h : Complete s v w st) (hx : s.Reaches v x) :
    ∃ y, st.store.Reaches w y ∧ Copied s st.store st.Has x y := by
  induction hx with
  | refl => exact ⟨w, .refl, h.root⟩
  | @tail a b _ hmem ih =>
    obtain ⟨y, hy, hcopied⟩ := ih
    have hay := hcopied.has_of_isContainer (Store.isContainer_of_mem_parts hmem)
    obtain ⟨z, hz, hbz⟩ := exists_of_mem_left (h.finished a y hay).parts hmem
    exact ⟨z, hy.tail hz, hbz⟩

theorem Complete.reaches_original (h : Complete s v w st) (hv : s.Grounded v)
    (hy : st.store.Reaches w y) : ∃ x, s.Reaches v x ∧ Copied s st.store st.Has x y := by
  induction hy with
  | refl => exact ⟨v, .refl, h.root⟩
  | @tail a b _ hmem ih =>
    obtain ⟨x, hx, hcopied⟩ := ih
    have hxa := hcopied.has_of_copy_isContainer h.store (hv x hx)
      (Store.isContainer_of_mem_parts hmem)
    obtain ⟨z, hz, hzb⟩ := exists_of_mem_right (h.finished x a hxa).parts hmem
    exact ⟨z, hx.tail hz, hzb⟩

def CopyState.image (st : CopyState) (x : Value) : Value := (st.copies.lookup x).getD x

theorem CopyState.Has.image_eq (h : st.Has x y) : st.image x = y := by
  rw [image, show st.copies.lookup x = some y from h, Option.getD_some]

theorem Complete.has_image (h : Complete s v w st) (hx : x ∈ s.containersFrom v) :
    st.Has x (st.image x) ∧ st.store.Reaches w (st.image x) := by
  obtain ⟨hreach, hcontainer⟩ := hx
  obtain ⟨y, hy, hcopied⟩ := h.reaches_copy hreach
  have hxy := hcopied.has_of_isContainer hcontainer
  rw [hxy.image_eq]
  exact ⟨hxy, hy⟩

/-- The containers of the copy are those of the original, one for one. -/
theorem Complete.bijOn (h : Complete s v w st) (hv : s.Grounded v) :
    Set.BijOn st.image (s.containersFrom v) (st.store.containersFrom w) := by
  refine ⟨?_, ?_, ?_⟩
  · intro x hx
    obtain ⟨hxy, hreach⟩ := h.has_image hx
    refine ⟨hreach, ?_⟩
    rw [Store.IsContainer, (h.finished x _ hxy).shape?_eq]
    exact hx.2
  · intro x hx x' hx' heq
    have hxy := (h.has_image hx).1
    rw [heq] at hxy
    exact h.injective x x' _ hxy (h.has_image hx').1
  · rintro y ⟨hreach, hcontainer⟩
    obtain ⟨x, hx, hcopied⟩ := h.reaches_original hv hreach
    have hxy := hcopied.has_of_copy_isContainer h.store (hv x hx) hcontainer
    exact ⟨x, ⟨hx, h.isContainer_of_has hxy⟩, hxy.image_eq⟩

theorem Complete.grounded (h : Complete s v w st) (hv : s.Grounded v) : st.store.Grounded w := by
  intro y hy
  obtain ⟨x, hx, hcopied⟩ := h.reaches_original hv hy
  cases hcopied with
  | container _ hxy => exact (h.newer x y hxy).toAllocated
  | scalar hscalar hget _ hlt =>
    refine ⟨hlt, fun type fields hinstance => ?_⟩
    rw [← hget, hinstance] at hscalar
    cases hscalar
  | shared _ _ heq => exact heq ▸ (hv x hx).of_extends h.store

/-- A copy that is complete has the form of the original. -/
theorem Complete.isomorphicCopy (h : Complete s v w st) (hv : s.Grounded v) :
    IsomorphicCopy s v st.store w st.image := by
  have himage : ∀ a b, Copied s st.store st.Has a b → Copied s st.store (st.image · = ·) a b :=
    fun a b hab => hab.imp CopyState.Has.image_eq (Nat.le_refl _) fun _ _ => rfl
  refine ⟨h.bijOn hv, himage v w h.root, ?_, ?_, ?_, h.grounded hv, h.store⟩
  · intro x hx
    exact (h.finished x _ (h.has_image hx).1).shape?_eq
  · intro x hx
    exact (h.finished x _ (h.has_image hx).1).parts.imp fun a b hab => himage a b hab
  · intro y hy
    obtain ⟨x, hx, rfl⟩ := (h.bijOn hv).surjOn hy
    exact h.newer x _ (h.has_image hx).1

/-- With enough budget a copy is complete. -/
theorem complete_deepCopyFrom {budget : Nat} (hv : s.Grounded v)
    (hbudget : s.objects.size < budget) :
    Complete s v (deepCopyFrom budget v ⟨s, []⟩).1 (deepCopyFrom budget v ⟨s, []⟩).2 := by
  obtain ⟨hcopying, hgrown, hcopied⟩ := deepCopyFrom_spec budget v ⟨s, []⟩ hv (ready_nil hbudget)
  have hadded : ∀ x y, (deepCopyFrom budget v ⟨s, []⟩).2.Has x y →
      s.Newer (deepCopyFrom budget v ⟨s, []⟩).2.store y ∧
        Finished s (deepCopyFrom budget v ⟨s, []⟩).2 x y := by
    intro x y hxy
    rcases hgrown.added x y hxy with hnone | hadded
    · cases hnone
    · exact hadded
  exact ⟨hcopying, fun x y hxy => (hadded x y hxy).1, fun x y hxy => (hadded x y hxy).2, hcopied⟩

end Complete

section Equal

variable {s s' : Store} {v w : Value} {f : Value → Value}

theorem agree_of_get_eq {R : Value → Value → Prop} {a b : Value} {object : Object}
    (ha : s.get a = object) (hb : s.get b = object) (hscalar : object.isScalar = true)
    (hnumber : ∀ x, object = .float x → x.isNaN = false) : Agree s R a b := by
  have hnum : ∀ x : Num, Num.ofObject? object = some x → x.equal x = true → Agree s R a b :=
    fun x hx hxx => .numbers (ha ▸ hx) (hb ▸ hx) hxx
  cases object with
  | nil => exact .nils ha hb
  | bool value => exact hnum (.int _) rfl (decide_eq_true rfl)
  | int value => exact hnum (.int value) rfl (decide_eq_true rfl)
  | float value => exact hnum (.float value) rfl (Number.float_beq_self (hnumber value rfl))
  | str content => exact .texts ha hb
  | _ => cases hscalar

/-- Neither an instance nor a decimal that is no number is reached. -/
def Comparable (s : Store) (v : Value) : Prop :=
  ∀ x, s.Reaches v x →
    (∀ type fields, s.get x ≠ .instance type fields) ∧
    ∀ y, s.get x = .float y → y.isNaN = false

theorem forall₂_getElem? {R : Value → Value → Prop} {xs ys : List Value}
    (h : List.Forall₂ R xs ys) {i : Nat} {x y : Value} (hx : xs[i]? = some x)
    (hy : ys[i]? = some y) : R x y := by
  apply List.forall₂_zip h
  apply List.mem_of_getElem? (i := i)
  rw [List.getElem?_zip_eq_some]
  exact ⟨hx, hy⟩

/-- What stands for a value in a copy is equal to it for the same reason at every place. -/
theorem IsomorphicCopy.bisimulation (h : IsomorphicCopy s v s' w f) (hv : s.Grounded v)
    (hcomparable : Comparable s v) :
    Bisimulation s' fun b a => s.Reaches v a ∧ Copied s s' (f · = ·) a b := by
  rintro b a ⟨hreach, hcopied⟩
  have hget : s'.get a = s.get a := h.unchanged.get_eq a (hv a hreach).object
  cases hcopied with
  | container hcontainer hab =>
    subst hab
    have ha : a ∈ s.containersFrom v := ⟨hreach, hcontainer⟩
    have hshape := h.shape?_eq a ha
    have hparts := h.parts a ha
    obtain ⟨shape, hsome⟩ := Option.isSome_iff_exists.mp hcontainer
    rw [hsome] at hshape
    have hpart : ∀ {i : Nat} {x y : Value}, (s.parts a)[i]? = some x →
        (s'.parts (f a))[i]? = some y → s.Reaches v x ∧ Copied s s' (f · = ·) x y := by
      intro i x y hx hy
      exact ⟨hreach.tail (List.mem_of_getElem? hx), forall₂_getElem? hparts hx hy⟩
    cases shape with
    | array length =>
      obtain ⟨xs, hx, rfl, hxs⟩ := Store.eq_array_of_shape? hsome
      obtain ⟨ys, hy, hsize, hys⟩ := Store.eq_array_of_shape? hshape
      rw [hxs, hys] at hpart
      refine .arrays hy (hget.trans hx) hsize fun i y x hyi hxi => ?_
      exact hpart (by simpa using hxi) (by simpa using hyi)
    | dict keys =>
      obtain ⟨xs, hx, rfl, hxs⟩ := Store.eq_dict_of_shape? hsome
      obtain ⟨ys, hy, hkeys, hys⟩ := Store.eq_dict_of_shape? hshape
      rw [hxs, hys] at hpart
      refine .dicts hy (hget.trans hx) (fun key => by rw [hkeys]) fun key y x hyk hxk => ?_
      obtain ⟨i, hyi, hxi⟩ := Dict.exists_values_getElem? hkeys hyk hxk
      exact hpart hxi hyi
    | object type names =>
      obtain ⟨fields, hinstance⟩ := Store.eq_instance_of_shape? hsome
      exact absurd hinstance ((hcomparable a hreach).1 type fields)
  | scalar hscalar hcopy _ _ =>
    exact agree_of_get_eq hcopy hget hscalar (hcomparable a hreach).2
  | shared _ _ hab => exact .same hab

end Equal

/-- A deep copy is a new graph of the same form. For every value of a store from which
no reference leads out of the store, copying ends before its budget is used up, and
some map sends the arrays, dicts and instances reached from the value one to one onto
those reached from the result. A container and its copy have one shape: kind, length,
names in order and struct type; and at every place of the copy stands what stands for
the part at that place, so that sharing and cycles are those of the value. All
containers of the result are new, and no old object or table has changed. The copy is
equal to the value if no instance and no decimal other than a number is reached. -/
theorem deepCopy_isomorphic (s : Store) (v : Value) (hv : s.Grounded v) :
    ∃ w s' f, deepCopy v s = (.ok w, s') ∧
      (∀ budget, s.objects.size < budget →
        deepCopyFrom budget v ⟨s, []⟩ = deepCopyFrom (s.objects.size + 1) v ⟨s, []⟩) ∧
      IsomorphicCopy s v s' w f ∧
      (Comparable s v → equal s' w v = true) := by
  have hcomplete := complete_deepCopyFrom hv (Nat.lt_succ_self s.objects.size)
  have hcopy := hcomplete.isomorphicCopy hv
  refine ⟨_, _, _, rfl, ?_, hcopy, ?_⟩
  · intro budget hbudget
    obtain ⟨extra, rfl⟩ := Nat.exists_eq_add_of_lt hbudget
    rw [Nat.add_right_comm]
    exact deepCopyFrom_add _ extra v _ hv (ready_nil (Nat.lt_succ_self _))
  · intro hcomparable
    apply (equal_iff_exists_bisimulation _ _ _).mpr
    exact ⟨_, ⟨.refl, hcopy.root⟩, hcopy.bisimulation hv hcomparable⟩

end Value

namespace Knot

def store : Store :=
  ⟨#[.dict ⟨[("me", ⟨0⟩), ("items", ⟨1⟩)], by decide⟩, .array #[⟨2⟩, ⟨0⟩, ⟨2⟩], .int 7],
    #[], ⟨[], .empty⟩, 0⟩

theorem eq_of_reaches {x : Value} (h : store.Reaches ⟨0⟩ x) : x = ⟨0⟩ ∨ x = ⟨1⟩ ∨ x = ⟨2⟩ := by
  induction h with
  | refl => exact Or.inl rfl
  | @tail _ y _ hy ih =>
    rcases ih with rfl | rfl | rfl
    · exact (show ∀ y ∈ store.parts ⟨0⟩, y = ⟨0⟩ ∨ y = ⟨1⟩ ∨ y = ⟨2⟩ by decide) y hy
    · exact (show ∀ y ∈ store.parts ⟨1⟩, y = ⟨0⟩ ∨ y = ⟨1⟩ ∨ y = ⟨2⟩ by decide) y hy
    · cases hy

theorem grounded : store.Grounded ⟨0⟩ := by
  intro x hx
  rcases eq_of_reaches hx with rfl | rfl | rfl
  · exact ⟨by decide, by rintro _ _ ⟨⟩⟩
  · exact ⟨by decide, by rintro _ _ ⟨⟩⟩
  · exact ⟨by decide, by rintro _ _ ⟨⟩⟩

theorem comparable : Value.Comparable store ⟨0⟩ := by
  intro x hx
  rcases eq_of_reaches hx with rfl | rfl | rfl
  · exact ⟨by rintro _ _ ⟨⟩, by rintro _ ⟨⟩⟩
  · exact ⟨by rintro _ _ ⟨⟩, by rintro _ ⟨⟩⟩
  · exact ⟨by rintro _ _ ⟨⟩, by rintro _ ⟨⟩⟩

theorem copy_is_knot :
    store.Grounded ⟨0⟩ ∧ ∃ w s' f, Value.deepCopy ⟨0⟩ store = (.ok w, s') ∧
      Value.IsomorphicCopy store ⟨0⟩ s' w f ∧ Value.equal s' w ⟨0⟩ = true := by
  obtain ⟨w, s', f, hrun, -, hcopy, hequal⟩ := Value.deepCopy_isomorphic store ⟨0⟩ grounded
  exact ⟨grounded, w, s', f, hrun, hcopy, hequal comparable⟩

end Knot

end Stencil
