import Stencil.Proofs.Place.Lookup

/-!
Places that are read after one was written. It can be read at once what was written,
except that a method is bound to the instance it is read through; and a place that is
found in another slot, or nowhere, is read as if nothing had been written. An assignment
that fails changes nothing at all.
-/

namespace Stencil

/-- What can be read after the value has been written to the slot. -/
structure Machine.ReadsBack (m : Machine) (slot : Slot) (v : Value) : Prop where
  /-- A place that is found in the slot is read as the value. -/
  holds : ∀ q : Place, q.resolve? (m.write slot v) = some slot →
    q.receiver? m = none ∨ m.store.isMethod v = false →
      q.get (m.write slot v) = .done v (m.write slot v)
  /-- Through an instance a method is read bound to it. -/
  binds : ∀ (q : Place) (owner : Value), q.resolve? (m.write slot v) = some slot →
    q.receiver? m = some owner → m.store.isMethod v = true →
      q.get (m.write slot v) = Eval.make (.method owner (.function v)) (m.write slot v)
  /-- Any other place is read as if nothing had been written. -/
  others : ∀ q : Place, q.resolve? (m.write slot v) ≠ some slot →
    q.get (m.write slot v) = (q.get m).inMachine (·.write slot v)
  sizes : ∀ array items, m.store.get array = .array items →
    ∃ items', (m.write slot v).store.get array = .array items' ∧ items'.size = items.size

/-- What has been written to a slot is read back from it. -/
theorem Machine.readsBack {m : Machine} {slot : Slot} (hin : slot.In m.store) (v : Value) :
    m.ReadsBack slot v where
  holds q hslot hplain := by
    have hfound : q.found? (m.write slot v) = some v := by
      rw [Place.found?_of_resolve? hslot]
      exact Slot.content?_write_self hin
    rw [Place.get_of_found hfound, Place.receiver?_write]
    cases hreceiver : q.receiver? m with
    | none => rfl
    | some owner =>
      have hmethod : (m.write slot v).store.isMethod v = false := by
        rcases hplain with hnone | hmethod
        · rw [hreceiver] at hnone
          cases hnone
        · exact (Slot.isMethod_write v).trans hmethod
      dsimp only
      unfold Eval.bindReceiver
      rw [Eval.read_bind, hmethod]
      rfl
  binds q owner hslot hreceiver hmethod := by
    have hfound : q.found? (m.write slot v) = some v := by
      rw [Place.found?_of_resolve? hslot]
      exact Slot.content?_write_self hin
    have hkept : (m.write slot v).store.isMethod v = true := (Slot.isMethod_write v).trans hmethod
    rw [Place.get_of_found hfound, Place.receiver?_write, hreceiver]
    dsimp only
    unfold Eval.bindReceiver
    rw [Eval.read_bind, hkept]
    rfl
  others q hslot := Place.get_write hin hslot
  sizes array items hget := by
    have hakin := m.akin_write slot v array
    rw [hget] at hakin
    generalize (m.write slot v).store.get array = object at hakin
    cases hakin with
    | same => exact ⟨items, rfl, rfl⟩
    | array hsize => exact ⟨_, rfl, hsize⟩

section Effects

variable {m : Machine} {v : Value}

/-- An element of an array has two indexes, and they mean its slot. -/
theorem Place.slots_of_index {array key : Value} {items : Array Value} {i : Int64} {index : Nat}
    (hget : m.store.get array = .array items) (hsize : items.size < Nat.pow 2 63)
    (hkey : m.store.get key = .int i) (hindex : index < items.size)
    (hi : i.toInt = index ∨ i.toInt = index - items.size) (pos : Position) :
    (Place.index array key pos).slots m = [.element array index] ∧
      (Place.index array key pos).get m = .done items[index] m := by
  have hslot : array.slotAt key m.store = .ok (.element array index) := by
    rw [Value.slotAt_array hget, hkey, slotOf_int_of_mem hsize hindex hi]
    rfl
  have hslots : (Place.index array key pos).slots m = [.element array index] := by
    rw [slots, hslot]
    rfl
  have hcontent : (Slot.element array index).content? m.store = some items[index] := by
    rw [Slot.content?, hget]
    exact Array.getElem?_eq_getElem hindex
  have hfound : (Place.index array key pos).found? m = some items[index] := by
    rw [found?_index, hslot]
    exact hcontent
  exact ⟨hslots, get_of_found hfound⟩

/-- An array is neither read nor written at an index that is out of range. -/
theorem Place.fails_of_not_index {array key : Value} {items : Array Value} {i : Int64}
    (hget : m.store.get array = .array items) (hsize : items.size < Nat.pow 2 63)
    (hkey : m.store.get key = .int i) (hi : ¬(-items.size ≤ i.toInt ∧ i.toInt < items.size))
    (pos : Position) :
    (Place.index array key pos).get m = Eval.fail .indexOutOfRange pos m ∧
      (Place.index array key pos).set v m = Eval.fail .indexOutOfRange pos m := by
  have hslot : array.slotAt key m.store = .error .indexOutOfRange := by
    rw [Value.slotAt_array hget, hkey, slotOf_int_of_notMem hsize hi]
    rfl
  have hread := Value.elementAt_eq array key m.store
  have hwrite := Value.setElementAt_eq array key v m.store
  simp only [hget, hslot] at hread
  simp only [hslot] at hwrite
  exact ⟨Eval.act_of_error hread pos, Eval.act_of_error hwrite pos⟩

/-- The built-in function writes an attribute as an assignment does. -/
theorem Eval.callBuiltin_setattr {owner key : Value} {table : ScopeId} {name : String}
    (howner : m.store.namespace? owner = some table) (hkey : (m.store.get key).text? = some name)
    (ex : Executor) (pos : Position) :
    callBuiltin ex .setattr [owner, key, v] pos m =
      .done owner (m.write (.binding table name) v) :=
  act_of_ok (setAttribute_of_namespace? howner hkey v) pos

/-- A place is written in its first slot, and then found there; without a slot it cannot be
written. -/
theorem Place.set_reads_back (hm : m.HasTables) (v : Value) (p : Place) :
    (∃ slot, (p.slots m).head? = some slot ∧ p.set v m = .done () (m.write slot v) ∧
      p.resolve? (m.write slot v) = some slot ∧ m.ReadsBack slot v) ∨
    p.slots m = [] ∧ ∃ d, p.set v m = .fail d m := by
  cases hslots : (p.slots m).head? with
  | some slot =>
    have hin := in_of_head? hm hslots
    exact .inl ⟨slot, rfl, set_of_head? hslots v, resolve?_write hin hslots,
      Machine.readsBack hin v⟩
  | none =>
    have hnil : p.slots m = [] := List.head?_eq_none_iff.mp hslots
    exact .inr ⟨hnil, set_of_slots_eq_nil hnil v⟩

/-- An assignment of a running program, once its value and its place are worked out, either
writes the first slot of the place, where the value is found from then on, or fails and
changes nothing. -/
theorem Eval.Reachable.assign_reads_back (h : Reachable m) {fuel : Nat} {e target : Expr}
    {p : Place} {m₁ m₂ : Machine} (hvalue : eval fuel e m = .done v m₁)
    (hplace : placeOf (eval fuel) target m₁ = .done p m₂) :
    (∃ slot, (p.slots m₂).head? = some slot ∧
      assign (eval fuel) v target m₁ = .done () (m₂.write slot v) ∧
      p.resolve? (m₂.write slot v) = some slot ∧ m₂.ReadsBack slot v) ∨
    p.slots m₂ = [] ∧ ∃ d, assign (eval fuel) v target m₁ = .fail d m₂ := by
  have hset : assign (eval fuel) v target m₁ = p.set v m₂ := bind_of_done hplace _
  rw [hset]
  exact Place.set_reads_back (h.hasTables_of_assignment hvalue hplace) v p

end Effects

/-- Reading over writing. Wherever a program gets to, an assignment to a place either
fails and changes nothing, or writes the first slot of the place. The place is then found
in the slot, and all that is found in it is read as the value; any other place is read as
if nothing had been written. The indexes of an array whose length is a number are those
from minus its length up to its length, and each element has one that is negative and one
that is not. And `setattr` does to struct types, instances and modules what an assignment
does. -/
theorem read_over_write (m : Machine) (hm : m.HasTables) (v : Value) :
    (∀ p : Place,
      (∃ slot, (p.slots m).head? = some slot ∧ p.set v m = .done () (m.write slot v) ∧
        p.resolve? (m.write slot v) = some slot ∧ m.ReadsBack slot v) ∨
      p.slots m = [] ∧ ∃ d, p.set v m = .fail d m) ∧
    (∀ array items, m.store.get array = .array items → items.size < Nat.pow 2 63 →
      ∀ key i, m.store.get key = .int i → ∀ pos,
        (∀ index (_ : index < items.size), i.toInt = index ∨ i.toInt = index - items.size →
          (Place.index array key pos).slots m = [.element array index] ∧
          (Place.index array key pos).get m = .done items[index] m) ∧
        (¬(-items.size ≤ i.toInt ∧ i.toInt < items.size) →
          (Place.index array key pos).get m = Eval.fail .indexOutOfRange pos m ∧
          (Place.index array key pos).set v m = Eval.fail .indexOutOfRange pos m)) ∧
    ∀ owner table, m.store.namespace? owner = some table →
      ∀ key name, (m.store.get key).text? = some name → ∀ ex pos pos',
        (Place.attr owner name pos).set v m = .done () (m.write (.binding table name) v) ∧
        Eval.callBuiltin ex .setattr [owner, key, v] pos' m =
          .done owner (m.write (.binding table name) v) := by
  refine ⟨Place.set_reads_back hm v, fun array items hget hsize key i hkey pos => ?_, ?_⟩
  · constructor
    · intro index hindex hi
      exact Place.slots_of_index hget hsize hkey hindex hi pos
    · intro hi
      exact Place.fails_of_not_index hget hsize hkey hi pos
  · intro owner table howner key name hkey ex pos pos'
    exact ⟨Eval.setAttr_of_namespace? howner name v pos,
      Eval.callBuiltin_setattr howner hkey ex pos'⟩

/-! The last element of an array, which has two indexes. -/

namespace LastElement

def source : String := "\x7b@ i = -1 j = 1 a = [i, j] @\x7d"

def session : Session := .start ⟨[], .empty⟩ "" .lf .none

def items? : Object → Option (Array Value)
  | .array items => some items
  | _ => none

def int? : Object → Option Int64
  | .int i => some i
  | _ => none

theorem eq_array_of_items? {object : Object} {items : Array Value}
    (h : items? object = some items) : object = .array items := by
  cases object with
  | array others =>
    cases h
    rfl
  | _ => cases h

theorem eq_int_of_int? {object : Object} {i : Int64} (h : int? object = some i) :
    object = .int i := by
  cases object with
  | int other =>
    cases h
    rfl
  | _ => cases h

theorem run_source : ((session.run 9 ⟨source, none⟩ []).map fun s' =>
    (s'.global? "a", items? (s'.store.get ⟨6⟩), int? (s'.store.get ⟨2⟩), int? (s'.store.get ⟨4⟩))) =
      some (some ⟨6⟩, some #[⟨2⟩, ⟨4⟩], some (-1), some 1) := by decide +kernel

/-- What `a[i]` was set to is read as `a[j]`, and `a` is still the array. -/
theorem last_element_written : ∃ m : Machine, Eval.Reachable m ∧
    m.bound? "a" = some ⟨6⟩ ∧ m.store.get ⟨2⟩ = .int (-1) ∧ m.store.get ⟨4⟩ = .int 1 ∧
    ∀ v, ∃ m' : Machine, (Place.index ⟨6⟩ ⟨2⟩ .start).set v m = .done () m' ∧
      (Place.index ⟨6⟩ ⟨4⟩ .start).get m' = .done v m' ∧
      (Place.named "a" .start).get m' = .done ⟨6⟩ m' := by
  obtain ⟨s', hrun, hend⟩ := Option.map_eq_some_iff.mp run_source
  simp only [Prod.mk.injEq] at hend
  obtain ⟨ha, hitems, hi, hj⟩ := hend
  have harray : s'.store.get ⟨6⟩ = .array #[⟨2⟩, ⟨4⟩] := eq_array_of_items? hitems
  have hbound : (s'.machine none).bound? "a" = some ⟨6⟩ := by
    have hlocal : s'.store.lookup s'.context.globals "a" = some ⟨6⟩ := ha
    change (s'.store.lookup s'.context.globals "a").or _ = some ⟨6⟩
    rw [hlocal]
    rfl
  have hm : Eval.Reachable (s'.machine none) := .start none (.run (.start ..) hrun)
  refine ⟨s'.machine none, hm, hbound, eq_int_of_int? hi, eq_int_of_int? hj, fun v => ?_⟩
  obtain ⟨hwrites, hindexes, -⟩ := read_over_write _ hm.hasTables v
  have hindex := hindexes ⟨6⟩ _ harray (by decide)
  have hlast := ((hindex ⟨2⟩ _ (eq_int_of_int? hi) .start).1 1 (by decide) (.inr (by decide))).1
  have hone := ((hindex ⟨4⟩ _ (eq_int_of_int? hj) .start).1 1 (by decide) (.inl (by decide))).1
  have hread : (Place.named "a" .start).get (s'.machine none) = .done ⟨6⟩ (s'.machine none) :=
    Place.get_of_found ((Place.found?_named "a" .start).trans hbound)
  obtain ⟨slot, hslot, hset, -, hreads⟩ | ⟨hnone, -⟩ := hwrites (.index ⟨6⟩ ⟨2⟩ .start)
  · rw [hlast] at hslot
    cases hslot
    refine ⟨_, hset, hreads.holds _ ?_ (.inl rfl), ?_⟩
    · exact Place.resolve?_write (Place.in_of_head? hm.hasTables (congrArg List.head? hone))
        (congrArg List.head? hone)
    · refine (hreads.others _ fun hfound => ?_).trans (congrArg (Outcome.inMachine _) hread)
      have hmem := List.mem_of_find?_eq_some hfound
      simp [Place.slots] at hmem
  · rw [hlast] at hnone
    cases hnone

end LastElement

end Stencil
