import Stencil.Proofs.Place.Slot

/-!
Indexes. An array of a length that fits takes the numbers from minus its length up to its
length for its elements, and every element has a number of each sign. An index into an
array or dict means a slot, which is what is read and written there; texts are only read.
-/

namespace Stencil

/-- An index that means an element lies within the array. -/
theorem slotOf_lt {key : Object} {size index : Nat} (h : slotOf key size = .ok index) :
    index < size := by
  cases key with
  | int i =>
    simp only [slotOf] at h
    generalize (if i < 0 then i + Int64.ofNat size else i) = normal at h
    split at h
    · cases h
    · next hinside =>
      obtain rfl := Except.ok.inj h
      simp only [Bool.or_eq_true, decide_eq_true_eq, not_or, Int64.le_iff_toInt_le,
        Int64.lt_iff_toInt_lt, Int64.toInt_ofNat', Int64.toInt_zero] at hinside
      have hwraps : (size : Int).bmod Int64.size ≤ size := by
        rw [Int.bmod_def, Int64.size]
        split <;> omega
      omega
  | _ => cases h

section Wrapping

variable {i : Int64} {size : Nat}

/-- Numbers that fit make no index wrap round. -/
theorem toInt_normal (hsize : size < Nat.pow 2 63) :
    (if i < 0 then i + Int64.ofNat size else i).toInt =
      if i.toInt < 0 then i.toInt + size else i.toInt := by
  have hlower := i.le_toInt
  have hlimit : size < 9223372036854775808 := hsize
  have hneg : i < 0 ↔ i.toInt < 0 := by rw [Int64.lt_iff_toInt_lt, Int64.toInt_zero]
  by_cases hi : i.toInt < 0
  · rw [if_pos (hneg.mpr hi), if_pos hi, Int64.toInt_add, Int64.toInt_ofNat_of_lt hsize]
    apply Int.bmod_eq_of_le
    · omega
    · omega
  · rw [if_neg (hneg.not.mpr hi), if_neg hi]

/-- An element has two indexes, one from the front and one from the back. -/
theorem slotOf_int_of_mem (hsize : size < Nat.pow 2 63) {index : Nat} (hindex : index < size)
    (hi : i.toInt = index ∨ i.toInt = index - size) : slotOf (.int i) size = .ok index := by
  have hnormal := toInt_normal (i := i) hsize
  simp only [slotOf]
  generalize (if i < 0 then i + Int64.ofNat size else i) = normal at hnormal ⊢
  have hindex : normal.toInt = index := by
    rw [hnormal]
    split <;> omega
  rw [if_neg]
  · rw [hindex, Int.toNat_natCast]
  · simp only [Bool.or_eq_true, decide_eq_true_eq, not_or, Int64.le_iff_toInt_le,
      Int64.lt_iff_toInt_lt, Int64.toInt_ofNat_of_lt hsize, Int64.toInt_zero]
    omega

/-- All other indexes are out of range. -/
theorem slotOf_int_of_notMem (hsize : size < Nat.pow 2 63)
    (hi : ¬(-size ≤ i.toInt ∧ i.toInt < size)) :
    slotOf (.int i) size = .error .indexOutOfRange := by
  have hnormal := toInt_normal (i := i) hsize
  simp only [slotOf]
  generalize (if i < 0 then i + Int64.ofNat size else i) = normal at hnormal ⊢
  rw [if_pos]
  simp only [Bool.or_eq_true, decide_eq_true_eq, Int64.le_iff_toInt_le, Int64.lt_iff_toInt_lt,
    Int64.toInt_ofNat_of_lt hsize, Int64.toInt_zero, hnormal]
  split <;> omega

end Wrapping

/-- The slot of an array or dict that an index means. -/
def Value.slotAt (owner key : Value) (s : Store) : Except Fault Slot :=
  match s.get owner with
  | .array items => (slotOf (s.get key) items.size).map (.element owner)
  | .dict _ => (keyOf (s.get key)).map (.entry owner)
  | object => .error (.cannotAssignIndex object.tag)

def Slot.vacancy : Slot → Fault
  | .binding _ name => .undefined name
  | .element _ _ => .indexOutOfRange
  | .entry _ key => .keyNotFound key

namespace Action

theorem load_bind {α : Type} (w : Value) (f : Object → Action α) (s : Store) :
    (load w >>= f) s = f (s.get w) s := rfl

theorem ofExcept_bind {α β : Type} (x : Except Fault α) (f : α → Action β) (s : Store) :
    (ofExcept x >>= f) s = match x with
      | .ok a => f a s
      | .error fault => (.error fault, s) := by
  cases x with
  | ok a => rfl
  | error fault => rfl

end Action

theorem exists_of_map_eq_ok {ε α β : Type} {x : Except ε α} {f : α → β} {b : β}
    (h : x.map f = .ok b) : ∃ a, x = .ok a ∧ f a = b := by
  cases x with
  | ok a => exact ⟨a, rfl, Except.ok.inj h⟩
  | error e => cases h

namespace Value

variable {owner key v : Value} {s : Store} {slot : Slot}

/-- The slots of an array are its elements. -/
theorem slotAt_array {items : Array Value} (hget : s.get owner = .array items) :
    owner.slotAt key s = (slotOf (s.get key) items.size).map (.element owner) := by
  rw [slotAt, hget]

/-- The slots of a dict are its entries, and any key has one. -/
theorem slotAt_dict {entries : Dict Value} (hget : s.get owner = .dict entries) :
    owner.slotAt key s = (keyOf (s.get key)).map (.entry owner) := by
  rw [slotAt, hget]

/-- A write does not change which slot an index means. -/
theorem slotAt_write : owner.slotAt key (slot.write v s) = owner.slotAt key s := by
  have howner := slot.akin_write v s owner
  have hkey := slot.akin_write v s key
  unfold slotAt
  rw [hkey.keyOf_eq]
  generalize s.get owner = object, (slot.write v s).get owner = object' at howner ⊢
  cases howner with
  | same => simp only [hkey.slotOf_eq]
  | array hsize => simp only [hkey.slotOf_eq, hsize]
  | dict => rfl

/-- The slot of an index is in the store. -/
theorem in_of_slotAt (h : owner.slotAt key s = .ok slot) : slot.In s := by
  unfold slotAt at h
  split at h
  · next items hget =>
    obtain ⟨index, hslot, rfl⟩ := exists_of_map_eq_ok h
    exact ⟨items, hget, slotOf_lt hslot⟩
  · next entries hget =>
    obtain ⟨name, -, rfl⟩ := exists_of_map_eq_ok h
    exact ⟨entries, hget⟩
  · cases h

/-- An element is written where the index means a slot. -/
theorem setElementAt_eq (owner key v : Value) (s : Store) :
    owner.setElementAt key v s = match owner.slotAt key s with
      | .ok slot => (.ok (), slot.write v s)
      | .error fault => (.error fault, s) := by
  unfold setElementAt
  rw [Action.load_bind]
  cases hget : s.get owner with
  | array items =>
    rw [slotAt_array hget]
    dsimp only
    rw [Action.load_bind, Action.ofExcept_bind]
    cases slotOf (s.get key) items.size with
    | ok index =>
      refine congrArg (fun f => (Except.ok (), s.update owner f)) (funext fun object => ?_)
      cases object <;> rfl
    | error fault => rfl
  | dict entries =>
    rw [slotAt_dict hget]
    dsimp only
    rw [Action.load_bind, Action.ofExcept_bind]
    cases keyOf (s.get key) with
    | ok name =>
      refine congrArg (fun f => (Except.ok (), s.update owner f)) (funext fun object => ?_)
      cases object <;> rfl
    | error fault => rfl
  | _ =>
    rw [slotAt, hget]
    rfl

/-- An element is what the slot holds that the index means; only texts are read without. -/
theorem elementAt_eq (owner key : Value) (s : Store) :
    owner.elementAt key s = match s.get owner with
      | .str content => match slotOf (s.get key) content.toList.length with
        | .ok index =>
          Action.make (.str ((content.toList[index]?.map String.singleton).getD "")) s
        | .error fault => (.error fault, s)
      | .array _ | .dict _ => match owner.slotAt key s with
        | .ok slot => match slot.content? s with
          | some w => (.ok w, s)
          | none => (.error slot.vacancy, s)
        | .error fault => (.error fault, s)
      | object => (.error (.cannotIndex object.tag), s) := by
  unfold elementAt
  rw [Action.load_bind]
  cases hget : s.get owner with
  | array items =>
    rw [slotAt_array hget]
    dsimp only
    rw [Action.load_bind, Action.ofExcept_bind]
    cases slotOf (s.get key) items.size with
    | ok index =>
      have hcontent : (Slot.element owner index).content? s = items[index]? := by
        rw [Slot.content?, hget]
        rfl
      change (match items[index]? with
        | some w => _
        | none => _ : Action Value) s = match (Slot.element owner index).content? s with
        | some w => _
        | none => _
      rw [hcontent]
      cases items[index]? with
      | some w => rfl
      | none => rfl
    | error fault => rfl
  | dict entries =>
    rw [slotAt_dict hget]
    dsimp only
    rw [Action.load_bind, Action.ofExcept_bind]
    cases keyOf (s.get key) with
    | ok name =>
      have hcontent : (Slot.entry owner name).content? s = entries.get? name := by
        rw [Slot.content?, hget]
        rfl
      change (match entries.get? name with
        | some w => _
        | none => _ : Action Value) s = match (Slot.entry owner name).content? s with
        | some w => _
        | none => _
      rw [hcontent]
      cases entries.get? name with
      | some w => rfl
      | none => rfl
    | error fault => rfl
  | str content =>
    dsimp only
    rw [Action.load_bind, Action.ofExcept_bind]
    cases slotOf (s.get key) content.toList.length with
    | ok index => rfl
    | error fault => rfl
  | _ => rfl

end Value

end Stencil
