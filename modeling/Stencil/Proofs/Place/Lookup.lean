import Stencil.Proofs.Eval.Unpacking
import Stencil.Proofs.Place.Index

/-!
The slots of a place. A place is looked up in slots, one after the other: a variable in
the locals and then in the globals, an attribute in the table of its owner and then in
that of the struct, an index in the slot that it means. It is read as what the first slot
holds that holds something, and written in the first of all. So a place that is not found
in the slot that was written is read as before.
-/

namespace Stencil

/-- The active frame and the owners of attributes have their tables. -/
structure Machine.HasTables (m : Machine) : Prop where
  locals_lt : m.frame.locals.index < m.store.scopes.size
  bounded : ∀ v id, m.store.namespace? v = some id → id.index < m.store.scopes.size

namespace Eval

variable {m m₁ m₂ : Machine}

/-- Wherever a program gets to, all tables are there. -/
theorem Reachable.hasTables (h : Reachable m) : m.HasTables :=
  ⟨h.seated.locals_lt, h.orderly.tidy.bounded⟩

/-- A computation that seats what it makes and drops nothing leaves all tables there. -/
theorem Reachable.hasTables_after {α : Type} {x : Eval α} {a : α} (h : Reachable m)
    (hseats : Seats x) (hkeeps : Keeps False x) (hrun : x m = .done a m₁) : m₁.HasTables := by
  have hseated := hseats m h.seated
  have horderly := hkeeps m h.orderly
  rw [hrun] at hseated horderly
  have hsettles : m.Settles m₁ := hseated
  have hadvances : m.Advances False m₁ := horderly
  exact ⟨hsettles.seated.locals_lt, hadvances.orderly.tidy.bounded⟩

/-- So it is where an assignment has worked out its value and its place. -/
theorem Reachable.hasTables_of_assignment (h : Reachable m) {fuel : Nat} {e target : Expr}
    {v : Value} {p : Place} (hvalue : eval fuel e m = .done v m₁)
    (hplace : placeOf (eval fuel) target m₁ = .done p m₂) : m₂.HasTables := by
  have hseats := (maintained_seated.eval_and_exec fuel).1
  have hkeeps := (maintained_orderly.eval_and_exec fuel).1
  refine h.hasTables_after (x := eval fuel e >>= fun _ => placeOf (eval fuel) target >>= pure)
    ((hseats e).bind fun _ => ?_) ((hkeeps e).bind fun _ => ?_) (a := p) ?_
  · exact seats_laws.placeOf_bind (fun e _ => hseats e) (fun _ _ => trivial)
      (fun _ _ _ => seats_pure _) fun _ _ _ => seats_pure _
  · exact (keeps_laws False).placeOf_bind (fun e _ => hkeeps e) (fun _ _ => trivial)
      (fun _ _ _ => (keeps_laws False).pure _) fun _ _ _ => (keeps_laws False).pure _
  · rw [bind_of_done hvalue, bind_of_done hplace]
    rfl

theorem act_of_ok {α : Type} {action : Action α} {a : α} {s : Store}
    (h : action m.store = (.ok a, s)) (pos : Position) :
    act pos action m = .done a { m with store := s } := by
  unfold Eval.act
  dsimp only
  rw [h]

theorem act_of_error {α : Type} {action : Action α} {fault : Fault}
    (h : action m.store = (.error fault, m.store)) (pos : Position) :
    act pos action m = fail fault pos m := by
  unfold Eval.act
  dsimp only
  rw [h]
  rfl

end Eval

namespace Place

/-- The slots in which a place is looked up, in this order. The first is the one that an
assignment writes. -/
def slots (m : Machine) : Place → List Slot
  | .named name _ => [.binding m.frame.locals name, .binding m.frame.globals name]
  | .attr owner name _ =>
    match m.store.get owner with
    | .module _ table => [.binding table name]
    | .struct type => [.binding type.fields name]
    | .instance struct fields =>
      .binding fields name :: ((m.store.namespace? struct).map (Slot.binding · name)).toList
    | _ => []
  | .index owner key _ => (owner.slotAt key m.store).toOption.toList

/-- The slot in which the place is found. -/
def resolve? (m : Machine) (p : Place) : Option Slot :=
  (p.slots m).find? fun slot => (slot.content? m.store).isSome

def found? (m : Machine) (p : Place) : Option Value :=
  (p.slots m).findSome? fun slot => slot.content? m.store

def receiver? (m : Machine) : Place → Option Value
  | .attr owner _ _ =>
    match m.store.get owner with
    | .instance _ _ => some owner
    | _ => none
  | _ => none

variable {m : Machine} {p : Place} {slot : Slot} {v w : Value}

theorem slots_write : p.slots (m.write slot v) = p.slots m := by
  cases p with
  | named name pos => rfl
  | attr owner name pos =>
    have howner := m.akin_write slot v owner
    have hstruct : ∀ struct, (m.write slot v).store.namespace? struct = m.store.namespace? struct :=
      fun struct => (m.akin_write slot v struct).namespace?_eq
    simp only [slots, hstruct]
    generalize m.store.get owner = object, (m.write slot v).store.get owner = object' at howner ⊢
    cases howner with
    | same => rfl
    | array _ => rfl
    | dict => rfl
  | index owner key pos => exact congrArg (·.toOption.toList) Value.slotAt_write

theorem receiver?_write : p.receiver? (m.write slot v) = p.receiver? m := by
  cases p with
  | attr owner name pos =>
    have howner := m.akin_write slot v owner
    simp only [receiver?]
    generalize m.store.get owner = object, (m.write slot v).store.get owner = object' at howner ⊢
    cases howner with
    | same => rfl
    | array _ => rfl
    | dict => rfl
  | _ => rfl

theorem findSome?_of_find? {s : Store} {candidates : List Slot}
    (h : candidates.find? (fun slot => (slot.content? s).isSome) = some slot) :
    candidates.findSome? (fun slot => slot.content? s) = slot.content? s := by
  induction candidates with
  | nil => cases h
  | cons candidate rest ih =>
    cases hcontent : candidate.content? s with
    | some w =>
      simp only [List.find?_cons, hcontent, Option.isSome_some] at h
      obtain rfl := Option.some.inj h
      rw [List.findSome?_cons, hcontent]
    | none =>
      simp only [List.find?_cons, hcontent, Option.isSome_none] at h
      rw [List.findSome?_cons, hcontent]
      exact ih h

/-- What a place is found to hold is what its slot holds. -/
theorem found?_of_resolve? (h : p.resolve? m = some slot) :
    p.found? m = slot.content? m.store := findSome?_of_find? h

/-- Up to the slot that is found, no candidate has been written. -/
theorem findSome?_write {s : Store} (hin : slot.In s) {candidates : List Slot}
    (h : candidates.find? (fun other => (other.content? (slot.write v s)).isSome) ≠ some slot) :
    candidates.findSome? (fun other => other.content? (slot.write v s)) =
      candidates.findSome? fun other => other.content? s := by
  induction candidates with
  | nil => rfl
  | cons candidate rest ih =>
    by_cases hslot : candidate = slot
    · subst hslot
      refine absurd ?_ h
      simp only [List.find?_cons, Slot.content?_write_self hin, Option.isSome_some]
    · rw [List.findSome?_cons, List.findSome?_cons, Slot.content?_write_of_ne hslot]
      cases hcontent : candidate.content? s with
      | some w => rfl
      | none =>
        refine ih ?_
        simp only [List.find?_cons, Slot.content?_write_of_ne hslot, hcontent,
          Option.isSome_none] at h
        exact h

/-- A write to a slot in which the place is not found does not change what it is found to hold.
-/
theorem found?_write (hin : slot.In m.store) (h : p.resolve? (m.write slot v) ≠ some slot) :
    p.found? (m.write slot v) = p.found? m := by
  unfold resolve? at h
  unfold found?
  rw [slots_write] at h ⊢
  exact findSome?_write hin h

/-- Where the first slot has been written, the place is found in it. -/
theorem resolve?_write (hin : slot.In m.store) (h : (p.slots m).head? = some slot) :
    p.resolve? (m.write slot v) = some slot := by
  obtain ⟨rest, hslots⟩ := List.head?_eq_some_iff.mp h
  have hcontent : slot.content? (m.write slot v).store = some v := Slot.content?_write_self hin
  rw [resolve?, slots_write, hslots, List.find?_cons, hcontent]
  rfl

theorem eq_ok_of_toOption {ε α : Type} {x : Except ε α} {a : α} (h : x.toOption = some a) :
    x = .ok a := by
  cases x with
  | ok b => exact congrArg Except.ok (Option.some.inj h)
  | error e => cases h

theorem findSome?_cons_eq_or {α β : Type} (f : α → Option β) (a : α) (rest : List α) :
    (a :: rest).findSome? f = (f a).or (rest.findSome? f) := by
  rw [List.findSome?_cons]
  cases f a with
  | some b => rfl
  | none => rfl

theorem found?_named (name : String) (pos : Position) :
    (named name pos).found? m = m.bound? name := by
  rw [found?, slots, findSome?_cons_eq_or, findSome?_cons_eq_or, List.findSome?_nil, Option.or_none]
  rfl

theorem found?_instance {owner struct : Value} {fields : ScopeId} {name : String}
    (hget : m.store.get owner = .instance struct fields) (pos : Position) :
    (attr owner name pos).found? m = m.store.instanceField? struct fields name := by
  simp only [found?, slots, hget]
  rw [findSome?_cons_eq_or]
  refine congrArg (Option.or _) ?_
  change _ = (m.store.namespace? struct).bind _
  cases m.store.namespace? struct with
  | none => rfl
  | some table =>
    change List.findSome? _ [Slot.binding table name] = _
    rw [findSome?_cons_eq_or, List.findSome?_nil, Option.or_none]
    rfl

/-- A table is the only slot of a struct type or module. -/
theorem found?_binding {owner : Value} {table : ScopeId} {name : String} {pos : Position}
    (h : (attr owner name pos).slots m = [.binding table name]) :
    (attr owner name pos).found? m = m.store.lookup table name := by
  rw [found?, h, findSome?_cons_eq_or, List.findSome?_nil, Option.or_none]
  rfl

theorem found?_index {owner key : Value} {pos : Position} :
    (index owner key pos).found? m =
      (owner.slotAt key m.store).toOption.bind fun slot => slot.content? m.store := by
  simp only [found?, slots]
  cases owner.slotAt key m.store with
  | ok slot =>
    change List.findSome? _ [slot] = _
    rw [findSome?_cons_eq_or, List.findSome?_nil, Option.or_none]
    rfl
  | error fault => rfl

def unfound (m : Machine) : Place → Eval Value
  | .named name pos => do
    match ← Eval.offered? name with
    | some v => return v
    | none => Eval.fail (.undefined name) pos
  | .attr owner name pos =>
    if (m.store.namespace? owner).isNone && Method.has (m.store.get owner).tag name then
      Eval.make (.method owner (.builtin name))
    else Eval.fail (.noAttribute name (m.store.get owner).tag) pos
  | .index owner key pos =>
    match m.store.get owner with
    | .str content =>
      match slotOf (m.store.get key) content.toList.length with
      | .ok i => Eval.make (.str ((content.toList[i]?.map String.singleton).getD ""))
      | .error fault => Eval.fail fault pos
    | .array _ | .dict _ =>
      match owner.slotAt key m.store with
      | .ok slot => Eval.fail slot.vacancy pos
      | .error fault => Eval.fail fault pos
    | object => Eval.fail (.cannotIndex object.tag) pos

/-- What a place is read as: what it is found to hold, bound to the instance through which it
is read. -/
def reading (m : Machine) (p : Place) : Eval Value :=
  match p.found? m with
  | some w =>
    match p.receiver? m with
    | some owner => Eval.bindReceiver owner w
    | none => pure w
  | none => p.unfound m

theorem get_named (name : String) (pos : Position) :
    (named name pos).get m = (named name pos).reading m m := by
  have hfound := found?_named (m := m) name pos
  unfold reading
  change Eval.bind (Eval.lookup name) _ m = _
  rw [Eval.bind, hfound]
  cases hbound : m.bound? name with
  | some w =>
    rw [Eval.lookup_of_bound hbound]
    rfl
  | none =>
    rw [Eval.lookup_of_unbound hbound]
    rfl

theorem get_attr (owner : Value) (name : String) (pos : Position) :
    (attr owner name pos).get m = (attr owner name pos).reading m m := by
  unfold reading
  change Eval.getAttr owner name pos m = _
  unfold Eval.getAttr
  rw [Eval.load_bind]
  cases hget : m.store.get owner with
  | module path table =>
    have hslots : (attr owner name pos).slots m = [.binding table name] := by
      simp only [slots, hget]
    simp only [found?_binding hslots, receiver?, unfound, Store.namespace?, hget]
    rw [Eval.read_bind]
    cases m.store.lookup table name <;> rfl
  | struct type =>
    have hslots : (attr owner name pos).slots m = [.binding type.fields name] := by
      simp only [slots, hget]
    simp only [found?_binding hslots, receiver?, unfound, Store.namespace?, hget]
    rw [Eval.read_bind]
    cases m.store.lookup type.fields name <;> rfl
  | «instance» struct fields =>
    simp only [found?_instance hget, receiver?, unfound, Store.namespace?, hget]
    rw [Eval.read_bind]
    cases m.store.instanceField? struct fields name <;> rfl
  | _ =>
    simp only [found?, slots, unfound, Store.namespace?, hget]
    rfl

/-- Arrays and dicts are read alike, by way of the slot. -/
theorem get_index_of_container {owner key : Value}
    (h : owner.elementAt key m.store = match owner.slotAt key m.store with
      | .ok slot => match slot.content? m.store with
        | some w => (.ok w, m.store)
        | none => (.error slot.vacancy, m.store)
      | .error fault => (.error fault, m.store)) (pos : Position) :
    (index owner key pos).get m = (match (index owner key pos).found? m with
      | some w => pure w
      | none => match owner.slotAt key m.store with
        | .ok slot => Eval.fail slot.vacancy pos
        | .error fault => Eval.fail fault pos : Eval Value) m := by
  rw [found?_index]
  change Eval.act pos (owner.elementAt key) m = _
  cases hslot : owner.slotAt key m.store with
  | error fault =>
    simp only [hslot] at h
    exact Eval.act_of_error h pos
  | ok slot =>
    change _ = (match slot.content? m.store with
      | some w => pure w
      | none => Eval.fail slot.vacancy pos : Eval Value) m
    cases hcontent : slot.content? m.store with
    | some w =>
      simp only [hslot, hcontent] at h
      exact Eval.act_of_ok h pos
    | none =>
      simp only [hslot, hcontent] at h
      exact Eval.act_of_error h pos

theorem found?_index_of_slotAt_error {owner key : Value} {fault : Fault}
    (h : owner.slotAt key m.store = .error fault) (pos : Position) :
    (index owner key pos).found? m = none := by
  rw [found?_index, h]
  rfl

theorem get_index (owner key : Value) (pos : Position) :
    (index owner key pos).get m = (index owner key pos).reading m m := by
  have helement := Value.elementAt_eq owner key m.store
  unfold reading
  cases hget : m.store.get owner with
  | array items =>
    simp only [hget] at helement
    simp only [receiver?, unfound, hget]
    exact get_index_of_container helement pos
  | dict entries =>
    simp only [hget] at helement
    simp only [receiver?, unfound, hget]
    exact get_index_of_container helement pos
  | str content =>
    have hslot : owner.slotAt key m.store = .error (.cannotAssignIndex .string) := by
      rw [Value.slotAt, hget]
      rfl
    simp only [hget] at helement
    simp only [found?_index_of_slotAt_error hslot, unfound, hget]
    change Eval.act pos (owner.elementAt key) m = _
    cases hindex : slotOf (m.store.get key) content.toList.length with
    | ok i =>
      simp only [hindex] at helement
      exact Eval.act_of_ok helement pos
    | error fault =>
      simp only [hindex] at helement
      exact Eval.act_of_error helement pos
  | _ =>
    have hslot : owner.slotAt key m.store =
        .error (.cannotAssignIndex (m.store.get owner).tag) := by
      rw [Value.slotAt, hget]
    simp only [hget] at helement
    simp only [found?_index_of_slotAt_error hslot, unfound, hget]
    exact Eval.act_of_error helement pos

/-- A place is read by finding it first, and by its own fault or default where it is not found.
-/
theorem get_eq_reading (p : Place) : p.get m = p.reading m m := by
  cases p with
  | named name pos => exact get_named name pos
  | attr owner name pos => exact get_attr owner name pos
  | index owner key pos => exact get_index owner key pos

/-- What a place is found to hold is what it is read as, if not bound to an instance. -/
theorem get_of_found (h : p.found? m = some w) :
    p.get m = (match p.receiver? m with
      | some owner => Eval.bindReceiver owner w
      | none => pure w) m := by
  rw [get_eq_reading, reading, h]

/-- Where nothing is found, the place is read as its kind says. -/
theorem get_of_not_found (h : p.found? m = none) : p.get m = p.unfound m m := by
  rw [get_eq_reading, reading, h]

theorem unfound_write : p.unfound (m.write slot v) = p.unfound m := by
  cases p with
  | named name pos => rfl
  | attr owner name pos =>
    have howner := m.akin_write slot v owner
    have hnamespace : (m.write slot v).store.namespace? owner = m.store.namespace? owner :=
      howner.namespace?_eq
    unfold unfound
    dsimp only
    rw [hnamespace, howner.tag_eq]
  | index owner key pos =>
    have howner := m.akin_write slot v owner
    have hkey := m.akin_write slot v key
    have hslot : owner.slotAt key (m.write slot v).store = owner.slotAt key m.store :=
      Value.slotAt_write
    simp only [unfound, hkey.slotOf_eq, hslot]
    generalize m.store.get owner = object, (m.write slot v).store.get owner = object' at howner ⊢
    cases howner with
    | same => rfl
    | array _ => rfl
    | dict => rfl

/-- What a place is read as when nothing is found does not look at the slot. -/
theorem ignores_unfound (m : Machine) (p : Place) : Eval.Ignores slot v (p.unfound m) := by
  cases p with
  | named name pos =>
    refine (Eval.ignores_offered? name).bind fun found => ?_
    cases found with
    | some v => exact Eval.ignores_pure v
    | none => exact Eval.ignores_fail _ pos
  | attr owner name pos =>
    unfold unfound
    dsimp only
    split
    · exact Eval.ignores_make _
    · exact Eval.ignores_fail _ pos
  | index owner key pos =>
    unfold unfound
    dsimp only
    split
    · split
      · exact Eval.ignores_make _
      · exact Eval.ignores_fail _ pos
    · split
      · exact Eval.ignores_fail _ pos
      · exact Eval.ignores_fail _ pos
    · split
      · exact Eval.ignores_fail _ pos
      · exact Eval.ignores_fail _ pos
    · exact Eval.ignores_fail _ pos

/-- A place that is not found in the slot is read as if nothing had been written. -/
theorem get_write (hin : slot.In m.store) (h : p.resolve? (m.write slot v) ≠ some slot) :
    p.get (m.write slot v) = (p.get m).inMachine (·.write slot v) := by
  have hfound := found?_write hin h
  cases hbefore : p.found? m with
  | none =>
    rw [hbefore] at hfound
    rw [get_of_not_found hfound, get_of_not_found hbefore, unfound_write]
    exact (ignores_unfound m p m hin).1
  | some w =>
    rw [hbefore] at hfound
    rw [get_of_found hfound, get_of_found hbefore, receiver?_write]
    cases p.receiver? m with
    | some owner => exact (Eval.ignores_bindReceiver owner w m hin).1
    | none => rfl

/-! Writing. -/

/-- The first slot of an attribute is in the table of its owner, if the owner has one. -/
theorem head?_slots_attr (owner : Value) (name : String) (pos : Position) :
    ((attr owner name pos).slots m).head? =
      (m.store.namespace? owner).map (Slot.binding · name) := by
  unfold slots Store.namespace?
  dsimp only
  cases m.store.get owner with
  | _ => rfl

theorem head?_slots_index {owner key : Value} {pos : Position}
    (h : ((index owner key pos).slots m).head? = some slot) :
    owner.slotAt key m.store = .ok slot := by
  rw [slots, Option.head?_toList] at h
  exact eq_ok_of_toOption h

theorem in_of_head? (hm : m.HasTables) (h : (p.slots m).head? = some slot) : slot.In m.store := by
  cases p with
  | named name pos =>
    cases h
    exact hm.locals_lt
  | attr owner name pos =>
    rw [head?_slots_attr] at h
    obtain ⟨table, htable, rfl⟩ := Option.map_eq_some_iff.mp h
    exact hm.bounded owner table htable
  | index owner key pos => exact Value.in_of_slotAt (head?_slots_index h)

/-- A place is written in its first slot. -/
theorem set_of_head? (h : (p.slots m).head? = some slot) (v : Value) :
    p.set v m = .done () (m.write slot v) := by
  cases p with
  | named name pos =>
    cases h
    rfl
  | attr owner name pos =>
    rw [head?_slots_attr] at h
    obtain ⟨table, htable, rfl⟩ := Option.map_eq_some_iff.mp h
    exact Eval.setAttr_of_namespace? htable name v pos
  | index owner key pos =>
    have hset := Value.setElementAt_eq owner key v m.store
    rw [head?_slots_index h] at hset
    exact Eval.act_of_ok hset pos

/-- A place without a slot cannot be written, and the attempt changes nothing. -/
theorem set_of_slots_eq_nil (h : p.slots m = []) (v : Value) : ∃ d, p.set v m = .fail d m := by
  cases p with
  | named name pos => cases h
  | attr owner name pos =>
    have hnone : m.store.namespace? owner = none := by
      have hhead := head?_slots_attr (m := m) owner name pos
      rw [h] at hhead
      exact Option.map_eq_none_iff.mp hhead.symm
    have hobject : (m.store.get owner).namespace? = none := hnone
    refine ⟨m.diagnose (.runtime (.fixedAttributes name (m.store.get owner).tag)) (some pos), ?_⟩
    change Eval.setAttr owner name v pos m = _
    unfold Eval.setAttr
    rw [Eval.load_bind, hobject]
    rfl
  | index owner key pos =>
    have hset := Value.setElementAt_eq owner key v m.store
    simp only [slots] at h
    cases hslot : owner.slotAt key m.store with
    | ok slot =>
      rw [hslot] at h
      cases h
    | error fault =>
      rw [hslot] at hset
      exact ⟨_, Eval.act_of_error hset pos⟩

end Place

end Stencil
