import Stencil.Proofs.Eval.Arithmetic
import Stencil.Proofs.Value.Equal

/-!
Characters. Indexes, lengths, the array of a text and the codes of characters all go by the
characters of the text and not by the bytes they are written with. So an index into a text
finds what it finds in the array of its characters, the array is as long as the text and
joins to it again, and the code of a character leads back to it.
-/

namespace Stencil

/-- Every character is found by its code. -/
theorem Builtin.char?_ofNat_toNat (c : Char) : char? (Int64.ofNat c.toNat) = some c := by
  have hvalid : c.toNat.isValidChar := c.valid
  have hlt : c.toNat < 2 ^ 63 := by
    rcases hvalid with h | ⟨-, h⟩
    · omega
    · omega
  have hcode : (Int64.ofNat c.toNat).toInt.toNat = c.toNat := by
    rw [Int64.toInt_ofNat_of_lt hlt, Int.toNat_natCast]
  have hnonneg : ¬Int64.ofNat c.toNat < 0 := by
    rw [Int64.lt_iff_toInt_lt, Int64.toInt_ofNat_of_lt hlt, Int64.toInt_zero]
    omega
  rw [char?, if_neg hnonneg, hcode, if_pos hvalid, Char.ofNat_toNat]

namespace Value

variable {s : Store} {a b : Value}

/-- Values are equal that have a reason to be whatever other values are. -/
theorem equal_of_agree (h : ∀ R, Agree s R a b) : equal s a b = true := by
  refine (equal_iff_exists_bisimulation s a b).mpr ⟨fun x y => x = a ∧ y = b, ⟨rfl, rfl⟩, ?_⟩
  rintro x y ⟨rfl, rfl⟩
  exact h _

theorem equal_of_texts {content : String} (ha : s.get a = .str content)
    (hb : s.get b = .str content) : equal s a b = true :=
  equal_of_agree fun _ => .texts ha hb

theorem equal_of_ints {n : Int64} (ha : s.get a = .int n) (hb : s.get b = .int n) :
    equal s a b = true := by
  refine equal_of_agree fun _ => .numbers (x := .int n) (y := .int n) ?_ ?_ (decide_eq_true rfl)
  · rw [ha]
    rfl
  · rw [hb]
    rfl

end Value

namespace Store

variable {s : Store} {v : Value} {object : Object}

/-- What is held stays, unless it is what is found where there is no object. -/
theorem get_adding_of_eq (h : s.get v = object) (hne : object ≠ .nil) (made : Array Object) :
    (s.adding made).get v = object := by
  rw [get_adding (lt_size_of_get_ne_nil (h ▸ hne)), h]

/-- What is listed stays when objects are made. -/
theorem map_get_adding {items : List Value} (h : ∀ object ∈ items.map s.get, object ≠ .nil)
    (made : Array Object) : items.map (s.adding made).get = items.map s.get :=
  List.map_congr_left fun _ hitem =>
    get_adding_of_eq rfl (h _ (List.mem_map_of_mem hitem)) made

/-- Objects for a list of contents come after all others, in the order of the list. -/
theorem allocAll_adding (s : Store) {objects : List Object}
    (hne : ∀ object ∈ objects, object ≠ .nil) :
    ∃ items, s.allocAll objects = (items, s.adding objects.toArray) ∧
      items.map (s.adding objects.toArray).get = objects := by
  induction objects generalizing s with
  | nil => exact ⟨[], by rw [adding_empty]; rfl, rfl⟩
  | cons object rest ih =>
    obtain ⟨hobject, hrest⟩ := List.forall_mem_cons.mp hne
    have halloc : s.alloc object = (⟨s.objects.size⟩, s.adding #[object]) := by
      rw [alloc, adding, Array.append_singleton]
    have hadding : (s.adding #[object]).adding rest.toArray =
        s.adding (object :: rest).toArray := by
      rw [adding_adding]
      simp
    obtain ⟨items, hitems, hget⟩ := ih (s.adding #[object]) hrest
    have hfirst : (s.adding #[object]).get ⟨s.objects.size⟩ = object := by simp [adding, get]
    rw [hadding] at hitems hget
    refine ⟨⟨s.objects.size⟩ :: items, ?_, ?_⟩
    · simp only [allocAll, halloc, hitems]
    · rw [List.map_cons, hget, ← hadding, get_adding_of_eq hfirst hobject]

end Store

def Holding (object : Object) (s : Store) (v : Value) : Prop := s.get v = object

def Listing (objects : List Object) (s : Store) (v : Value) : Prop :=
  ∃ items, s.get v = .array items ∧ items.toList.map s.get = objects

def charTexts (chars : List Char) : List Object :=
  chars.map fun c => .str (String.singleton c)

theorem length_charTexts {chars : List Char} : (charTexts chars).length = chars.length :=
  List.length_map _

/-- The object is a text of one character, the one that the index means in this text. -/
def IsCharAt (content : String) (i : Int64) (object : Object) : Prop :=
  ∃ slot c, slotOf (.int i) content.toList.length = .ok slot ∧
    content.toList[slot]? = some c ∧ object = .str (String.singleton c)

/-- The text of a character is not nil. -/
theorem ne_nil_of_mem_charTexts {chars : List Char} :
    ∀ object ∈ charTexts chars, object ≠ .nil := by
  intro object hobject
  obtain ⟨c, -, rfl⟩ := List.mem_map.mp hobject
  exact nofun

namespace Eval

/-- The computation makes objects and does nothing else, and what it gives is as stated. -/
def Makes {α : Type} (P : Store → α → Prop) (m : Machine) (outcome : Outcome α) : Prop :=
  ∃ made a, outcome = .done a (m.adding made) ∧ P (m.adding made).store a

def Fails {α : Type} (d : Diagnostic) (m : Machine) (outcome : Outcome α) : Prop :=
  ∃ made, outcome = .fail d (m.adding made)

/-- Both computations give a value for one object of this form, and `==` finds the values
equal if one computation runs after the other. -/
def Coincide (form : Object → Prop) (x y : Eval Value) (m : Machine) : Prop :=
  ∃ object, form object ∧ Makes (Holding object) m (x m) ∧ Makes (Holding object) m (y m) ∧
    ∀ pos, Makes (fun _ holds => holds = true) m
      ((do act pos (Value.compare .eq (← x) (← y)) : Eval Bool) m)

section Makes

variable {α β : Type} {P : Store → α → Prop} {Q : Store → β → Prop} {m : Machine}
  {x : Eval α} {f : α → Eval β}

theorem makes_pure {a : α} (h : P m.store a) : Makes P m ((pure a : Eval α) m) :=
  ⟨#[], a, by rw [Machine.adding_empty]; rfl, by rwa [Machine.adding_empty]⟩

/-- What the second of two computations needs to know holds after the first has made its objects.
-/
theorem Makes.bind (hx : Makes P m (x m))
    (hf : ∀ made a, P (m.adding made).store a → Makes Q (m.adding made) (f a (m.adding made))) :
    Makes Q m ((x >>= f) m) := by
  obtain ⟨made, a, hrun, ha⟩ := hx
  obtain ⟨more, b, hrest, hb⟩ := hf made a ha
  rw [Machine.adding_adding] at hrest hb
  exact ⟨made ++ more, b, (bind_of_done hrun f).trans hrest, hb⟩

/-- A sequence fails where its second part does, after its first has made objects. -/
theorem Fails.of_bind {d : Diagnostic} (hx : Makes P m (x m))
    (hf : ∀ made a, P (m.adding made).store a → Fails d (m.adding made) (f a (m.adding made))) :
    Fails d m ((x >>= f) m) := by
  obtain ⟨made, a, hrun, ha⟩ := hx
  obtain ⟨more, hrest⟩ := hf made a ha
  rw [Machine.adding_adding] at hrest
  exact ⟨made ++ more, (bind_of_done hrun f).trans hrest⟩

theorem makes_make (object : Object) : Makes (Holding object) m (make object m) :=
  ⟨#[object], _, make_adding object, get_adding_self object⟩

/-- An action that makes an object after having worked it out. -/
theorem makes_act {action : Action Value} {object : Object}
    (h : action m.store = Action.make object m.store) (pos : Position) :
    Makes (Holding object) m (act pos action m) :=
  ⟨#[object], _, act_makes h pos, get_adding_self object⟩

/-- An action that makes an object of what it has loaded first. -/
theorem makes_load {v : Value} {held object : Object} {f : Object → Action Value}
    (hv : m.store.get v = held) (h : f held m.store = Action.make object m.store)
    (pos : Position) : Makes (Holding object) m (act pos (Action.load v >>= f) m) :=
  makes_act ((congrArg (f · m.store) hv).trans h) pos

/-- Values that are equal compare as equal. -/
theorem act_compare {a b : Value} (h : Value.equal m.store a b = true) (pos : Position) :
    act pos (Value.compare .eq a b) m = .done true m := by
  refine act_of_ok ?_ pos
  change (Except.ok (Value.equal m.store a b), m.store) = _
  rw [h]

/-- Computations give equal values if each gives a value for the same text or number, the
second one also after the first. -/
theorem coincide {form : Object → Prop} {x y : Eval Value} {object : Object} (hform : form object)
    (hequal : ∀ s a b, s.get a = object → s.get b = object → Value.equal s a b = true)
    (hne : object ≠ .nil) (hx : Makes (Holding object) m (x m))
    (hy : ∀ made, Makes (Holding object) (m.adding made) (y (m.adding made))) :
    Coincide form x y m := by
  refine ⟨object, hform, hx, ?_, fun pos => ?_⟩
  · have hnone := hy #[]
    rwa [Machine.adding_empty] at hnone
  · refine hx.bind fun made a ha => (hy made).bind fun more b hb => ?_
    have ha := Store.get_adding_of_eq ha hne more
    rw [act_compare (hequal _ a b ha hb)]
    exact makes_pure rfl

end Makes

def spread (pos : Position) (v : Value) : Eval Value := act pos (TypeTag.array.construct [v])

def recode (ex : Executor) (pos : Position) (v : Value) : Eval Value := do
  callBuiltin ex .chr [← callBuiltin ex .ord [v] pos] pos

def joinTo (pos : Position) (acc : Value) : List Value → Eval Value
  | [] => pure acc
  | item :: rest => do joinTo pos (← act pos (Value.arith .add acc item)) rest

def join (pos : Position) (items : List Value) : Eval Value := do
  joinTo pos (← make (.str "")) items

section Characters

variable {ex : Executor} {m : Machine} {v key a : Value} {content : String} {c : Char}
  {objects : List Object} {object : Object} {i : Int64} {slot : Nat} {fault : Fault}

/-- The array of the objects for a list of contents. It comes after them and leaves them as they
are. -/
theorem makes_makeArrayOf (hne : ∀ object ∈ objects, object ≠ .nil) (pos : Position) :
    Makes (Listing objects) m (act pos (Action.makeArrayOf objects) m) := by
  obtain ⟨items, hall, hitems⟩ := m.store.allocAll_adding hne
  have hrun : act pos (Action.makeArrayOf objects) m =
      make (.array items.toArray) (m.adding objects.toArray) := by
    refine act_of_ok ?_ pos
    rw [Action.makeArrayOf, hall]
    rfl
  rw [make_adding, Machine.adding_adding] at hrun
  refine ⟨_, _, hrun, items.toArray, ?_, ?_⟩
  · rw [← Machine.adding_adding]
    exact get_adding_self _
  · rw [← Machine.adding_adding]
    exact (Store.map_get_adding (hitems.symm ▸ hne) _).trans hitems

/-- A text is taken apart into texts of one character each, in order. -/
theorem makes_spread (hv : m.store.get v = .str content) (pos : Position) :
    Makes (Listing (charTexts content.toList)) m (spread pos v m) := by
  have hconvert : TypeTag.array.construct [v] m.store =
      Action.makeArrayOf (charTexts content.toList) m.store := by
    change (Action.load v >>= _) m.store = _
    rw [Action.load_bind, hv]
    rfl
  have hspread : spread pos v m = act pos (Action.makeArrayOf (charTexts content.toList)) m := by
    unfold spread act
    dsimp only
    rw [hconvert]
  rw [hspread]
  exact makes_makeArrayOf ne_nil_of_mem_charTexts pos

/-- The length of a value is a number. -/
theorem makes_len {held : Object} {n : Nat} (hv : m.store.get v = held)
    (h : Builtin.lengthOf held = .ok n) (pos : Position) :
    Makes (Holding (.int (Int64.ofNat n))) m (callBuiltin ex .len [v] pos m) := by
  have hrun : callBuiltin ex .len [v] pos m = act pos (Action.load v >>= fun held => do
      Action.make (.int (Int64.ofNat (← Action.ofExcept (Builtin.lengthOf held))))) m := rfl
  rw [hrun]
  refine makes_load hv ?_ pos
  rw [h]
  rfl

theorem makes_len_listing (ha : Listing objects m.store a) (pos : Position) :
    Makes (Holding (.int (Int64.ofNat objects.length))) m (callBuiltin ex .len [a] pos m) := by
  obtain ⟨items, hget, rfl⟩ := ha
  refine makes_len hget ?_ pos
  rw [Builtin.lengthOf, List.length_map, Array.length_toList]

/-- A character is found again by its code. -/
theorem makes_recode (hv : m.store.get v = .str (String.singleton c)) (pos : Position) :
    Makes (Holding (.str (String.singleton c))) m (recode ex pos v m) := by
  have hcode : Builtin.codeOf (.str (String.singleton c)) =
      .ok (.int (Int64.ofNat c.toNat)) := by
    rw [Builtin.codeOf, String.toList_singleton]
  have hchar : Builtin.charOf (.int (Int64.ofNat c.toNat)) = .ok (.str (String.singleton c)) := by
    rw [Builtin.charOf, Builtin.char?_ofNat_toNat]
  have hord : Makes (Holding (.int (Int64.ofNat c.toNat))) m (callBuiltin ex .ord [v] pos m) :=
    makes_load hv (congrArg (fun result => (Action.ofExcept result >>= Action.make) m.store) hcode)
      pos
  refine hord.bind fun made n hn => ?_
  exact makes_load hn (congrArg (fun result => (Action.ofExcept result >>= Action.make) _) hchar)
    pos

/-- An index in the range of a text finds the character there. -/
theorem makes_elementAt_text (hv : m.store.get v = .str content) (hkey : m.store.get key = .int i)
    (hslot : slotOf (.int i) content.toList.length = .ok slot)
    (hc : content.toList[slot]? = some c) (pos : Position) :
    Makes (Holding (.str (String.singleton c))) m (act pos (v.elementAt key) m) := by
  refine makes_act ?_ pos
  simp only [Value.elementAt_eq, hv, hkey, hslot, hc]
  rfl

/-- An index out of range is reported for a text. -/
theorem fail_elementAt_text (hv : m.store.get v = .str content) (hkey : m.store.get key = .int i)
    (hslot : slotOf (.int i) content.toList.length = .error fault) (pos : Position) :
    act pos (v.elementAt key) m = fail fault pos m := by
  refine act_of_error ?_ pos
  simp only [Value.elementAt_eq, hv, hkey, hslot]

/-- An index in the range of an array finds the element there. -/
theorem makes_elementAt_listing (ha : Listing objects m.store a) (hkey : m.store.get key = .int i)
    (hslot : slotOf (.int i) objects.length = .ok slot) (hobject : objects[slot]? = some object)
    (pos : Position) : Makes (Holding object) m (act pos (a.elementAt key) m) := by
  obtain ⟨items, hget, rfl⟩ := ha
  rw [List.length_map, Array.length_toList] at hslot
  rw [List.getElem?_map, Array.getElem?_toList] at hobject
  obtain ⟨item, hitem, hobject⟩ := Option.map_eq_some_iff.mp hobject
  have hcontent : (Slot.element a slot).content? m.store = some item := by
    rw [Slot.content?, hget]
    exact hitem
  have hrun : a.elementAt key m.store = (.ok item, m.store) := by
    simp only [Value.elementAt_eq, Value.slotAt_array hget, hget, hkey, hslot, Except.map, hcontent]
  rw [act_of_ok hrun]
  exact makes_pure hobject

/-- An index out of range is reported for an array in the same words as for a text. -/
theorem fail_elementAt_listing (ha : Listing objects m.store a) (hkey : m.store.get key = .int i)
    (hslot : slotOf (.int i) objects.length = .error fault) (pos : Position) :
    act pos (a.elementAt key) m = fail fault pos m := by
  obtain ⟨items, hget, rfl⟩ := ha
  rw [List.length_map, Array.length_toList] at hslot
  refine act_of_error ?_ pos
  simp only [Value.elementAt_eq, Value.slotAt_array hget, hget, hkey, hslot, Except.map]

/-- The texts of characters stay when objects are made. -/
theorem map_get_charTexts {items : List Value} {chars : List Char}
    (hitems : items.map m.store.get = charTexts chars) (made : Array Object) :
    items.map (m.adding made).store.get = charTexts chars :=
  (Store.map_get_adding (hitems ▸ ne_nil_of_mem_charTexts) made).trans hitems

/-- Adding texts of one character each to a text puts the characters behind it. -/
theorem makes_joinTo {items : List Value} {acc : Value} {chars : List Char}
    (hacc : m.store.get acc = .str content) (hitems : items.map m.store.get = charTexts chars)
    (pos : Position) :
    Makes (Holding (.str (content ++ String.ofList chars))) m (joinTo pos acc items m) := by
  induction items generalizing m acc content chars with
  | nil =>
    obtain rfl := List.map_eq_nil_iff.mp hitems.symm
    refine makes_pure ?_
    rw [String.ofList_nil, String.append_empty]
    exact hacc
  | cons item rest ih =>
    obtain ⟨c, cs, rfl, hitem, hrest⟩ := List.map_eq_cons_iff.mp hitems.symm
    have hadd : Makes (Holding (.str (content ++ String.singleton c))) m
        (act pos (Value.arith .add acc item) m) := by
      refine makes_load hacc ?_ pos
      rw [Action.load_bind, ← hitem]
      rfl
    rw [joinTo, String.ofList_cons, ← String.append_assoc]
    exact hadd.bind fun made joined hjoined => ih hjoined (map_get_charTexts hrest.symm made)

/-- The characters of a text joined one after the other make the text. -/
theorem makes_join {items : List Value} {chars : List Char}
    (hitems : items.map m.store.get = charTexts chars) (pos : Position) :
    Makes (Holding (.str (String.ofList chars))) m (join pos items m) := by
  refine (makes_make (.str "")).bind fun made acc hacc => ?_
  have hjoin := makes_joinTo hacc (map_get_charTexts hitems made) pos
  rwa [String.empty_append] at hjoin

def listedAt (call index : Position) (v key : Value) : Eval Value := do
  act index ((← spread call v).elementAt key)

/-- An index finds the same character in the array of all of them. -/
theorem makes_listedAt (hv : m.store.get v = .str content) (hkey : m.store.get key = .int i)
    (hslot : slotOf (.int i) content.toList.length = .ok slot)
    (hc : content.toList[slot]? = some c) (call index : Position) :
    Makes (Holding (.str (String.singleton c))) m (listedAt call index v key m) := by
  have hobject : (charTexts content.toList)[slot]? = some (.str (String.singleton c)) := by
    rw [charTexts, List.getElem?_map, hc]
    rfl
  rw [← length_charTexts] at hslot
  refine (makes_spread hv call).bind fun made a ha => ?_
  exact makes_elementAt_listing ha (Store.get_adding_of_eq hkey nofun made) hslot hobject index

theorem fails_listedAt (hv : m.store.get v = .str content) (hkey : m.store.get key = .int i)
    (hslot : slotOf (.int i) content.toList.length = .error fault) (call index : Position) :
    Fails (m.diagnose (.runtime fault) (some index)) m (listedAt call index v key m) := by
  rw [← length_charTexts] at hslot
  refine .of_bind (makes_spread hv call) fun made a ha => ⟨#[], ?_⟩
  rw [Machine.adding_empty]
  exact fail_elementAt_listing ha (Store.get_adding_of_eq hkey nofun made) hslot index

/-- Texts have one notion of character. An index finds a character of the text exactly when
it finds one in the array of the text, and then the same one, and the code of the character
leads back to it; otherwise both indexes fail with the same diagnostic. The text is as long as
its array, and the items of the array join to the text again. -/
theorem one_notion_of_character (hv : m.store.get v = .str content) (ex : Executor)
    (call index : Position) :
    (∀ key i, m.store.get key = .int i →
      let found : Eval Value := act index (v.elementAt key)
      let recoded : Eval Value := do recode ex call (← found)
      (Coincide (IsCharAt content i) found (listedAt call index v key) m ∧
        Coincide (IsCharAt content i) found recoded m) ∨
      ∃ d, Fails d m (found m) ∧ Fails d m (listedAt call index v key m)) ∧
    Coincide (· = .int (Int64.ofNat content.length)) (callBuiltin ex .len [v] call)
      (do callBuiltin ex .len [← spread call v] call) m ∧
    ∃ made a items, spread call v m = .done a (m.adding made) ∧
      (m.adding made).store.get a = .array items ∧
      Coincide (· = .str content) (pure v) (join call items.toList) (m.adding made) := by
  refine ⟨fun key i hkey => ?_, ?_, ?_⟩
  · cases hslot : slotOf (.int i) content.toList.length with
    | ok slot =>
      obtain ⟨c, hc⟩ : ∃ c, content.toList[slot]? = some c :=
        ⟨_, List.getElem?_eq_getElem (slotOf_lt hslot)⟩
      have hform : IsCharAt content i (.str (String.singleton c)) := ⟨slot, c, hslot, hc, rfl⟩
      have hequal : ∀ s a b, s.get a = .str (String.singleton c) →
          s.get b = .str (String.singleton c) → Value.equal s a b = true :=
        fun _ _ _ => Value.equal_of_texts
      have hfound := makes_elementAt_text hv hkey hslot hc index
      have hv := Store.get_adding_of_eq hv nofun
      have hkey := Store.get_adding_of_eq hkey nofun
      refine .inl ⟨coincide hform hequal nofun hfound fun made => ?_,
        coincide hform hequal nofun hfound fun made => ?_⟩
      · exact makes_listedAt (hv made) (hkey made) hslot hc call index
      · refine (makes_elementAt_text (hv made) (hkey made) hslot hc index).bind fun more a ha => ?_
        exact makes_recode ha call
    | error fault =>
      refine .inr ⟨_, ⟨#[], ?_⟩, fails_listedAt hv hkey hslot call index⟩
      rw [Machine.adding_empty]
      exact fail_elementAt_text hv hkey hslot index
  · have hlength : (charTexts content.toList).length = content.length := by
      rw [length_charTexts, String.length_toList]
    refine coincide rfl (fun _ _ _ => Value.equal_of_ints) nofun (makes_len hv rfl call)
      fun made => ?_
    refine (makes_spread (Store.get_adding_of_eq hv nofun made) call).bind fun more a ha => ?_
    rw [← hlength]
    exact makes_len_listing ha call
  · obtain ⟨made, a, hspread, items, hget, hitems⟩ := makes_spread hv call
    have hkept := Store.get_adding_of_eq hv nofun made
    refine ⟨made, a, items, hspread, hget, ?_⟩
    refine coincide rfl (fun _ _ _ => Value.equal_of_texts) nofun (makes_pure hkept) fun more => ?_
    have hjoin := makes_join (map_get_charTexts hitems more) call
    rwa [String.ofList_toList] at hjoin

end Characters

/-! A text with characters of one, two and three bytes, and numbers that are indexes of its
characters and of its bytes only. -/

namespace Euro

def machine : Machine :=
  Sums.machine.adding #[.str "a\u00f1\u20ac", .int (-1), .int 3]

/-- The last of three characters has the index `-1`, and there is none at `3`. -/
theorem last_char_found_and_none_behind :
    Coincide (IsCharAt "a\u00f1\u20ac" (-1)) (act .start (Value.elementAt ⟨0⟩ ⟨1⟩))
      (listedAt .start .start ⟨0⟩ ⟨1⟩) machine ∧
    (∃ d, Fails d machine (act .start (Value.elementAt ⟨0⟩ ⟨2⟩) machine) ∧
      Fails d machine (listedAt .start .start ⟨0⟩ ⟨2⟩ machine)) ∧
    Coincide (· = .int 3) (callBuiltin (exec 1) .len [⟨0⟩] .start)
      (do callBuiltin (exec 1) .len [← spread .start ⟨0⟩] .start) machine := by
  obtain ⟨hindex, hlen, -⟩ := one_notion_of_character (m := machine) (v := ⟨0⟩) rfl (exec 1)
    .start .start
  refine ⟨?_, ?_, hlen⟩
  · rcases hindex ⟨1⟩ (-1) rfl with ⟨hlisted, -⟩ | ⟨d, ⟨made, hfail⟩, -⟩
    · exact hlisted
    · cases hfail
  · rcases hindex ⟨2⟩ 3 rfl with ⟨⟨_, _, ⟨made, w, hdone, -⟩, -⟩, -⟩ | hfails
    · cases hdone
    · exact hfails

end Euro

end Eval

end Stencil
