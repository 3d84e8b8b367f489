import Stencil.Eval.Place
import Stencil.Proofs.Value.Namespace
import Stencil.Value.Arith
import Stencil.Value.Builtin

/-!
Where code comes from. Functions and struct types hold the bodies that a program
runs, and the functions `dance` and `open` get at texts and files from outside. No
operator, method or conversion makes any of these; copying shares them. A program
that has no open file cannot change the files either. So what a store holds of code
and files can change only where a definition is run, a name is looked up or a file
is opened. The faults of these operations are their own: none of them is that of a
signal which has left its loop or function.
-/

namespace Stencil

def Fault.isStray : Fault → Bool
  | .strayBreak | .strayContinue | .strayReturn => true
  | _ => false

def Calm {α : Type} (x : Except Fault α) : Prop :=
  ∀ fault, x = .error fault → fault.isStray = false

theorem calm_error {α : Type} {fault : Fault} (h : fault.isStray = false) :
    Calm (.error fault : Except Fault α) := by
  intro other heq
  obtain rfl := Except.error.inj heq
  exact h

theorem calm_ok {α : Type} (a : α) : Calm (.ok a : Except Fault α) := by
  intro fault heq
  cases heq

theorem calm_int (op : ArithOp) (x y : Int64) : Calm (Int64Arith.apply op x y) := by
  cases op with
  | add | sub | mul => exact calm_ok _
  | div | mod =>
    simp only [Int64Arith.apply]
    split
    · exact calm_error rfl
    · exact calm_ok _

theorem calm_float (op : ArithOp) (x y : Float) : Calm (FloatArith.apply op x y) := by
  cases op with
  | add | sub | mul => exact calm_ok _
  | div | mod =>
    simp only [FloatArith.apply]
    split
    · exact calm_error rfl
    · exact calm_ok _

namespace Object

def isCode : Object → Bool
  | .function _ | .struct _ | .builtin .dance | .builtin .openFile => true
  | _ => false

def isFile : Object → Bool
  | .file .. => true
  | _ => false

def isInert (object : Object) : Bool :=
  !object.isCode && !object.isFile && object.namespace?.isNone

theorem isInert_iff {object : Object} : object.isInert = true ↔
    object.isCode = false ∧ object.isFile = false ∧ object.namespace? = none := by
  simp [isInert, and_assoc]

theorem isFile_outline (object : Object) : object.outline.isFile = object.isFile := by
  cases object with
  | _ => rfl

/-- Code does not change in place. -/
theorem eq_of_outline {object other : Object} (h : other.outline = object.outline)
    (hcode : other.isCode = true) : other = object := by
  cases other with
  | array items => cases hcode
  | dict entries => cases hcode
  | file path handle => cases hcode
  | _ =>
    cases object with
    | array items => cases h
    | dict entries => cases h
    | file path handle => cases h
    | _ => exact h

theorem isInert_of_isScalar {object : Object} (h : object.isScalar = true) :
    object.isInert = true := by
  cases object with
  | nil | bool value | int value | float value | str content => rfl
  | _ => cases h

structure Yields (x : Except Fault Object) : Prop where
  scalar : ∀ object, x = .ok object → object.isScalar = true
  calm : Calm x

theorem yields_ok {object : Object} (h : object.isScalar = true) : Yields (.ok object) where
  scalar _ heq := Except.ok.inj heq ▸ h
  calm := calm_ok _

theorem yields_error {fault : Fault} (h : fault.isStray = false) : Yields (.error fault) :=
  ⟨nofun, calm_error h⟩

theorem yields_repeated (content : String) (count : Object) : Yields (repeated content count) := by
  unfold repeated
  split
  · exact yields_error rfl
  · split
    · exact yields_error rfl
    · dsimp only
      split
      · exact yields_ok rfl
      · exact yields_error rfl

theorem yields_map {α : Type} {x : Except Fault α} (hx : Calm x) {f : α → Object}
    (hf : ∀ a, (f a).isScalar = true) : Yields (x.map f) := by
  cases x with
  | error fault => exact yields_error (hx fault rfl)
  | ok a => exact yields_ok (hf a)

theorem yields_numeric (op : ArithOp) (left right : Object) : Yields (numeric op left right) := by
  unfold numeric
  split
  · exact yields_map (calm_int op _ _) fun _ => rfl
  · exact yields_map (calm_float op _ _) fun _ => rfl
  · exact yields_error rfl

theorem yields_arith (op : ArithOp) (left right : Object) :
    Yields (Object.arith op left right) := by
  unfold Object.arith
  split
  · exact yields_ok rfl
  · exact yields_repeated _ _
  · exact yields_numeric _ _ _

theorem yields_negate (operand : Object) : Yields (negate operand) := by
  unfold negate
  split
  · exact yields_ok rfl
  · exact yields_ok rfl
  · exact yields_ok rfl
  · exact yields_error rfl

end Object

open Object

theorem TypeTag.yields_readInt (content : String) : Yields (readInt content) := by
  unfold readInt
  split
  · exact yields_ok rfl
  · exact yields_error rfl

theorem TypeTag.yields_readFloat (content : String) : Yields (readFloat content) := by
  unfold readFloat
  split
  · exact yields_ok rfl
  · exact yields_error rfl

/-- The name of a free function leads back to it. -/
theorem Builtin.name_of_ofName? {name : String} {function : Builtin}
    (h : Builtin.ofName? name = some function) : function.name = name := by
  have hfound := List.find?_some h
  simpa using hfound

theorem Builtin.yields_codeOf (held : Object) : Yields (codeOf held) := by
  unfold codeOf
  split
  · split
    · exact yields_ok rfl
    · exact yields_error rfl
  · exact yields_error rfl

theorem Builtin.yields_charOf (held : Object) : Yields (charOf held) := by
  unfold charOf
  split
  · split
    · exact yields_ok rfl
    · exact yields_error rfl
  · exact yields_error rfl

theorem calm_order (op : CompOp) (left right : Object) : Calm (Object.order op left right) := by
  unfold Object.order
  split
  · exact calm_ok _
  · exact calm_ok _
  · exact calm_error rfl

theorem calm_slotOf (key : Object) (size : Nat) : Calm (slotOf key size) := by
  unfold slotOf
  split
  · dsimp only
    split
    · split
      · exact calm_error rfl
      · exact calm_ok _
    · split
      · exact calm_error rfl
      · exact calm_ok _
  · exact calm_error rfl

theorem calm_keyOf (key : Object) : Calm (keyOf key) := by
  unfold keyOf
  split
  · exact calm_ok _
  · exact calm_error rfl

theorem Builtin.calm_lengthOf (held : Object) : Calm (lengthOf held) := by
  unfold lengthOf
  split
  · exact calm_ok _
  · exact calm_ok _
  · exact calm_ok _
  · exact calm_error rfl

/-! Stores. -/

namespace Store

def Fileless (s : Store) : Prop := ∀ v, (s.get v).isFile = false

/-- The second store comes from the first without new code. While no file is open,
no file is opened or changed. -/
structure Evolves (s s' : Store) : Prop where
  code : ∀ v, (s'.get v).isCode = true → s'.get v = s.get v
  files : s.Fileless → s'.Fileless ∧ s'.files = s.files

variable {s s' s'' : Store}

theorem Evolves.refl (s : Store) : s.Evolves s := ⟨fun _ _ => rfl, fun h => ⟨h, rfl⟩⟩

/-- What develops in two steps develops. -/
theorem Evolves.trans (h : s.Evolves s') (h' : s'.Evolves s'') : s.Evolves s'' where
  code v hv := by
    have hsame := h'.code v hv
    rw [hsame] at hv ⊢
    exact h.code v hv
  files hs := by
    obtain ⟨hfileless, hfiles⟩ := h.files hs
    obtain ⟨hfileless', hfiles'⟩ := h'.files hfileless
    exact ⟨hfileless', hfiles'.trans hfiles⟩

/-- Tables play no part. -/
theorem Evolves.of_eq (hobjects : s'.objects = s.objects) (hfiles : s'.files = s.files) :
    s.Evolves s' := by
  have hget : ∀ v, s'.get v = s.get v := fun v => by rw [get, get, hobjects]
  exact ⟨fun v _ => hget v, fun hs => ⟨fun v => by rw [hget]; exact hs v, hfiles⟩⟩

/-- With a file open, the files may change. -/
theorem Evolves.setFiles {v : Value} (hv : (s.get v).isFile = true) (files : FileTree) :
    s.Evolves (s.setFiles files) :=
  ⟨fun _ _ => rfl, fun hs => absurd hv (by rw [hs v]; exact Bool.false_ne_true)⟩

theorem get_alloc (s : Store) (object : Object) (v : Value) :
    (s.alloc object).2.get v = object ∨ (s.alloc object).2.get v = s.get v :=
  (s.get_alloc_cases object v).imp_left And.right

theorem get_update (s : Store) (v w : Value) (f : Object → Object) :
    (s.update v f).get w = f (s.get w) ∨ (s.update v f).get w = s.get w := by
  by_cases hne : w = v
  · subst hne
    by_cases hlt : w.index < s.objects.size
    · left
      simp [get, update, Array.getElem_modify, hlt]
    · right
      simp [get, update, hlt]
  · exact Or.inr (s.get_update_of_ne hne f)

theorem evolves_alloc (s : Store) {object : Object} (hcode : object.isCode = false)
    (hfile : object.isFile = false) : s.Evolves (s.alloc object).2 := by
  constructor
  · intro v hv
    rcases s.get_alloc object v with hget | hget
    · rw [hget, hcode] at hv
      exact absurd hv Bool.false_ne_true
    · exact hget
  · intro hs
    refine ⟨fun v => ?_, rfl⟩
    rcases s.get_alloc object v with hget | hget
    · rw [hget, hfile]
    · rw [hget]
      exact hs v

/-- A change of an object in place that turns nothing into code or a file. -/
theorem evolves_update (s : Store) (v : Value) {f : Object → Object}
    (hf : ∀ object, f object = object ∨
      (f object).isCode = false ∧ ((f object).isFile = true → object.isFile = true)) :
    s.Evolves (s.update v f) := by
  constructor
  · intro w hw
    rcases s.get_update v w f with hget | hget
    · rw [hget] at hw ⊢
      rcases hf (s.get w) with hsame | ⟨hcode, -⟩
      · exact hsame
      · exact absurd hw (by rw [hcode]; exact Bool.false_ne_true)
    · exact hget
  · intro hs
    refine ⟨fun w => ?_, rfl⟩
    rcases s.get_update v w f with hget | hget
    · rw [hget]
      rcases hf (s.get w) with hsame | ⟨-, hfile⟩
      · rw [hsame]
        exact hs w
      · exact Bool.eq_false_iff.mpr fun htrue => absurd (hfile htrue) (by rw [hs w]; decide)
    · rw [hget]
      exact hs w

end Store

/-! Actions. -/

/-- On the store, the action makes no code and touches no file unless one is open, and
the tables of the objects that it makes are new. -/
structure Action.TameAt {α : Type} (x : Action α) (s : Store) : Prop where
  evolves : s.Evolves (x s).2
  grows : s.Grows (x s).2
  calm : Calm (x s).1

def Action.IsTame {α : Type} (x : Action α) : Prop := ∀ s, x.TameAt s

namespace Action

variable {α β : Type}

theorem isTame_pure (a : α) : IsTame (pure a) := fun s => ⟨.refl s, .refl s, calm_ok _⟩

theorem isTame_fail {fault : Fault} (h : fault.isStray = false) : IsTame (fail fault : Action α) :=
  fun s => ⟨.refl s, .refl s, calm_error h⟩

theorem isTame_ofExcept {x : Except Fault α} (h : Calm x) : IsTame (ofExcept x) :=
  fun s => ⟨.refl s, .refl s, h⟩

theorem isTame_load (v : Value) : IsTame (load v) := fun s => ⟨.refl s, .refl s, calm_ok _⟩

theorem isTame_read (f : Store → α) : IsTame (read f) := fun s => ⟨.refl s, .refl s, calm_ok _⟩

theorem isTame_scope (id : ScopeId) : IsTame (scope id) := fun s => ⟨.refl s, .refl s, calm_ok _⟩

theorem isTame_lookup (id : ScopeId) (name : String) : IsTame (lookup id name) :=
  fun s => ⟨.refl s, .refl s, calm_ok _⟩

theorem isTame_make {object : Object} (h : object.isInert = true) : IsTame (make object) := by
  obtain ⟨hcode, hfile, hnone⟩ := isInert_iff.mp h
  exact fun s => ⟨s.evolves_alloc hcode hfile, s.grows_alloc hnone, calm_ok _⟩

theorem isTame_nil : IsTame nil := isTame_make rfl

theorem isTame_bindName (id : ScopeId) (name : String) (v : Value) :
    IsTame (bindName id name v) :=
  fun s => ⟨.of_eq rfl rfl, s.grows_bindName id name v, calm_ok _⟩

theorem isTame_update (v : Value) {f : Object → Object}
    (hf : ∀ object, (f object).outline = object.outline) : IsTame (update v f) := by
  refine fun s => ⟨s.evolves_update v fun object => ?_, s.grows_update v (hf _), calm_ok _⟩
  by_cases hcode : (f object).isCode = true
  · exact Or.inl (eq_of_outline (hf object) hcode)
  · refine Or.inr ⟨Bool.eq_false_iff.mpr hcode, fun hfile => ?_⟩
    rwa [← isFile_outline, ← hf object, isFile_outline]

/-- The second part may rely on the store that the first has left. -/
theorem tameAt_bind {x : Action α} {f : α → Action β} {s : Store} (hx : x.TameAt s)
    (hf : ∀ a, (x s).1 = .ok a → (f a).TameAt (x s).2) : (x >>= f).TameAt s := by
  have hbind : (x >>= f) s = Action.bind x f s := rfl
  obtain ⟨hevolves, hgrows, hcalm⟩ := hx
  generalize hrun : x s = outcome at hevolves hgrows hcalm hf
  obtain ⟨result, s'⟩ := outcome
  cases result with
  | error fault =>
    have heq : (x >>= f) s = (.error fault, s') := by rw [hbind, Action.bind, hrun]
    constructor
    · rw [heq]
      exact hevolves
    · rw [heq]
      exact hgrows
    · rw [heq]
      exact calm_error (hcalm fault rfl)
  | ok a =>
    have heq : (x >>= f) s = f a s' := by rw [hbind, Action.bind, hrun]
    obtain ⟨hevolves', hgrows', hcalm'⟩ := hf a rfl
    constructor
    · rw [heq]
      exact hevolves.trans hevolves'
    · rw [heq]
      exact hgrows.trans hgrows'
    · rw [heq]
      exact hcalm'

theorem isTame_bind {x : Action α} {f : α → Action β} (hx : IsTame x) (hf : ∀ a, IsTame (f a)) :
    IsTame (x >>= f) :=
  fun s => tameAt_bind (hx s) fun a _ => hf a (x s).2

theorem isTame_makeExcept {x : Except Fault Object} (hx : Yields x) :
    IsTame (do make (← ofExcept x)) := by
  intro s
  cases x with
  | error fault => exact isTame_fail (hx.calm fault rfl) s
  | ok object => exact isTame_make (isInert_of_isScalar (hx.scalar object rfl)) s

theorem isTame_makeArrayOf {objects : List Object}
    (h : ∀ object ∈ objects, object.isInert = true) : IsTame (makeArrayOf objects) := by
  have hall : ∀ s : Store,
      s.Evolves (s.allocAll objects).2 ∧ s.Grows (s.allocAll objects).2 := by
    induction objects with
    | nil => exact fun s => ⟨.refl s, .refl s⟩
    | cons object rest ih =>
      intro s
      obtain ⟨hcode, hfile, hnone⟩ := isInert_iff.mp (h object (List.mem_cons_self ..))
      have hrest := ih (fun o ho => h o (List.mem_cons_of_mem _ ho)) (s.alloc object).2
      exact ⟨(s.evolves_alloc hcode hfile).trans hrest.1, (s.grows_alloc hnone).trans hrest.2⟩
  intro s
  obtain ⟨hevolves, hgrows⟩ := hall s
  exact ⟨hevolves.trans (Store.evolves_alloc _ rfl rfl), hgrows.trans (Store.grows_alloc _ rfl),
    calm_ok _⟩

end Action

open Stencil.Action

/-! Copies. -/

namespace Value

theorem evolves_copyEach {copyOne : Value → CopyState → Value × CopyState}
    (hone : ∀ v (st : CopyState), st.store.Evolves (copyOne v st).2.store) (vs : List Value)
    (st : CopyState) : st.store.Evolves (copyEach copyOne vs st).2.store := by
  induction vs generalizing st with
  | nil => exact .refl _
  | cons v rest ih => exact (hone v st).trans (ih _)

theorem evolves_opened (st : CopyState) (v : Value) : st.store.Evolves (st.opened v).store := by
  unfold CopyState.opened
  split
  · exact Store.evolves_alloc _ rfl rfl
  · exact Store.evolves_alloc _ rfl rfl
  · have hscope : st.store.Evolves (st.store.newScope .empty).2 := .of_eq rfl rfl
    exact hscope.trans (Store.evolves_alloc _ rfl rfl)
  · exact .refl _

theorem evolves_closed (st : CopyState) (v : Value) (ws : List Value) (st' : CopyState) :
    st'.store.Evolves (st.closed v ws st').store := by
  unfold CopyState.closed
  split
  · exact Store.evolves_update _ _ fun _ => Or.inr ⟨rfl, nofun⟩
  · exact Store.evolves_update _ _ fun _ => Or.inr ⟨rfl, nofun⟩
  · exact .of_eq rfl rfl
  · exact .refl _

theorem evolves_copyScalar (v : Value) (st : CopyState) :
    st.store.Evolves (copyScalar v st).2.store := by
  unfold copyScalar
  split
  · next hget => exact Store.evolves_alloc _ (by rw [hget]; rfl) (by rw [hget]; rfl)
  · next hget => exact Store.evolves_alloc _ (by rw [hget]; rfl) (by rw [hget]; rfl)
  · next hget => exact Store.evolves_alloc _ (by rw [hget]; rfl) (by rw [hget]; rfl)
  · next hget => exact Store.evolves_alloc _ (by rw [hget]; rfl) (by rw [hget]; rfl)
  · next hget => exact Store.evolves_alloc _ (by rw [hget]; rfl) (by rw [hget]; rfl)
  · exact .refl _

theorem evolves_deepCopyFrom (budget : Nat) (v : Value) (st : CopyState) :
    st.store.Evolves (deepCopyFrom budget v st).2.store := by
  induction budget generalizing v st with
  | zero => exact .refl _
  | succ budget ih =>
    rw [deepCopyFrom_succ]
    split
    · exact .refl _
    · split
      · have hparts := evolves_copyEach ih (st.store.parts v) (st.opened v)
        exact ((evolves_opened st v).trans hparts).trans (evolves_closed st v _ _)
      · exact evolves_copyScalar v st

/-- A deep copy makes no code, for functions and files are kept as they are. -/
theorem isTame_deepCopy (v : Value) : IsTame (deepCopy v) :=
  fun s => ⟨evolves_deepCopyFrom (s.objects.size + 1) v ⟨s, []⟩,
    grows_deepCopyFrom (s.objects.size + 1) v ⟨s, []⟩, calm_ok _⟩

/-- An instance is copied along with its table. -/
theorem isTame_copyInstance (type : Value) (fields : ScopeId) :
    IsTame (do
      let own ← newScope (← scope fields)
      make (.instance type own)) := by
  refine isTame_bind (isTame_scope fields) fun table s => ?_
  have howner : (Object.instance type (s.newScope table).1).namespace? =
      some (s.newScope table).1 := rfl
  have hgrows := (Store.Grows.refl (s.newScope table).2).alloc_owner howner
  refine ⟨?_, hgrows, calm_ok _⟩
  have hnew : s.Evolves (s.newScope table).2 := .of_eq rfl rfl
  exact hnew.trans (Store.evolves_alloc _ rfl rfl)

theorem isTame_copy (v : Value) : IsTame (copy v) := by
  refine isTame_bind (isTame_load v) fun object => ?_
  cases object with
  | «instance» type fields => exact isTame_copyInstance type fields
  | nil | bool value | int value | float value | str content | array items | dict entries =>
    exact isTame_make rfl
  | _ => exact isTame_pure v

/-! Operators. -/

theorem isTame_arith (op : ArithOp) (left right : Value) : IsTame (Value.arith op left right) := by
  refine isTame_bind (isTame_load left) fun x => isTame_bind (isTame_load right) fun y => ?_
  exact isTame_makeExcept (yields_arith op x y)

theorem isTame_negate (operand : Value) : IsTame (Value.negate operand) := by
  refine isTame_bind (isTame_load operand) fun x => ?_
  exact isTame_makeExcept (yields_negate x)

theorem isTame_compare (op : CompOp) (left right : Value) :
    IsTame (Value.compare op left right) := by
  cases op with
  | eq | ne => exact isTame_read _
  | lt | le | gt | ge =>
    exact isTame_bind (isTame_load left) fun x =>
      isTame_bind (isTame_load right) fun y => isTame_ofExcept (calm_order _ x y)

theorem isTame_elementAt (owner key : Value) : IsTame (owner.elementAt key) := by
  refine isTame_bind (isTame_load owner) fun object => ?_
  cases object with
  | array items =>
    refine isTame_bind (isTame_load key) fun k => ?_
    refine isTame_bind (isTame_ofExcept (calm_slotOf _ _)) fun slot => ?_
    split
    · exact isTame_pure _
    · exact isTame_fail rfl
  | str content =>
    refine isTame_bind (isTame_load key) fun k => ?_
    refine isTame_bind (isTame_ofExcept (calm_slotOf _ _)) fun slot => ?_
    exact isTame_make rfl
  | dict entries =>
    refine isTame_bind (isTame_load key) fun k => ?_
    refine isTame_bind (isTame_ofExcept (calm_keyOf _)) fun name => ?_
    split
    · exact isTame_pure _
    · exact isTame_fail rfl
  | _ => exact isTame_fail rfl

theorem isTame_setElementAt (owner key v : Value) : IsTame (owner.setElementAt key v) := by
  refine isTame_bind (isTame_load owner) fun object => ?_
  cases object with
  | array items =>
    refine isTame_bind (isTame_load key) fun k => ?_
    refine isTame_bind (isTame_ofExcept (calm_slotOf _ _)) fun slot => ?_
    refine isTame_update owner fun object => ?_
    split
    · rfl
    · rfl
  | dict entries =>
    refine isTame_bind (isTame_load key) fun k => ?_
    refine isTame_bind (isTame_ofExcept (calm_keyOf _)) fun name => ?_
    refine isTame_update owner fun object => ?_
    split
    · rfl
    · rfl
  | _ => exact isTame_fail rfl

theorem isTame_typeOf (v : Value) : IsTame v.typeOf := by
  refine isTame_bind (isTame_load v) fun object => ?_
  cases object with
  | struct type => exact isTame_pure _
  | builtin function => exact isTame_pure _
  | «instance» struct fields => exact isTame_pure _
  | _ => exact isTame_make rfl

end Value

/-! Methods. -/

namespace Method

theorem isTame_split (content : String) (separator : Option Object) :
    IsTame (split content separator) := by
  unfold split
  split
  · exact isTame_fail rfl
  · split
    · exact isTame_fail rfl
    · refine isTame_makeArrayOf fun object hobject => ?_
      obtain ⟨piece, -, rfl⟩ := List.mem_map.mp hobject
      rfl

theorem isTame_strip (ends : (Char → Bool) → List Char → List Char) (content : String)
    (chars : Option Object) : IsTame (strip ends content chars) := by
  unfold strip
  dsimp only
  split
  · exact isTame_make rfl
  · exact isTame_make rfl
  · exact isTame_fail rfl

theorem isTame_callText (name content : String) (args : List Value) :
    IsTame (callText name content args) := by
  unfold callText
  split
  · split
    · exact isTame_make rfl
    · exact isTame_fail rfl
  · split
    · exact isTame_make rfl
    · refine isTame_bind (isTame_read _) fun first => ?_
      split
      · exact isTame_strip _ content first
      · split
        · exact isTame_split content first
        · exact isTame_fail rfl

theorem isTame_callArray (name : String) (receiver : Value) (args : List Value) :
    IsTame (callArray name receiver args) := by
  unfold callArray
  split
  · split
    · refine isTame_bind (isTame_update receiver fun object => ?_) fun _ => isTame_pure _
      unfold pushItem
      split
      · rfl
      · rfl
    · exact isTame_fail rfl
  · refine isTame_bind (isTame_read _) fun found => ?_
    split
    · refine isTame_bind (isTame_update receiver fun object => ?_) fun _ => isTame_pure _
      unfold popItem
      split
      · rfl
      · rfl
    · exact isTame_nil
  · exact isTame_fail rfl

theorem isTame_foundOr (found default? : Option Value) : IsTame (foundOr found default?) := by
  unfold foundOr
  split
  · exact isTame_pure _
  · exact isTame_nil

theorem isTame_callDict (name : String) (receiver : Value) (args : List Value) :
    IsTame (callDict name receiver args) := by
  have hremove : ∀ key : String, IsTame (update receiver (removeKey key)) := by
    intro key
    refine isTame_update receiver fun object => ?_
    unfold removeKey
    split
    · rfl
    · rfl
  unfold callDict
  extract_lets search run
  have hrun : ∀ keyValue default?, IsTame (run keyValue default?) := by
    intro keyValue default?
    refine isTame_bind (isTame_load keyValue) fun object => ?_
    split
    · split
      · exact isTame_bind (isTame_read _) fun found => isTame_foundOr found default?
      · refine isTame_bind (isTame_read _) fun found => isTame_bind (hremove _) fun _ => ?_
        exact isTame_foundOr found default?
      · exact isTame_fail rfl
    · exact isTame_fail rfl
  split
  · exact hrun _ none
  · exact hrun _ (some _)
  · exact isTame_fail rfl

theorem isTame_setHandle (receiver : Value) (handle : Option FileHandle) :
    IsTame (update receiver (setHandle handle)) := by
  refine isTame_update receiver fun object => ?_
  unfold setHandle
  split
  · rfl
  · rfl

theorem isTame_readFile (receiver : Value) (handle : FileHandle) :
    IsTame (readFile receiver handle) := by
  refine isTame_bind (isTame_read _) fun found => ?_
  split
  · exact isTame_fail rfl
  · refine isTame_bind (isTame_setHandle receiver _) fun _ => ?_
    split
    · exact isTame_make rfl
    · exact isTame_fail rfl

/-- Writing changes the files, but only through a file that is open. -/
theorem tameAt_writeFile {s : Store} {receiver : Value} (hfile : (s.get receiver).isFile = true)
    (handle : FileHandle) (text : Value) : (writeFile receiver handle text).TameAt s := by
  refine tameAt_bind (isTame_load text s) fun object _ => ?_
  change Action.TameAt _ s
  split
  · refine tameAt_bind (isTame_read _ s) fun found _ => ?_
    change Action.TameAt _ s
    split
    · refine tameAt_bind ⟨.setFiles hfile _, Store.grows_setFiles _ _, calm_ok _⟩ fun _ _ => ?_
      exact isTame_bind (isTame_setHandle receiver _) (fun _ => isTame_nil) _
    · exact isTame_fail rfl s
  · exact isTame_fail rfl s

theorem tameAt_callFile {s : Store} (name : String) {receiver : Value}
    (hfile : (s.get receiver).isFile = true) (path : String) (handle : Option FileHandle)
    (args : List Value) : (callFile name receiver path handle args).TameAt s := by
  unfold callFile
  split
  · exact isTame_bind (isTame_setHandle receiver none) (fun _ => isTame_nil) s
  · split
    · exact isTame_fail rfl s
    · split
      · exact isTame_readFile receiver _ s
      · exact isTame_fail rfl s
      · exact tameAt_writeFile hfile _ _
      · exact isTame_fail rfl s
      · exact isTame_fail rfl s

theorem isTame_call (name : String) (receiver : Value) (args : List Value) :
    IsTame (call name receiver args) := by
  intro s
  refine tameAt_bind (isTame_load receiver s) fun object hobject => ?_
  have hget : s.get receiver = object := Except.ok.inj hobject
  change Action.TameAt _ s
  cases object with
  | str content => exact isTame_callText name content args s
  | array items => exact isTame_callArray name receiver args s
  | dict entries => exact isTame_callDict name receiver args s
  | file path handle => exact tameAt_callFile name (by rw [hget]; rfl) path handle args
  | _ => exact isTame_fail rfl s

end Method

/-! Types and built-in functions. -/

namespace TypeTag

theorem isTame_convert (target : TypeTag) (v : Value) : IsTame (target.convert v) := by
  refine isTame_bind (isTame_load v) fun object => ?_
  split
  · exact isTame_pure _
  · exact isTame_make rfl
  · exact isTame_make rfl
  · next content => exact isTame_makeExcept (yields_readInt content)
  · exact isTame_pure _
  · exact isTame_make rfl
  · exact isTame_make rfl
  · next content => exact isTame_makeExcept (yields_readFloat content)
  · exact isTame_make rfl
  · exact isTame_make rfl
  · exact Value.isTame_copy v
  · refine isTame_makeArrayOf fun object hobject => ?_
    obtain ⟨c, -, rfl⟩ := List.mem_map.mp hobject
    rfl
  · refine isTame_makeArrayOf fun object hobject => ?_
    obtain ⟨key, -, rfl⟩ := List.mem_map.mp hobject
    rfl
  · exact Value.isTame_copy v
  · exact isTame_bind (isTame_scope _) fun table => isTame_make rfl
  · exact isTame_fail rfl

theorem isTame_construct (target : TypeTag) (args : List Value) :
    IsTame (target.construct args) := by
  unfold TypeTag.construct
  split
  · split
    · next object hempty =>
      refine isTame_make ?_
      cases target <;> cases hempty <;> rfl
    · exact isTame_fail rfl
  · exact isTame_convert target _
  · exact isTame_fail rfl

end TypeTag

namespace Builtin

theorem isTame_attributeOf (owner key : Value) : IsTame (attributeOf owner key) := by
  refine isTame_bind (isTame_load owner) fun object => ?_
  split
  · exact isTame_fail rfl
  · refine isTame_bind (isTame_load key) fun name => ?_
    split
    · exact isTame_fail rfl
    · exact isTame_pure _

/-- A file is opened and made into an object, or nothing happens. -/
theorem openNamed_cases (path how : Value) (s : Store) :
    (∃ fault, fault.isStray = false ∧ openNamed path how s = (.error fault, s)) ∨
      ∃ name handle files,
        openNamed path how s = Action.make (.file name handle) (s.setFiles files) := by
  have hload : ∀ v (f : Object → Action Value), (Action.load v >>= f) s = f (s.get v) s :=
    fun _ _ => rfl
  unfold openNamed
  rw [hload]
  cases (s.get path).text? with
  | none => exact .inl ⟨_, rfl, rfl⟩
  | some name =>
    dsimp only
    rw [hload]
    cases (s.get how).text? with
    | none => exact .inl ⟨_, rfl, rfl⟩
    | some letters =>
      dsimp only
      cases OpenMode.of? letters with
      | none => exact .inl ⟨_, rfl, rfl⟩
      | some mode =>
        have hread : ∀ f : Option (FileHandle × FileTree) → Action Value,
            (Action.read (fun s => s.files.openFile name mode) >>= f) s =
              f (s.files.openFile name mode) s := fun _ => rfl
        dsimp only
        rw [hread]
        cases s.files.openFile name mode with
        | none => exact .inl ⟨_, rfl, rfl⟩
        | some opened => exact .inr ⟨name, some opened.1, opened.2, rfl⟩

theorem isTame_castTo (v target : Value) : IsTame (castTo v target) := by
  refine isTame_bind (isTame_load target) fun object => ?_
  split
  · exact TypeTag.isTame_construct _ _
  · exact isTame_fail rfl

theorem isTame_ofOne {function : Builtin} {args : List Value} {body : Value → Action Value}
    (hbody : ∀ v, IsTame (body v)) :
    IsTame (match args with
      | [v] => body v
      | _ => Action.fail (.argumentCount function)) := by
  split
  · exact hbody _
  · exact isTame_fail rfl

/-- All built-in functions that work on the store are tame but the one that opens
files. -/
theorem isTame_callPlain? {function : Builtin} (hopen : function ≠ .openFile) {args : List Value}
    {action : Action Value} (haction : function.callPlain? args = some action) :
    IsTame action := by
  unfold callPlain? at haction
  cases function with
  | len =>
    cases haction
    refine isTame_ofOne fun v => isTame_bind (isTame_load v) fun object => ?_
    exact isTame_bind (isTame_ofExcept (calm_lengthOf object)) fun n => isTame_make rfl
  | type =>
    cases haction
    exact isTame_ofOne Value.isTame_typeOf
  | copy =>
    cases haction
    exact isTame_ofOne Value.isTame_copy
  | deepcopy =>
    cases haction
    exact isTame_ofOne Value.isTame_deepCopy
  | id =>
    cases haction
    exact isTame_ofOne fun v => isTame_bind (isTame_read _) fun n => isTame_make rfl
  | assert =>
    cases haction
    refine isTame_ofOne fun v => isTame_bind (isTame_load v) fun object => ?_
    split
    · exact isTame_nil
    · exact isTame_fail rfl
  | ord =>
    cases haction
    refine isTame_ofOne fun v => isTame_bind (isTame_load v) fun held => ?_
    exact isTame_makeExcept (yields_codeOf held)
  | chr =>
    cases haction
    refine isTame_ofOne fun v => isTame_bind (isTame_load v) fun held => ?_
    exact isTame_makeExcept (yields_charOf held)
  | cast =>
    cases haction
    split
    · exact isTame_castTo _ _
    · exact isTame_fail rfl
  | setattr =>
    cases haction
    split
    · refine isTame_bind (isTame_attributeOf _ _) fun found => ?_
      exact isTame_bind (isTame_bindName _ _ _) fun _ => isTame_pure _
    · exact isTame_fail rfl
  | getattr =>
    cases haction
    split
    · refine isTame_bind (isTame_attributeOf _ _) fun found => ?_
      refine isTame_bind (isTame_lookup _ _) fun value => ?_
      split
      · exact isTame_pure _
      · exact isTame_nil
    · exact isTame_fail rfl
  | openFile => exact absurd rfl hopen
  | _ => cases haction

end Builtin

end Stencil
