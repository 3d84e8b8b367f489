import Stencil.Eval.Run
import Stencil.Proofs.Program.Pieces
import Stencil.Proofs.Value.Code

/-!
What expressions are made of. The laws say that a property of computations holds of
the primitive operations, as far as these bring in no code and touch no files, and
that sequencing keeps it. Everything that an expression does is put together from
these, from the evaluation of its parts, from the names it reads and from calls. So
the property holds of an expression if it holds of those, and an invariant of
evaluation is proved by looking at the primitives once. An expression fails and calls
only at the places that it marks, so the property need not allow for other places.
-/

namespace Stencil

def Diagnostic.isStray (d : Diagnostic) : Bool :=
  match d.cause with
  | .runtime fault => fault.isStray
  | _ => false

def Place.pos : Place → Position
  | .named _ pos | .attr _ _ pos | .index _ _ pos => pos

namespace Eval

/-- Sequences may be put together in either way. -/
theorem bind_assoc {α β γ : Type} (x : Eval α) (f : α → Eval β) (g : β → Eval γ) :
    x >>= f >>= g = x >>= fun a => f a >>= g := by
  funext m
  change Eval.bind (Eval.bind x f) g m = Eval.bind x (fun a => Eval.bind (f a) g) m
  unfold Eval.bind
  cases x m with
  | done a m' => rfl
  | fail d m' => rfl
  | starved m' => rfl

theorem bind_pure {α : Type} (x : Eval α) : (x >>= fun a => Pure.pure a) = x := by
  funext m
  change Eval.bind x _ m = _
  unfold Eval.bind
  cases x m with
  | done a m' => rfl
  | fail d m' => rfl
  | starved m' => rfl

/-- The property holds of the primitive operations, as far as they fail at the places that
are `here`, and sequencing keeps it. -/
structure Laws (here : Position → Prop) (P : ⦃α : Type⦄ → Eval α → Prop) : Prop where
  pure {α : Type} (a : α) : P (Pure.pure a : Eval α)
  bind {α β : Type} {x : Eval α} {f : α → Eval β} : P x → (∀ a, P (f a)) → P (x >>= f)
  failAt? {α : Type} {fault : Fault} {pos : Option Position} : fault.isStray = false →
    (∀ p ∈ pos, here p) → P (Eval.failAt? fault pos : Eval α)
  exit {α : Type} (status : Int32) {pos : Position} :
    here pos → P (Eval.failWith (.exit status) (some pos) : Eval α)
  read {α : Type} (f : Machine → α) : P (Eval.read f)
  act {α : Type} {pos : Position} {action : Action α} :
    here pos → action.IsTame → P (Eval.act pos action)
  make {object : Object} : object.isInert = true → P (Eval.make object)
  newScope (names : Dict Value) : P (Eval.newScope names)
  /-- A built-in module is made along with its table. -/
  newModule (name : String) (table : Dict Value) : P (do
    let scope ← Eval.newScope table
    Eval.make (.module name scope))
  /-- Names are only added to a table. -/
  updateScope (id : ScopeId) {f : Dict Value → Dict Value} :
    (∀ table, table.keys <+: (f table).keys) → P (Eval.modifyStore (·.updateScope id f))
  bindLocal (name : String) (v : Value) : P (Eval.bindLocal name v)
  writeOut (text : String) : P (Eval.writeOut text)
  writeErr (text : String) : P (Eval.writeErr text)
  setAlias (key value : String) (note : Option String) :
    P (Eval.modifyContext (·.setAlias key value note))
  inReferenceBlock {α : Type} {x : Eval α} : P x → P (Eval.inReferenceBlock x)

namespace Laws

variable {here : Position → Prop} {P : ⦃α : Type⦄ → Eval α → Prop} (L : Laws here P)

include L

/-- A fault is reported at a place of the code. -/
theorem fail {α : Type} {fault : Fault} (h : fault.isStray = false) {pos : Position}
    (hpos : here pos) : P (Eval.fail fault pos : Eval α) :=
  L.failAt? h fun _ hp => Option.mem_some_iff.mp hp ▸ hpos

/-- Fails where an expression begins. -/
theorem failAtExpr {α : Type} {fault : Fault} (h : fault.isStray = false) {e : Expr}
    (he : ∀ mark ∈ e.marks, here mark.pos) : P (Eval.failAt? fault e.pos? : Eval α) := by
  refine L.failAt? h fun pos hpos => ?_
  obtain ⟨mark, hmark, rfl⟩ := Expr.exists_mark_of_mem_pos? hpos
  exact he mark hmark

theorem load (v : Value) : P (Eval.load v) := L.read fun m => m.store.get v

theorem isTruthy (v : Value) : P (Eval.isTruthy v) := L.read fun m => (m.store.get v).truthy

/-! Names, attributes and places. -/

theorem memberTable (module : String) : P (Eval.memberTable module) := by
  have hinert : ∀ entry ∈ Builtin.members module, (Object.builtin entry.2).isInert = true := by
    intro entry hentry
    unfold Builtin.members at hentry
    split at hentry
    · obtain rfl := List.mem_singleton.mp hentry
      rfl
    · simp only [List.mem_cons, List.not_mem_nil, or_false] at hentry
      rcases hentry with rfl | rfl | rfl
      · rfl
      · rfl
      · rfl
    · cases hentry
  unfold Eval.memberTable
  generalize (Dict.empty : Dict Value) = table
  generalize Builtin.members module = entries at hinert
  induction entries generalizing table with
  | nil => exact L.pure _
  | cons entry rest ih =>
    obtain ⟨hentry, hrest⟩ := List.forall_mem_cons.mp hinert
    rw [List.foldlM_cons]
    exact L.bind (L.bind (L.make hentry) fun v => L.pure _) fun table => ih table hrest

theorem offered? {name : String}
    (h : ∀ function, Builtin.ofName? name = some function → P (Eval.make (.builtin function))) :
    P (Eval.offered? name) := by
  unfold Eval.offered?
  split
  · next function hfunction => exact L.bind (h function hfunction) fun v => L.pure _
  · exact L.bind (L.make rfl) fun v => L.pure _
  · split
    · refine L.bind (L.memberTable name) fun table => ?_
      have hmodule := L.bind (L.newModule name table) fun v => L.pure (some v)
      rwa [bind_assoc] at hmodule
    · exact L.pure _

/-- A name that is not bound stands for a built-in function or for a type. -/
theorem lookup {name : String}
    (h : ∀ function, Builtin.ofName? name = some function → P (Eval.make (.builtin function))) :
    P (Eval.lookup name) := by
  unfold Eval.lookup
  refine L.bind (L.read _) fun found => ?_
  cases found with
  | none => exact L.offered? h
  | some v => exact L.pure _

/-- A name is read at a place of the code. -/
theorem readName {name : String} (h : P (Eval.lookup name)) {pos : Position} (hpos : here pos) :
    P (Eval.readName name pos) := by
  unfold Eval.readName
  refine L.bind h fun found => ?_
  cases found with
  | some v => exact L.pure _
  | none =>
    refine L.bind (L.read _) fun inReference => ?_
    split
    · exact L.fail rfl hpos
    · exact L.fail rfl hpos

theorem bindReceiver (receiver v : Value) : P (Eval.bindReceiver receiver v) := by
  unfold Eval.bindReceiver
  refine L.bind (L.read _) fun isMethod => ?_
  split
  · exact L.make rfl
  · exact L.pure _

/-- An attribute is read off its owner, or it is missing at a place of the code. -/
theorem getAttr (owner : Value) (name : String) {pos : Position} (hpos : here pos) :
    P (Eval.getAttr owner name pos) := by
  unfold Eval.getAttr
  refine L.bind (L.load owner) fun object => ?_
  split
  · refine L.bind (L.read _) fun found => ?_
    cases found with
    | some v => exact L.pure _
    | none => exact L.fail rfl hpos
  · refine L.bind (L.read _) fun found => ?_
    cases found with
    | some v => exact L.pure _
    | none => exact L.fail rfl hpos
  · refine L.bind (L.read _) fun found => ?_
    cases found with
    | some v => exact L.bindReceiver owner v
    | none => exact L.fail rfl hpos
  · split
    · exact L.make rfl
    · exact L.fail rfl hpos

/-- An attribute is set in the table of its owner, or the owner has none. -/
theorem setAttr (owner : Value) (name : String) (v : Value) {pos : Position}
    (hpos : here pos) : P (Eval.setAttr owner name v pos) := by
  unfold Eval.setAttr
  refine L.bind (L.load owner) fun object => ?_
  split
  · exact L.updateScope _ fun table => table.keys_prefix_insert name v
  · exact L.fail rfl hpos

/-- A place can be read if its name can be, in case it has one. -/
theorem placeGet {place : Place} (hpos : here place.pos)
    (h : ∀ name pos, place = .named name pos → P (Eval.lookup name)) : P place.get := by
  cases place with
  | named name pos =>
    refine L.bind (h name pos rfl) fun found => ?_
    cases found with
    | some v => exact L.pure _
    | none => exact L.fail rfl hpos
  | attr owner name pos => exact L.getAttr owner name hpos
  | index owner key pos => exact L.act hpos (Value.isTame_elementAt owner key)

/-- A place can be written if it stands in the code. -/
theorem placeSet (v : Value) {place : Place} (hpos : here place.pos) : P (place.set v) := by
  cases place with
  | named name pos => exact L.bindLocal name v
  | attr owner name pos => exact L.setAttr owner name v hpos
  | index owner key pos => exact L.act hpos (Value.isTame_setElementAt owner key v)

/-- Binds names of a module's table. -/
theorem bindNames (scope : ScopeId) (path : String) {pos : Position} (hpos : here pos)
    (names : List ImportName) : P (Eval.bindNames scope path pos names) := by
  induction names with
  | nil => exact L.pure _
  | cons name rest ih =>
    unfold Eval.bindNames
    refine L.bind (L.read _) fun found => ?_
    cases found with
    | none => exact L.fail rfl hpos
    | some v => exact L.bind (L.bindLocal _ v) fun _ => ih

/-! Built-in functions. -/

theorem eputs (args : List Value) : P (Eval.eputs args) := by
  unfold Eval.eputs
  exact L.bind (L.read _) fun line => L.bind (L.writeErr line) fun _ => L.make rfl

theorem puts (args : List Value) : P (Eval.puts args) := by
  unfold Eval.puts
  exact L.bind (L.read _) fun line => L.bind (L.writeOut line) fun _ => L.make rfl

theorem exitWith (args : List Value) {pos : Position} (hpos : here pos) :
    P (Eval.exitWith args pos) := by
  unfold Eval.exitWith
  split
  · next code =>
    refine L.bind (L.load code) fun object => ?_
    split
    · exact L.exit _ hpos
    · exact L.fail rfl hpos
  · exact L.fail rfl hpos

theorem die (args : List Value) {pos : Position} (hpos : here pos) : P (Eval.die args pos) := by
  unfold Eval.die
  exact L.bind (L.eputs args) fun _ => L.exit 1 hpos

theorem extractEach {pos : Position} (hpos : here pos) (args : List Value) :
    P (Eval.extractEach pos args) := by
  induction args with
  | nil => exact L.pure _
  | cons v rest ih =>
    unfold Eval.extractEach
    refine L.bind (L.load v) fun object => ?_
    split
    · refine L.bind (L.read _) fun table => L.bind (L.read _) fun locals => ?_
      exact L.bind (L.updateScope _ fun held => held.keys_prefix_insertAll _) fun _ => ih
    · exact L.fail rfl hpos

/-- The fields of values become variables of the active frame. -/
theorem extract (args : List Value) {pos : Position} (hpos : here pos) :
    P (Eval.extract args pos) := by
  unfold Eval.extract
  split
  · exact L.fail rfl hpos
  · exact L.bind (L.extractEach hpos args) fun _ => L.make rfl

theorem textArgument (v : Value) {fault : Fault} (h : fault.isStray = false) {pos : Position}
    (hpos : here pos) : P (Eval.textArgument v fault pos) := by
  unfold Eval.textArgument
  refine L.bind (L.load v) fun object => ?_
  split
  · exact L.pure _
  · exact L.fail h hpos

theorem setAliasWith (args : List Value) {pos : Position} (hpos : here pos) :
    P (Eval.setAlias args pos) := by
  unfold Eval.setAlias
  split
  · refine L.bind (L.textArgument _ rfl hpos) fun key => ?_
    refine L.bind (L.textArgument _ rfl hpos) fun value => ?_
    exact L.bind (L.setAlias key value none) fun _ => L.make rfl
  · refine L.bind (L.textArgument _ rfl hpos) fun key => ?_
    refine L.bind (L.textArgument _ rfl hpos) fun value => ?_
    refine L.bind (L.textArgument _ rfl hpos) fun note => ?_
    exact L.bind (L.setAlias key value (some note)) fun _ => L.make rfl
  · exact L.fail rfl hpos
  · exact L.fail rfl hpos
  · exact L.fail rfl hpos

theorem makeText? (text : Option String) : P (Eval.makeText? text) := by
  cases text with
  | none => exact L.make rfl
  | some content => exact L.make rfl

theorem option (function : Builtin) (args : List Value) {pos : Position} (hpos : here pos)
    {answer : Options → String → Eval Value} (ha : ∀ options name, P (answer options name)) :
    P (Eval.option function args pos answer) := by
  unfold Eval.option
  split
  · next v =>
    refine L.bind (L.load v) fun object => ?_
    split
    · next name _ => exact L.bind (L.read _) fun options => ha options name
    · exact L.fail rfl hpos
  · exact L.fail rfl hpos

theorem positional (args : List Value) {pos : Position} (hpos : here pos) :
    P (Eval.positional args pos) := by
  unfold Eval.positional
  split
  · next v =>
    refine L.bind (L.load v) fun object => ?_
    split
    · exact L.bind (L.read _) fun text => L.makeText? text
    · exact L.fail rfl hpos
  · exact L.fail rfl hpos

/-- A built-in function other than the two that read code or files. -/
theorem callBuiltin_of_isInert (ex : Executor) {function : Builtin}
    (h : (Object.builtin function).isInert = true) (args : List Value) {pos : Position}
    (hpos : here pos) : P (Eval.callBuiltin ex function args pos) := by
  unfold Eval.callBuiltin
  split
  · next action haction =>
    refine L.act hpos (Builtin.isTame_callPlain? ?_ haction)
    rintro rfl
    exact absurd h (by decide)
  · split
    · exact L.puts args
    · exact L.eputs args
    · exact L.exitWith args hpos
    · exact L.die args hpos
    · exact L.extract args hpos
    · exact absurd h (by decide)
    · exact L.setAliasWith args hpos
    · exact L.option _ args hpos fun options name => L.makeText? _
    · exact L.option _ args hpos fun options name => L.make rfl
    · exact L.positional args hpos
    · exact L.fail rfl hpos

/-! Expressions and formulas. -/

section Expression

variable {ev : Evaluator}

/-- Expressions are evaluated in turn. -/
theorem evalEach {items : List Expr} (hev : ∀ e ∈ items, P (ev e)) :
    P (Eval.evalEach ev items) := by
  induction items with
  | nil => exact L.pure _
  | cons e rest ih =>
    obtain ⟨he, hrest⟩ := List.forall_mem_cons.mp hev
    exact L.bind he fun v => L.bind (ih hrest) fun vs => L.pure _

/-- A key that is no text is reported where it stands. -/
theorem evalEntries {pos : Position} (hpos : here pos) (table : Dict Value)
    {entries : List (Expr × Expr)}
    (hev : ∀ entry ∈ entries, P (ev entry.1) ∧ P (ev entry.2))
    (hkeys : ∀ entry ∈ entries, ∀ mark ∈ entry.1.marks, here mark.pos) :
    P (Eval.evalEntries ev pos table entries) := by
  induction entries generalizing table with
  | nil => exact L.pure _
  | cons entry rest ih =>
    obtain ⟨key, item⟩ := entry
    obtain ⟨⟨hkey, hitem⟩, hrest⟩ := List.forall_mem_cons.mp hev
    obtain ⟨hmarks, hkeys⟩ := List.forall_mem_cons.mp hkeys
    unfold Eval.evalEntries
    refine L.bind hkey fun k => L.bind (L.load k) fun object => ?_
    split
    · cases hbegin : key.pos? with
      | none => exact L.fail rfl hpos
      | some p =>
        have hfail : P (Eval.failAt? .literalKeyNotText key.pos? : Eval (Dict Value)) :=
          L.failAtExpr rfl hmarks
        rw [hbegin] at hfail
        exact hfail
    · next name _ => exact L.bind hitem fun v => ih (table.insert name v) hrest hkeys

/-- An operator fails where it stands. -/
theorem combineAll (acc : Value) {rest : List (ArithOp × Expr × Position)}
    (hev : ∀ step ∈ rest, P (ev step.2.1)) (hpos : ∀ step ∈ rest, here step.2.2) :
    P (Eval.combineAll ev acc rest) := by
  induction rest generalizing acc with
  | nil => exact L.pure _
  | cons step rest ih =>
    obtain ⟨op, operand, pos⟩ := step
    obtain ⟨hoperand, hrest⟩ := List.forall_mem_cons.mp hev
    obtain ⟨hop, hpos⟩ := List.forall_mem_cons.mp hpos
    refine L.bind hoperand fun v => ?_
    exact L.bind (L.act hop (Value.isTame_arith op acc v)) fun acc' => ih acc' hrest hpos

theorem compareAll (acc : Value) {rest : List (CompOp × Expr × Position)}
    (hev : ∀ step ∈ rest, P (ev step.2.1)) (hpos : ∀ step ∈ rest, here step.2.2) :
    P (Eval.compareAll ev acc rest) := by
  induction rest generalizing acc with
  | nil => exact L.pure _
  | cons step rest ih =>
    obtain ⟨op, operand, pos⟩ := step
    obtain ⟨hoperand, hrest⟩ := List.forall_mem_cons.mp hev
    obtain ⟨hop, hpos⟩ := List.forall_mem_cons.mp hpos
    refine L.bind hoperand fun v => ?_
    refine L.bind (L.act hop (Value.isTame_compare op acc v)) fun holds => ?_
    exact L.bind (L.make rfl) fun acc' => ih acc' hrest hpos

theorem decideAll (stop : Bool) {items : List Expr} (hev : ∀ e ∈ items, P (ev e)) :
    P (Eval.decideAll ev stop items) := by
  induction items with
  | nil => exact L.make rfl
  | cons e rest ih =>
    obtain ⟨he, hrest⟩ := List.forall_mem_cons.mp hev
    cases rest with
    | nil => exact he
    | cons next rest =>
      unfold Eval.decideAll
      refine L.bind he fun v => L.bind (L.isTruthy v) fun truthy => ?_
      split
      · exact L.pure _
      · exact ih hrest

/-- Goes on with the place of a target, which has a name only if the target is one. -/
theorem placeOf_bind {β : Type} {target : Expr} {f : Place → Eval β}
    (hev : ∀ e ∈ target.targetParts, P (ev e)) (hmarks : ∀ mark ∈ target.marks, here mark.pos)
    (hnamed : ∀ name pos, target = .ident name pos → P (f (.named name pos)))
    (hf : ∀ place, here place.pos → (∀ name pos, place ≠ .named name pos) → P (f place)) :
    P (Eval.placeOf ev target >>= f) := by
  unfold Eval.placeOf
  split
  · next name pos => exact hnamed name pos rfl
  · next head links =>
    unfold Expr.targetParts at hev
    cases hlast : links.getLast? with
    | none => exact L.failAtExpr rfl hmarks
    | some link =>
      have hlink : here link.mark.pos :=
        hmarks _ (Expr.ownMarks_subset_marks _ (List.mem_map_of_mem (List.mem_of_getLast? hlast)))
      dsimp only
      rw [bind_assoc]
      cases link with
      | attr name pos =>
        simp only [hlast, List.mem_singleton, forall_eq] at hev
        exact L.bind hev fun owner => hf (.attr owner name pos) hlink nofun
      | index key pos =>
        simp only [hlast, List.mem_cons, List.not_mem_nil, or_false, forall_eq_or_imp,
          forall_eq] at hev
        refine L.bind hev.1 fun owner => ?_
        rw [bind_assoc]
        exact L.bind hev.2 fun k => hf (.index owner k pos) hlink nofun
      | call args pos =>
        simp only [hlast, List.mem_singleton, forall_eq] at hev
        exact L.bind hev fun owner => L.fail rfl hlink
  · exact L.failAtExpr rfl hmarks

/-- An assignment needs the parts of its target. -/
theorem assign (v : Value) {target : Expr} (hev : ∀ e ∈ target.targetParts, P (ev e))
    (hmarks : ∀ mark ∈ target.marks, here mark.pos) : P (Eval.assign ev v target) :=
  L.placeOf_bind hev hmarks (fun name _ _ => L.bindLocal name v) fun _ hpos _ => L.placeSet v hpos

theorem assignEach (v : Value) {targets : List Expr}
    (hev : ∀ target ∈ targets, ∀ e ∈ target.targetParts, P (ev e))
    (hmarks : ∀ target ∈ targets, ∀ mark ∈ target.marks, here mark.pos) :
    P (Eval.assignEach ev v targets) := by
  induction targets with
  | nil => exact L.pure _
  | cons target rest ih =>
    obtain ⟨htarget, hrest⟩ := List.forall_mem_cons.mp hev
    obtain ⟨hfirst, hmarks⟩ := List.forall_mem_cons.mp hmarks
    exact L.bind (L.assign v htarget hfirst) fun _ => ih hrest hmarks

/-- Pairs are assigned in turn, each to its own target. -/
theorem assignPairs {pairs : List (Expr × Value)}
    (hev : ∀ pair ∈ pairs, ∀ e ∈ pair.1.targetParts, P (ev e))
    (hmarks : ∀ pair ∈ pairs, ∀ mark ∈ pair.1.marks, here mark.pos) :
    P (Eval.assignPairs ev pairs) := by
  induction pairs with
  | nil => exact L.pure _
  | cons pair rest ih =>
    obtain ⟨target, v⟩ := pair
    obtain ⟨htarget, hrest⟩ := List.forall_mem_cons.mp hev
    obtain ⟨hfirst, hmarks⟩ := List.forall_mem_cons.mp hmarks
    exact L.bind (L.assign v htarget hfirst) fun _ => ih hrest hmarks

theorem assignSpread {targets : List Expr}
    (hev : ∀ target ∈ targets, ∀ e ∈ target.targetParts, P (ev e))
    (hmarks : ∀ target ∈ targets, ∀ mark ∈ target.marks, here mark.pos) (v : Value) :
    P (Eval.assignSpread ev targets v) := by
  have hfail : ∀ {fault : Fault}, fault.isStray = false →
      P (Eval.failAt? fault (targets.head?.bind Expr.pos?) : Eval Unit) := by
    intro fault hfault
    cases targets with
    | nil => exact L.failAt? hfault nofun
    | cons target rest => exact L.failAtExpr hfault (hmarks target (List.mem_cons_self ..))
  unfold Eval.assignSpread
  dsimp only
  refine L.bind (L.load v) fun object => ?_
  split
  · split
    · refine L.assignPairs (fun pair hpair => ?_) fun pair hpair => ?_
      · exact hev pair.1 (List.of_mem_zip hpair).1
      · exact hmarks pair.1 (List.of_mem_zip hpair).1
    · exact hfail rfl
  · exact hfail rfl

theorem assignList (v : Value) {targets : List Expr}
    (hev : ∀ target ∈ targets, ∀ e ∈ target.targetParts, P (ev e))
    (hmarks : ∀ target ∈ targets, ∀ mark ∈ target.marks, here mark.pos) :
    P (Eval.assignList ev v targets) := by
  unfold Eval.assignList
  split
  · exact L.assign v (hev _ (List.mem_singleton.mpr rfl)) (hmarks _ (List.mem_singleton.mpr rfl))
  · exact L.assignSpread hev hmarks v

/-- The same value is assigned to several lists. -/
theorem assignLists (v : Value) {lists : List (List Expr)}
    (hev : ∀ targets ∈ lists, ∀ target ∈ targets, ∀ e ∈ target.targetParts, P (ev e))
    (hmarks : ∀ targets ∈ lists, ∀ target ∈ targets, ∀ mark ∈ target.marks, here mark.pos) :
    P (Eval.assignLists ev v lists) := by
  induction lists with
  | nil => exact L.pure _
  | cons targets rest ih =>
    obtain ⟨htargets, hrest⟩ := List.forall_mem_cons.mp hev
    obtain ⟨hfirst, hmarks⟩ := List.forall_mem_cons.mp hmarks
    exact L.bind (L.assignList v htargets hfirst) fun _ => ih hrest hmarks

theorem evalList {items : List Expr} (hev : ∀ e ∈ items, P (ev e)) :
    P (Eval.evalList ev items) := by
  unfold Eval.evalList
  split
  · exact hev _ (List.mem_singleton.mpr rfl)
  · exact L.bind (L.evalEach hev) fun vs => L.make rfl

theorem evalChains (last : Value) {chains : List (List Expr)}
    (hev : ∀ chain ∈ chains, ∀ e ∈ chain, P (ev e))
    (htarget : ∀ chain ∈ chains, ∀ target ∈ chain, ∀ e ∈ target.targetParts, P (ev e))
    (hmarks : ∀ chain ∈ chains, ∀ target ∈ chain, ∀ mark ∈ target.marks, here mark.pos) :
    P (Eval.evalChains ev last chains) := by
  induction chains generalizing last with
  | nil => exact L.pure _
  | cons chain rest ih =>
    obtain ⟨hchain, hrest⟩ := List.forall_mem_cons.mp hev
    obtain ⟨htargets, htarget⟩ := List.forall_mem_cons.mp htarget
    obtain ⟨hfirst, hmarks⟩ := List.forall_mem_cons.mp hmarks
    unfold Eval.evalChains
    split
    · exact ih last hrest htarget hmarks
    · next value hvalue =>
      have hinit : ∀ target ∈ chain.dropLast.reverse, target ∈ chain := fun target hmem =>
        List.dropLast_subset _ (List.mem_reverse.mp hmem)
      refine L.bind (hchain value (List.mem_of_getLast? hvalue)) fun v => ?_
      refine L.bind (L.assignEach v ?_ ?_) fun _ => ih v hrest htarget hmarks
      · exact fun target hmem => htargets target (hinit target hmem)
      · exact fun target hmem => hfirst target (hinit target hmem)

section Formula

variable {formula : Formula} (hev : ∀ e ∈ formula.exprs, P (ev e))
  (htarget : ∀ target ∈ formula.exprs, ∀ e ∈ target.targetParts, P (ev e))
  (hmarks : ∀ e ∈ formula.exprs, ∀ mark ∈ e.marks, here mark.pos)

include hev htarget hmarks

/-- A formula needs its values and the parts of its targets. -/
theorem evalFormula : P (Eval.evalFormula ev formula) := by
  cases formula with
  | assignments chains =>
    refine L.bind (L.make rfl) fun last => L.evalChains last ?_ ?_ ?_
    · exact fun chain hchain e he => hev e (List.mem_flatten_of_mem hchain he)
    · exact fun chain hchain e he => htarget e (List.mem_flatten_of_mem hchain he)
    · exact fun chain hchain e he => hmarks e (List.mem_flatten_of_mem hchain he)
  | parallel lists =>
    simp only [Eval.evalFormula]
    split
    · exact L.make rfl
    · next values hvalues =>
      have hmem := List.mem_of_getLast? hvalues
      have hinit : ∀ targets ∈ lists.dropLast.reverse, ∀ target ∈ targets,
          target ∈ (Formula.parallel lists).exprs := fun targets htargets target hin =>
        List.mem_flatten_of_mem (List.dropLast_subset _ (List.mem_reverse.mp htargets)) hin
      refine L.bind (L.evalList fun e he => hev e (List.mem_flatten_of_mem hmem he)) fun v => ?_
      refine L.bind (L.assignLists v ?_ ?_) fun _ => L.pure _
      · exact fun targets hts target hin => htarget target (hinit targets hts target hin)
      · exact fun targets hts target hin => hmarks target (hinit targets hts target hin)

theorem execReference : P (Eval.execReference ev formula) := by
  unfold Eval.execReference
  refine L.bind (L.inReferenceBlock (L.evalFormula hev htarget hmarks)) fun v => ?_
  exact L.bind (L.load v) fun object => L.writeOut _

end Formula

section Clause

variable {clause : Option Formula} (hev : ∀ formula ∈ clause, ∀ e ∈ formula.exprs, P (ev e))
  (htarget : ∀ formula ∈ clause, ∀ target ∈ formula.exprs, ∀ e ∈ target.targetParts, P (ev e))
  (hmarks : ∀ formula ∈ clause, ∀ e ∈ formula.exprs, ∀ mark ∈ e.marks, here mark.pos)

include hev htarget hmarks

theorem runClause : P (Eval.runClause ev clause) := by
  cases clause with
  | none => exact L.pure _
  | some formula =>
    have hformula := L.evalFormula (hev formula rfl) (htarget formula rfl) (hmarks formula rfl)
    exact L.bind hformula fun _ => L.pure _

theorem goesOn : P (Eval.goesOn ev clause) := by
  cases clause with
  | none => exact L.pure _
  | some formula =>
    have hformula := L.evalFormula (hev formula rfl) (htarget formula rfl) (hmarks formula rfl)
    exact L.bind hformula fun v => L.isTruthy v

end Clause

variable {ex : Executor}

/-- Calls among the links are made at their own places. -/
theorem follow (v : Value) {links : List Link}
    (hcall : ∀ link ∈ links, link.mark.enters = true →
      ∀ v args, P (Eval.callValue ex v args link.mark.pos))
    (hev : ∀ link ∈ links, ∀ e ∈ link.parts, P (ev e))
    (hmarks : ∀ link ∈ links, here link.mark.pos) : P (Eval.follow ev ex v links) := by
  induction links generalizing v with
  | nil => exact L.pure _
  | cons link rest ih =>
    obtain ⟨hfirst, hcalls⟩ := List.forall_mem_cons.mp hcall
    obtain ⟨hlink, hrest⟩ := List.forall_mem_cons.mp hev
    obtain ⟨hmark, hplaces⟩ := List.forall_mem_cons.mp hmarks
    cases link with
    | attr name pos => exact L.bind (L.getAttr v name hmark) fun v' => ih v' hcalls hrest hplaces
    | index key pos =>
      refine L.bind (hlink key (List.mem_singleton.mpr rfl)) fun k => ?_
      exact L.bind (L.act hmark (Value.isTame_elementAt v k)) fun v' => ih v' hcalls hrest hplaces
    | call args pos =>
      refine L.bind (L.evalEach hlink) fun vs => ?_
      exact L.bind (hfirst rfl v vs) fun v' => ih v' hcalls hrest hplaces

/-- A call of `super` needs no value before it. -/
theorem evalChain {head : Expr} {links : List Link}
    (hcall : ∀ link ∈ links, link.mark.enters = true →
      ∀ v args, P (Eval.callValue ex v args link.mark.pos))
    (hsuper : ∀ link ∈ links, link.mark.enters = true →
      ∀ args, P (Eval.callSuper ex args link.mark.pos))
    (hhead : P (ev head)) (hev : ∀ link ∈ links, ∀ e ∈ link.parts, P (ev e))
    (hmarks : ∀ link ∈ links, here link.mark.pos) :
    P (Eval.evalChain ev ex head links) := by
  unfold Eval.evalChain
  split
  · obtain ⟨hargs, hrest⟩ := List.forall_mem_cons.mp hev
    obtain ⟨hfirst, -⟩ := List.forall_mem_cons.mp hsuper
    refine L.bind (L.evalEach hargs) fun vs => L.bind (hfirst rfl vs) fun v => ?_
    exact L.follow v (List.forall_mem_cons.mp hcall).2 hrest (List.forall_mem_cons.mp hmarks).2
  · exact L.bind hhead fun v => L.follow v hcall hev hmarks

/-- The property holds of an expression if it holds of its parts, of the name it reads and of the
calls at its places. A target that is a name is itself read; other places are made of parts that
have been evaluated. -/
theorem evalStep {e : Expr}
    (hcall : ∀ mark ∈ e.marks, mark.enters = true →
      ∀ v args, P (Eval.callValue ex v args mark.pos))
    (hsuper : ∀ mark ∈ e.marks, mark.enters = true → ∀ args, P (Eval.callSuper ex args mark.pos))
    (hev : ∀ part ∈ e.parts, P (ev part)) (hread : ∀ name ∈ e.reads, P (Eval.lookup name))
    (hmarks : ∀ mark ∈ e.marks, here mark.pos) : P (Eval.evalStep ev ex e) := by
  have hown : ∀ mark ∈ e.ownMarks, here mark.pos := fun mark hmark =>
    hmarks mark (e.ownMarks_subset_marks hmark)
  cases e with
  | nil => exact L.make rfl
  | bool value => exact L.make rfl
  | int value => exact L.make rfl
  | float value => exact L.make rfl
  | str content => exact L.make rfl
  | ident name pos => exact L.readName (hread name rfl) (hown _ (List.mem_singleton.mpr rfl))
  | array items pos => exact L.bind (L.evalEach hev) fun vs => L.make rfl
  | dict entries pos =>
    have hpart : ∀ entry ∈ entries, ∀ part ∈ [entry.1, entry.2],
        part ∈ (Expr.dict entries pos).parts := fun entry hentry part hpart =>
      List.mem_flatMap.mpr ⟨entry, hentry, hpart⟩
    have hentries : ∀ entry ∈ entries, P (ev entry.1) ∧ P (ev entry.2) := fun entry hentry =>
      ⟨hev _ (hpart entry hentry _ (by simp)), hev _ (hpart entry hentry _ (by simp))⟩
    have hkeys : ∀ entry ∈ entries, ∀ mark ∈ entry.1.marks, here mark.pos :=
      fun entry hentry mark hmark => hmarks mark
        (Expr.marks_subset_of_mem_parts (hpart entry hentry _ (by simp)) hmark)
    have hdict := L.evalEntries (hown _ (List.mem_singleton.mpr rfl)) .empty hentries hkeys
    exact L.bind hdict fun table => L.make rfl
  | super pos => exact L.fail rfl (hown _ (List.mem_singleton.mpr rfl))
  | chain head links =>
    have hlink : ∀ link ∈ links, link.mark ∈ (Expr.chain head links).marks := fun link hlink =>
      Expr.ownMarks_subset_marks _ (List.mem_map_of_mem hlink)
    refine L.evalChain (fun link hmem => hcall _ (hlink link hmem))
      (fun link hmem => hsuper _ (hlink link hmem)) (hev head (List.mem_cons_self ..))
      (fun link hmem e he => ?_) fun link hmem => hmarks _ (hlink link hmem)
    exact hev e (List.mem_cons_of_mem _ (List.mem_flatMap.mpr ⟨link, hmem, he⟩))
  | negative operand pos =>
    refine L.bind (hev operand (List.mem_singleton.mpr rfl)) fun v => ?_
    exact L.act (hown _ (List.mem_singleton.mpr rfl)) (Value.isTame_negate v)
  | arith first rest =>
    obtain ⟨hfirst, hrest⟩ := List.forall_mem_cons.mp hev
    refine L.bind hfirst fun v => L.combineAll v (fun step hstep => ?_) fun step hstep => ?_
    · exact hrest _ (List.mem_map_of_mem hstep)
    · exact hown _ (List.mem_map_of_mem hstep)
  | augment target rest =>
    obtain ⟨htarget, hrest⟩ := List.forall_mem_append.mp hev
    have hplaced : ∀ mark ∈ target.marks, here mark.pos := fun mark hmark =>
      hmarks mark (Expr.marks_subset_of_mem_children (List.mem_cons_self ..) hmark)
    have hcombine : ∀ place : Place, here place.pos → P place.get → P (do
        let v ← Eval.combineAll ev (← place.get) rest
        place.set v
        return v) := by
      intro place hpos hget
      refine L.bind hget fun old => L.bind (L.combineAll old ?_ ?_) ?_
      · exact fun step hstep => hrest _ (List.mem_map_of_mem hstep)
      · exact fun step hstep => hown _ (List.mem_map_of_mem hstep)
      · exact fun v => L.bind (L.placeSet v hpos) fun _ => L.pure _
    refine L.placeOf_bind htarget hplaced ?_ ?_
    · rintro name pos rfl
      have hpos : here pos :=
        hplaced _ (Expr.ownMarks_subset_marks _ (List.mem_singleton.mpr rfl))
      exact hcombine _ hpos (L.placeGet hpos fun _ _ heq => by cases heq; exact hread name rfl)
    · intro place hpos hplace
      have hget := L.placeGet hpos fun name pos heq => absurd heq (hplace name pos)
      exact hcombine place hpos hget
  | comparison first rest =>
    obtain ⟨hfirst, hrest⟩ := List.forall_mem_cons.mp hev
    refine L.bind hfirst fun v => L.compareAll v (fun step hstep => ?_) fun step hstep => ?_
    · exact hrest _ (List.mem_map_of_mem hstep)
    · exact hown _ (List.mem_map_of_mem hstep)
  | not operand pos =>
    refine L.bind (hev operand (List.mem_singleton.mpr rfl)) fun v => ?_
    exact L.bind (L.isTruthy v) fun truthy => L.make rfl
  | and items => exact L.decideAll false hev
  | or items => exact L.decideAll true hev

end Expression

end Laws

end Eval

end Stencil
