import Stencil.Proofs.Eval.Orderly

/-!
Tables of attributes have one owner. Struct types, instances and modules are made along
with a table of their own, and so are copies of instances; nothing else makes an object
with a table. The globals of a context were made for the context. So in every machine
that programs get to, a table tells whose attributes it holds, and writing one of them
can be seen through its owner and through the instances of a struct that was written,
where these lack the attribute, and nowhere else.
-/

namespace Stencil

/-- The second store differs from the first in one attribute of one object. -/
structure Store.Rewrites (s s' : Store) (owner : Value) (name : String) (v : Value) : Prop where
  written : ∀ id, s.namespace? owner = some id → s'.lookup id name = some v
  objects : ∀ w, s'.get w = s.get w
  /-- All that other objects hold themselves is as it was. -/
  tables : ∀ other id, other ≠ owner → s.namespace? other = some id → s'.scope id = s.scope id
  /-- Instances keep their own fields if the object is a struct type. -/
  fields : ∀ type w struct fields, s.get owner = .struct type → s.get w = .instance struct fields →
    s'.scope fields = s.scope fields
  /-- What another instance is found to have is as it was, unless it takes the attribute
  from the object. -/
  found : ∀ other struct fields wanted, other ≠ owner → s.get other = .instance struct fields →
    (struct = owner → wanted = name → (s.lookup fields wanted).isSome) →
    s'.instanceField? struct fields wanted = s.instanceField? struct fields wanted

namespace Store

variable {s : Store} {owner : Value} {id : ScopeId} {name : String} {v : Value}

/-- A name that is bound in a table is found there, and the others as before. -/
theorem lookup_bindName (hid : id.index < s.scopes.size) (wanted : String) :
    (s.bindName id name v).lookup id wanted =
      if wanted = name then some v else s.lookup id wanted := by
  have hscope : (s.bindName id name v).scope id = (s.scope id).insert name v := by
    simp [scope, bindName, updateScope, Array.getElem_modify, hid]
  rw [lookup, hscope, Dict.get?_insert]
  rfl

/-- In a store whose tables are kept apart, binding a name in a table rewrites an attribute of
its owner. An attribute that an instance does not have is looked for in the struct, which may be
the one that was written. -/
theorem Tidy.rewrites (h : s.Tidy) (howner : s.namespace? owner = some id) :
    s.Rewrites (s.bindName id name v) owner name v := by
  have hapart : ∀ other otherId, other ≠ owner → s.namespace? other = some otherId →
      otherId ≠ id := by
    rintro other otherId hne hother rfl
    exact hne (h.distinct other owner otherId hother howner)
  have htables : ∀ other otherId, other ≠ owner → s.namespace? other = some otherId →
      (s.bindName id name v).scope otherId = s.scope otherId := fun other otherId hne hother =>
    s.scope_updateScope_of_ne (hapart other otherId hne hother) _
  have hinstance : ∀ {w struct : Value} {fields : ScopeId}, s.get w = .instance struct fields →
      s.namespace? w = some fields := fun hget => by rw [namespace?, hget]; rfl
  constructor
  · intro other hother
    obtain rfl : id = other := Option.some.inj (howner.symm.trans hother)
    rw [lookup_bindName (h.bounded owner id howner), if_pos rfl]
  · exact fun _ => rfl
  · exact htables
  · intro type w struct fields htype hget
    refine htables w fields ?_ (hinstance hget)
    rintro rfl
    rw [htype] at hget
    cases hget
  · intro other struct fields wanted hne hget hown
    have hfields : (s.bindName id name v).lookup fields wanted = s.lookup fields wanted := by
      rw [lookup, htables other fields hne (hinstance hget)]
      rfl
    unfold instanceField?
    rw [hfields]
    cases hfound : s.lookup fields wanted with
    | some w => rfl
    | none =>
      change (s.namespace? struct).bind _ = (s.namespace? struct).bind _
      cases hstruct : s.namespace? struct with
      | none => rfl
      | some statics =>
        change (s.bindName id name v).lookup statics wanted = s.lookup statics wanted
        by_cases heq : struct = owner
        · obtain rfl : id = statics := Option.some.inj (howner.symm.trans (heq ▸ hstruct))
          rw [lookup_bindName (h.bounded owner id howner), if_neg]
          intro hname
          have hsome := hown heq hname
          rw [hfound] at hsome
          cases hsome
        · rw [lookup, htables struct statics heq hstruct]
          rfl

end Store

namespace Eval

variable {m : Machine}

/-- An assignment to an attribute binds its name in the table of the owner. -/
theorem setAttr_of_namespace? {owner : Value} {id : ScopeId}
    (h : m.store.namespace? owner = some id) (name : String) (v : Value) (pos : Position) :
    setAttr owner name v pos m = .done () { m with store := m.store.bindName id name v } := by
  have hobject : (m.store.get owner).namespace? = some id := h
  unfold setAttr
  rw [load_bind, hobject]
  rfl

/-- So does the built-in function. -/
theorem setAttribute_of_namespace? {s : Store} {owner key : Value} {id : ScopeId} {name : String}
    (h : s.namespace? owner = some id) (hkey : (s.get key).text? = some name) (v : Value) :
    Builtin.setAttribute owner key v s = (.ok owner, s.bindName id name v) := by
  have hobject : (s.get owner).namespace? = some id := h
  have hfound : Builtin.attributeOf owner key s = (.ok (id, name), s) := by
    have hload : ∀ {α : Type} (v : Value) (f : Object → Action α),
        (Action.load v >>= f) s = f (s.get v) s := fun _ _ => rfl
    simp only [Builtin.attributeOf, hload, hobject, hkey]
    rfl
  change Action.bind (Builtin.attributeOf owner key) _ s = _
  rw [Action.bind, hfound]
  rfl

/-- The evaluators keep machines in order. Blocks are left aside here, so all bodies will do. -/
theorem maintained_orderly :
    Maintained (Machine.Orderly False) (Keeps False) (Keeps False) := by
  have hanyBody : ∀ {blocks : List String} {α : Type} {x : Eval α},
      Heeds False blocks x → Keeps False x := fun hx m hm => hx m hm False.elim
  have hexecutor : ∀ {ex : Executor}, (∀ body, Keeps False (ex body)) →
      ∀ body, Heeds False (declaredBlocks body) (ex body) := fun hex body => (hex body).heeds
  exact {
    localP := fun heq hx m hm => heq m hm ▸ hx m hm
    localQ := fun heq hx m hm => heq m hm ▸ hx m hm
    keepsP := fun hx hm => (hx _ hm).mono (fun _ h => h.orderly) fun _ h => h
    keepsQ := fun hx hm => (hx _ hm).mono (fun _ h => h.orderly) fun _ h => h
    starveP := keeps_starve
    starveQ := keeps_starve
    evalStep := fun e hev hex => keeps_evalStep (hexecutor hex) hev e
    execEach := fun rounds body hev hex =>
      hanyBody (heeds_execEach (heeds_execStep (hexecutor hex) hev rounds) body)
    follow := fun v links hev hex => keeps_follow (hexecutor hex) hev v links }

/-- Wherever a program gets to, the machine is in order. -/
theorem Reachable.orderly (h : Reachable m) : m.Orderly False :=
  maintained_orderly.reachable (fun _ file hs => hs.isOrderly.machine False file) h

/-- Tables of attributes are never shared. In every machine that programs get to, no two
objects have one table, and the globals are the table of none. So an attribute that is
written, by an assignment or by `setattr`, is written for its owner alone. -/
theorem tables_never_shared (m : Machine) (h : Reachable m) :
    (∀ v w id, m.store.namespace? v = some id → m.store.namespace? w = some id → v = w) ∧
    (∀ v, m.store.namespace? v ≠ some m.context.globals) ∧
    ∀ owner id name v, m.store.namespace? owner = some id → ∃ s : Store,
      (∀ pos, setAttr owner name v pos m = .done () { m with store := s }) ∧
      (∀ key, (m.store.get key).text? = some name →
        Builtin.setAttribute owner key v m.store = (.ok owner, s)) ∧
      m.store.Rewrites s owner name v ∧
      s.scope m.context.globals = m.store.scope m.context.globals := by
  have horderly := h.orderly
  refine ⟨horderly.tidy.distinct, horderly.globals.unowned, fun owner id name v howner => ?_⟩
  refine ⟨m.store.bindName id name v, fun pos => ?_, fun key hkey => ?_, ?_, ?_⟩
  · exact setAttr_of_namespace? howner name v pos
  · exact setAttribute_of_namespace? howner hkey v
  · exact horderly.tidy.rewrites howner
  · refine m.store.scope_updateScope_of_ne ?_ _
    rintro rfl
    exact horderly.globals.unowned owner howner

/-! Two instances of a struct. -/

namespace Twins

def source : String := "\x7b@ struct P: x = 0 end a = P() b = P() @\x7d"

def session : Session := .start ⟨[], .empty⟩ "" .lf .none

theorem run_source : ((session.run 9 ⟨source, none⟩ []).map fun s' =>
    (s'.global? "a", s'.global? "b", s'.store.namespace? ⟨6⟩, s'.store.namespace? ⟨10⟩)) =
      some (some ⟨6⟩, some ⟨10⟩, some ⟨2⟩, some ⟨3⟩) := by decide +kernel

/-- An attribute of one instance is set, and the other instance is as it was. -/
theorem writing_spares_twin : ∃ m : Machine, Reachable m ∧
    m.store.lookup m.context.globals "a" = some ⟨6⟩ ∧
    m.store.lookup m.context.globals "b" = some ⟨10⟩ ∧
    m.store.namespace? ⟨10⟩ = some ⟨3⟩ ∧
    ∀ v, ∃ s : Store, setAttr ⟨6⟩ "x" v .start m = .done () { m with store := s } ∧
      s.lookup ⟨2⟩ "x" = some v ∧ s.scope ⟨3⟩ = m.store.scope ⟨3⟩ := by
  obtain ⟨s', hrun, hend⟩ := Option.map_eq_some_iff.mp run_source
  simp only [Prod.mk.injEq] at hend
  obtain ⟨ha, hb, hown, hother⟩ := hend
  have hm : Reachable (s'.machine none) := .start none (.run (.start ..) hrun)
  refine ⟨s'.machine none, hm, ha, hb, hother, fun v => ?_⟩
  obtain ⟨s, hset, -, hrewrites, -⟩ := (tables_never_shared _ hm).2.2 ⟨6⟩ ⟨2⟩ "x" v hown
  refine ⟨s, hset .start, hrewrites.written ⟨2⟩ hown, ?_⟩
  exact hrewrites.tables ⟨10⟩ ⟨3⟩ (by decide) hother

end Twins

end Eval

end Stencil
