import Stencil.Proofs.Eval.Loop
import Stencil.Proofs.Eval.Unpacking
import Stencil.Proofs.Scope.Guard

/-!
Instances of struct types. The body of a struct type is run again for each instance, into
a table that is new. The names that it binds there, in this order, are the fields of the
instance. Those that have come to hold data take the arguments from left to right, as far
as there are both, and the others are left as they are. The table of the struct type
itself is not written to, unless code sets an attribute meanwhile. Where the body fails
there is no instance, and the new table is that of nothing.
-/

namespace Stencil

theorem map_fst_zip_eq_take {α β : Type} (as : List α) (bs : List β) :
    (as.zip bs).map Prod.fst = as.take bs.length := by
  induction as generalizing bs with
  | nil => simp
  | cons a rest ih =>
    cases bs with
    | nil => rfl
    | cons b bs => simp [ih]

namespace Store

variable (s : Store) (fields : ScopeId)

theorem dataFields_subset : s.dataFields fields ⊆ (s.scope fields).keys :=
  List.map_subset _ (List.filter_subset_self _)

/-- A field is data once. -/
theorem nodup_dataFields : (s.dataFields fields).Nodup :=
  (List.filter_sublist.map Prod.fst).nodup (s.scope fields).nodup_keys

/-- The store with arguments in the place of data. -/
def fillFields (args : List Value) : Store :=
  s.updateScope fields (·.insertAll ((s.dataFields fields).zip args))

variable {s fields} (hfields : fields.index < s.scopes.size) (args : List Value)

include hfields

/-- Arguments bind no new fields. -/
theorem keys_fillFields :
    ((s.fillFields fields args).scope fields).keys = (s.scope fields).keys := by
  unfold fillFields
  rw [scope_updateScope_self s hfields]
  refine Dict.keys_insertAll_of_subset _ ?_
  rw [map_fst_zip_eq_take]
  exact fun name hname => s.dataFields_subset fields (List.mem_of_mem_take hname)

/-- Each argument is for the datum at its own place. -/
theorem lookup_fillFields_getElem {i : Nat} (hi : i < (s.dataFields fields).length)
    (hargs : i < args.length) :
    (s.fillFields fields args).lookup fields (s.dataFields fields)[i] = some args[i] := by
  unfold fillFields lookup
  rw [scope_updateScope_self s hfields]
  refine Dict.get?_insertAll_of_mem _ ?_ ?_
  · rw [map_fst_zip_eq_take]
    exact (s.nodup_dataFields fields).take
  · have hzip : i < ((s.dataFields fields).zip args).length := by
      rw [List.length_zip]
      exact Nat.lt_min.mpr ⟨hi, hargs⟩
    rw [← List.getElem_zip (h := hzip)]
    exact List.getElem_mem hzip

/-- Fields that no argument is for keep what the body has given them. -/
theorem lookup_fillFields_of_notMem {name : String}
    (hname : name ∉ (s.dataFields fields).take args.length) :
    (s.fillFields fields args).lookup fields name = s.lookup fields name := by
  unfold fillFields lookup
  rw [scope_updateScope_self s hfields]
  refine Dict.get?_insertAll_of_notMem _ ?_
  rw [map_fst_zip_eq_take]
  exact hname

end Store

namespace Machine

def nextTable (m : Machine) : ScopeId := ⟨m.store.scopes.size⟩

def withTable (m : Machine) : Machine := { m with store := (m.store.newScope .empty).2 }

/-- In the second machine a value is an instance of a struct type, over a table that the
first one has filled and with arguments in the place of data. -/
structure Instantiates (m : Machine) (type : Value) (fields : ScopeId) (args : List Value)
    (v : Value) (m' : Machine) : Prop where
  made : m'.store.get v = .instance type fields
  fresh : v.index = m.store.objects.size
  owner : ∀ w, m'.store.namespace? w = some fields → w = v
  keys : (m'.store.scope fields).keys = (m.store.scope fields).keys
  given : ∀ i (hi : i < (m.store.dataFields fields).length) (hargs : i < args.length),
    m'.store.lookup fields (m.store.dataFields fields)[i] = some args[i]
  kept : ∀ name, name ∉ (m.store.dataFields fields).take args.length →
    m'.store.lookup fields name = m.store.lookup fields name
  objects : ∀ w, w ≠ v → m'.store.get w = m.store.get w
  tables : ∀ id, id ≠ fields → m'.store.scope id = m.store.scope id

end Machine

namespace Eval

def runFields (ex : Executor) (type : StructType) (fields : ScopeId) (pos : Position) : Eval Unit :=
  runBody ex (.ofStruct type.definition.name fields type.globals type.file) type.definition.body pos

section Instantiate

variable {ex : Executor} {m m₁ : Machine} {callee : Value} {type : StructType}
  (hcallee : m.store.get callee = .struct type)

include hcallee

/-- An instance is made of a new table that the body has filled and the arguments have changed.
-/
theorem instantiate_eq (args : List Value) (pos : Position) :
    instantiate ex callee args pos m = (do
      runFields ex type m.nextTable pos
      modifyStore (·.fillFields m.nextTable args)
      make (.instance callee m.nextTable)) m.withTable := by
  unfold instantiate
  rw [load_bind, hcallee]
  rfl

/-- Where the body succeeds, there is an instance. -/
theorem instantiate_of_done {args : List Value} {pos : Position}
    (h : runFields ex type m.nextTable pos m.withTable = .done () m₁) :
    instantiate ex callee args pos m = .done ⟨m₁.store.objects.size⟩
      { m₁ with
        store :=
          ((m₁.store.fillFields m.nextTable args).alloc (.instance callee m.nextTable)).2 } := by
  rw [instantiate_eq hcallee, bind_of_done h]
  rfl

/-- Where the body fails, there is none, and the failure is that of the body. -/
theorem instantiate_of_fail {d : Diagnostic} {args : List Value} {pos : Position}
    (h : runFields ex type m.nextTable pos m.withTable = .fail d m₁) :
    instantiate ex callee args pos m = .fail d m₁ := by
  rw [instantiate_eq hcallee, bind_of_fail h]

end Instantiate

theorem advancesFrom_exec {m : Machine} (hm : m.Orderly False) (fuel : Nat) (body : List Stmt) :
    (exec fuel body m).AdvancesFrom False m :=
  (keeps_eval_and_exec fuel).2 body m hm False.elim

section Fields

variable {fuel : Nat} {m m₁ m₂ : Machine} {type : StructType} {pos : Position}

theorem orderly_withTable (hm : m.Orderly False) : m.withTable.Orderly False :=
  (hm.withStore (m.store.grows_newScope .empty)).orderly

/-- While a body runs, nothing has the table that it fills. -/
theorem free_nextTable (hm : m.Orderly False) (h : m.withTable.Advances False m₁) :
    m₁.store.Free m.nextTable :=
  (hm.tidy.free_newScope .empty).grows h.store

/-- The body of a struct leaves a machine in order. -/
theorem runFields_advancesFrom (hm : m.Orderly False) (fuel : Nat) (type : StructType)
    (pos : Position) :
    (runFields (exec fuel) type m.nextTable pos m.withTable).AdvancesFrom False m.withTable :=
  keeps_runBody (keeps_eval_and_exec fuel).2 _ rfl rfl _ pos _ (orderly_withTable hm)

/-- A name that the body binds later comes after those that it has bound. -/
theorem keys_prefix_of_runFields (hm : m.Orderly False)
    (h : runFields (exec fuel) type m.nextTable pos m.withTable = .done () m₁)
    {before after : List Stmt} (hbody : type.definition.body = before ++ after)
    (hbefore : exec fuel before (m.withTable.entered
      (.ofStruct type.definition.name m.nextTable type.globals type.file)) = .done .next m₂)
    (id : ScopeId) : (m₂.store.scope id).keys <+: (m₁.store.scope id).keys := by
  have hentered : (m.withTable.entered
      (.ofStruct type.definition.name m.nextTable type.globals type.file)).Orderly False :=
    ⟨(orderly_withTable hm).tidy, (orderly_withTable hm).globals, Store.coversInjections_empty⟩
  have hfirst := advancesFrom_exec hentered fuel before
  rw [hbefore] at hfirst
  have hrest := advancesFrom_exec hfirst.orderly fuel after
  by_cases hdepth : m.withTable.depth < depthLimit
  · unfold runFields runBody at h
    rw [enter_eq hdepth, hbody, exec_append, bind_assoc, bind_of_done hbefore] at h
    split at h
    · next hrun =>
      obtain ⟨flow, n, hafter, hsettle⟩ := bind_eq_done_iff.mp hrun
      have hexec : exec fuel after m₂ = .done flow n := hafter
      rw [hexec] at hrest
      cases flow with
      | next =>
        cases hsettle
        cases h
        exact hrest.store.keys_prefix id
      | _ => cases hsettle
    · cases h
    · cases h
  · unfold runFields runBody enter at h
    rw [if_neg hdepth] at h
    cases h

end Fields

/-- What the body has put into the new table is what the instance has, but for the data that
arguments replace. -/
theorem instantiates_of_runFields {fuel : Nat} {m m₁ : Machine} {callee : Value}
    {type : StructType} {args : List Value} {pos : Position} (hm : m.Orderly False)
    (hcallee : m.store.get callee = .struct type)
    (h : runFields (exec fuel) type m.nextTable pos m.withTable = .done () m₁) :
    ∃ v m', instantiate (exec fuel) callee args pos m = .done v m' ∧
      m₁.Instantiates callee m.nextTable args v m' := by
  have hinstance := @instantiate_of_done _ m m₁ callee type hcallee args pos h
  have hadvances := runFields_advancesFrom hm fuel type pos
  rw [h] at hadvances
  have hlt : m.nextTable.index < m₁.store.scopes.size := (free_nextTable hm hadvances).index_lt
  have horderly := keeps_instantiate (keeps_eval_and_exec fuel).2 callee args pos m hm
  rw [hinstance] at horderly
  refine ⟨_, _, hinstance, ?_⟩
  let filled := m₁.store.fillFields m.nextTable args
  have hmade : (filled.alloc (.instance callee m.nextTable)).2.get ⟨m₁.store.objects.size⟩ =
      .instance callee m.nextTable := filled.get_alloc_self _
  constructor
  · exact hmade
  · rfl
  · intro w hw
    refine horderly.orderly.tidy.distinct w _ m.nextTable hw ?_
    rw [Store.namespace?]
    exact congrArg Object.namespace? hmade
  · exact Store.keys_fillFields hlt args
  · exact fun i hi hargs => Store.lookup_fillFields_getElem hlt args hi hargs
  · exact fun name hname => Store.lookup_fillFields_of_notMem hlt args hname
  · intro w hw
    rcases filled.get_alloc_cases (.instance callee m.nextTable) w with ⟨heq, -⟩ | hget
    · exact absurd heq hw
    · exact hget
  · exact fun id hid => m₁.store.scope_updateScope_of_ne hid _

/-- Instances of struct types. Where the body of a struct type succeeds on a new table, there
is a new instance that alone has the table, with the names that the body has bound, in the
order in which it has bound them. The first of those that hold neither functions nor struct
types have the arguments in their place, and all others keep what the body gave them. Where
the body fails, so does the call, and nothing has the table. The table of the struct type is
as it was, if no attribute is set meanwhile. -/
theorem instances_have_fields (m : Machine) (hm : Reachable m) (callee : Value)
    (type : StructType) (hcallee : m.store.get callee = .struct type) (fuel : Nat)
    (args : List Value) (pos : Position) :
    (∀ m₁, runFields (exec fuel) type m.nextTable pos m.withTable = .done () m₁ →
      ∃ v m', instantiate (exec fuel) callee args pos m = .done v m' ∧
        m₁.Instantiates callee m.nextTable args v m' ∧
        ∀ before after m₂, type.definition.body = before ++ after →
          exec fuel before (m.withTable.entered
            (.ofStruct type.definition.name m.nextTable type.globals type.file)) =
              .done .next m₂ →
          (m₂.store.scope m.nextTable).keys <+: (m'.store.scope m.nextTable).keys) ∧
    (∀ d m₁, runFields (exec fuel) type m.nextTable pos m.withTable = .fail d m₁ →
      instantiate (exec fuel) callee args pos m = .fail d m₁ ∧
        ∀ v, m₁.store.namespace? v ≠ some m.nextTable) ∧
    (SetsNone fuel (instantiate · callee args pos) m →
      (instantiate (exec fuel) callee args pos m).EndsIn fun m' =>
        m'.store.scope type.fields = m.store.scope type.fields) := by
  have horderly := hm.orderly
  refine ⟨fun m₁ hrun => ?_, fun d m₁ hrun => ?_, fun hset => ?_⟩
  · obtain ⟨v, m', hinstance, hmade⟩ := instantiates_of_runFields horderly hcallee hrun
    refine ⟨v, m', hinstance, hmade, fun before after m₂ hbody hbefore => ?_⟩
    rw [hmade.keys]
    exact keys_prefix_of_runFields horderly hrun hbody hbefore m.nextTable
  · have hadvances := runFields_advancesFrom horderly fuel type pos
    rw [hrun] at hadvances
    exact ⟨instantiate_of_fail hcallee hrun, (free_nextTable horderly hadvances).unowned⟩
  · have hstatic : m.store.namespace? callee = some type.fields := by
      rw [Store.namespace?, hcallee]
      rfl
    have hlt := horderly.tidy.bounded callee type.fields hstatic
    exact hset.instantiate_keepsTables.mono (fun _ h => h type.fields hlt id) fun _ h => h

/-! A struct type with a function between two fields of data. -/

namespace Point

def body : List Stmt :=
  [.formula (.assignments [[.ident "x" .start, .int 1]]) .start,
    .function "f" [] none false [] .start,
    .formula (.assignments [[.ident "y" .start, .int 2]]) .start]

def type : StructType := ⟨⟨"P", body⟩, ⟨1⟩, ⟨0⟩, none⟩

def start : Machine := (Session.start ⟨[], .empty⟩ "" .lf .none).machine none

def function : Object := .function ⟨⟨"f", [], none, false, []⟩, ⟨0⟩, none⟩

def declared : Machine :=
  { start with
    store :=
      { objects := #[.nil, .int 1, function, .nil, .int 2, .struct type]
        scopes := #[.ofList [("P", ⟨5⟩)], .ofList [("x", ⟨1⟩), ("f", ⟨2⟩), ("y", ⟨4⟩)]]
        files := start.store.files } }

theorem exec_declaration : exec 6 [.struct "P" body .start] start = .done .next declared := rfl

def filled : Machine :=
  { declared with
    store :=
      { declared.store with
        objects := declared.store.objects ++ #[.nil, .int 1, function, .nil, .int 2]
        scopes := declared.store.scopes.push (.ofList [("x", ⟨7⟩), ("f", ⟨8⟩), ("y", ⟨10⟩)]) } }

theorem runFields_declared :
    runFields (exec 6) type declared.nextTable .start declared.withTable = .done () filled := rfl

def extended : Machine :=
  { filled with
    store :=
      { filled.store with
        objects := filled.store.objects.push (.instance ⟨5⟩ ⟨2⟩)
        scopes := declared.store.scopes.push (.ofList [("x", ⟨4⟩), ("f", ⟨8⟩), ("y", ⟨10⟩)]) } }

/-- The body of the struct sets no attribute. -/
theorem setsNone_instantiate : SetsNone 6 (instantiate · ⟨5⟩ [⟨4⟩] .start) declared := by
  have hguarded : instantiate (execGuarded 6) ⟨5⟩ [⟨4⟩] .start declared = .done ⟨11⟩ extended := rfl
  exact congrArg Outcome.isStarved hguarded

/-- The argument is for `x`, and `y` keeps what the body gave it. -/
theorem argument_replaces_first : Reachable declared ∧ declared.store.get ⟨5⟩ = .struct type ∧
    runFields (exec 6) type declared.nextTable .start declared.withTable = .done () filled ∧
    SetsNone 6 (instantiate · ⟨5⟩ [⟨4⟩] .start) declared ∧
    ∃ v m', instantiate (exec 6) ⟨5⟩ [⟨4⟩] .start declared = .done v m' ∧
      m'.store.get v = .instance ⟨5⟩ declared.nextTable ∧
      (m'.store.scope declared.nextTable).keys = ["x", "f", "y"] ∧
      m'.store.lookup declared.nextTable "x" = some ⟨4⟩ ∧
      m'.store.lookup declared.nextTable "y" = some ⟨10⟩ ∧
      m'.store.scope type.fields = declared.store.scope type.fields := by
  have hreachable : Reachable declared := .executed (.start none (.start ..)) exec_declaration
  refine ⟨hreachable, rfl, runFields_declared, setsNone_instantiate, ?_⟩
  obtain ⟨hdone, -, hstatic⟩ :=
    instances_have_fields declared hreachable ⟨5⟩ type rfl 6 [⟨4⟩] .start
  obtain ⟨v, m', hinstance, hmade, -⟩ := hdone filled runFields_declared
  have hkept := hstatic setsNone_instantiate
  rw [hinstance] at hkept
  have hkeys : (filled.store.scope declared.nextTable).keys = ["x", "f", "y"] := rfl
  refine ⟨v, m', hinstance, hmade.made, hmade.keys.trans hkeys, ?_, ?_, hkept⟩
  · exact hmade.given 0 (by decide) (by decide)
  · exact hmade.kept "y" (by decide)

end Point

end Eval

end Stencil
