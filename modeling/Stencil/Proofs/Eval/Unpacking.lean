import Stencil.Proofs.Eval.Seated
import Stencil.Proofs.Scope.Freezing

/-!
Assignments to several variables. The values are worked out from left to right, with
nothing bound, and are gathered in an array; or one value is, and it has to be an array
of as many elements as there are variables. Only then the variables are bound, to the
elements that the array has at this moment, so variables can change places. Whatever
fails does so before that.
-/

namespace Stencil

namespace Store

def bindEach (s : Store) (id : ScopeId) (pairs : List (String × Value)) : Store :=
  pairs.foldl (fun s pair => s.bindName id pair.1 pair.2) s

variable {s : Store} {id : ScopeId}

theorem bindEach_cons (name : String) (v : Value) (rest : List (String × Value)) :
    s.bindEach id ((name, v) :: rest) = (s.bindName id name v).bindEach id rest := rfl

theorem get_bindEach (pairs : List (String × Value)) (v : Value) :
    (s.bindEach id pairs).get v = s.get v := by
  induction pairs generalizing s with
  | nil => rfl
  | cons pair rest ih =>
    rw [bindEach_cons, ih]
    rfl

theorem files_bindEach (pairs : List (String × Value)) :
    (s.bindEach id pairs).files = s.files := by
  induction pairs generalizing s with
  | nil => rfl
  | cons pair rest ih =>
    rw [bindEach_cons, ih]
    rfl

/-- Names are bound in one table only. -/
theorem scope_bindEach_of_ne {other : ScopeId} (hne : other ≠ id)
    (pairs : List (String × Value)) : (s.bindEach id pairs).scope other = s.scope other := by
  induction pairs generalizing s with
  | nil => rfl
  | cons pair rest ih =>
    rw [bindEach_cons, ih]
    exact s.scope_updateScope_of_ne hne _

theorem lookup_bindEach_of_notMem {name : String} {pairs : List (String × Value)}
    (h : name ∉ pairs.map Prod.fst) : (s.bindEach id pairs).lookup id name = s.lookup id name := by
  induction pairs generalizing s with
  | nil => rfl
  | cons pair rest ih =>
    rw [List.map_cons, List.mem_cons, not_or] at h
    rw [bindEach_cons, ih h.2]
    exact s.lookup_bindName_of_ne id pair.2 h.1

/-- Names that are distinct all keep what they are bound to. -/
theorem lookup_bindEach_of_mem (hid : id.index < s.scopes.size) {pairs : List (String × Value)}
    (hdistinct : (pairs.map Prod.fst).Nodup) {name : String} {v : Value}
    (hmem : (name, v) ∈ pairs) : (s.bindEach id pairs).lookup id name = some v := by
  induction pairs generalizing s with
  | nil => cases hmem
  | cons pair rest ih =>
    obtain ⟨hfirst, hrest⟩ := List.nodup_cons.mp hdistinct
    rw [bindEach_cons]
    rcases List.mem_cons.mp hmem with rfl | hmem
    · rw [lookup_bindEach_of_notMem hfirst, lookup_bindName hid, if_pos rfl]
    · refine ih ?_ hrest hmem
      rw [bindName, size_updateScope]
      exact hid

end Store

/-- The second machine differs from the first in what the names of the pairs are bound to
in the active frame; objects may have been made. -/
structure Machine.Rebinds (m : Machine) (pairs : List (String × Value)) (m' : Machine) : Prop where
  bound : ∀ name v, (name, v) ∈ pairs → m'.store.lookup m.frame.locals name = some v
  kept : ∀ name, name ∉ pairs.map Prod.fst →
    m'.store.lookup m.frame.locals name = m.store.lookup m.frame.locals name
  tables : ∀ id, id ≠ m.frame.locals → m'.store.scope id = m.store.scope id
  objects : ∀ v : Value, v.index < m.store.objects.size → m'.store.get v = m.store.get v
  files : m'.store.files = m.store.files
  context : m'.context = m.context
  control : m.HandedBack m'

namespace Machine

variable {m m' : Machine} {pairs : List (String × Value)}

/-- Distinct names bound one after the other are rebound all together. -/
theorem rebinds_bindEach (hlocals : m.frame.locals.index < m.store.scopes.size)
    (hdistinct : (pairs.map Prod.fst).Nodup) :
    m.Rebinds pairs { m with store := m.store.bindEach m.frame.locals pairs } where
  bound _ _ hmem := Store.lookup_bindEach_of_mem hlocals hdistinct hmem
  kept _ hname := Store.lookup_bindEach_of_notMem hname
  tables _ hne := Store.scope_bindEach_of_ne hne pairs
  objects v _ := Store.get_bindEach pairs v
  files := Store.files_bindEach pairs
  context := rfl
  control := ⟨rfl, rfl, rfl, rfl⟩

/-- An object may have been made first. -/
theorem Rebinds.of_alloc {object : Object}
    (h : { m with store := (m.store.alloc object).2 }.Rebinds pairs m') : m.Rebinds pairs m' where
  bound := h.bound
  kept := h.kept
  tables := h.tables
  objects v hv := by
    have hnew : v.index < (m.store.alloc object).2.objects.size := by
      rw [Store.size_alloc]
      omega
    rw [h.objects v hnew]
    exact m.store.get_alloc_of_lt object hv
  files := h.files
  context := h.context
  control := ⟨h.control.frame, h.control.depth, h.control.inReference, h.control.library⟩

theorem Rebinds.refl (m : Machine) : m.Rebinds [] m :=
  ⟨nofun, fun _ _ => rfl, fun _ _ => rfl, fun _ _ => rfl, rfl, rfl, .refl m⟩

end Machine

/-- From the machine on, the values have been assigned to the variables: as many values as
variables are bound, all of them, and otherwise nothing is. -/
def Outcome.Unpacks (outcome : Outcome Flow) (m : Machine) (targets : List (String × Position))
    (vs : List Value) : Prop :=
  if vs.length = targets.length then
    ∃ m', outcome = .done .next m' ∧ m.Rebinds ((targets.map Prod.fst).zip vs) m'
  else ∃ m', m.Rebinds [] m' ∧ outcome = .fail (m'.diagnose
    (.runtime (.targetCount vs.length targets.length)) (targets.head?.map Prod.snd)) m'

namespace Outcome.Unpacks

variable {outcome : Outcome Flow} {m m' : Machine} {targets : List (String × Position)}
  {vs : List Value}

/-- As many values as variables are bound in their order. -/
theorem of_length_eq (hlength : vs.length = targets.length) (hend : outcome = .done .next m')
    (hrebinds : m.Rebinds ((targets.map Prod.fst).zip vs) m') : outcome.Unpacks m targets vs := by
  rw [Outcome.Unpacks, if_pos hlength]
  exact ⟨m', hend, hrebinds⟩

/-- With more or fewer values than variables, nothing is bound. -/
theorem of_length_ne (hlength : vs.length ≠ targets.length) (hrebinds : m.Rebinds [] m')
    (hend : outcome = .fail (m'.diagnose (.runtime (.targetCount vs.length targets.length))
      (targets.head?.map Prod.snd)) m') : outcome.Unpacks m targets vs := by
  rw [Outcome.Unpacks, if_neg hlength]
  exact ⟨m', hrebinds, hend⟩

theorem of_alloc {object : Object}
    (h : outcome.Unpacks { m with store := (m.store.alloc object).2 } targets vs) :
    outcome.Unpacks m targets vs := by
  by_cases hlength : vs.length = targets.length
  · rw [Outcome.Unpacks, if_pos hlength] at h
    obtain ⟨m', hend, hrebinds⟩ := h
    exact of_length_eq hlength hend hrebinds.of_alloc
  · rw [Outcome.Unpacks, if_neg hlength] at h
    obtain ⟨m', hrebinds, hend⟩ := h
    exact of_length_ne hlength hrebinds.of_alloc hend

end Outcome.Unpacks

def Stmt.unpack (targets : List (String × Position)) (values : List Expr) (pos : Position) : Stmt :=
  .formula (.parallel [targets.map fun t => .ident t.1 t.2, values]) pos

namespace Eval

inductive Evaluates (ev : Evaluator) : List Expr → Machine → List Value → Machine → Prop
  | nil {m : Machine} : Evaluates ev [] m [] m
  | cons {e : Expr} {rest : List Expr} {m m₁ m₂ : Machine} {v : Value} {vs : List Value} :
      ev e m = .done v m₁ → Evaluates ev rest m₁ vs m₂ → Evaluates ev (e :: rest) m (v :: vs) m₂

variable {ev : Evaluator} {ex : Executor} {m m' m₁ : Machine}

theorem bind_of_fail {α β : Type} {x : Eval α} {d : Diagnostic} (h : x m = .fail d m')
    (f : α → Eval β) : (x >>= f) m = .fail d m' := by
  change Eval.bind x f m = _
  simp only [Eval.bind, h]

theorem bind_of_starved {α β : Type} {x : Eval α} (h : x m = .starved m') (f : α → Eval β) :
    (x >>= f) m = .starved m' := by
  change Eval.bind x f m = _
  simp only [Eval.bind, h]

theorem lookup_of_bound {name : String} {v : Value} (h : m.bound? name = some v) :
    lookup name m = .done (some v) m := by
  unfold lookup
  rw [read_bind, h]
  rfl

theorem lookup_of_unbound {name : String} (h : m.bound? name = none) :
    lookup name m = offered? name m := by
  unfold lookup
  rw [read_bind, h]

namespace Evaluates

variable {values before after : List Expr} {vs : List Value} {e : Expr}

theorem length_eq (h : Evaluates ev values m vs m') : vs.length = values.length := by
  induction h with
  | nil => rfl
  | cons _ _ ih => rw [List.length_cons, List.length_cons, ih]

theorem evalEach (h : Evaluates ev values m vs m') : Eval.evalEach ev values m = .done vs m' := by
  induction h with
  | nil => rfl
  | cons hfirst _ ih =>
    rw [Eval.evalEach, bind_of_done hfirst, bind_of_done ih]
    rfl

/-- The first expression that fails is the last that is looked at. -/
theorem evalEach_of_fail (h : Evaluates ev before m vs m₁) {d : Diagnostic}
    (hfail : ev e m₁ = .fail d m') : Eval.evalEach ev (before ++ e :: after) m = .fail d m' := by
  induction h with
  | nil => exact bind_of_fail hfail _
  | cons hfirst _ ih =>
    rw [List.cons_append, Eval.evalEach, bind_of_done hfirst]
    exact bind_of_fail (ih hfail) _

theorem evalEach_of_starved (h : Evaluates ev before m vs m₁) (hstarved : ev e m₁ = .starved m') :
    Eval.evalEach ev (before ++ e :: after) m = .starved m' := by
  induction h with
  | nil => exact bind_of_starved hstarved _
  | cons hfirst _ ih =>
    rw [List.cons_append, Eval.evalEach, bind_of_done hfirst]
    exact bind_of_starved (ih hstarved) _

/-- Either all the expressions have values, or the first that has none ends it. -/
theorem or_stops (ev : Evaluator) (values : List Expr) (m : Machine) :
    (∃ vs m', Evaluates ev values m vs m') ∨
      ∃ before e after vs m₁, values = before ++ e :: after ∧ Evaluates ev before m vs m₁ ∧
        ((∃ d m₂, ev e m₁ = .fail d m₂) ∨ ∃ m₂, ev e m₁ = .starved m₂) := by
  induction values generalizing m with
  | nil => exact .inl ⟨[], m, .nil⟩
  | cons e rest ih =>
    cases hrun : ev e m with
    | done v m₁ =>
      rcases ih m₁ with ⟨vs, m', hrest⟩ | ⟨before, e', after, vs, m', rfl, hbefore, hstop⟩
      · exact .inl ⟨v :: vs, m', .cons hrun hrest⟩
      · exact .inr ⟨e :: before, e', after, v :: vs, m', rfl, .cons hrun hbefore, hstop⟩
    | fail d m₂ => exact .inr ⟨[], e, rest, [], m, rfl, .nil, .inl ⟨d, m₂, hrun⟩⟩
    | starved m₂ => exact .inr ⟨[], e, rest, [], m, rfl, .nil, .inr ⟨m₂, hrun⟩⟩

/-- The values are worked out in the frame that the first was, and its tables stay. -/
theorem settles {fuel : Nat} (h : Evaluates (eval fuel) values m vs m')
    (hm : m.frame.Seated m.store.scopes.size) : m.Settles m' ∧ m'.frame = m.frame := by
  induction h with
  | nil => exact ⟨Machine.settles_of_seated hm, rfl⟩
  | @cons e _ m m₁ _ v _ hfirst _ ih =>
    have hseats := (maintained_seated.eval_and_exec fuel).1 e m hm
    have hsteady := (steady_eval fuel e).endsIn m
    rw [hfirst] at hseats hsteady
    have hsettles : m.Settles m₁ := hseats
    have hback : m.HandedBack m₁ := hsteady
    obtain ⟨hrest, hframe⟩ := ih hsettles.seated
    exact ⟨hsettles.trans hrest, hframe.trans hback.frame⟩

/-- Variables have the values that they are bound to, and nothing happens. -/
theorem of_bound {sources : List (String × Position)} (fuel : Nat)
    (h : List.Forall₂ (fun source v => m.bound? source.1 = some v) sources vs) :
    Evaluates (eval (fuel + 1)) (sources.map fun source => .ident source.1 source.2) m vs m := by
  induction h with
  | nil => exact .nil
  | @cons source v _ _ hbound _ ih =>
    have hread : eval (fuel + 1) (.ident source.1 source.2) m = .done v m := by
      change readName source.1 source.2 m = _
      unfold readName
      rw [bind_of_done (lookup_of_bound hbound)]
      rfl
    exact .cons hread ih

end Evaluates

section Targets

variable {targets : List (String × Position)} {values : List Expr}

/-- An assignment to variables binds their names in the locals of the active frame. -/
theorem assignPairs_idents (targets : List (String × Position)) (vs : List Value) (m : Machine) :
    assignPairs ev ((targets.map fun t => .ident t.1 t.2).zip vs) m = .done () { m with
      store := m.store.bindEach m.frame.locals ((targets.map Prod.fst).zip vs) } := by
  induction targets generalizing vs m with
  | nil => rfl
  | cons target targets ih =>
    cases vs with
    | nil => rfl
    | cons v vs =>
      have hassign : assign ev v (.ident target.1 target.2) m =
          .done () { m with store := m.store.bindName m.frame.locals target.1 v } := rfl
      rw [List.map_cons, List.zip_cons_cons, assignPairs, bind_of_done hassign, ih]
      rfl

/-- Several values make an array. -/
theorem evalList_of_two_le (h : 2 ≤ values.length) :
    evalList ev values = (do
      let vs ← evalEach ev values
      make (.array vs.toArray)) := by
  match values, h with
  | _ :: _ :: _, _ => rfl

/-- An assignment to several variables works the values out before it binds any name. -/
theorem execStep_unpack (h : 2 ≤ targets.length) (rounds : Nat) (pos : Position) :
    execStep ev ex rounds (.unpack targets values pos) = (do
      let v ← evalList ev values
      assignSpread ev (targets.map fun t => .ident t.1 t.2) v
      return .next) := by
  have hspread : ∀ v, assignList ev v (targets.map fun t => .ident t.1 t.2) =
      assignSpread ev (targets.map fun t => .ident t.1 t.2) v := by
    intro v
    match targets, h with
    | _ :: _ :: _, _ => rfl
  funext m
  change Eval.bind (Eval.bind (Eval.bind (evalList ev values) fun v =>
    Eval.bind (Eval.bind (assignList ev v _) fun _ => Eval.pure ()) fun _ => Eval.pure v)
      fun _ => Eval.pure ()) (fun _ => Eval.pure Flow.next) m =
    Eval.bind (evalList ev values) (fun v =>
      Eval.bind (assignSpread ev _ v) fun _ => Eval.pure Flow.next) m
  simp only [hspread, Eval.bind, Eval.pure]
  cases evalList ev values m with
  | done v m₁ =>
    dsimp only
    cases assignSpread ev (targets.map fun t => .ident t.1 t.2) v m₁ with
    | done _ m₂ => rfl
    | fail d m₂ => rfl
    | starved m₂ => rfl
  | fail d m₁ => rfl
  | starved m₁ => rfl

theorem head?_pos_idents (targets : List (String × Position)) :
    (targets.map fun t => Expr.ident t.1 t.2).head?.bind Expr.pos? =
      targets.head?.map Prod.snd := by
  cases targets with
  | nil => rfl
  | cons target rest => rfl

variable {v : Value}

/-- The elements of an array are assigned as they stand. -/
theorem assignSpread_of_array {items : Array Value} (hget : m.store.get v = .array items)
    (hlocals : m.frame.locals.index < m.store.scopes.size)
    (hdistinct : (targets.map Prod.fst).Nodup) :
    Outcome.Unpacks ((do
      assignSpread ev (targets.map fun t => .ident t.1 t.2) v
      return .next : Eval Flow) m) m targets items.toList := by
  by_cases hsize : items.size = targets.length
  · have hassign : assignSpread ev (targets.map fun t => .ident t.1 t.2) v m = .done () { m with
        store := m.store.bindEach m.frame.locals ((targets.map Prod.fst).zip items.toList) } := by
      unfold assignSpread
      rw [load_bind, hget]
      dsimp only
      rw [List.length_map, if_pos hsize, assignPairs_idents]
    have hnames : ((targets.map Prod.fst).zip items.toList).map Prod.fst = targets.map Prod.fst := by
      apply List.map_fst_zip
      rw [List.length_map, Array.length_toList]
      exact hsize.ge
    refine .of_length_eq hsize (bind_of_done hassign _) ?_
    refine Machine.rebinds_bindEach hlocals ?_
    rw [hnames]
    exact hdistinct
  · have hassign : assignSpread ev (targets.map fun t => .ident t.1 t.2) v m = .fail (m.diagnose
        (.runtime (.targetCount items.size targets.length)) (targets.head?.map Prod.snd)) m := by
      unfold assignSpread
      rw [load_bind, hget]
      dsimp only
      rw [List.length_map, if_neg hsize, head?_pos_idents]
      rfl
    exact .of_length_ne hsize (.refl m) (bind_of_fail hassign _)

/-- What is no array cannot be unpacked, and nothing is bound. -/
theorem assignSpread_of_not_array (hget : ∀ items, m.store.get v ≠ .array items) :
    assignSpread ev (targets.map fun t => .ident t.1 t.2) v m = .fail (m.diagnose
      (.runtime .targetsNeedArray) (targets.head?.map Prod.snd)) m := by
  unfold assignSpread
  rw [load_bind, head?_pos_idents]
  cases hobject : m.store.get v with
  | array items => exact absurd hobject (hget items)
  | _ => rfl

variable {fuel rounds : Nat} {pos : Position}

/-- Several values are gathered in an array that nothing else can change. -/
theorem unpack_values (hm : Reachable m) (hcount : 2 ≤ targets.length)
    (hdistinct : (targets.map Prod.fst).Nodup) (hvalues : 2 ≤ values.length) {vs : List Value}
    (h : Evaluates (eval fuel) values m vs m') :
    (execStep (eval fuel) ex rounds (.unpack targets values pos) m).Unpacks m' targets vs := by
  obtain ⟨hsettles, -⟩ := h.settles hm.seated
  have hgathered : evalList (eval fuel) values m = .done ⟨m'.store.objects.size⟩ { m' with
      store := (m'.store.alloc (.array vs.toArray)).2 } := by
    rw [evalList_of_two_le hvalues, bind_of_done h.evalEach]
    rfl
  rw [execStep_unpack hcount, bind_of_done hgathered]
  exact .of_alloc (assignSpread_of_array (m'.store.get_alloc_self (.array vs.toArray))
    hsettles.seated.locals_lt hdistinct)

/-- An assignment ends with the first of its values that has none. -/
theorem unpack_stops (hcount : 2 ≤ targets.length) (hvalues : 2 ≤ values.length)
    {before after : List Expr} {e : Expr} {vs : List Value} (hsplit : values = before ++ e :: after)
    (hbefore : Evaluates ev before m vs m₁) :
    (∀ d m₂, ev e m₁ = .fail d m₂ →
      execStep ev ex rounds (.unpack targets values pos) m = .fail d m₂) ∧
    ∀ m₂, ev e m₁ = .starved m₂ →
      execStep ev ex rounds (.unpack targets values pos) m = .starved m₂ := by
  rw [execStep_unpack hcount, evalList_of_two_le hvalues, hsplit]
  constructor
  · intro d m₂ hfail
    exact bind_of_fail (bind_of_fail (hbefore.evalEach_of_fail hfail) _) _
  · intro m₂ hstarved
    exact bind_of_starved (bind_of_starved (hbefore.evalEach_of_starved hstarved) _) _

/-- A single value is unpacked if it is an array. -/
theorem unpack_array (hm : Reachable m) (hcount : 2 ≤ targets.length)
    (hdistinct : (targets.map Prod.fst).Nodup) {e : Expr} (hrun : eval fuel e m = .done v m')
    {items : Array Value} (hget : m'.store.get v = .array items) :
    (execStep (eval fuel) ex rounds (.unpack targets [e] pos) m).Unpacks m' targets
      items.toList := by
  obtain ⟨hsettles, -⟩ := (Evaluates.cons hrun .nil).settles hm.seated
  rw [execStep_unpack hcount, evalList, bind_of_done hrun]
  exact assignSpread_of_array hget hsettles.seated.locals_lt hdistinct

end Targets

/-- How assignments to the variables run in the machine. -/
structure BindsTogether (fuel : Nat) (m : Machine) (targets : List (String × Position))
    (run : List Expr → Outcome Flow) : Prop where
  /-- The values of several expressions are assigned after the last has been worked out. -/
  several : ∀ values, 2 ≤ values.length → ∀ vs m', Evaluates (eval fuel) values m vs m' →
    m'.frame = m.frame ∧ vs.length = values.length ∧ (run values).Unpacks m' targets vs
  /-- The first of several expressions that has no value ends all where it ends. -/
  stops : ∀ before e after, 2 ≤ (before ++ e :: after).length → ∀ vs m₁,
    Evaluates (eval fuel) before m vs m₁ →
      (∀ d m₂, eval fuel e m₁ = .fail d m₂ → run (before ++ e :: after) = .fail d m₂) ∧
      ∀ m₂, eval fuel e m₁ = .starved m₂ → run (before ++ e :: after) = .starved m₂
  /-- There is nothing else that can happen to several expressions. -/
  covered : ∀ values, (∃ vs m', Evaluates (eval fuel) values m vs m') ∨
    ∃ before e after vs m₁, values = before ++ e :: after ∧ Evaluates (eval fuel) before m vs m₁ ∧
      ((∃ d m₂, eval fuel e m₁ = .fail d m₂) ∨ ∃ m₂, eval fuel e m₁ = .starved m₂)
  /-- One expression has to come to an array. -/
  array : ∀ e v m', eval fuel e m = .done v m' → m'.frame = m.frame ∧
    (∀ items, m'.store.get v = .array items → (run [e]).Unpacks m' targets items.toList) ∧
    ((∀ items, m'.store.get v ≠ .array items) → run [e] = .fail (m'.diagnose
      (.runtime .targetsNeedArray) (targets.head?.map Prod.snd)) m')
  fails : ∀ e d m', eval fuel e m = .fail d m' → run [e] = .fail d m'
  starves : ∀ e m', eval fuel e m = .starved m' → run [e] = .starved m'
  /-- Variables take what other variables were bound to, all at once. -/
  permutes : 0 < fuel → ∀ (sources : List (String × Position)) vs,
    List.Forall₂ (fun source v => m.bound? source.1 = some v) sources vs →
      sources.length = targets.length →
        ∃ m', run (sources.map fun source => .ident source.1 source.2) = .done .next m' ∧
          m.Rebinds ((targets.map Prod.fst).zip vs) m'

/-- Several variables are assigned to at once. Wherever a program gets to, the values are
worked out first, from left to right and with nothing bound. Then, if there are as many,
every variable is bound to its own, so variables can change places; an array gives the
elements that it has at this moment. And if an expression fails, if the one value is not
an array or if there are more or fewer values than variables, then the statement fails
and no variable has been bound. -/
theorem unpacking_binds_together (m : Machine) (hm : Reachable m) (fuel rounds : Nat)
    (targets : List (String × Position)) (hcount : 2 ≤ targets.length)
    (hdistinct : (targets.map Prod.fst).Nodup) (pos : Position) :
    BindsTogether fuel m targets fun values =>
      execStep (eval fuel) (exec fuel) rounds (.unpack targets values pos) m where
  several values hvalues vs m' h :=
    ⟨(h.settles hm.seated).2, h.length_eq, unpack_values hm hcount hdistinct hvalues h⟩
  stops before e after hvalues vs m₁ h := unpack_stops hcount hvalues rfl h
  covered values := Evaluates.or_stops (eval fuel) values m
  array e v m' hrun := by
    refine ⟨((Evaluates.cons hrun .nil).settles hm.seated).2, ?_, ?_⟩
    · intro items hget
      exact unpack_array hm hcount hdistinct hrun hget
    · intro hget
      rw [execStep_unpack hcount, evalList, bind_of_done hrun]
      exact bind_of_fail (assignSpread_of_not_array hget) _
  fails e d m' hfail := by
    rw [execStep_unpack hcount]
    exact bind_of_fail hfail _
  starves e m' hstarved := by
    rw [execStep_unpack hcount]
    exact bind_of_starved hstarved _
  permutes hfuel sources vs hbound hlength := by
    obtain ⟨fuel, rfl⟩ := Nat.exists_eq_add_of_lt hfuel
    have hvalues : Evaluates (eval (0 + fuel + 1)) _ m vs m := .of_bound _ hbound
    have hmany : 2 ≤ (sources.map fun source => Expr.ident source.1 source.2).length := by
      rw [List.length_map, hlength]
      exact hcount
    have hunpacks : Outcome.Unpacks (execStep _ (exec (0 + fuel + 1)) rounds
        (.unpack targets _ pos) m) m targets vs :=
      unpack_values hm hcount hdistinct hmany hvalues
    have hsame : vs.length = targets.length := hbound.length_eq.symm.trans hlength
    rw [Outcome.Unpacks, if_pos hsame] at hunpacks
    exact hunpacks

/-! Two variables that change places. -/

namespace Swap

def source : String := "\x7b@ a = 1 b = 2 @\x7d"

def session : Session := .start ⟨[], .empty⟩ "" .lf .none

theorem run_source : ((session.run 9 ⟨source, none⟩ []).map fun s' =>
    (s'.global? "a", s'.global? "b")) = some (some ⟨1⟩, some ⟨3⟩) := by decide +kernel

/-- After `a, b = b, a`. -/
theorem names_swapped : ∃ m m' : Machine, Reachable m ∧
    m.bound? "a" = some ⟨1⟩ ∧ m.bound? "b" = some ⟨3⟩ ∧
    execStep (eval 1) (exec 1) 0 (.unpack [("a", .start), ("b", .start)]
      [.ident "b" .start, .ident "a" .start] .start) m = .done .next m' ∧
    m'.store.lookup m.frame.locals "a" = some ⟨3⟩ ∧
    m'.store.lookup m.frame.locals "b" = some ⟨1⟩ := by
  obtain ⟨s', hrun, hend⟩ := Option.map_eq_some_iff.mp run_source
  simp only [Prod.mk.injEq] at hend
  obtain ⟨ha, hb⟩ := hend
  have hbound : ∀ {name : String} {v : Value}, s'.global? name = some v →
      (s'.machine none).bound? name = some v := by
    intro name v hglobal
    have hlocal : s'.store.lookup s'.context.globals name = some v := hglobal
    change (s'.store.lookup s'.context.globals name).or _ = some v
    rw [hlocal]
    rfl
  have hm : Reachable (s'.machine none) := .start none (.run (.start ..) hrun)
  have hbinds := unpacking_binds_together _ hm 1 0 [("a", .start), ("b", .start)] (by decide)
    (by decide) .start
  obtain ⟨m', hdone, hrebinds⟩ := hbinds.permutes (by decide) [("b", .start), ("a", .start)]
    [⟨3⟩, ⟨1⟩] (.cons (hbound hb) (.cons (hbound ha) .nil)) rfl
  refine ⟨s'.machine none, m', hm, hbound ha, hbound hb, hdone, ?_, ?_⟩
  · exact hrebinds.bound "a" ⟨3⟩ (by decide)
  · exact hrebinds.bound "b" ⟨1⟩ (by decide)

end Swap

end Eval

end Stencil
