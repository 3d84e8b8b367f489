import Stencil.Proofs.Grammar.Agreement.Expression
import Stencil.Proofs.Program.Unplaced

/-!
Readers of formulas agree. A formula is read as chains of assignments first, and read
again from its beginning if it is not of that shape throughout. The second reading goes
at least as far as the first, so a formula that is followed by anything the grammar asks
for was told to be of the one shape or the other by tokens of its own.
-/

namespace Stencil.Grammar

section Inversion

variable {last : Position} {ts rest : List Token}

theorem eat_bind_eq_ok {α : Type} {kind : TokenKind} {x y : Reader α} {a : α}
    (h : (do if ← eat kind then x else y) last ts = .ok (a, rest)) :
    isAt kind ts = true ∧ x last ts.tail = .ok (a, rest) ∨
      isAt kind ts = false ∧ y last ts = .ok (a, rest) := by
  obtain ⟨taken, left, heat, hread⟩ := bind_eq_ok h
  unfold eat at heat
  split at heat
  · next hat =>
    cases heat
    exact Or.inl ⟨hat, hread⟩
  · next hat =>
    cases heat
    exact Or.inr ⟨Bool.eq_false_iff.mpr hat, hread⟩

theorem needExpr_bind_eq_ok {α : Type} {fault : GrammarFault} {x : Reader α} {a : α}
    (h : (needExpr fault >>= fun _ => x) last ts = .ok (a, rest)) :
    startsExpr ts = true ∧ x last ts = .ok (a, rest) := by
  obtain ⟨_, left, hneed, hread⟩ := bind_eq_ok h
  unfold needExpr at hneed
  split at hneed
  · next hstarts =>
    cases hneed
    exact ⟨hstarts, hread⟩
  · cases hneed

/-- Values are assigned as long as there is an equals sign at hand. -/
theorem assigned_eq_ok {α : Type} {value : Reader α} {fault : GrammarFault} {k : Nat}
    {values : List α} (h : assigned value fault (k + 1) last ts = .ok (values, rest)) :
    isAt .assign ts = false ∧ values = [] ∧ rest = ts ∨
      isAt .assign ts = true ∧ ∃ v left more, value last ts.tail = .ok (v, left) ∧
        assigned value fault k last left = .ok (more, rest) ∧ values = v :: more := by
  rcases eat_bind_eq_ok h with ⟨hat, hread⟩ | ⟨hat, hread⟩
  · obtain ⟨-, hread⟩ := needExpr_bind_eq_ok hread
    obtain ⟨v, left, hvalue, hread⟩ := bind_eq_ok hread
    obtain ⟨more, left', hmore, hread⟩ := bind_eq_ok hread
    cases hread
    exact Or.inr ⟨hat, v, left, more, hvalue, hmore, rfl⟩
  · cases hread
    exact Or.inl ⟨hat, rfl, rfl⟩

/-- A list of tests ends without a comma, or a test begins behind the comma. -/
theorem testList_eq_ok {budget m : Nat} {items : List Expr}
    (h : testList budget (m + 1) last ts = .ok (items, rest)) :
    ∃ first left, test budget last ts = .ok (first, left) ∧
      (isAt (.punct .comma) left = false ∧ rest = left ∨
        isAt (.punct .comma) left = true ∧ startsExpr left.tail = true ∧
          ∃ more, testList budget m last left.tail = .ok (more, rest)) := by
  obtain ⟨first, left, hfirst, hread⟩ := bind_eq_ok h
  refine ⟨first, left, hfirst, ?_⟩
  rcases eat_bind_eq_ok hread with ⟨hat, hread⟩ | ⟨hat, hread⟩
  · obtain ⟨hstarts, hread⟩ := needExpr_bind_eq_ok hread
    obtain ⟨more, left', hmore, hread⟩ := bind_eq_ok hread
    cases hread
    exact Or.inr ⟨hat, hstarts, more, hmore⟩
  · cases hread
    exact Or.inl ⟨hat, rfl⟩

/-- How the tokens are found not to be assignments throughout. -/
theorem assignments?_eq_none {budget left : Nat}
    (h : assignments? budget (left + 1) last ts = .ok (none, rest)) :
    ∃ first values ts₁ ts₂, test budget last ts = .ok (first, ts₁) ∧
      assigned (test budget) .noValueInAssign budget last ts₁ = .ok (values, ts₂) ∧
      (values = [] ∧ rest = ts₂ ∨
        values ≠ [] ∧ isAt (.punct .comma) ts₂ = true ∧
          (startsExpr ts₂.tail = true →
            assignments? budget left last ts₂.tail = .ok (none, rest))) := by
  obtain ⟨first, ts₁, hfirst, hread⟩ := bind_eq_ok h
  obtain ⟨values, ts₂, hvalues, hread⟩ := bind_eq_ok hread
  refine ⟨first, values, ts₁, ts₂, hfirst, hvalues, ?_⟩
  cases values with
  | nil =>
    cases hread
    exact Or.inl ⟨rfl, rfl⟩
  | cons value values =>
    refine Or.inr ⟨List.cons_ne_nil _ _, ?_⟩
    rcases eat_bind_eq_ok hread with ⟨hat, hread⟩ | ⟨hat, hread⟩
    · refine ⟨hat, fun hstarts => ?_⟩
      have hatExpr : atExpr last ts₂.tail = .ok (true, ts₂.tail) := by rw [atExpr, hstarts]
      rw [bind_of_ok hatExpr] at hread
      obtain ⟨chains, left', hchains, hread⟩ := bind_eq_ok hread
      cases chains with
      | none =>
        cases hread
        exact hchains
      | some chains => cases hread
    · cases hread

end Inversion

section Reach

variable {budget : Nat} {last : Position}

theorem length_tail_of_isAt {kind : TokenKind} {ts : List Token} (h : isAt kind ts = true) :
    ts.tail.length + 1 = ts.length := by
  cases ts with
  | nil => cases h
  | cons t ts => rfl

theorem eq_of_assigned_nil {α : Type} {value : Reader α} {fault : GrammarFault} {k : Nat}
    {ts rest : List Token} (h : assigned value fault k last ts = .ok ([], rest)) : rest = ts := by
  cases k with
  | zero =>
    cases h
    rfl
  | succ k =>
    rcases assigned_eq_ok h with ⟨-, -, heq⟩ | ⟨-, v, left, more, -, -, hcons⟩
    · exact heq
    · cases hcons

/-- Where something is assigned, there was an equals sign at hand. -/
theorem isAt_of_assigned_ne_nil {α : Type} {value : Reader α} {fault : GrammarFault} {k : Nat}
    {ts rest : List Token} {values : List α}
    (h : assigned value fault k last ts = .ok (values, rest)) (hvalues : values ≠ []) :
    isAt .assign ts = true := by
  cases k with
  | zero =>
    cases h
    exact absurd rfl hvalues
  | succ k =>
    rcases assigned_eq_ok h with ⟨-, hnil, -⟩ | ⟨hat, -⟩
    · exact absurd hnil hvalues
    · exact hat

/-- An expression takes a token. -/
theorem takes_test {ts rest : List Token} {e : Expr} (hts : ts.length ≤ budget)
    (h : test budget last ts = .ok (e, rest)) : Takes 1 ts rest :=
  have hw : Within budget budget budget budget budget budget :=
    ⟨Nat.le_refl _, Nat.le_refl _, Nat.le_refl _, Nat.le_refl _, Nat.le_refl _⟩
  (Agrees.test hw).takes hts h

theorem eq_of_isAt {kind kind' : TokenKind} {ts : List Token} (h : isAt kind ts = true)
    (h' : isAt kind' ts = true) : kind = kind' := by
  cases ts with
  | nil => cases h
  | cons t ts => exact (of_decide_eq_true h).symm.trans (of_decide_eq_true h')

theorem length_le_of_testList {m : Nat} {ts rest : List Token} {items : List Expr}
    (hts : ts.length ≤ budget) (h : testList budget m last ts = .ok (items, rest)) :
    rest.length + 1 ≤ ts.length := by
  induction m generalizing ts items with
  | zero => cases h
  | succ m ih =>
    obtain ⟨first, left, hfirst, hcases⟩ := testList_eq_ok h
    have hleft := (takes_test hts hfirst).length_le
    rcases hcases with ⟨-, rfl⟩ | ⟨hcomma, -, more, hmore⟩
    · exact hleft
    · have htail := length_tail_of_isAt hcomma
      have := ih (by omega) hmore
      omega

/-- What is assigned is taken from the input. -/
theorem length_le_of_assigned {fault : GrammarFault} {k : Nat} {ts rest : List Token}
    {lists : List (List Expr)} (hts : ts.length ≤ budget)
    (h : assigned (testList budget budget) fault k last ts = .ok (lists, rest)) :
    rest.length ≤ ts.length := by
  induction k generalizing ts lists with
  | zero =>
    cases h
    exact Nat.le_refl _
  | succ k ih =>
    rcases assigned_eq_ok h with ⟨-, -, rfl⟩ | ⟨hat, v, left, more, hv, hmore, -⟩
    · exact Nat.le_refl _
    · have htail := length_tail_of_isAt hat
      have hleft := length_le_of_testList (by omega) hv
      have := ih (by omega) hmore
      omega

/-- Where a chain of assignments is followed by a comma, the lists that are read from the same
tokens come to the comma as well, within the last of them. Where the chain ends, the list goes on
behind the comma. -/
theorem exists_testList_of_assigned {fault fault' : GrammarFault} {j k : Nat}
    {ts ts₂ rest : List Token} {values : List Expr} {lists : List (List Expr)}
    (h : assigned (test budget) fault j last ts = .ok (values, ts₂)) (hvalues : values ≠ [])
    (hcomma : isAt (.punct .comma) ts₂ = true)
    (hlists : assigned (testList budget budget) fault' k last ts = .ok (lists, rest))
    (hts : ts.length ≤ budget) (hk : ts.length ≤ k) :
    startsExpr ts₂.tail = true ∧ ts₂.length < ts.length ∧ ∃ m k' items lists' left,
      testList budget m last ts₂.tail = .ok (items, left) ∧
        assigned (testList budget budget) fault' k' last left = .ok (lists', rest) ∧
        left.length ≤ k' := by
  induction j generalizing ts k values lists with
  | zero =>
    cases h
    exact absurd rfl hvalues
  | succ j ih =>
    rcases assigned_eq_ok h with ⟨-, hnil, -⟩ | ⟨hat, v, left, more, hv, hmore, rfl⟩
    · exact absurd hnil hvalues
    have htail := length_tail_of_isAt hat
    have hleft := (takes_test (by omega) hv).length_le
    obtain ⟨k, rfl⟩ : ∃ l, k = l + 1 := ⟨k - 1, by omega⟩
    obtain ⟨b, rfl⟩ : ∃ l, budget = l + 1 := ⟨budget - 1, by omega⟩
    rcases assigned_eq_ok hlists with ⟨hat', -, -⟩ | ⟨-, items, left', lists', hitems, hrest, -⟩
    · rw [hat] at hat'
      cases hat'
    obtain ⟨v', left₁, hv', hcases⟩ := testList_eq_ok hitems
    rw [hv] at hv'
    cases hv'
    by_cases hend : more = []
    · subst hend
      obtain rfl := eq_of_assigned_nil hmore
      rcases hcases with ⟨hcomma', -⟩ | ⟨-, hstarts, items', hitems'⟩
      · rw [hcomma] at hcomma'
        cases hcomma'
      · have htail' := length_tail_of_isAt hcomma
        have hleft' := length_le_of_testList (by omega) hitems'
        exact ⟨hstarts, by omega, b, k, items', lists', left', hitems', hrest, by omega⟩
    · have hassign := isAt_of_assigned_ne_nil hmore hend
      rcases hcases with ⟨-, rfl⟩ | ⟨hcomma', -⟩
      · obtain ⟨hstarts, hlt, hfound⟩ := ih hmore hend hrest (by omega) (by omega)
        exact ⟨hstarts, by omega, hfound⟩
      · cases eq_of_isAt hassign hcomma'

/-- The second reading of a formula goes at least as far as the first. -/
theorem length_le_of_assignments?_eq_none {fault : GrammarFault} {left m k : Nat}
    {ts ts₁ rest rest' : List Token} {items : List Expr} {lists : List (List Expr)}
    (h : assignments? budget left last ts = .ok (none, rest))
    (hfirst : testList budget m last ts = .ok (items, ts₁))
    (hlists : assigned (testList budget budget) fault k last ts₁ = .ok (lists, rest'))
    (hts : ts.length ≤ budget) (hk : ts₁.length ≤ k) : rest'.length ≤ rest.length := by
  induction left generalizing ts ts₁ m k items lists with
  | zero => cases h
  | succ left ih =>
    obtain ⟨first, values, ts₂, ts₃, htest, hvalues, hcases⟩ := assignments?_eq_none h
    have hleft := (takes_test hts htest).length_le
    cases m with
    | zero => cases hfirst
    | succ m =>
      obtain ⟨first', ts₂', htest', hlist⟩ := testList_eq_ok hfirst
      rw [htest] at htest'
      cases htest'
      rcases hcases with ⟨rfl, rfl⟩ | ⟨hne, hcomma, hnext⟩
      · obtain rfl := eq_of_assigned_nil hvalues
        have hts₁ : ts₁.length ≤ rest.length := by
          rcases hlist with ⟨-, rfl⟩ | ⟨hcomma, -, more, hmore⟩
          · exact Nat.le_refl _
          · have htail := length_tail_of_isAt hcomma
            have := length_le_of_testList (by omega) hmore
            omega
        exact Nat.le_trans (length_le_of_assigned (by omega) hlists) hts₁
      · rcases hlist with ⟨-, rfl⟩ | ⟨hcomma', -⟩
        · obtain ⟨hstarts, hlt, m', k', items', lists', left', hitems, hrest, hk'⟩ :=
            exists_testList_of_assigned hvalues hne hcomma hlists (by omega) hk
          have htail := length_tail_of_isAt hcomma
          exact ih (hnext hstarts) hitems hrest (by omega) hk'
        · cases eq_of_isAt (isAt_of_assigned_ne_nil hvalues hne) hcomma'

end Reach

theorem error_of_test (b : Nat) (last : Position) : ∃ d, test b last [] = .error d := by
  cases b with
  | zero => exact ⟨_, rfl⟩
  | succ b => exact ⟨_, rfl⟩

theorem error_of_testList (b m : Nat) (last : Position) : ∃ d, testList b m last [] = .error d := by
  cases m with
  | zero => exact ⟨_, rfl⟩
  | succ m =>
    obtain ⟨d, hd⟩ := error_of_test b last
    exact ⟨d, bind_of_error hd⟩

theorem error_of_assignments? (b m : Nat) (last : Position) :
    ∃ d, assignments? b m last [] = .error d := by
  cases m with
  | zero => exact ⟨_, rfl⟩
  | succ m =>
    obtain ⟨d, hd⟩ := error_of_test b last
    exact ⟨d, bind_of_error hd⟩

namespace Agrees

variable {n n' m m' b b' : Nat} (hb : Within n n' b b' n n')

include hb

/-- Lists of tests are read alike. -/
theorem testList (hw : Within n n' m m' n n') : Agrees 1 n n' (List.map Expr.unplaced)
    (Grammar.testList b m) (Grammar.testList b' m') := by
  refine of_budget
    (fun m m' => end_of_error (error_of_testList b m) (error_of_testList b' m')) ?_ hw
  intro l l' m m' hl ih
  unfold Grammar.testList
  refine ((test hb).within hl).bind fun first first' hfirst => ite_eat ?_ (pure ?_)
  · refine needExpr.seq fun _ _ _ => ih.seq fun rest rest' hrest => pure ?_
    rw [List.map_cons, List.map_cons, hfirst, hrest]
  · rw [List.map_singleton, List.map_singleton, hfirst]

/-- That the tokens are of the shape of assignments is found on both sides or on none. -/
theorem assignments? (hw : Within n n' m m' n n') :
    Agrees 1 n n' (Option.map (List.map (List.map Expr.unplaced))) (Grammar.assignments? b m)
      (Grammar.assignments? b' m') := by
  refine of_budget
    (fun m m' => end_of_error (error_of_assignments? b m) (error_of_assignments? b' m')) ?_ hw
  intro l l' m m' hl ih
  have hassigned : Agrees 0 (l + 1) (l' + 1) (List.map Expr.unplaced)
      (Grammar.assigned (Grammar.test b) .noValueInAssign b)
      (Grammar.assigned (Grammar.test b') .noValueInAssign b') :=
    (assigned (test hb) hb).mono (Nat.le_refl 0) hl.bound hl.bound'
  unfold Grammar.assignments?
  refine ((test hb).within hl).bind fun first first' hfirst => hassigned.seq
    fun values values' hvalues => ?_
  rcases nil_or_cons_of_map_eq hvalues with ⟨rfl, rfl⟩ | ⟨value, values, value', values', rfl, rfl⟩
  · exact pure rfl
  have hchain : (first :: value :: values).map Expr.unplaced =
      (first' :: value' :: values').map Expr.unplaced := by
    rw [List.map_cons, hfirst, hvalues, ← List.map_cons]
  refine ite_eat (ite_atExpr (ih.seq fun rest rest' hrest => pure ?_) (pure rfl)) (pure ?_)
  · rcases none_or_some_of_map_eq hrest with ⟨rfl, rfl⟩ | ⟨chains, chains', rfl, rfl, hchains⟩
    · rfl
    · rw [Option.map_some, Option.map_some, Option.map_some, Option.map_some, List.map_cons, hchain,
        hchains, ← List.map_cons]
  · rw [Option.map_some, Option.map_some, List.map_singleton, List.map_singleton, hchain]

/-- Lists of targets and values are read alike. -/
theorem parallel : Agrees 1 n n' Formula.unplaced (Grammar.parallel b) (Grammar.parallel b') := by
  unfold Grammar.parallel
  refine (testList hb hb).bind fun first first' hfirst => ?_
  refine (assigned (testList hb hb) hb).seq fun rest rest' hrest => pure ?_
  rw [Formula.unplaced, Formula.unplaced, List.map_cons, List.map_cons, hfirst, hrest]

/-- Both readings of a formula are the same on both sides, so the same one is chosen. -/
theorem formula : Agrees 1 n n' Formula.unplaced (Grammar.formula b) (Grammar.formula b') where
  takes := by
    intro last ts f rest hn hread
    unfold Grammar.formula at hread
    split at hread
    · cases hread
    · next hchains =>
      cases hread
      exact (assignments? hb hb).takes hn hchains
    · exact (parallel hb).takes hn hread
  alike := by
    intro tail tail' last last' ts ts' htogether hn hn'
    have hchains : Alike tail tail' _ (Grammar.assignments? b b last ts)
      (Grammar.assignments? b' b' last' ts') := (assignments? hb hb).alike htogether hn hn'
    have hlists : Alike tail tail' Formula.unplaced (Grammar.parallel b last ts)
      (Grammar.parallel b' last' ts') := (parallel hb).alike htogether hn hn'
    have hreach : ∀ rest f rest', Grammar.assignments? b b last ts = .ok (none, rest) →
        Grammar.parallel b last ts = .ok (f, rest') → rest'.length ≤ rest.length := by
      intro rest f rest' hnone hread
      have hts := Nat.le_trans hn hb.budget
      obtain ⟨first, left, hfirst, hread⟩ := bind_eq_ok hread
      obtain ⟨lists, left', hlists, hread⟩ := bind_eq_ok hread
      cases hread
      have hleft := length_le_of_testList hts hfirst
      exact length_le_of_assignments?_eq_none hnone hfirst hlists hts (by omega)
    unfold Grammar.formula
    generalize Grammar.assignments? b b last ts = result at hchains hreach ⊢
    generalize Grammar.assignments? b' b' last' ts' = result' at hchains ⊢
    cases hchains with
    | error d d' => exact .error d d'
    | @ok chains chains' rest rest' hview hrest =>
      rcases none_or_some_of_map_eq hview with ⟨rfl, rfl⟩ | ⟨chains, chains', rfl, rfl, hchains⟩
      · exact hlists
      · refine .ok ?_ hrest
        rw [Formula.unplaced, Formula.unplaced, hchains]
    | spent htails hspent =>
      refine .spent htails fun f rest hread => ?_
      split at hread
      · cases hread
      · cases hread
        exact hspent _ _ rfl
      · next left => exact Nat.le_trans (hreach left f rest rfl hread) (hspent _ _ rfl)

end Agrees

end Stencil.Grammar
