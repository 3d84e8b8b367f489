import Stencil.Proofs.Grammar.RoundTrip
import Stencil.Proofs.Program.Unplaced

/-!
What a formula is read as. Tests are divided by equals signs into chains and by commas
between the chains. If every chain assigns, the formula is these chains. If one of them
is a single test, which may be found behind any number of chains, the formula is read
again from its beginning, and the same tests and signs are lists divided by equals signs.
-/

namespace Stencil.Grammar

/-! The same tests, grouped by the one sign or by the other. -/

section Marked

variable {β : Type}

def marked (inner outer : TokenKind) (groups : List (List β)) : List (β ⊕ TokenKind) :=
  [Sum.inr outer].intercalate
    (groups.map fun group => (group.map Sum.inl).intersperse (Sum.inr inner))

variable {inner outer : TokenKind}

theorem marked_singleton_cons (x : β) {groups : List (List β)} (h : groups ≠ []) :
    marked inner outer ([x] :: groups) = .inl x :: .inr outer :: marked inner outer groups := by
  have hmap : groups.map (fun group =>
      (group.map Sum.inl).intersperse (Sum.inr inner : β ⊕ TokenKind)) ≠ [] := by
    simpa using h
  rw [marked, List.map_cons, List.intercalate_cons_of_ne_nil hmap]
  rfl

theorem marked_cons_cons (x y : β) (group : List β) (groups : List (List β)) :
    marked inner outer ((x :: y :: group) :: groups) =
      .inl x :: .inr inner :: marked inner outer ((y :: group) :: groups) := by
  simp only [marked, List.map_cons, List.intersperse_cons_cons, List.intercalate_cons_cons_left]

/-- The signs leave the members of the groups as they are. -/
theorem inl_mem_marked {groups : List (List β)} (h : ∀ group ∈ groups, group ≠ []) (x : β) :
    .inl x ∈ marked inner outer groups ↔ ∃ group ∈ groups, x ∈ group := by
  induction groups with
  | nil => simp [marked]
  | cons group groups ih =>
    rw [List.forall_mem_cons] at h
    obtain ⟨hgroup, hgroups⟩ := h
    simp only [List.mem_cons, exists_eq_or_imp]
    rw [← ih hgroups]
    induction group with
    | nil => exact absurd rfl hgroup
    | cons y group ihgroup =>
      cases group with
      | nil =>
        by_cases hlast : groups = []
        · subst hlast
          simp [marked]
        · rw [marked_singleton_cons y hlast]
          simp
      | cons z group =>
        rw [marked_cons_cons, List.mem_cons, List.mem_cons, ihgroup (List.cons_ne_nil _ _),
          List.mem_cons (b := y)]
        simp [or_assoc]

/-- Groups can be exchanged for groups by the other sign: a test that stands alone in its group
joins the first of the groups behind it, and one that does not is a group of its own. -/
theorem exists_regrouped (groups : List (List β)) (hne : groups ≠ [])
    (hgroups : ∀ group ∈ groups, group ≠ []) :
    ∃ groups' : List (List β), groups' ≠ [] ∧ (∀ group ∈ groups', group ≠ []) ∧
      marked outer inner groups' = marked inner outer groups := by
  induction groups with
  | nil => exact absurd rfl hne
  | cons group groups ih =>
    rw [List.forall_mem_cons] at hgroups
    obtain ⟨hgroup, hgroups⟩ := hgroups
    induction group with
    | nil => exact absurd rfl hgroup
    | cons x group ihgroup =>
      cases group with
      | nil =>
        by_cases hlast : groups = []
        · subst hlast
          exact ⟨[[x]], List.cons_ne_nil _ _, by simp, rfl⟩
        · obtain ⟨groups', hne', hgroups', hmarked⟩ := ih hlast hgroups
          obtain ⟨first, rest, rfl⟩ := List.exists_cons_of_ne_nil hne'
          rw [List.forall_mem_cons] at hgroups'
          obtain ⟨y, more, rfl⟩ := List.exists_cons_of_ne_nil hgroups'.1
          refine ⟨(x :: y :: more) :: rest, List.cons_ne_nil _ _, ?_, ?_⟩
          · rw [List.forall_mem_cons]
            exact ⟨List.cons_ne_nil _ _, hgroups'.2⟩
          · rw [marked_cons_cons, hmarked, marked_singleton_cons x hlast]
      | cons y group =>
        obtain ⟨groups', hne', hgroups', hmarked⟩ :=
          ihgroup (List.cons_ne_nil _ _) (List.cons_ne_nil _ _)
        refine ⟨[x] :: groups', List.cons_ne_nil _ _, ?_, ?_⟩
        · rw [List.forall_mem_cons]
          exact ⟨List.cons_ne_nil _ _, hgroups'⟩
        · rw [marked_singleton_cons x hne', hmarked, marked_cons_cons]

end Marked

/-! Tests and their spellings. -/

/-- The kinds are a spelling of the test: wherever nothing goes on with an expression,
exactly their tokens are read, as this test. -/
structure Spells (kinds : List TokenKind) (e : Expr) : Prop where
  opens : Opens kinds
  reads : ∀ budget, Reads budget .or (test budget) Expr.unplaced kinds e.unplaced

/-- The spelling of a tree is one of the ways to spell it. -/
theorem spells_spelling {e : Expr} (h : e.isProper = true) : Spells e.spelling e :=
  ⟨(readable e h).1.opens, fun budget => ((readable e h).nested budget).2⟩

def spelled : (List TokenKind × Expr) ⊕ TokenKind → List TokenKind
  | .inl t => t.1
  | .inr sign => [sign]

def divided (sign : TokenKind) : List (List TokenKind) → List TokenKind
  | [] => []
  | first :: rest => first ++ rest.flatMap (sign :: ·)

/-- Groups are spelled with one sign inside and the other between them. -/
theorem flatMap_spelled_marked (inner outer : TokenKind)
    (groups : List (List (List TokenKind × Expr))) (h : ∀ group ∈ groups, group ≠ []) :
    (marked inner outer groups).flatMap spelled =
      divided outer (groups.map fun group => divided inner (group.map Prod.fst)) := by
  induction groups with
  | nil => rfl
  | cons group groups ih =>
    rw [List.forall_mem_cons] at h
    obtain ⟨hgroup, hgroups⟩ := h
    induction group with
    | nil => exact absurd rfl hgroup
    | cons t group ihgroup =>
      cases group with
      | nil =>
        cases groups with
        | nil => simp [marked, spelled, divided]
        | cons next groups =>
          rw [marked_singleton_cons t (List.cons_ne_nil _ _), List.flatMap_cons, List.flatMap_cons,
            ih hgroups]
          simp [spelled, divided]
      | cons t' group =>
        rw [marked_cons_cons, List.flatMap_cons, List.flatMap_cons,
          ihgroup (List.cons_ne_nil _ _)]
        simp [spelled, divided]

theorem divided_cons_cons (sign : TokenKind) (first second : List TokenKind)
    (rest : List (List TokenKind)) :
    divided sign (first :: second :: rest) = first ++ sign :: divided sign (second :: rest) := by
  simp [divided]

/-! Readers that need more of what is left than that nothing goes on. -/

/-- Takes exactly the tokens of some kinds where what is left is of a form, as long as
no more than so many tokens are at hand. -/
def ReadsBefore {α β : Type} (form : List Token → Prop) (budget : Nat) (reader : Reader α)
    (view : α → β) (kinds : List TokenKind) (value : β) : Prop :=
  ∀ last ts rest, ts.map Token.kind = kinds → form rest → ts.length + rest.length ≤ budget →
    ∃ a, reader last (ts ++ rest) = .ok (a, rest) ∧ view a = value

def Ends (signs : List TokenKind) (rest : List Token) : Prop :=
  Stops .or rest ∧ ∀ t ∈ rest.head?, t.kind ∉ signs

theorem ends_cons {signs : List TokenKind} {t : Token} (rest : List Token)
    (hcont : continuation t.kind = none) (hsigns : t.kind ∉ signs) : Ends signs (t :: rest) := by
  refine ⟨stops_of_continuation_eq_none hcont .or rest, ?_⟩
  intro t' ht'
  simp only [List.head?_cons, Option.mem_def, Option.some.injEq] at ht'
  exact ht' ▸ hsigns

/-- A sign that does not begin the rest is not taken. -/
theorem Ends.eat {signs : List TokenKind} {rest : List Token} (h : Ends signs rest)
    {sign : TokenKind} (hsign : sign ∈ signs) (last : Position) :
    eat sign last rest = .ok (false, rest) := by
  apply eat_of_ne
  rintro t ht rfl
  exact h.2 t ht hsign

/-- Before a sign or an end, a spelling is read as its test. -/
theorem Spells.readsBefore {kinds : List TokenKind} {e : Expr} (h : Spells kinds e)
    (signs : List TokenKind) (budget : Nat) :
    ReadsBefore (Ends signs) budget (test budget) Expr.unplaced kinds e.unplaced := by
  intro last ts rest hts hends hlength
  exact h.reads budget last ts rest hts hends.1 hlength

/-- What goes on with equals signs ends a test as well. -/
theorem ends_assigned {ι : Type} {signs : List TokenKind} (hassign : .assign ∉ signs)
    {spell : ι → List TokenKind} {items : List ι} {us rest : List Token}
    (hus : us.map Token.kind = items.flatMap fun i => .assign :: spell i)
    (hends : Ends (.assign :: signs) rest) : Ends signs (us ++ rest) := by
  cases items with
  | nil =>
    obtain rfl : us = [] := by simpa using hus
    exact ⟨hends.1, fun t ht hmem => hends.2 t ht (List.mem_cons_of_mem _ hmem)⟩
  | cons i items =>
    rw [List.flatMap_cons, List.cons_append, List.map_eq_cons_iff] at hus
    obtain ⟨u, us, rfl, hu, -⟩ := hus
    exact ends_cons _ (by rw [hu]; rfl) (by rwa [hu])

theorem Opens.length_ne_zero {kinds : List TokenKind} (h : Opens kinds) {ts : List Token}
    (hts : ts.map Token.kind = kinds) : ts.length ≠ 0 := by
  intro hzero
  obtain rfl := List.length_eq_zero_iff.mp hzero
  obtain ⟨k, hk, -⟩ := h
  simp [← hts] at hk

/-- Every further equals sign is followed by a value. -/
theorem reads_assigned {α β ι : Type} {value : Reader α} {view : α → β} (fault : GrammarFault)
    {signs : List TokenKind} (hassign : .assign ∉ signs) {budget : Nat} {spell : ι → List TokenKind}
    {seen : ι → β} {items : List ι}
    (hitems : ∀ i ∈ items, Opens (spell i) ∧
      ReadsBefore (Ends signs) budget value view (spell i) (seen i))
    {left : Nat} (hleft : left ≤ budget) :
    ReadsBefore (Ends (.assign :: signs)) left (assigned value fault left) (List.map view)
      (items.flatMap fun i => .assign :: spell i) (items.map seen) := by
  induction items generalizing left with
  | nil =>
    intro last ts rest hts hends hlength
    obtain rfl : ts = [] := by simpa using hts
    refine ⟨[], ?_, rfl⟩
    cases left with
    | zero => rfl
    | succ left =>
      rw [assigned, List.nil_append, bind_of_ok (hends.eat (List.mem_cons_self ..) last)]
      rfl
  | cons i items ih =>
    intro last ts rest hts hends hlength
    rw [List.forall_mem_cons] at hitems
    obtain ⟨⟨hopens, hread⟩, hitems⟩ := hitems
    rw [List.flatMap_cons, List.cons_append, List.map_eq_cons_iff] at hts
    obtain ⟨t, ts, rfl, hkind, hts⟩ := hts
    obtain ⟨ts, us, rfl, hts, hus⟩ := List.map_eq_append_iff.mp hts
    rw [List.length_cons, List.length_append] at hlength
    cases left with
    | zero => omega
    | succ left =>
      have hnext : Ends signs (us ++ rest) := ends_assigned hassign hus hends
      obtain ⟨v, hv, hview⟩ := hread last ts (us ++ rest) hts hnext
        (by rw [List.length_append]; omega)
      obtain ⟨more, hmore, hviews⟩ := ih hitems (show left ≤ budget by omega) last us rest hus
        hends (by omega)
      have hstarts := hopens.startsExpr hts (us ++ rest)
      refine ⟨v :: more, ?_, ?_⟩
      · rw [assigned, List.cons_append, List.append_assoc, bind_of_ok (eat_of_kind hkind)]
        simp only [if_true]
        rw [bind_of_ok (needExpr_of_startsExpr hstarts), bind_of_ok hv, bind_of_ok hmore]
        rfl
      · rw [List.map_cons, List.map_cons, hview, hviews]

/-- A first value and those that the equals signs assign. -/
theorem reads_first_assigned {α β ι : Type} {value : Reader α} {view : α → β}
    (fault : GrammarFault) {signs : List TokenKind} (hassign : .assign ∉ signs) {budget : Nat}
    {spell : ι → List TokenKind} {seen : ι → β} {first : ι} {items : List ι}
    (hitems : ∀ i ∈ first :: items, Opens (spell i) ∧
      ReadsBefore (Ends signs) budget value view (spell i) (seen i))
    (last : Position) {ts rest : List Token}
    (hts : ts.map Token.kind = divided .assign ((first :: items).map spell))
    (hends : Ends (.assign :: signs) rest) (hlength : ts.length + rest.length ≤ budget) :
    ∃ a left more, value last (ts ++ rest) = .ok (a, left) ∧
      assigned value fault budget last left = .ok (more, rest) ∧ view a = seen first ∧
      more.map view = items.map seen := by
  rw [List.forall_mem_cons] at hitems
  obtain ⟨⟨-, hread⟩, hitems⟩ := hitems
  rw [List.map_cons, divided, List.flatMap_map] at hts
  obtain ⟨ts, us, rfl, hts, hus⟩ := List.map_eq_append_iff.mp hts
  rw [List.length_append] at hlength
  have hnext : Ends signs (us ++ rest) := ends_assigned hassign hus hends
  obtain ⟨a, ha, hview⟩ := hread last ts (us ++ rest) hts hnext
    (by rw [List.length_append]; omega)
  obtain ⟨more, hmore, hviews⟩ := reads_assigned fault hassign hitems (Nat.le_refl _)
    last us rest hus hends (by omega)
  refine ⟨a, us ++ rest, more, ?_, hmore, hview, hviews⟩
  rw [List.append_assoc]
  exact ha

/-- A list of tests with commas between them. -/
theorem reads_testList {budget : Nat} {tests : List (List TokenKind × Expr)} (hne : tests ≠ [])
    (htests : ∀ t ∈ tests, Spells t.1 t.2) {left : Nat} (hleft : left ≤ budget) :
    ReadsBefore (Ends [.punct .comma]) left (testList budget left) (List.map Expr.unplaced)
      (divided (.punct .comma) (tests.map Prod.fst)) (tests.map (·.2.unplaced)) := by
  induction tests generalizing left with
  | nil => exact absurd rfl hne
  | cons first tests ih =>
    intro last input rest hinput hends hlength
    rw [List.forall_mem_cons] at htests
    obtain ⟨hfirst, htests⟩ := htests
    have hsome := (hfirst.opens.append _).length_ne_zero hinput
    cases left with
    | zero => omega
    | succ left =>
      cases tests with
      | nil =>
        rw [List.map_singleton, divided, List.flatMap_nil, List.append_nil] at hinput
        obtain ⟨e, he, hview⟩ := hfirst.reads budget last input rest hinput hends.1 (by omega)
        refine ⟨[e], ?_, ?_⟩
        · rw [testList, bind_of_ok he, bind_of_ok (hends.eat (List.mem_singleton_self _) last)]
          rfl
        · rw [List.map_singleton, hview, List.map_singleton]
      | cons second tests =>
        rw [List.map_cons, List.map_cons, divided_cons_cons] at hinput
        obtain ⟨ts, us, rfl, hts, hus⟩ := List.map_eq_append_iff.mp hinput
        obtain ⟨comma, us, rfl, hcomma, hus⟩ := List.map_eq_cons_iff.mp hus
        rw [List.length_append, List.length_cons] at hlength
        have hnext : Stops .or (comma :: (us ++ rest)) :=
          stops_of_continuation_eq_none (by rw [hcomma]; rfl) .or _
        obtain ⟨e, he, hview⟩ := hfirst.reads budget last ts _ hts hnext
          (by rw [List.length_cons, List.length_append]; omega)
        obtain ⟨more, hmore, hviews⟩ := ih (List.cons_ne_nil _ _) htests
          (show left ≤ budget by omega) last us rest hus hends (by omega)
        have hstarts := ((htests second (List.mem_cons_self ..)).opens.append _).startsExpr hus rest
        refine ⟨e :: more, ?_, ?_⟩
        · rw [List.append_assoc, List.cons_append, testList, bind_of_ok he,
            bind_of_ok (eat_of_kind hcomma)]
          simp only [if_true]
          rw [bind_of_ok (needExpr_of_startsExpr hstarts), bind_of_ok hmore]
          rfl
        · rw [List.map_cons, hview, hviews]
          rfl

section Assignments

variable {budget left : Nat} {last : Position} {ts mid rest : List Token} {first v : Expr}
  {values : List Expr}

/-- The shape is missed at the first chain that is a single test. -/
theorem assignments?_of_single (hfirst : test budget last ts = .ok (first, mid))
    (hvalues : assigned (test budget) .noValueInAssign budget last mid = .ok ([], rest)) :
    assignments? budget (left + 1) last ts = .ok (none, rest) := by
  rw [assignments?, bind_of_ok hfirst, bind_of_ok hvalues]
  rfl

/-- A chain that nothing follows is the last one. -/
theorem assignments?_of_last (hfirst : test budget last ts = .ok (first, mid))
    (hvalues : assigned (test budget) .noValueInAssign budget last mid = .ok (v :: values, rest))
    (hend : eat (.punct .comma) last rest = .ok (false, rest)) :
    assignments? budget (left + 1) last ts = .ok (some [first :: v :: values], rest) := by
  rw [assignments?, bind_of_ok hfirst, bind_of_ok hvalues]
  dsimp only
  rw [bind_of_ok hend]
  rfl

/-- A chain before a comma is followed by others. -/
theorem assignments?_of_comma {comma : Token} {rest' : List Token}
    {found : Option (List (List Expr))} (hfirst : test budget last ts = .ok (first, mid))
    (hvalues : assigned (test budget) .noValueInAssign budget last mid =
      .ok (v :: values, comma :: rest))
    (hcomma : comma.kind = .punct .comma) (hstarts : startsExpr rest = true)
    (hfound : assignments? budget left last rest = .ok (found, rest')) :
    assignments? budget (left + 1) last ts =
      .ok (found.map ((first :: v :: values) :: ·), rest') := by
  have hat : atExpr last rest = .ok (true, rest) := by rw [atExpr, hstarts]
  rw [assignments?, bind_of_ok hfirst, bind_of_ok hvalues]
  dsimp only
  rw [bind_of_ok (eat_of_kind hcomma)]
  simp only [if_true]
  rw [bind_of_ok hat]
  simp only [if_true]
  rw [bind_of_ok hfound]
  rfl

end Assignments

def trees (groups : List (List (List TokenKind × Expr))) : List (List Expr) :=
  groups.map (·.map (·.2.unplaced))

/-- A chain is a single test, at which the shape is missed, or a test and its values. -/
theorem reads_chain {budget : Nat} {chain : List (List TokenKind × Expr)} (hne : chain ≠ [])
    (htests : ∀ t ∈ chain, Spells t.1 t.2) (last : Position) {ts rest : List Token}
    (hts : ts.map Token.kind = divided .assign (chain.map Prod.fst)) (hends : Ends [.assign] rest)
    (hlength : ts.length + rest.length ≤ budget) :
    (chain.length < 2 ∧
        ∀ left, assignments? budget (left + 1) last (ts ++ rest) = .ok (none, rest)) ∨
      (2 ≤ chain.length ∧ ∃ first mid v values, test budget last (ts ++ rest) = .ok (first, mid) ∧
        assigned (test budget) .noValueInAssign budget last mid = .ok (v :: values, rest) ∧
        (first :: v :: values).map Expr.unplaced = chain.map (·.2.unplaced)) := by
  obtain ⟨t, tests, rfl⟩ := List.exists_cons_of_ne_nil hne
  have hreads : ∀ t' ∈ t :: tests, Opens t'.1 ∧
      ReadsBefore (Ends []) budget (test budget) Expr.unplaced t'.1 t'.2.unplaced := by
    intro t' ht'
    exact ⟨(htests t' ht').opens, (htests t' ht').readsBefore [] budget⟩
  obtain ⟨first, mid, values, hfirst, hvalues, hview, hviews⟩ :=
    reads_first_assigned .noValueInAssign List.not_mem_nil hreads last hts hends hlength
  cases tests with
  | nil =>
    obtain rfl := List.map_eq_nil_iff.mp hviews
    exact .inl ⟨Nat.lt_succ_self 1, fun left => assignments?_of_single hfirst hvalues⟩
  | cons second tests =>
    obtain ⟨v, values, rfl, hv, hmore⟩ := List.map_eq_cons_iff.mp hviews
    refine .inr ⟨Nat.le_add_left 2 _, first, mid, v, values, hfirst, hvalues, ?_⟩
    simp only [List.map_cons, hview, hv, hmore]

/-- Chains are found where each has two tests or more; where one has a single test, none
are. -/
def FindsChains (budget left : Nat) (last : Position)
    (chains : List (List (List TokenKind × Expr))) (input rest : List Token) : Prop :=
  ((∀ chain ∈ chains, 2 ≤ chain.length) →
      ∃ found, assignments? budget left last input = .ok (some found, rest) ∧
        found.map (·.map Expr.unplaced) = trees chains) ∧
    ((∃ chain ∈ chains, chain.length < 2) →
      ∃ rest', assignments? budget left last input = .ok (none, rest'))

section FindsChains

variable {budget left : Nat} {last : Position} {chain : List (List TokenKind × Expr)}
  {chains : List (List (List TokenKind × Expr))} {ts us rest : List Token}

/-- A chain of one test shows that the tokens are not assignments throughout. -/
theorem findsChains_of_short (hshort : chain.length < 2) (hmem : chain ∈ chains)
    (hnone : ∃ rest', assignments? budget left last ts = .ok (none, rest')) :
    FindsChains budget left last chains ts rest := by
  refine ⟨fun hall => ?_, fun _ => hnone⟩
  have := hall chain hmem
  omega

/-- A chain that nothing follows. -/
theorem findsChains_singleton (hne : chain ≠ []) (htests : ∀ t ∈ chain, Spells t.1 t.2)
    (hts : ts.map Token.kind = divided .assign (chain.map Prod.fst))
    (hends : Ends [.assign, .punct .comma] rest) (hlength : ts.length + rest.length ≤ budget) :
    FindsChains budget (left + 1) last [chain] (ts ++ rest) rest := by
  have hstop : Ends [.assign] rest := by
    refine ⟨hends.1, ?_⟩
    intro t ht hmem
    exact hends.2 t ht (List.mem_cons.mpr (Or.inl (List.mem_singleton.mp hmem)))
  rcases reads_chain hne htests last hts hstop hlength with
    ⟨hshort, hnone⟩ | ⟨hlong, e, mid, v, values, he, hvalues, hviews⟩
  · exact findsChains_of_short hshort (List.mem_singleton_self chain) ⟨_, hnone left⟩
  · have hend := hends.eat (List.mem_cons_of_mem _ (List.mem_singleton_self _)) last
    refine ⟨fun _ => ⟨_, assignments?_of_last he hvalues hend, ?_⟩, ?_⟩
    · rw [List.map_singleton, hviews]
      rfl
    · rintro ⟨other, hmem, hlt⟩
      rw [List.mem_singleton.mp hmem] at hlt
      omega

/-- A chain in front of others. -/
theorem findsChains_cons (hne : chain ≠ []) (htests : ∀ t ∈ chain, Spells t.1 t.2)
    (hts : ts.map Token.kind = divided .assign (chain.map Prod.fst)) {comma : Token}
    (hcomma : comma.kind = .punct .comma) (hstarts : startsExpr us = true)
    (hlength : ts.length + (comma :: us).length ≤ budget)
    (hmore : FindsChains budget left last chains us rest) :
    FindsChains budget (left + 1) last (chain :: chains) (ts ++ comma :: us) rest := by
  have hstop : Ends [.assign] (comma :: us) := ends_cons _ (by rw [hcomma]; rfl) (by simp [hcomma])
  rcases reads_chain hne htests last hts hstop hlength with
    ⟨hshort, hnone⟩ | ⟨hlong, e, mid, v, values, he, hvalues, hviews⟩
  · exact findsChains_of_short hshort (List.mem_cons_self ..) ⟨_, hnone left⟩
  · obtain ⟨hall, hfew⟩ := hmore
    constructor
    · intro hmany
      rw [List.forall_mem_cons] at hmany
      obtain ⟨found, hfound, htrees⟩ := hall hmany.2
      refine ⟨_, assignments?_of_comma he hvalues hcomma hstarts hfound, ?_⟩
      rw [List.map_cons, hviews, htrees]
      rfl
    · rintro ⟨other, hmem, hlt⟩
      rcases List.mem_cons.mp hmem with rfl | hmem
      · omega
      · obtain ⟨rest', hnone⟩ := hfew ⟨other, hmem, hlt⟩
        exact ⟨rest', assignments?_of_comma he hvalues hcomma hstarts hnone⟩

end FindsChains

/-- A chain begins as its first test does. -/
theorem opens_chain {chain : List (List TokenKind × Expr)} (hne : chain ≠ [])
    (htests : ∀ t ∈ chain, Spells t.1 t.2) : Opens (divided .assign (chain.map Prod.fst)) := by
  obtain ⟨first, tests, rfl⟩ := List.exists_cons_of_ne_nil hne
  exact (htests first (List.mem_cons_self ..)).opens.append _

/-- Chains with commas between them are assignments if each has two tests or more. -/
theorem reads_assignments {budget : Nat} {chains : List (List (List TokenKind × Expr))}
    (hne : chains ≠ []) (hchains : ∀ chain ∈ chains, chain ≠ [])
    (htests : ∀ chain ∈ chains, ∀ t ∈ chain, Spells t.1 t.2) (last : Position)
    {left : Nat} (hleft : left ≤ budget) {ts rest : List Token}
    (hts : ts.map Token.kind = divided (.punct .comma)
      (chains.map fun chain => divided .assign (chain.map Prod.fst)))
    (hends : Ends [.assign, .punct .comma] rest) (hlength : ts.length + rest.length ≤ left) :
    FindsChains budget left last chains (ts ++ rest) rest := by
  induction chains generalizing left ts with
  | nil => exact absurd rfl hne
  | cons chain chains ih =>
    rw [List.forall_mem_cons] at hchains htests
    cases chains with
    | nil =>
      rw [List.map_singleton, divided, List.flatMap_nil, List.append_nil] at hts
      have hsome := (opens_chain hchains.1 htests.1).length_ne_zero hts
      obtain ⟨left, rfl⟩ : ∃ l, left = l + 1 := ⟨left - 1, by omega⟩
      exact findsChains_singleton hchains.1 htests.1 hts hends (by omega)
    | cons next chains =>
      have hkinds := hts.trans (divided_cons_cons _ _ _ _)
      obtain ⟨us, vs, rfl, hus, hvs⟩ := List.map_eq_append_iff.mp hkinds
      obtain ⟨comma, vs, rfl, hcomma, hvs⟩ := List.map_eq_cons_iff.mp hvs
      rw [List.length_append, List.length_cons] at hlength
      obtain ⟨left, rfl⟩ : ∃ l, left = l + 1 := ⟨left - 1, by omega⟩
      have hnext := List.mem_cons_self (a := next) (l := chains)
      have hstarts : startsExpr (vs ++ rest) = true :=
        ((opens_chain (hchains.2 next hnext) (htests.2 next hnext)).append _).startsExpr hvs rest
      have hroom : us.length + (comma :: (vs ++ rest)).length ≤ budget := by
        rw [List.length_cons, List.length_append]
        omega
      have hmore := ih (List.cons_ne_nil _ _) hchains.2 htests.2
        (show left ≤ budget by omega) hvs (by omega)
      rw [List.append_assoc, List.cons_append]
      exact findsChains_cons hchains.1 htests.1 hus hcomma hstarts hroom hmore

/-- Lists of tests with equals signs between them. -/
theorem reads_parallel {budget : Nat} {lists : List (List (List TokenKind × Expr))}
    (hne : lists ≠ []) (hlists : ∀ list ∈ lists, list ≠ [])
    (htests : ∀ list ∈ lists, ∀ t ∈ list, Spells t.1 t.2) (last : Position)
    {ts rest : List Token}
    (hts : ts.map Token.kind = divided .assign
      (lists.map fun list => divided (.punct .comma) (list.map Prod.fst)))
    (hends : Ends [.assign, .punct .comma] rest) (hlength : ts.length + rest.length ≤ budget) :
    ∃ found, parallel budget last (ts ++ rest) = .ok (.parallel found, rest) ∧
      found.map (·.map Expr.unplaced) = trees lists := by
  obtain ⟨first, lists, rfl⟩ := List.exists_cons_of_ne_nil hne
  have hreads : ∀ list ∈ first :: lists,
      Opens (divided (.punct .comma) (list.map Prod.fst)) ∧
        ReadsBefore (Ends [.punct .comma]) budget (testList budget budget)
          (List.map Expr.unplaced) (divided (.punct .comma) (list.map Prod.fst))
          (list.map (·.2.unplaced)) := by
    intro list hmem
    obtain ⟨t, tests, rfl⟩ := List.exists_cons_of_ne_nil (hlists list hmem)
    refine ⟨(htests _ hmem t (List.mem_cons_self ..)).opens.append _, ?_⟩
    exact reads_testList (List.cons_ne_nil _ _) (htests _ hmem) (Nat.le_refl _)
  obtain ⟨items, mid, more, hitems, hmore, hview, hviews⟩ :=
    reads_first_assigned .noValueInMulti (by simp) hreads last hts hends hlength
  refine ⟨items :: more, ?_, ?_⟩
  · rw [parallel, bind_of_ok hitems, bind_of_ok hmore]
    rfl
  · rw [List.map_cons, hview, hviews]
    rfl

/-- A formula of chains of tests, where nothing behind them goes on, is read as these
chains if each has two tests or more. Otherwise it is read as the lists into which the
equals signs divide the same tests and commas. Exactly its tokens are taken. -/
theorem formula_of_chains (chains : List (List (List TokenKind × Expr))) (hne : chains ≠ [])
    (hchains : ∀ chain ∈ chains, chain ≠ [] ∧ ∀ t ∈ chain, Spells t.1 t.2)
    (last : Position) (ts rest : List Token) (budget : Nat)
    (hts : ts.map Token.kind = (marked .assign (.punct .comma) chains).flatMap spelled)
    (hends : Ends [.assign, .punct .comma] rest) (hlength : ts.length + rest.length ≤ budget) :
    ∃ f, formula budget last (ts ++ rest) = .ok (f, rest) ∧
      ((∀ chain ∈ chains, 2 ≤ chain.length) → f.unplaced = .assignments (trees chains)) ∧
      ((∃ chain ∈ chains, chain.length < 2) →
        ∃ lists : List (List (List TokenKind × Expr)),
          lists ≠ [] ∧ (∀ list ∈ lists, list ≠ []) ∧
            marked (.punct .comma) .assign lists = marked .assign (.punct .comma) chains ∧
            f.unplaced = .parallel (trees lists)) := by
  have hnonempty : ∀ chain ∈ chains, chain ≠ [] := fun chain hmem => (hchains chain hmem).1
  have htests : ∀ chain ∈ chains, ∀ t ∈ chain, Spells t.1 t.2 :=
    fun chain hmem => (hchains chain hmem).2
  have hkinds := hts
  rw [flatMap_spelled_marked _ _ _ hnonempty] at hkinds
  obtain ⟨hall, hshort⟩ := reads_assignments hne hnonempty htests last (Nat.le_refl budget) hkinds
    hends hlength
  by_cases hlong : ∀ chain ∈ chains, 2 ≤ chain.length
  · obtain ⟨found, hfound, htrees⟩ := hall hlong
    refine ⟨.assignments found, by rw [formula, hfound], fun _ => ?_, ?_⟩
    · rw [Formula.unplaced, htrees]
    · rintro ⟨chain, hmem, hlt⟩
      have := hlong chain hmem
      omega
  · have hlt : ∃ chain ∈ chains, chain.length < 2 := by
      simpa using hlong
    obtain ⟨rest', hnone⟩ := hshort hlt
    have hregrouped : ∃ lists : List (List (List TokenKind × Expr)), lists ≠ [] ∧
        (∀ list ∈ lists, list ≠ []) ∧
          marked (.punct .comma) .assign lists = marked .assign (.punct .comma) chains :=
      exists_regrouped chains hne hnonempty
    obtain ⟨lists, hne', hlists, hmarked⟩ := hregrouped
    have hsame : ∀ list ∈ lists, ∀ t ∈ list, Spells t.1 t.2 := by
      intro list hlist t ht
      have hmem : .inl t ∈ marked (.punct .comma) .assign lists :=
        (inl_mem_marked hlists t).mpr ⟨list, hlist, ht⟩
      rw [hmarked] at hmem
      obtain ⟨chain, hchain, ht⟩ := (inl_mem_marked hnonempty t).mp hmem
      exact htests chain hchain t ht
    rw [← hmarked, flatMap_spelled_marked _ _ _ hlists] at hts
    obtain ⟨found, hfound, htrees⟩ := reads_parallel hne' hlists hsame last hts hends hlength
    refine ⟨.parallel found, ?_, fun h => absurd h hlong, fun _ => ?_⟩
    · rw [formula, hnone]
      exact hfound
    · refine ⟨lists, hne', hlists, hmarked, ?_⟩
      rw [Formula.unplaced, htrees]

end Stencil.Grammar

/-! `a, b = b, a`, where the middle chain would assign, and the outer ones do not. -/

namespace Stencil.Exchange

open Grammar

def a : Expr := .ident "a" .start

def b : Expr := .ident "b" .start

def tokens : List Token :=
  [⟨.ident "a", ⟨0, 1⟩⟩, ⟨.punct .comma, ⟨1, 1⟩⟩, ⟨.ident "b", ⟨2, 1⟩⟩, ⟨.assign, ⟨3, 1⟩⟩,
    ⟨.ident "b", ⟨4, 1⟩⟩, ⟨.punct .comma, ⟨5, 1⟩⟩, ⟨.ident "a", ⟨6, 1⟩⟩]

def chains : List (List (List TokenKind × Expr)) :=
  [[(a.spelling, a)], [(b.spelling, b), (b.spelling, b)], [(a.spelling, a)]]

/-- The tokens of `a, b = b, a` are lists of targets and values. -/
theorem exchange_is_parallel : ∃ f lists,
    formula 8 .start (tokens ++ [⟨.refClose, ⟨7, 1⟩⟩]) = .ok (f, [⟨.refClose, ⟨7, 1⟩⟩]) ∧
      marked (.punct .comma) .assign lists = marked .assign (.punct .comma) chains ∧
      f.unplaced = .parallel (trees lists) := by
  have ha : Spells a.spelling a := spells_spelling rfl
  have hb : Spells b.spelling b := spells_spelling rfl
  have hchains : ∀ chain ∈ chains, chain ≠ [] ∧ ∀ t ∈ chain, Spells t.1 t.2 := by
    simp [chains, ha, hb]
  obtain ⟨f, hf, -, hlists⟩ := formula_of_chains chains (by simp [chains]) hchains .start tokens
    [⟨.refClose, ⟨7, 1⟩⟩] 8 rfl (ends_cons _ rfl (by simp)) (Nat.le_refl 8)
  obtain ⟨lists, -, -, hmarked, hf'⟩ := hlists ⟨_, List.mem_cons_self .., by decide⟩
  exact ⟨f, lists, hf, hmarked, hf'⟩

end Stencil.Exchange
