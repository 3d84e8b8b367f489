import Stencil.Grammar.Statement
import Stencil.Proofs.Grammar.Tiers

/-!
Every proper expression is read back from its spelling. The reader of its own tier
takes the tokens of its spelling, by the shape of the tree: the operands of a node
are read at the tier of their place, with parentheses or without, and the parts of
calls, indexes, arrays and dicts by the reader for nested expressions. Spelled
inside a reference block, an expression is the whole program.
-/

namespace Stencil.Grammar

/-! What a spelling begins with. -/

/-- An expression of a tier can begin with the first of the kinds; a sign stands
there only if the tier is not above that sign. -/
def OpensAt (tier : Tier) (kinds : List TokenKind) : Prop :=
  ∃ k tail, kinds = k :: tail ∧ k.startsExpr = true ∧
    (k = .word .notKw → tier.rank ≤ Tier.not.rank) ∧
    (k = .arith .sub → tier.rank ≤ Tier.negative.rank)

namespace OpensAt

variable {tier : Tier} {kinds : List TokenKind}

theorem opens (h : OpensAt tier kinds) : Opens kinds := by
  obtain ⟨k, tail, rfl, hstarts, -⟩ := h
  exact ⟨k, rfl, hstarts⟩

theorem ne_nil (h : OpensAt tier kinds) : kinds ≠ [] := by
  obtain ⟨k, tail, rfl, -⟩ := h
  exact List.cons_ne_nil k tail

theorem notKw_not_mem (h : OpensAt tier kinds) (hlt : Tier.not.rank < tier.rank) :
    .word .notKw ∉ kinds.head? := by
  obtain ⟨k, tail, rfl, -, hnot, -⟩ := h
  intro hmem
  obtain rfl : k = .word .notKw := by simpa using hmem
  exact absurd (hnot rfl) (Nat.not_le_of_lt hlt)

/-- Above the tier of the minus sign no expression begins with one. -/
theorem minus_not_mem (h : OpensAt tier kinds) (hlt : Tier.negative.rank < tier.rank) :
    .arith .sub ∉ kinds.head? := by
  obtain ⟨k, tail, rfl, -, -, hminus⟩ := h
  intro hmem
  obtain rfl : k = .arith .sub := by simpa using hmem
  exact absurd (hminus rfl) (Nat.not_le_of_lt hlt)

theorem mono {tier' : Tier} (h : OpensAt tier kinds) (hle : tier'.rank ≤ tier.rank) :
    OpensAt tier' kinds := by
  obtain ⟨k, tail, hkinds, hstarts, hnot, hminus⟩ := h
  exact ⟨k, tail, hkinds, hstarts, fun hk => Nat.le_trans hle (hnot hk),
    fun hk => Nat.le_trans hle (hminus hk)⟩

theorem append (h : OpensAt tier kinds) (more : List TokenKind) :
    OpensAt tier (kinds ++ more) := by
  obtain ⟨k, tail, rfl, hstarts⟩ := h
  exact ⟨k, tail ++ more, rfl, hstarts⟩

/-- In parentheses an expression begins with no sign. -/
theorem enclosed {own : Tier} (h : OpensAt own kinds) (place : Tier) :
    OpensAt place (Grammar.enclosed place own kinds) := by
  unfold Grammar.enclosed
  split
  · exact ⟨_, _, rfl, rfl, nofun, nofun⟩
  · exact h.mono (by omega)

end OpensAt

/-- A token that is no sign opens every tier. -/
theorem opensAt_cons (kind : TokenKind) (hstarts : kind.startsExpr = true)
    (hnot : kind ≠ .word .notKw) (hminus : kind ≠ .arith .sub) (tier : Tier)
    (kinds : List TokenKind) : OpensAt tier (kind :: kinds) :=
  ⟨kind, kinds, rfl, hstarts, fun h => absurd h hnot, fun h => absurd h hminus⟩

/-- The first operand of an expression opens the whole. -/
theorem opensAt_spelling (e : Expr) (h : e.isProper = true) : OpensAt e.tier e.spelling := by
  cases e with
  | nil => exact opensAt_cons (.word .nilKw) rfl (by decide) (by decide) _ _
  | bool value =>
    cases value with
    | false => exact opensAt_cons (.word .falseKw) rfl (by decide) (by decide) _ _
    | true => exact opensAt_cons (.word .trueKw) rfl (by decide) (by decide) _ _
  | int value => exact opensAt_cons (.int value) rfl nofun nofun _ _
  | float value => exact opensAt_cons (.float value) rfl nofun nofun _ _
  | str content => exact opensAt_cons (.str content) rfl nofun nofun _ _
  | ident name pos => exact opensAt_cons (.ident name) rfl nofun nofun _ _
  | array items pos => exact opensAt_cons (.punct .lbracket) rfl (by decide) (by decide) _ _
  | dict entries pos => exact opensAt_cons (.punct .lbrace) rfl (by decide) (by decide) _ _
  | super pos => exact opensAt_cons (.word .superKw) rfl (by decide) (by decide) _ _
  | negative operand pos => exact ⟨_, _, rfl, rfl, nofun, fun _ => Nat.le_refl _⟩
  | not operand pos => exact ⟨_, _, rfl, rfl, fun _ => Nat.le_refl _, nofun⟩
  | chain head links =>
    simp only [Expr.isProper, Bool.and_eq_true] at h
    have hhead := (opensAt_spelling head h.1.2).enclosed .atom
    exact (hhead.append _).mono (Tier.rank_le_above .chain)
  | arith first rest =>
    simp only [Expr.isProper, Bool.and_eq_true] at h
    have hfirst := (opensAt_spelling first h.1.2).enclosed (Expr.arithTier rest).above
    exact (hfirst.append _).mono (Tier.rank_le_above _)
  | augment target rest =>
    simp only [Expr.isProper, Bool.and_eq_true] at h
    have hfirst := (opensAt_spelling target h.1.2).enclosed .additive
    exact (hfirst.append _).mono (Tier.rank_le_above .augment)
  | comparison first rest =>
    simp only [Expr.isProper, Bool.and_eq_true] at h
    have hfirst := (opensAt_spelling first h.1.2).enclosed .augment
    exact (hfirst.append _).mono (Tier.rank_le_above .comparison)
  | and items =>
    cases items with
    | nil => simp [Expr.isProper] at h
    | cons first rest =>
      simp only [Expr.isProper, Expr.allProper, Bool.and_eq_true] at h
      have hfirst := (opensAt_spelling first h.2.1).enclosed .not
      exact (hfirst.append _).mono (Tier.rank_le_above .and)
  | or items =>
    cases items with
    | nil => simp [Expr.isProper] at h
    | cons first rest =>
      simp only [Expr.isProper, Expr.allProper, Bool.and_eq_true] at h
      have hfirst := (opensAt_spelling first h.2.1).enclosed .and
      exact (hfirst.append _).mono (Tier.rank_le_above .or)
termination_by sizeOf e

def Readable (e : Expr) : Prop :=
  OpensAt e.tier e.spelling ∧ ∀ bound, ReadsAt (test bound) (bound + 1) e.tier e.spelling e

namespace Readable

variable {e : Expr}

/-- The reader of a weaker tier reads what that of a stronger one reads. -/
theorem readsAt (h : Readable e) {place : Tier} (hle : place.rank ≤ e.tier.rank) (bound : Nat) :
    ReadsAt (test bound) (bound + 1) place e.spelling e :=
  (h.2 bound).descend rfl hle h.1.ne_nil h.1.notKw_not_mem h.1.minus_not_mem

/-- Where no tier is asked for, the spelling stands by itself. -/
theorem nested (h : Readable e) (bound : Nat) :
    Opens e.spelling ∧ Reads bound .or (test bound) Expr.unplaced e.spelling e.unplaced := by
  refine ⟨h.1.opens, ?_⟩
  cases bound with
  | zero =>
    intro last ts rest hts hstops hlength
    obtain rfl : ts = [] := List.length_eq_zero_iff.mp (by omega)
    exact absurd hts.symm h.1.ne_nil
  | succ bound => exact (h.readsAt (Nat.zero_le _) bound).reads

/-- In the place of an operand, with parentheses where they are needed. -/
theorem operand (h : Readable e) (place : Tier) (bound : Nat) :
    Opens (enclosed place e.tier e.spelling) ∧
      ReadsAt (test bound) (bound + 1) place (enclosed place e.tier e.spelling) e := by
  refine ⟨(h.1.enclosed place).opens, ?_⟩
  by_cases hlt : e.tier.rank < place.rank
  · obtain ⟨hopens, hnested⟩ := h.nested bound
    have hatom := readsAt_parens rfl hopens hnested
    rw [enclosed, if_pos hlt]
    exact hatom.descend rfl place.rank_le (List.cons_ne_nil _ _) (fun _ => by simp)
      fun _ => by simp
  · rw [enclosed, if_neg hlt]
    exact h.readsAt (by omega) bound

end Readable

theorem sizeOf_lt_of_mem_entries {entries : List (Expr × Expr)} {entry : Expr × Expr}
    (he : entry ∈ entries) : sizeOf entry.1 + sizeOf entry.2 < sizeOf entries := by
  have hlt := List.sizeOf_lt_of_mem he
  obtain ⟨key, item⟩ := entry
  simp only [Prod.mk.sizeOf_spec] at hlt ⊢
  omega

theorem sizeOf_lt_of_mem_steps {ω : Type} [SizeOf ω] {steps : List (ω × Expr × Position)}
    {step : ω × Expr × Position} (hstep : step ∈ steps) : sizeOf step.2.1 < sizeOf steps := by
  have hlt := List.sizeOf_lt_of_mem hstep
  obtain ⟨op, e, pos⟩ := step
  simp only [Prod.mk.sizeOf_spec] at hlt ⊢
  omega

/-- Each constructor is read by its tier, its parts by the readers they stand in. -/
theorem readable (e : Expr) (h : e.isProper = true) : Readable e := by
  refine ⟨opensAt_spelling e h, fun bound => ?_⟩
  cases e with
  | nil => exact readsAt_token (by decide) fun _ _ _ => ⟨_, rfl, rfl⟩
  | bool value =>
    cases value with
    | false => exact readsAt_token (by decide) fun _ _ _ => ⟨_, rfl, rfl⟩
    | true => exact readsAt_token (by decide) fun _ _ _ => ⟨_, rfl, rfl⟩
  | int value => exact readsAt_token nofun fun _ _ _ => ⟨_, rfl, rfl⟩
  | float value => exact readsAt_token nofun fun _ _ _ => ⟨_, rfl, rfl⟩
  | str content => exact readsAt_token nofun fun _ _ _ => ⟨_, rfl, rfl⟩
  | ident name pos => exact readsAt_token nofun fun _ _ _ => ⟨_, rfl, rfl⟩
  | super pos => exact readsAt_token (by decide) fun _ _ _ => ⟨_, rfl, rfl⟩
  | array items pos =>
    have hitems : ∀ e ∈ items, Readable e := by
      intro e he
      have hlt := List.sizeOf_lt_of_mem he
      exact readable e (Expr.isProper_of_mem h he)
    simp only [Expr.spelling, Expr.spellings_eq, enclosed_or]
    exact readsAt_array rfl pos fun e he => (hitems e he).nested bound
  | dict entries pos =>
    have hentries : ∀ entry ∈ entries, Readable entry.1 ∧ Readable entry.2 := by
      intro entry he
      have hlt := sizeOf_lt_of_mem_entries he
      have hproper := Expr.isProper_of_mem_entries h he
      exact ⟨readable entry.1 hproper.1, readable entry.2 hproper.2⟩
    rw [Expr.spelling, Expr.entrySpellings_eq]
    exact readsAt_dict rfl pos fun entry he =>
      ⟨(hentries entry he).1.nested bound, (hentries entry he).2.nested bound⟩
  | chain head links =>
    simp only [Expr.isProper, Bool.and_eq_true, Bool.not_eq_true'] at h
    have hparts : ∀ link ∈ links, ∀ e ∈ link.parts, Readable e := by
      intro link hl e he
      have hlt := List.sizeOf_lt_of_mem hl
      have hltPart := Link.sizeOf_lt_of_mem_parts he
      exact readable e (Expr.isProper_of_mem_parts h.2 hl he)
    have hread := readsAt_chain rfl ((readable head h.1.2).operand .atom bound).2 links
      fun link hl e he => (hparts link hl e he).nested bound
    rw [Expr.spelling, Expr.linkSpelling_eq]
    rwa [h.1.1, if_neg Bool.false_ne_true] at hread
  | negative operand pos =>
    have hoperand := (readable operand h).operand .chain bound
    exact readsAt_negative pos hoperand.1 hoperand.2
  | not operand pos =>
    have hoperand := (readable operand h).operand .not bound
    exact readsAt_not pos hoperand.1 hoperand.2
  | arith first rest =>
    simp only [Expr.isProper, Bool.and_eq_true, Bool.not_eq_true', List.all_eq_true,
      decide_eq_true_eq] at h
    have hrest : ∀ step ∈ rest, Readable step.2.1 := by
      intro step hs
      have hlt := sizeOf_lt_of_mem_steps hs
      exact readable step.2.1 (Expr.isProper_of_mem_steps h.2 hs)
    have hread := readsAt_arith
      (fun e => enclosed (Expr.arithTier rest).above e.tier e.spelling) (Expr.arithTier_cases rest)
      ((readable first h.1.2).operand _ bound).2 rest
      fun step hs => ⟨h.1.1.2 step hs, (hrest step hs).operand _ bound⟩
    rw [Expr.spelling, Expr.stepSpelling_eq]
    rwa [h.1.1.1, if_neg Bool.false_ne_true] at hread
  | augment target rest =>
    simp only [Expr.isProper, Bool.and_eq_true, Bool.not_eq_true'] at h
    have hrest : ∀ step ∈ rest, Readable step.2.1 := by
      intro step hs
      have hlt := sizeOf_lt_of_mem_steps hs
      exact readable step.2.1 (Expr.isProper_of_mem_steps h.2 hs)
    have hread := readsAt_augment (fun e => enclosed .additive e.tier e.spelling)
      ((readable target h.1.2).operand _ bound).2 rest
      fun step hs => (hrest step hs).operand _ bound
    rw [Expr.spelling, Expr.stepSpelling_eq]
    rwa [h.1.1, if_neg Bool.false_ne_true] at hread
  | comparison first rest =>
    simp only [Expr.isProper, Bool.and_eq_true, Bool.not_eq_true'] at h
    have hrest : ∀ step ∈ rest, Readable step.2.1 := by
      intro step hs
      have hlt := sizeOf_lt_of_mem_steps hs
      exact readable step.2.1 (Expr.isProper_of_mem_comparisons h.2 hs)
    have hread := readsAt_comparison (fun e => enclosed .augment e.tier e.spelling)
      ((readable first h.1.2).operand _ bound).2 rest
      fun step hs => (hrest step hs).operand _ bound
    rw [Expr.spelling, Expr.comparisonSpelling_eq]
    rwa [h.1.1, if_neg Bool.false_ne_true] at hread
  | and items =>
    simp only [Expr.isProper, Bool.and_eq_true, decide_eq_true_eq] at h
    have hitems : ∀ e ∈ items, Readable e := by
      intro e he
      have hlt := List.sizeOf_lt_of_mem he
      exact readable e (Expr.isProper_of_mem h.2 he)
    match items, h.1 with
    | first :: second :: rest, _ =>
      have hread := readsAt_and (fun e => enclosed .not e.tier e.spelling)
        ((hitems first (List.mem_cons_self ..)).operand _ bound).2 (second :: rest)
        fun e he => (hitems e (List.mem_cons_of_mem _ he)).operand _ bound
      rw [Expr.spelling, Expr.spellings_eq, List.map_cons, joined, List.flatMap_map]
      exact hread
  | or items =>
    simp only [Expr.isProper, Bool.and_eq_true, decide_eq_true_eq] at h
    have hitems : ∀ e ∈ items, Readable e := by
      intro e he
      have hlt := List.sizeOf_lt_of_mem he
      exact readable e (Expr.isProper_of_mem h.2 he)
    match items, h.1 with
    | first :: second :: rest, _ =>
      have hread := readsAt_or (fun e => enclosed .and e.tier e.spelling)
        ((hitems first (List.mem_cons_self ..)).operand _ bound).2 (second :: rest)
        fun e he => (hitems e (List.mem_cons_of_mem _ he)).operand _ bound
      rw [Expr.spelling, Expr.spellings_eq, List.map_cons, joined, List.flatMap_map]
      exact hread
termination_by sizeOf e
decreasing_by
  all_goals
    subst_vars
    simp only [Expr.array.sizeOf_spec, Expr.dict.sizeOf_spec, Expr.chain.sizeOf_spec,
      Expr.negative.sizeOf_spec, Expr.not.sizeOf_spec, Expr.arith.sizeOf_spec,
      Expr.augment.sizeOf_spec, Expr.comparison.sizeOf_spec, Expr.and.sizeOf_spec,
      Expr.or.sizeOf_spec]
    omega

/-- A whole expression is read where nothing goes on with it. -/
theorem test_spelling {e : Expr} (h : e.isProper = true) {last : Position}
    {ts rest : List Token} (hts : ts.map Token.kind = e.spelling) (hrest : Stops .or rest)
    {budget : Nat} (hlength : ts.length + rest.length ≤ budget) :
    ∃ e', test budget last (ts ++ rest) = .ok (e', rest) ∧ e'.unplaced = e.unplaced :=
  ((readable e h).nested budget).2 last ts rest hts hrest hlength

/-- The formula of one expression up to the end of its block: what stands there is
first tried as an assignment. -/
theorem formula_eq_parallel {budget : Nat} {last : Position} {ts rest : List Token} {c : Token}
    (hclose : c.kind = .refClose) {e : Expr}
    (h : test (budget + 1) last ts = .ok (e, c :: rest)) :
    formula (budget + 1) last ts = .ok (.parallel [[e]], c :: rest) := by
  have hassign : ∀ t ∈ (c :: rest).head?, t.kind ≠ .assign := by simp [hclose]
  have hcomma : ∀ t ∈ (c :: rest).head?, t.kind ≠ .punct .comma := by simp [hclose]
  have hassigned : ∀ {α : Type} (value : Reader α) (fault : GrammarFault),
      assigned value fault (budget + 1) last (c :: rest) = .ok ([], c :: rest) := by
    intro α value fault
    rw [assigned, bind_of_ok (eat_of_ne hassign)]
    rfl
  have hnone : assignments? (budget + 1) (budget + 1) last ts = .ok (none, c :: rest) := by
    rw [assignments?, bind_of_ok h, bind_of_ok (hassigned _ _)]
    rfl
  have hlist : testList (budget + 1) (budget + 1) last ts = .ok ([e], c :: rest) := by
    rw [testList, bind_of_ok h, bind_of_ok (eat_of_ne hcomma)]
    rfl
  simp only [formula, hnone]
  rw [parallel, bind_of_ok hlist, bind_of_ok (hassigned _ _)]
  rfl

/-- A reference block that spells a proper expression. -/
theorem referenceBlock_spelling {e : Expr} (h : e.isProper = true) {budget : Nat}
    {last : Position} (opener : Token) {ts rest : List Token} {closer : Token}
    (hts : ts.map Token.kind = e.spelling) (hcloser : closer.kind = .refClose)
    (hlength : ts.length + rest.length ≤ budget) :
    ∃ e', referenceBlock (budget + 1) last (opener :: (ts ++ closer :: rest)) =
      .ok (.reference (.parallel [[e']]) opener.pos, rest) ∧ e'.unplaced = e.unplaced := by
  have hstops : Stops .or (closer :: rest) :=
    stops_of_continuation_eq_none (by rw [hcloser]; rfl) .or rest
  have hstarts := (readable e h).1.opens.startsExpr hts (closer :: rest)
  have hunbroken : closer.kind ≠ .newline := by simp [hcloser]
  have hbudget : ts.length + (closer :: rest).length ≤ budget + 1 := by
    rw [List.length_cons]
    omega
  obtain ⟨e', he', hview⟩ := test_spelling h hts hstops hbudget
  refine ⟨e', ?_, hview⟩
  rw [referenceBlock, bind_of_ok rfl, bind_of_ok rfl, List.tail_cons,
    bind_of_ok (skipNewlines_of_startsExpr hstarts), bind_of_ok (needExpr_of_startsExpr hstarts),
    bind_of_ok (formula_eq_parallel hcloser he'), bind_of_ok (skipNewlines_cons hunbroken),
    bind_of_ok rfl]
  simp only [List.head?_cons, Option.map_some, hcloser]
  rfl

end Stencil.Grammar

namespace Stencil.Program

open Grammar

/-- The program of one reference block. -/
theorem ofTokens_referenceBlock {e : Expr} (h : e.isProper = true) {opener closer : Token}
    {ts : List Token} (hopener : opener.kind = .refOpen) (hts : ts.map Token.kind = e.spelling)
    (hcloser : closer.kind = .refClose) :
    ∃ e' pos, ofTokens (opener :: (ts ++ [closer])) =
      .ok [.reference (.parallel [[e']]) pos] ∧ e'.unplaced = e.unplaced := by
  generalize hlast : lastPosition (opener :: (ts ++ [closer])) = last
  have hlength : ts.length + ([] : List Token).length ≤ ts.length + 1 := Nat.le_succ _
  obtain ⟨e', hblock, hview⟩ := referenceBlock_spelling h opener hts hcloser hlength
  refine ⟨e', opener.pos, ?_, hview⟩
  have hblocks : blocks (opener :: (ts ++ [closer])).length last (opener :: (ts ++ [closer])) =
      .ok ([.reference (.parallel [[e']]) opener.pos], []) := by
    rw [List.length_cons, List.length_append, List.length_singleton, blocks, bind_of_ok rfl]
    simp only [List.head?_cons, Option.map_some, hopener]
    rw [bind_of_ok hblock]
    rfl
  rw [ofTokens, hlast, hblocks]

/-- A reference block that spells a proper expression is the program that writes
this expression. -/
theorem ofTokens_reference_of_spelling (e : Expr) (h : e.isProper = true) (tokens : List Token)
    (htokens : tokens.map Token.kind = .refOpen :: (e.spelling ++ [.refClose])) :
    ∃ e' pos, ofTokens tokens = .ok [.reference (.parallel [[e']]) pos] ∧
      e'.unplaced = e.unplaced := by
  obtain ⟨t, body, rfl, hopen, hbody⟩ := List.map_eq_cons_iff.mp htokens
  obtain ⟨ts, closing, rfl, hts, hclosing⟩ := List.map_eq_append_iff.mp hbody
  obtain ⟨c, after, rfl, hclose, hafter⟩ := List.map_eq_cons_iff.mp hclosing
  obtain rfl : after = [] := by simpa using hafter
  exact ofTokens_referenceBlock h hopen hts hclose

end Stencil.Program

/-! `(a or b) and not -x.f(1, [2])[k] * 3 < 4 + y`, where one operand needs parentheses. -/

namespace Stencil.Nesting

open Program

def tree : Expr :=
  .and [.or [.ident "a" .start, .ident "b" .start],
    .not (.comparison
      (.arith (.negative (.chain (.ident "x" .start)
          [.attr "f" .start, .call [.int 1, .array [.int 2] .start] .start,
            .index (.ident "k" .start) .start]) .start)
        [(.mul, .int 3, .start)])
      [(.lt, .arith (.int 4) [(.add, .ident "y" .start, .start)], .start)]) .start]

def kinds : List TokenKind :=
  [.punct .lparen, .ident "a", .word .orKw, .ident "b", .punct .rparen, .word .andKw,
    .word .notKw, .arith .sub, .ident "x", .punct .dot, .ident "f", .punct .lparen, .int 1,
    .punct .comma, .punct .lbracket, .int 2, .punct .rbracket, .punct .rparen, .punct .lbracket,
    .ident "k", .punct .rbracket, .arith .mul, .int 3, .comp .lt, .int 4, .arith .add, .ident "y"]

def tokens : List Token :=
  (.refOpen :: (kinds ++ [.refClose])).zipIdx.map fun (kind, i) => ⟨kind, ⟨i, 1⟩⟩

/-- A sum of a product and a negation is read as the tree that it spells. -/
theorem tokens_read_as_tree :
    tree.isProper = true ∧ tree.spelling = kinds ∧
      ∃ e pos, ofTokens tokens = .ok [.reference (.parallel [[e]]) pos] ∧
        e.unplaced = tree.unplaced :=
  ⟨rfl, rfl, ofTokens_reference_of_spelling tree rfl tokens rfl⟩

end Stencil.Nesting
