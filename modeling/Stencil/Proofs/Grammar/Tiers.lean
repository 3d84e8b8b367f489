import Stencil.Proofs.Grammar.Reading

/-!
What the reader of each tier reads. It reads what the tier above it reads, unless a
word or sign of its own stands in front, and beyond that the nodes of its own
operators. An expression is therefore read in its place either directly, by going
down from its own tier, or as an atom between parentheses.
-/

namespace Stencil.Grammar

/-- The reader of a tier over a reader for nested expressions. The last number
bounds the words `not` in a row. -/
def tierReader (nested : Reader Expr) (budget left : Nat) : Tier → Reader Expr
  | .or => disjunction nested budget
  | .and => conjunction nested budget
  | .not => negation nested budget left
  | .comparison => comparison nested budget
  | .augment => augmented nested budget
  | .additive => sum nested budget
  | .multiplicative => product nested budget
  | .negative => negative nested budget
  | .chain => chain nested budget
  | .atom => factor nested budget

def ReadsAt (nested : Reader Expr) (budget : Nat) (tier : Tier) (kinds : List TokenKind)
    (e : Expr) : Prop :=
  ∀ left, left ≤ budget →
    Reads left tier (tierReader nested budget left tier) Expr.unplaced kinds e.unplaced

def operation {ω : Type} (operator? : TokenKind → Option ω) (level : Level)
    (operand : Reader Expr) (node : Expr → List (ω × Expr × Position) → Expr) (budget : Nat) :
    Reader Expr := do
  let first ← operand
  match ← operands operator? level operand budget with
  | [] => return first
  | rest => return node first rest

def gathering (keyword : Keyword) (level : Level) (operand : Reader Expr)
    (node : List Expr → Expr) (budget : Nat) : Reader Expr := do
  let first ← operand
  match ← junction keyword level operand budget with
  | [] => return first
  | rest => return node (first :: rest)

section Shape

variable (nested : Reader Expr) (budget : Nat)

theorem eq_operation {ω : Type} {operator? : TokenKind → Option ω} {level : Level}
    {operand : Reader Expr} {node : Expr → List (ω × Expr × Position) → Expr} {budget : Nat}
    {finish : Expr → List (ω × Expr × Position) → Reader Expr}
    (hnil : ∀ first, finish first [] = pure first)
    (hcons : ∀ first step rest, finish first (step :: rest) = pure (node first (step :: rest))) :
    (do finish (← operand) (← operands operator? level operand budget)) =
      operation operator? level operand node budget := by
  unfold operation
  congr 1
  funext first
  congr 1
  funext rest
  cases rest with
  | nil => exact hnil first
  | cons step rest => exact hcons first step rest

/-- Sums are operations on products. -/
theorem tierReader_additive : tierReader nested budget budget .additive =
    operation additive? .additive (tierReader nested budget budget .multiplicative) .arith
      budget :=
  eq_operation (fun _ => rfl) fun _ _ _ => rfl

theorem tierReader_multiplicative : tierReader nested budget budget .multiplicative =
    operation multiplicative? .multiplicative (tierReader nested budget budget .negative) .arith
      budget :=
  eq_operation (fun _ => rfl) fun _ _ _ => rfl

theorem tierReader_augment : tierReader nested budget budget .augment =
    operation augment? .augment (tierReader nested budget budget .additive) .augment
      budget :=
  eq_operation (fun _ => rfl) fun _ _ _ => rfl

theorem tierReader_comparison : tierReader nested budget budget .comparison =
    operation comparison? .comparison (tierReader nested budget budget .augment) .comparison
      budget :=
  eq_operation (fun _ => rfl) fun _ _ _ => rfl

/-- Conjunctions are gathered from negations. -/
theorem tierReader_and : tierReader nested budget budget .and =
    gathering .andKw .and (tierReader nested budget budget .not) .and budget := rfl

theorem tierReader_or : tierReader nested budget budget .or =
    gathering .orKw .or (tierReader nested budget budget .and) .or budget := rfl

end Shape

section Tier

variable {nested : Reader Expr} {budget : Nat} {kinds : List TokenKind}

/-- A first operand and the operators that follow are read, if the operands are. -/
theorem reads_operation {ω : Type} {operator? : TokenKind → Option ω} {symbol : ω → TokenKind}
    {level : Level} {node : Expr → List (ω × Expr × Position) → Expr}
    {spell : Expr → List TokenKind} {tier : Tier} {operand : Reader Expr} (htier : tier.rank < 9)
    (hend : ∀ k, continuation k ≠ some tier → operator? k = none)
    (hnode : ∀ first rest, (node first rest).unplaced =
      node first.unplaced (rest.map Expr.unplacedStep))
    {first : Expr} (hfirst : Reads budget tier.above operand Expr.unplaced kinds first.unplaced)
    {steps : List (ω × Expr × Position)}
    (hsteps : ∀ step ∈ steps, operator? (symbol step.1) = some step.1 ∧
      continuation (symbol step.1) = some tier ∧ Opens (spell step.2.1) ∧
      Reads budget tier.above operand Expr.unplaced (spell step.2.1) step.2.1.unplaced) :
    Reads budget tier (operation operator? level operand node budget) Expr.unplaced
      (kinds ++ steps.flatMap fun step => symbol step.1 :: spell step.2.1)
      (if steps.isEmpty then first else node first steps).unplaced := by
  intro last ts rest hts hstops hlength
  obtain ⟨ts, us, rfl, hts, hus⟩ := List.map_eq_append_iff.mp hts
  rw [List.length_append] at hlength
  have habove : tier.rank < tier.above.rank := by
    rw [Tier.rank_above htier]
    omega
  have hnext : Stops tier.above (us ++ rest) :=
    stops_append (fun step h => ⟨_, rfl, (hsteps step h).2.1⟩) habove hus hstops
  obtain ⟨first', hfirst', hview⟩ := hfirst last ts (us ++ rest) hts hnext
    (by rw [List.length_append]; omega)
  obtain ⟨more, hmore, hviews⟩ := reads_operands level htier hend hsteps
    (Nat.le_refl budget) last us rest hus hstops (by omega)
  rw [operation, List.append_assoc, bind_of_ok hfirst', bind_of_ok hmore]
  cases steps with
  | nil =>
    obtain rfl : more = [] := by simpa using hviews
    exact ⟨first', rfl, hview⟩
  | cons step steps =>
    cases more with
    | nil => simp at hviews
    | cons step' more =>
      refine ⟨node first' (step' :: more), rfl, ?_⟩
      simp only [hnode, hview, hviews, List.isEmpty_cons, Bool.false_eq_true, if_false]

/-- A first operand and those behind the words are read, if each is. -/
theorem reads_gathering {keyword : Keyword} {level : Level} {node : List Expr → Expr}
    {spell : Expr → List TokenKind} {tier : Tier} {operand : Reader Expr} (htier : tier.rank < 9)
    (hkeyword : continuation (.word keyword) = some tier)
    (hnode : ∀ items, (node items).unplaced = node (items.map Expr.unplaced))
    {first : Expr} (hfirst : Reads budget tier.above operand Expr.unplaced kinds first.unplaced)
    {items : List Expr}
    (hitems : ∀ e ∈ items, Opens (spell e) ∧
      Reads budget tier.above operand Expr.unplaced (spell e) e.unplaced) :
    Reads budget tier (gathering keyword level operand node budget) Expr.unplaced
      (kinds ++ items.flatMap fun e => .word keyword :: spell e)
      (if items.isEmpty then first else node (first :: items)).unplaced := by
  intro last ts rest hts hstops hlength
  obtain ⟨ts, us, rfl, hts, hus⟩ := List.map_eq_append_iff.mp hts
  rw [List.length_append] at hlength
  have habove : tier.rank < tier.above.rank := by
    rw [Tier.rank_above htier]
    omega
  have hnext : Stops tier.above (us ++ rest) :=
    stops_append (fun e h => ⟨_, rfl, hkeyword⟩) habove hus hstops
  obtain ⟨first', hfirst', hview⟩ := hfirst last ts (us ++ rest) hts hnext
    (by rw [List.length_append]; omega)
  obtain ⟨more, hmore, hviews⟩ := reads_junction level htier hkeyword hitems
    (Nat.le_refl budget) last us rest hus hstops (by omega)
  rw [gathering, List.append_assoc, bind_of_ok hfirst', bind_of_ok hmore]
  cases items with
  | nil =>
    obtain rfl : more = [] := by simpa using hviews
    exact ⟨first', rfl, hview⟩
  | cons e items =>
    cases more with
    | nil => simp at hviews
    | cons e' more =>
      refine ⟨node (first' :: e' :: more), rfl, ?_⟩
      simp only [hnode, List.map_cons, hview, List.isEmpty_cons, Bool.false_eq_true, if_false]
      rw [← List.map_cons, hviews, List.map_cons]

/-- Only the words `not` are counted apart. -/
theorem readsAt_of_reads {tier : Tier} {e : Expr} (htier : tier ≠ .not)
    (h : Reads budget tier (tierReader nested budget budget tier) Expr.unplaced kinds
      e.unplaced) : ReadsAt nested budget tier kinds e := by
  intro left hleft
  have hsame : tierReader nested budget left tier = tierReader nested budget budget tier := by
    cases tier with
    | not => exact absurd rfl htier
    | _ => rfl
  rw [hsame]
  exact h.mono hleft (Nat.le_refl _)

/-- What a tier reads is read with any number of words left. -/
theorem ReadsAt.reads {tier : Tier} {e : Expr} (h : ReadsAt nested budget tier kinds e) :
    Reads budget tier (tierReader nested budget budget tier) Expr.unplaced kinds e.unplaced :=
  h budget (Nat.le_refl _)

/-! The n-ary tiers. With no further operand they read what the tier above reads. -/

section Nary

variable (spell : Expr → List TokenKind) {first : Expr}

/-- Sums and products are read from left to right into one node. -/
theorem readsAt_arith {tier : Tier} (htier : tier = .additive ∨ tier = .multiplicative)
    (hfirst : ReadsAt nested budget tier.above kinds first)
    (steps : List (ArithOp × Expr × Position))
    (hsteps : ∀ step ∈ steps, step.1.tier = tier ∧ Opens (spell step.2.1) ∧
      ReadsAt nested budget tier.above (spell step.2.1) step.2.1) :
    ReadsAt nested budget tier
      (kinds ++ steps.flatMap fun step => .arith step.1 :: spell step.2.1)
      (if steps.isEmpty then first else .arith first steps) := by
  rcases htier with rfl | rfl
  · refine readsAt_of_reads (by decide) ?_
    rw [tierReader_additive]
    refine reads_operation (by decide) ?_ Expr.unplaced_arith hfirst.reads ?_
    · intro k hk
      unfold additive?
      split
      · exact absurd rfl hk
      · exact absurd rfl hk
      · rfl
    · intro step hstep
      obtain ⟨hop, hopens, hread⟩ := hsteps step hstep
      refine ⟨?_, congrArg some hop, hopens, hread.reads⟩
      cases hstep : step.1 <;> rw [hstep] at hop <;> first | rfl | cases hop
  · refine readsAt_of_reads (by decide) ?_
    rw [tierReader_multiplicative]
    refine reads_operation (by decide) ?_ Expr.unplaced_arith hfirst.reads ?_
    · intro k hk
      unfold multiplicative?
      split
      · exact absurd rfl hk
      · exact absurd rfl hk
      · exact absurd rfl hk
      · rfl
    · intro step hstep
      obtain ⟨hop, hopens, hread⟩ := hsteps step hstep
      refine ⟨?_, congrArg some hop, hopens, hread.reads⟩
      cases hstep : step.1 <;> rw [hstep] at hop <;> first | rfl | cases hop

theorem readsAt_augment (hfirst : ReadsAt nested budget .additive kinds first)
    (steps : List (ArithOp × Expr × Position))
    (hsteps : ∀ step ∈ steps, Opens (spell step.2.1) ∧
      ReadsAt nested budget .additive (spell step.2.1) step.2.1) :
    ReadsAt nested budget .augment
      (kinds ++ steps.flatMap fun step => .augment step.1 :: spell step.2.1)
      (if steps.isEmpty then first else .augment first steps) := by
  refine readsAt_of_reads (by decide) ?_
  rw [tierReader_augment]
  refine reads_operation (by decide) ?_ Expr.unplaced_augment hfirst.reads ?_
  · intro k hk
    unfold augment?
    split
    · exact absurd rfl hk
    · rfl
  · intro step hstep
    obtain ⟨hopens, hread⟩ := hsteps step hstep
    exact ⟨rfl, rfl, hopens, hread.reads⟩

/-- Comparisons are read from left to right into one node. -/
theorem readsAt_comparison (hfirst : ReadsAt nested budget .augment kinds first)
    (steps : List (CompOp × Expr × Position))
    (hsteps : ∀ step ∈ steps, Opens (spell step.2.1) ∧
      ReadsAt nested budget .augment (spell step.2.1) step.2.1) :
    ReadsAt nested budget .comparison
      (kinds ++ steps.flatMap fun step => .comp step.1 :: spell step.2.1)
      (if steps.isEmpty then first else .comparison first steps) := by
  refine readsAt_of_reads (by decide) ?_
  rw [tierReader_comparison]
  refine reads_operation (by decide) ?_ Expr.unplaced_comparison hfirst.reads ?_
  · intro k hk
    unfold comparison?
    split
    · exact absurd rfl hk
    · rfl
  · intro step hstep
    obtain ⟨hopens, hread⟩ := hsteps step hstep
    exact ⟨rfl, rfl, hopens, hread.reads⟩

theorem readsAt_and (hfirst : ReadsAt nested budget .not kinds first) (items : List Expr)
    (hitems : ∀ e ∈ items, Opens (spell e) ∧ ReadsAt nested budget .not (spell e) e) :
    ReadsAt nested budget .and (kinds ++ items.flatMap fun e => .word .andKw :: spell e)
      (if items.isEmpty then first else .and (first :: items)) := by
  refine readsAt_of_reads (by decide) ?_
  rw [tierReader_and]
  refine reads_gathering (by decide) rfl Expr.unplaced_and hfirst.reads ?_
  intro e he
  exact ⟨(hitems e he).1, (hitems e he).2.reads⟩

/-- Operands between words are read into one node. -/
theorem readsAt_or (hfirst : ReadsAt nested budget .and kinds first) (items : List Expr)
    (hitems : ∀ e ∈ items, Opens (spell e) ∧ ReadsAt nested budget .and (spell e) e) :
    ReadsAt nested budget .or (kinds ++ items.flatMap fun e => .word .orKw :: spell e)
      (if items.isEmpty then first else .or (first :: items)) := by
  refine readsAt_of_reads (by decide) ?_
  rw [tierReader_or]
  refine reads_gathering (by decide) rfl Expr.unplaced_or hfirst.reads ?_
  intro e he
  exact ⟨(hitems e he).1, (hitems e he).2.reads⟩

end Nary

/-! The tiers with a sign in front. -/

/-- A word and what it negates. -/
theorem readsAt_not {operand : Expr} (pos : Position) (hopens : Opens kinds)
    (h : ReadsAt nested budget .not kinds operand) :
    ReadsAt nested budget .not (.word .notKw :: kinds) (.not operand pos) := by
  intro left hleft last ts rest hts hstops hlength
  obtain ⟨t, ts, rfl, hkind, hts⟩ := List.map_eq_cons_iff.mp hts
  rw [List.length_cons] at hlength
  cases left with
  | zero => omega
  | succ left =>
    obtain ⟨e, he, hview⟩ := h left (by omega) last ts rest hts hstops (by omega)
    refine ⟨.not e t.pos, ?_, by rw [Expr.unplaced_not, Expr.unplaced_not, hview]⟩
    rw [tierReader, negation, List.cons_append, bind_of_ok rfl, bind_of_ok (eat_of_kind hkind)]
    simp only [if_true]
    rw [bind_of_ok (needExpr_of_startsExpr (hopens.startsExpr hts rest))]
    exact bind_of_ok he

/-- A minus sign and what it negates. -/
theorem readsAt_negative {operand : Expr} (pos : Position) (hopens : Opens kinds)
    (h : ReadsAt nested budget .chain kinds operand) :
    ReadsAt nested budget .negative (.arith .sub :: kinds) (.negative operand pos) := by
  refine readsAt_of_reads (by decide) ?_
  intro last ts rest hts hstops hlength
  obtain ⟨t, ts, rfl, hkind, hts⟩ := List.map_eq_cons_iff.mp hts
  rw [List.length_cons] at hlength
  obtain ⟨e, he, hview⟩ := h.reads last ts rest hts (hstops.mono (by decide)) (by omega)
  refine ⟨.negative e t.pos, ?_, by rw [Expr.unplaced_negative, Expr.unplaced_negative, hview]⟩
  rw [tierReader, negative, List.cons_append, bind_of_ok rfl, bind_of_ok (eat_of_kind hkind)]
  simp only [if_true]
  rw [bind_of_ok (needExpr_of_startsExpr (hopens.startsExpr hts rest))]
  exact bind_of_ok he

/-- No token of a kind stands in front. -/
theorem head_ne {kind : TokenKind} (h : kind ∉ kinds.head?) (hkinds : kinds ≠ [])
    {ts : List Token} (hts : ts.map Token.kind = kinds) (rest : List Token) :
    ∀ t ∈ (ts ++ rest).head?, t.kind ≠ kind := by
  cases ts with
  | nil => exact absurd hts.symm hkinds
  | cons t ts =>
    intro t' ht' heq
    simp only [List.cons_append, List.head?_cons, Option.mem_def, Option.some.injEq] at ht'
    subst ht'
    apply h
    simp [← hts, heq]

/-- An atom or parenthesis and the links that follow. -/
theorem readsAt_chain {bound : Nat} (hbound : budget = bound + 1) {head : Expr}
    (hhead : ReadsAt nested budget .atom kinds head) (chained : List Link)
    (hparts : ∀ link ∈ chained, ∀ e ∈ link.parts, Opens e.spelling ∧
      Reads bound .or nested Expr.unplaced e.spelling e.unplaced) :
    ReadsAt nested budget .chain (kinds ++ chained.flatMap Link.spelling)
      (if chained.isEmpty then head else .chain head chained) := by
  refine readsAt_of_reads (by decide) ?_
  intro last ts rest hts hstops hlength
  obtain ⟨ts, us, rfl, hts, hus⟩ := List.map_eq_append_iff.mp hts
  rw [List.length_append] at hlength
  obtain ⟨head', hhead', hview⟩ := hhead.reads last ts (us ++ rest) hts (stops_atom _)
    (by rw [List.length_append]; omega)
  obtain ⟨more, hmore, hviews⟩ := reads_links hparts (show budget ≤ bound + 1 by omega) last us
    rest hus hstops (by omega)
  rw [tierReader, chain, List.append_assoc]
  change ∃ a, (tierReader nested budget budget .atom >>= _) _ _ = _ ∧ _
  rw [bind_of_ok hhead', bind_of_ok hmore]
  cases chained with
  | nil =>
    obtain rfl : more = [] := by simpa using hviews
    exact ⟨head', rfl, hview⟩
  | cons link chained =>
    cases more with
    | nil => simp at hviews
    | cons link' more =>
      refine ⟨.chain head' (link' :: more), rfl, ?_⟩
      simp only [Expr.unplaced_chain, hview, hviews, List.isEmpty_cons,
        Bool.false_eq_true, if_false]

/-- A tier reads what the tier above it reads, if no sign of its own stands in
front. -/
theorem ReadsAt.below {bound : Nat} (hbound : budget = bound + 1) {tier : Tier} {e : Expr}
    (h : ReadsAt nested budget tier.above kinds e) (hkinds : kinds ≠ [])
    (hnot : tier = .not → .word .notKw ∉ kinds.head?)
    (hminus : tier = .negative → .arith .sub ∉ kinds.head?) :
    ReadsAt nested budget tier kinds e := by
  cases tier with
  | or => simpa using readsAt_or Expr.spelling h [] (by simp)
  | and => simpa using readsAt_and Expr.spelling h [] (by simp)
  | comparison => simpa using readsAt_comparison Expr.spelling h [] (by simp)
  | augment => simpa using readsAt_augment Expr.spelling h [] (by simp)
  | additive => simpa using readsAt_arith Expr.spelling (Or.inl rfl) h [] (by simp)
  | multiplicative => simpa using readsAt_arith Expr.spelling (Or.inr rfl) h [] (by simp)
  | chain => simpa using readsAt_chain hbound h [] (by simp)
  | not =>
    intro left hleft last ts rest hts hstops hlength
    obtain ⟨e', he', hview⟩ := h.reads last ts rest hts (hstops.mono (by decide)) (by omega)
    refine ⟨e', ?_, hview⟩
    cases left with
    | zero => exact he'
    | succ left =>
      rw [tierReader, negation, bind_of_ok rfl,
        bind_of_ok (eat_of_ne (head_ne (hnot rfl) hkinds hts rest))]
      exact he'
  | negative =>
    refine readsAt_of_reads (by decide) ?_
    intro last ts rest hts hstops hlength
    obtain ⟨e', he', hview⟩ := h.reads last ts rest hts (hstops.mono (by decide)) hlength
    refine ⟨e', ?_, hview⟩
    rw [tierReader, negative, bind_of_ok rfl,
      bind_of_ok (eat_of_ne (head_ne (hminus rfl) hkinds hts rest))]
    exact he'
  | atom => exact h

/-- A tier reads what any tier above it reads. -/
theorem ReadsAt.descend {bound : Nat} (hbound : budget = bound + 1) {own place : Tier} {e : Expr}
    (h : ReadsAt nested budget own kinds e) (hle : place.rank ≤ own.rank) (hkinds : kinds ≠ [])
    (hnot : Tier.not.rank < own.rank → .word .notKw ∉ kinds.head?)
    (hminus : Tier.negative.rank < own.rank → .arith .sub ∉ kinds.head?) :
    ReadsAt nested budget place kinds e := by
  obtain ⟨distance, hdistance⟩ := Nat.exists_eq_add_of_le hle
  induction distance generalizing place with
  | zero =>
    obtain rfl := Tier.eq_of_rank_eq hdistance
    exact h
  | succ distance ih =>
    have hrank := own.rank_le
    have habove : place.above.rank = place.rank + 1 := Tier.rank_above (by omega)
    refine ReadsAt.below hbound (ih (by omega) (by omega)) hkinds ?_ ?_
    · rintro rfl
      exact hnot (by omega)
    · rintro rfl
      exact hminus (by omega)

/-- An expression between parentheses is read as an atom. -/
theorem readsAt_parens {bound : Nat} (hbound : budget = bound + 1) {e : Expr}
    (hopens : Opens e.spelling)
    (h : Reads bound .or nested Expr.unplaced e.spelling e.unplaced) :
    ReadsAt nested budget .atom (.punct .lparen :: (e.spelling ++ [.punct .rparen])) e := by
  refine readsAt_of_reads (by decide) ?_
  intro last input rest hinput hstops hlength
  obtain ⟨t, body, rfl, hkind, hbody⟩ := List.map_eq_cons_iff.mp hinput
  obtain ⟨ts, closing, rfl, hts, hclosing⟩ := List.map_eq_append_iff.mp hbody
  obtain ⟨c, none, rfl, hclose, hnone⟩ := List.map_eq_cons_iff.mp hclosing
  obtain rfl : none = [] := by simpa using hnone
  rw [List.length_cons, List.length_append, List.length_singleton] at hlength
  have hcont : continuation c.kind = .none := by rw [hclose]; rfl
  have hunbroken : c.kind ≠ .newline := by simp [hclose]
  obtain ⟨e', he', hview⟩ := reads_needed .noTestInParens hopens h last ts (c :: rest) hts
    (stops_of_continuation_eq_none hcont .or _) (by rw [List.length_cons]; omega)
  refine ⟨e', ?_, hview⟩
  rw [tierReader, factor, List.cons_append, List.append_assoc, List.singleton_append,
    bind_of_ok (eat_of_kind hkind)]
  simp only [if_true]
  rw [bind_of_ok (skipNewlines_of_startsExpr (hopens.startsExpr hts _)), bind_of_ok he',
    bind_of_ok (skipNewlines_cons hunbroken), bind_of_ok (expect_of_kind hclose)]
  rfl

/-! The atoms. -/

/-- Without a parenthesis there is an atom. -/
theorem factor_of_ne {last : Position} {t : Token} (h : t.kind ≠ .punct .lparen)
    (rest : List Token) :
    factor nested budget last (t :: rest) = atom nested budget last (t :: rest) := by
  have hhead : ∀ t' ∈ (t :: rest).head?, t'.kind ≠ .punct .lparen := by simpa using h
  rw [factor, bind_of_ok (eat_of_ne hhead)]
  rfl

theorem readsAt_token {kind : TokenKind} {e : Expr} (hparen : kind ≠ .punct .lparen)
    (hatom : ∀ last pos rest, ∃ a, atom nested budget last (⟨kind, pos⟩ :: rest) = .ok (a, rest) ∧
      a.unplaced = e.unplaced) :
    ReadsAt nested budget .atom [kind] e := by
  refine readsAt_of_reads (by decide) ?_
  intro last ts rest hts hstops hlength
  obtain ⟨⟨k, pos⟩, none, rfl, rfl, hnone⟩ := List.map_eq_cons_iff.mp hts
  obtain rfl : none = [] := by simpa using hnone
  obtain ⟨a, ha, hview⟩ := hatom last pos rest
  exact ⟨a, (factor_of_ne hparen rest).trans ha, hview⟩

/-- An array is read if its items are. -/
theorem readsAt_array {bound : Nat} (hbound : budget = bound + 1) {items : List Expr}
    (pos : Position) (hitems : ∀ e ∈ items, Opens e.spelling ∧
      Reads bound .or nested Expr.unplaced e.spelling e.unplaced) :
    ReadsAt nested budget .atom
      (.punct .lbracket :: listed .rbracket (items.map Expr.spelling)) (.array items pos) := by
  refine readsAt_of_reads (by decide) ?_
  intro last input rest hinput hstops hlength
  obtain ⟨⟨k, p⟩, ts, rfl, rfl, hts⟩ := List.map_eq_cons_iff.mp hinput
  rw [List.length_cons] at hlength
  obtain ⟨items', hread, hview⟩ := reads_itemsUntil (fun _ => .unclosedArray) rfl rfl (by decide)
    (fun e he => ⟨(hitems e he).1, reads_needed .unclosedArray (hitems e he).1 (hitems e he).2⟩)
    (Nat.le_refl bound) (show bound ≤ budget by omega) last ts rest hts (stops_atom _) (by omega)
  have harray : arrayItems nested budget last (ts ++ rest) = .ok (items', rest) := hread
  refine ⟨.array items' p, ?_, ?_⟩
  · rw [tierReader, List.cons_append, factor_of_ne (by simp)]
    simp only [atom, harray]
  · rw [Expr.unplaced_array, Expr.unplaced_array, hview]

/-- A key, a colon and an item. -/
theorem reads_dictEntry {bound : Nat} {key item : Expr}
    (hkey : Opens key.spelling ∧ Reads bound .or nested Expr.unplaced key.spelling key.unplaced)
    (hitem : Opens item.spelling ∧
      Reads bound .or nested Expr.unplaced item.spelling item.unplaced) :
    Reads bound .or (dictEntry nested) (fun entry => (entry.1.unplaced, entry.2.unplaced))
      (key.spelling ++ .punct .colon :: item.spelling) (key.unplaced, item.unplaced) := by
  intro last input rest hinput hstops hlength
  obtain ⟨ts, tail, rfl, hts, htail⟩ := List.map_eq_append_iff.mp hinput
  obtain ⟨c, us, rfl, hcolon, hus⟩ := List.map_eq_cons_iff.mp htail
  rw [List.length_append, List.length_cons] at hlength
  have hcont : continuation c.kind = none := by rw [hcolon]; rfl
  have hunbroken : c.kind ≠ .newline := by simp [hcolon]
  obtain ⟨key', hkey', hviewKey⟩ := reads_needed .unclosedDict hkey.1 hkey.2 last ts
    (c :: (us ++ rest)) hts (stops_of_continuation_eq_none hcont .or _)
    (by rw [List.length_cons, List.length_append]; omega)
  obtain ⟨item', hitem', hviewItem⟩ := reads_needed .noValueInDict hitem.1 hitem.2 last us rest hus
    hstops (by omega)
  refine ⟨(key', item'), ?_, Prod.ext hviewKey hviewItem⟩
  rw [dictEntry, List.append_assoc, List.cons_append, bind_of_ok hkey',
    bind_of_ok (skipNewlines_cons hunbroken), bind_of_ok (expect_of_kind hcolon),
    bind_of_ok (skipNewlines_of_startsExpr (hitem.1.startsExpr hus rest))]
  exact bind_of_ok hitem'

/-- A dict is read if its keys and items are. -/
theorem readsAt_dict {bound : Nat} (hbound : budget = bound + 1) {entries : List (Expr × Expr)}
    (pos : Position) (hentries : ∀ entry ∈ entries,
      (Opens entry.1.spelling ∧
        Reads bound .or nested Expr.unplaced entry.1.spelling entry.1.unplaced) ∧
      (Opens entry.2.spelling ∧
        Reads bound .or nested Expr.unplaced entry.2.spelling entry.2.unplaced)) :
    ReadsAt nested budget .atom
      (.punct .lbrace :: listed .rbrace (entries.map fun entry =>
        entry.1.spelling ++ .punct .colon :: entry.2.spelling)) (.dict entries pos) := by
  refine readsAt_of_reads (by decide) ?_
  intro last input rest hinput hstops hlength
  obtain ⟨⟨k, p⟩, ts, rfl, rfl, hts⟩ := List.map_eq_cons_iff.mp hinput
  rw [List.length_cons] at hlength
  obtain ⟨entries', hread, hview⟩ := reads_itemsUntil (fun _ => .unclosedDict) rfl rfl (by decide)
    (fun entry he => ⟨(hentries entry he).1.1.append _,
      reads_dictEntry (hentries entry he).1 (hentries entry he).2⟩)
    (Nat.le_refl bound) (show bound ≤ budget by omega) last ts rest hts (stops_atom _) (by omega)
  have hdict : dictEntries nested budget last (ts ++ rest) = .ok (entries', rest) := hread
  refine ⟨.dict entries' p, ?_, ?_⟩
  · rw [tierReader, List.cons_append, factor_of_ne (by simp)]
    simp only [atom, hdict]
  · rw [Expr.unplaced_dict, Expr.unplaced_dict, hview]

end Tier

end Stencil.Grammar
