import Stencil.Proofs.Grammar.Agreement.Formula
import Stencil.Proofs.Grammar.Progress.Basic

/-!
How far readers of expressions and formulas go. Each takes a token before it asks for a nested
expression, so the nested reader is asked about fewer tokens. A formula that is read a second
time is read from where it began, and an atom that fails names the token it did not take.
-/

namespace Stencil.Grammar

namespace Settled

variable {α : Type} {shape : List Token → Prop}

section Items

variable {n m m' N : Nat} {item item' : Reader α}

/-- Items need as much budget as there are tokens. -/
theorem itemsUntil (hitem : Settled Anything 1 N item item') (closer : Punct)
    (fault : Option TokenKind → GrammarFault) (h : Covers n m m' N) :
    Settled Anything 1 n (Grammar.itemsUntil item closer fault m)
      (Grammar.itemsUntil item' closer fault m') := by
  have hend : ∀ {item : Reader α} {last d} m, item last [] = .error d →
      Grammar.itemsUntil item closer fault m last [] = .error d := by
    intro item last d m hd
    cases m with
    | zero => exact bind_of_error hd
    | succ m =>
      change (item >>= _) last [] = _
      exact bind_of_error hd
  refine of_budget (hitem.left.bind fun a => .pure [a]) (hitem.right.bind fun a => .pure [a])
    (fun m m' last => ?_) (fun n m m' h ih => ?_) h
  · obtain ⟨d, hd, hd'⟩ := hitem.error_at_end last
    rw [hend m hd, hend m' hd']
  · unfold Grammar.itemsUntil
    refine skipNewlines.seq fun _ => ite_eat (pure []) ?_
    refine (hitem.shorter h.bound).bind fun first => skipNewlines.seq fun _ => ?_
    refine ite_eat (ih.loose.bind fun rest => pure _) (ite_eat (pure [first]) ?_)
    exact peek (fail _) fun _ => fail _

end Items

section Expression

variable {n b b' : Nat} {test test' : Reader Expr}

theorem needed (h : Settled Anything 1 n test test') (fault : GrammarFault) :
    Settled shape 1 n (Grammar.needed test fault) (Grammar.needed test' fault) :=
  (needExpr fault).seq fun _ => h

theorem dictEntry (h : Settled Anything 1 n test test') :
    Settled Anything 1 n (Grammar.dictEntry test) (Grammar.dictEntry test') := by
  unfold Grammar.dictEntry
  refine (needed h _).bind fun key => skipNewlines.seq fun _ => (expect _).loose.seq fun _ => ?_
  exact skipNewlines.seq fun _ => (needed h _).loose.seq fun value => pure _

section Nested

variable (h : Settled Anything 1 n test test')

include h

theorem arrayItems {m : Nat} (hb : Covers m b b' n) :
    Settled Anything 1 m (Grammar.arrayItems test b) (Grammar.arrayItems test' b') := by
  unfold Grammar.arrayItems
  exact itemsUntil (needed h _) .rbracket _ hb

theorem dictEntries {m : Nat} (hb : Covers m b b' n) :
    Settled Anything 1 m (Grammar.dictEntries test b) (Grammar.dictEntries test' b') := by
  unfold Grammar.dictEntries
  exact itemsUntil (dictEntry h) .rbrace _ hb

theorem callArgs {m : Nat} (hb : Covers m b b' n) :
    Settled Anything 1 m (Grammar.callArgs test b) (Grammar.callArgs test' b') := by
  unfold Grammar.callArgs
  exact itemsUntil (needed h _) .rparen _ hb

end Nested

variable (h : Settled Anything 1 (n - 1) test test') (hb : Covers n b b' n)

include h hb

/-- An atom takes a token, and asks for nested expressions behind its bracket. -/
theorem atom : Settled Anything 1 n (Grammar.atom test b) (Grammar.atom test' b') := by
  refine of_inputs fun ts hts => ?_
  cases ts with
  | nil => exact (fail _).as hts (fun _ => rfl) fun _ => rfl
  | cons t ts =>
    have hat : isAt t.kind (t :: ts) = true := decide_eq_true rfl
    cases hleaf : leaf? t.kind with
    | some leaf =>
      exact take (pure (leaf t.pos)) hat (fun _ => atom_of_leaf hleaf) fun _ => atom_of_leaf hleaf
    | none =>
      by_cases hbracket : t.kind = .punct .lbracket
      · have harray : Settled Anything 0 (n - 1)
            (do return Expr.array (← Grammar.arrayItems test b) t.pos)
            (do return Expr.array (← Grammar.arrayItems test' b') t.pos) :=
          (arrayItems h hb.below).loose.bind fun items => pure _
        exact take harray hat (fun _ => atom_lbracket hbracket) fun _ => atom_lbracket hbracket
      by_cases hbrace : t.kind = .punct .lbrace
      · have hdict : Settled Anything 0 (n - 1)
            (do return Expr.dict (← Grammar.dictEntries test b) t.pos)
            (do return Expr.dict (← Grammar.dictEntries test' b') t.pos) :=
          (dictEntries h hb.below).loose.bind fun entries => pure _
        exact take hdict hat (fun _ => atom_lbrace hbrace) fun _ => atom_lbrace hbrace
      · exact (fail _).as hts (fun _ => atom_of_stray rfl hleaf hbracket hbrace)
          fun _ => atom_of_stray rfl hleaf hbracket hbrace

/-- A nested expression is asked for behind the parenthesis. -/
theorem factor : Settled Anything 1 n (Grammar.factor test b) (Grammar.factor test' b') := by
  unfold Grammar.factor
  refine ite_eat (skipNewlines.seq fun _ => ?_) (atom h hb)
  refine (needed h _).loose.bind fun inner => skipNewlines.seq fun _ => ?_
  exact (expect _).loose.bind fun _ => pure inner

omit hb in
/-- Each link takes a token. -/
theorem links {j m m' : Nat} (hm : Covers j m m' n) :
    Settled Anything 0 j (Grammar.links test m) (Grammar.links test' m') := by
  refine of_budget (.pure []) (.pure []) (fun m m' last => ?_) (fun j m m' hm ih => ?_) hm
  · cases m <;> cases m' <;> rfl
  · have hnested : Settled Anything 1 (j - 1) test test' :=
      h.shorter (Nat.sub_le_sub_right hm.bound 1)
    have hcons : ∀ link, Settled Anything 0 (j - 1) (do return link :: (← Grammar.links test m))
        (do return link :: (← Grammar.links test' m')) := fun link => ih.bind fun rest => pure _
    unfold Grammar.links
    refine position fun pos => peek (pure []) fun kind => ?_
    cases kind with
    | punct mark =>
      cases mark with
      | dot =>
        refine advance (ident? (fun name => (hcons (.attr name pos)).pred) ?_)
        exact peek (fail _) fun _ => fail _
      | lparen =>
        exact advance ((callArgs h hm.pred).loose.bind fun args => hcons (.call args pos))
      | lbracket =>
        refine advance (skipNewlines.seq fun _ => (needed hnested _).loose.bind fun key => ?_)
        refine skipNewlines.seq fun _ => (expect _).loose.bind fun _ => hcons (.index key pos)
      | _ => exact pure []
    | _ => exact pure []

theorem chain : Settled Anything 1 n (Grammar.chain test b) (Grammar.chain test' b') := by
  unfold Grammar.chain
  refine (factor h hb).bind fun head => (links h hb).bind fun ops => ?_
  cases ops with
  | nil => exact pure head
  | cons link rest => exact pure _

theorem negative : Settled Anything 1 n (Grammar.negative test b) (Grammar.negative test' b') := by
  unfold Grammar.negative
  refine position fun pos => ite_eat ?_ (chain h hb)
  exact (needExpr _).seq fun _ => (chain h hb).pred.loose.bind fun operand => pure _

end Expression

section Levels

variable {n m m' N : Nat} {operand operand' : Reader Expr}
  (hoperand : Settled Anything 1 N operand operand')

include hoperand

theorem operands {ω : Type} (operator? : TokenKind → Option ω) (level : Level)
    (h : Covers n m m' N) : Settled Anything 0 n (Grammar.operands operator? level operand m)
      (Grammar.operands operator? level operand' m') := by
  refine of_budget (.pure []) (.pure []) (fun m m' last => ?_) (fun n m m' h ih => ?_) h
  · cases m <;> cases m' <;> rfl
  · unfold Grammar.operands
    refine position fun pos => peek (pure []) fun kind => ?_
    rw [Option.bind_some]
    cases operator? kind with
    | none => exact pure []
    | some op =>
      refine advance ((needExpr _).seq fun _ => ?_)
      refine (hoperand.shorter h.bound).pred.loose.bind fun e => ih.bind fun rest => pure _

theorem junction (keyword : Keyword) (level : Level) (h : Covers n m m' N) :
    Settled Anything 0 n (Grammar.junction keyword level operand m)
      (Grammar.junction keyword level operand' m') := by
  refine of_budget (.pure []) (.pure []) (fun m m' last => ?_) (fun n m m' h ih => ?_) h
  · cases m <;> cases m' <;> rfl
  · unfold Grammar.junction
    refine ite_eat (skipNewlines.seq fun _ => (needExpr _).seq fun _ => ?_) (pure [])
    exact (hoperand.shorter h.bound).pred.loose.bind fun e => ih.bind fun rest => pure _

/-- A first operand and the operators of a level that follow. -/
theorem operation {ω : Type} {b b' : Nat} (operator? : TokenKind → Option ω) (level : Level)
    (node : Expr → List (ω × Expr × Position) → Expr) (hb : Covers N b b' N) :
    Settled Anything 1 N (Grammar.operation operator? level operand node b)
      (Grammar.operation operator? level operand' node b') := by
  unfold Grammar.operation
  refine hoperand.bind fun first => (operands hoperand operator? level hb).bind fun rest => ?_
  cases rest with
  | nil => exact pure first
  | cons step rest => exact pure _

/-- A first operand and those that follow a word each. -/
theorem gathering {b b' : Nat} (keyword : Keyword) (level : Level) (node : List Expr → Expr)
    (hb : Covers N b b' N) :
    Settled Anything 1 N (Grammar.gathering keyword level operand node b)
      (Grammar.gathering keyword level operand' node b') := by
  unfold Grammar.gathering
  refine hoperand.bind fun first => (junction hoperand keyword level hb).bind fun rest => ?_
  cases rest with
  | nil => exact pure first
  | cons item rest => exact pure _

end Levels

section Test

variable {n b b' : Nat} {test test' : Reader Expr} (h : Settled Anything 1 (n - 1) test test')
  (hb : Covers n b b' n)

include h hb

theorem product : Settled Anything 1 n (Grammar.product test b) (Grammar.product test' b') := by
  have hlevel : ∀ test b, Grammar.product test b =
    Grammar.operation multiplicative? .multiplicative (Grammar.negative test b) .arith b :=
    tierReader_multiplicative
  rw [hlevel, hlevel]
  exact operation (negative h hb) _ _ _ hb

theorem sum : Settled Anything 1 n (Grammar.sum test b) (Grammar.sum test' b') := by
  have hlevel : ∀ test b, Grammar.sum test b =
    Grammar.operation additive? .additive (Grammar.product test b) .arith b := tierReader_additive
  rw [hlevel, hlevel]
  exact operation (product h hb) _ _ _ hb

theorem augmented :
    Settled Anything 1 n (Grammar.augmented test b) (Grammar.augmented test' b') := by
  have hlevel : ∀ test b, Grammar.augmented test b =
    Grammar.operation augment? .augment (Grammar.sum test b) .augment b := tierReader_augment
  rw [hlevel, hlevel]
  exact operation (sum h hb) _ _ _ hb

theorem comparison :
    Settled Anything 1 n (Grammar.comparison test b) (Grammar.comparison test' b') := by
  have hlevel : ∀ test b, Grammar.comparison test b =
    Grammar.operation comparison? .comparison (Grammar.augmented test b) .comparison b :=
    tierReader_comparison
  rw [hlevel, hlevel]
  exact operation (augmented h hb) _ _ _ hb

/-- Each `not` takes a token. -/
theorem negation {j m m' : Nat} (hm : Covers j m m' n) :
    Settled Anything 1 j (Grammar.negation test b m) (Grammar.negation test' b' m') := by
  have hcomparison := comparison h hb
  refine of_budget hcomparison.left hcomparison.right (fun m m' last => ?_)
    (fun j m m' hm ih => ?_) hm
  · have hend : ∀ (test : Reader Expr) b m,
        Grammar.negation test b m last [] = Grammar.comparison test b last [] := by
      intro test b m
      cases m <;> rfl
    rw [hend, hend]
    exact hcomparison.agree last [] trivial (Nat.zero_le n)
  · unfold Grammar.negation
    refine position fun pos => ite_eat ?_ (hcomparison.shorter hm.bound)
    exact (needExpr _).seq fun _ => ih.loose.bind fun operand => pure _

theorem conjunction :
    Settled Anything 1 n (Grammar.conjunction test b) (Grammar.conjunction test' b') := by
  have hlevel : ∀ test b, Grammar.conjunction test b =
    Grammar.gathering .andKw .and (Grammar.negation test b b) .and b := tierReader_and
  rw [hlevel, hlevel]
  exact gathering (negation h hb hb) _ _ _ hb

theorem disjunction :
    Settled Anything 1 n (Grammar.disjunction test b) (Grammar.disjunction test' b') := by
  have hlevel : ∀ test b, Grammar.disjunction test b =
    Grammar.gathering .orKw .or (Grammar.conjunction test b) .or b := tierReader_or
  rw [hlevel, hlevel]
  exact gathering (conjunction h hb) _ _ _ hb

end Test

/-- No expression begins at the end of the input. -/
theorem test_nil (m : Nat) (last : Position) :
    Grammar.test m last [] = .error (Diagnostic.ofGrammarFault .endInAtom last) := by
  cases m <;> rfl

/-- Expressions. -/
theorem test {n m m' : Nat} (h : Covers n m m' n) :
    Settled Anything 1 n (Grammar.test m) (Grammar.test m') := by
  refine of_budget (.fail _) (.fail _) (fun m m' last => ?_) (fun n m m' h ih => ?_) h
  · rw [test_nil, test_nil]
  · exact disjunction ih h.self

section Formula

variable {n m m' b b' N : Nat}

theorem assigned {value value' : Reader α} (hvalue : Settled Anything 1 N value value')
    (fault : GrammarFault) (h : Covers n m m' N) :
    Settled Anything 0 n (Grammar.assigned value fault m) (Grammar.assigned value' fault m') := by
  refine of_budget (.pure []) (.pure []) (fun m m' last => ?_) (fun n m m' h ih => ?_) h
  · cases m <;> cases m' <;> rfl
  · unfold Grammar.assigned
    refine ite_eat ((needExpr _).seq fun _ => ?_) (pure [])
    exact (hvalue.shorter h.bound).pred.loose.bind fun v => ih.bind fun rest => pure _

variable (hb : Covers N b b' N)

include hb

theorem assignments? (h : Covers n m m' N) :
    Settled Anything 1 n (Grammar.assignments? b m) (Grammar.assignments? b' m') := by
  have hend : ∀ b m last, Grammar.assignments? b m last [] =
      .error (Diagnostic.ofGrammarFault .endInAtom last) := by
    intro b m last
    cases m with
    | zero => rfl
    | succ m => exact bind_of_error (test_nil b last)
  refine of_budget (.fail _) (.fail _) (fun m m' last => ?_) (fun n m m' h ih => ?_) h
  · rw [hend, hend]
  · unfold Grammar.assignments?
    refine ((test hb).shorter h.bound).bind fun first => ?_
    refine ((assigned (test hb) _ hb).shorter h.bound).bind fun values => ?_
    cases values with
    | nil => exact pure none
    | cons value values =>
      refine ite_eat (ite_atExpr ?_ (pure none)) (pure _)
      exact ih.loose.bind fun chains => pure _

theorem testList (h : Covers n m m' N) :
    Settled Anything 1 n (Grammar.testList b m) (Grammar.testList b' m') := by
  have hend : ∀ b m last, Grammar.testList b m last [] =
      .error (Diagnostic.ofGrammarFault .endInAtom last) := by
    intro b m last
    cases m with
    | zero => rfl
    | succ m => exact bind_of_error (test_nil b last)
  refine of_budget (.fail _) (.fail _) (fun m m' last => ?_) (fun n m m' h ih => ?_) h
  · rw [hend, hend]
  · unfold Grammar.testList
    refine ((test hb).shorter h.bound).bind fun first => ite_eat ?_ (pure [first])
    exact (needExpr _).seq fun _ => ih.loose.bind fun rest => pure _

/-- A list takes a token at least. -/
theorem parallel : Settled Anything 1 N (Grammar.parallel b) (Grammar.parallel b') := by
  unfold Grammar.parallel
  refine (testList hb hb).bind fun first => (assigned (testList hb hb) _ hb).bind fun rest => ?_
  exact pure _

end Formula

end Settled

/-- The second reading begins where the first one began. -/
theorem Bounded.formula {b : Nat} (hchains : Bounded Anything 1 (Grammar.assignments? b b))
    (hparallel : Bounded Anything 1 (Grammar.parallel b)) :
    Bounded Anything 1 (Grammar.formula b) where
  takes := by
    intro last ts f rest _ hread
    unfold Grammar.formula at hread
    split at hread
    · cases hread
    · next hfirst =>
      cases hread
      exact hchains.takes trivial hfirst
    · exact hparallel.takes trivial hread
  blames := by
    intro last ts d _ hread
    unfold Grammar.formula at hread
    split at hread
    · next hfirst =>
      cases hread
      exact hchains.blames trivial hfirst
    · cases hread
    · exact hparallel.blames trivial hread

/-- Both readings of a formula are settled, so the formula is. -/
theorem Settled.formula {b b' N : Nat} (hb : Covers N b b' N) :
    Settled Anything 1 N (Grammar.formula b) (Grammar.formula b') where
  left := .formula (assignments? hb hb).left (parallel hb).left
  right := .formula (assignments? hb hb).right (parallel hb).right
  agree := by
    intro last ts hts hn
    unfold Grammar.formula
    rw [(assignments? hb hb).agree last ts hts hn, (parallel hb).agree last ts hts hn]

end Stencil.Grammar
