import Stencil.Proofs.Grammar.Agreement.Basic
import Stencil.Proofs.Grammar.Tiers

/-!
Readers of expressions agree: an expression is read in the same way wherever it stands
and whatever comes after the tokens that decide where it ends. The readers of the
levels are written over a reader for nested expressions, which only gets what is behind
the token at hand; so its bounds are one less than those of the levels.
-/

namespace Stencil.Grammar

def leaf? : TokenKind → Option (Position → Expr)
  | .word .nilKw => some fun _ => .nil
  | .word .trueKw => some fun _ => .bool true
  | .word .falseKw => some fun _ => .bool false
  | .int value => some fun _ => .int value
  | .float value => some fun _ => .float value
  | .str content => some fun _ => .str content
  | .ident name => some (.ident name)
  | .word .superKw => some .super
  | _ => none

/-- The expressions of one token differ in their places only. -/
theorem unplaced_leaf {kind : TokenKind} {leaf : Position → Expr} (h : leaf? kind = some leaf)
    (pos pos' : Position) : (leaf pos).unplaced = (leaf pos').unplaced := by
  cases kind with
  | word keyword => cases keyword <;> cases h <;> rfl
  | _ => cases h <;> rfl

section Atom

variable {test : Reader Expr} {budget : Nat} {last : Position} {t : Token} {ts : List Token}

/-- Such a token is read as its expression. -/
theorem atom_of_leaf {leaf : Position → Expr} (h : leaf? t.kind = some leaf) :
    atom test budget last (t :: ts) = .ok (leaf t.pos, ts) := by
  obtain ⟨kind, pos⟩ := t
  cases kind with
  | word keyword => cases keyword <;> cases h <;> rfl
  | _ => cases h <;> rfl

theorem atom_lbracket (h : t.kind = .punct .lbracket) : atom test budget last (t :: ts) =
    (do return .array (← arrayItems test budget) t.pos : Reader Expr) last ts := by
  obtain ⟨_, pos⟩ := t
  subst h
  change _ = Reader.bind (arrayItems test budget) _ last ts
  unfold atom Reader.bind
  dsimp only
  cases arrayItems test budget last ts <;> rfl

theorem atom_lbrace (h : t.kind = .punct .lbrace) : atom test budget last (t :: ts) =
    (do return .dict (← dictEntries test budget) t.pos : Reader Expr) last ts := by
  obtain ⟨_, pos⟩ := t
  subst h
  change _ = Reader.bind (dictEntries test budget) _ last ts
  unfold atom Reader.bind
  dsimp only
  cases dictEntries test budget last ts <;> rfl

theorem atom_of_stray {kind : TokenKind} (hkind : t.kind = kind) (h : leaf? kind = none)
    (hbracket : kind ≠ .punct .lbracket) (hbrace : kind ≠ .punct .lbrace) :
    atom test budget last (t :: ts) = fail (.strayInAtom kind) last (t :: ts) := by
  obtain ⟨_, pos⟩ := t
  subst hkind
  cases ‹TokenKind› with
  | word keyword => cases keyword <;> first | rfl | cases h
  | punct mark =>
    cases mark with
    | lbracket => exact absurd rfl hbracket
    | lbrace => exact absurd rfl hbrace
    | _ => rfl
  | _ => first | rfl | cases h

end Atom

namespace Agrees

variable {α β γ : Type}

section Items

variable {k n n' m m' N N' : Nat} {view : α → γ} {item item' : Reader α}

/-- Items are read up to the same closer on both sides. -/
theorem itemsUntil (hitem : Agrees 1 N N' view item item') (closer : Punct)
    {fault fault' : Option TokenKind → GrammarFault} (hw : Within n n' m m' N N') :
    Agrees 0 n n' (List.map view) (Grammar.itemsUntil item closer fault m)
      (Grammar.itemsUntil item' closer fault' m') := by
  have hend : ∀ {item : Reader α} {fault} m last, (∃ d, item last [] = .error d) →
      ∃ d, Grammar.itemsUntil item closer fault m last [] = .error d := by
    rintro item fault m last ⟨d, hd⟩
    cases m with
    | zero => exact ⟨d, bind_of_error hd⟩
    | succ m =>
      refine ⟨d, ?_⟩
      change (item >>= _) last [] = _
      exact bind_of_error hd
  refine of_budget (fun m m' => end_of_error (fun last => hend m last (hitem.error_at_end last).1)
    fun last => hend m' last (hitem.error_at_end last).2) ?_ hw
  intro n n' m m' hw ih
  unfold Grammar.itemsUntil
  refine skipNewlines.seq fun _ _ _ => ite_eat (pure rfl) ?_
  refine (hitem.within hw).seq fun first first' hfirst => ?_
  refine skipNewlines.seq fun _ _ _ => ite_eat ?_ (ite_eat (pure ?_) ?_)
  · refine ih.seq fun rest rest' hrest => pure ?_
    rw [List.map_cons, List.map_cons, hfirst, hrest]
  · rw [List.map_singleton, List.map_singleton, hfirst]
  · exact peek (fail) fun _ => fail.at_kind _

end Items

section Expression

variable {n n' b b' : Nat} {test test' : Reader Expr}

theorem needed (h : Agrees 1 n n' Expr.unplaced test test') {fault fault' : GrammarFault} :
    Agrees 1 n n' Expr.unplaced (Grammar.needed test fault) (Grammar.needed test' fault') :=
  needExpr.seq fun _ _ _ => h

theorem dictEntry (h : Agrees 1 n n' Expr.unplaced test test') :
    Agrees 1 n n' (fun entry => (entry.1.unplaced, entry.2.unplaced)) (Grammar.dictEntry test)
      (Grammar.dictEntry test') := by
  unfold Grammar.dictEntry
  refine (needed h).bind fun key key' hkey => skipNewlines.seq fun _ _ _ => ?_
  refine (expect _).seq fun _ _ _ => skipNewlines.seq fun _ _ _ => ?_
  refine (needed h).seq fun value value' hvalue => pure ?_
  rw [hkey, hvalue]

variable (h : Agrees 1 n n' Expr.unplaced test test')

include h

theorem arrayItems {m m' : Nat} (hw : Within m m' b b' n n') : Agrees 0 m m'
    (List.map Expr.unplaced) (Grammar.arrayItems test b) (Grammar.arrayItems test' b') := by
  unfold Grammar.arrayItems
  exact itemsUntil (needed h) .rbracket hw

theorem dictEntries {m m' : Nat} (hw : Within m m' b b' n n') : Agrees 0 m m'
    (List.map fun entry => (entry.1.unplaced, entry.2.unplaced)) (Grammar.dictEntries test b)
    (Grammar.dictEntries test' b') := by
  unfold Grammar.dictEntries
  exact itemsUntil (dictEntry h) .rbrace hw

theorem callArgs {m m' : Nat} (hw : Within m m' b b' n n') : Agrees 0 m m'
    (List.map Expr.unplaced) (Grammar.callArgs test b) (Grammar.callArgs test' b') := by
  unfold Grammar.callArgs
  exact itemsUntil (needed h) .rparen hw

variable (hw : Within n n' b b' n n')

include hw

/-- The first token tells which atom is read. -/
theorem atom : Agrees 1 (n + 1) (n' + 1) Expr.unplaced (Grammar.atom test b)
    (Grammar.atom test' b') := by
  refine of_kinds (end_of_error (fun _ => ⟨_, rfl⟩) fun _ => ⟨_, rfl⟩) fun kind => ?_
  cases hleaf : leaf? kind with
  | some leaf =>
    refine .take (fun pos pos' => pure (unplaced_leaf hleaf pos pos')) ?_ ?_
    · exact fun _ _ _ hkind => atom_of_leaf (hkind ▸ hleaf)
    · exact fun _ _ _ hkind => atom_of_leaf (hkind ▸ hleaf)
  | none =>
    by_cases hbracket : kind = .punct .lbracket
    · subst hbracket
      have harray : ∀ pos pos', Agrees 0 n n' Expr.unplaced
          (do return .array (← Grammar.arrayItems test b) pos)
          (do return .array (← Grammar.arrayItems test' b') pos') := by
        refine fun pos pos' => (arrayItems h hw).bind fun items items' hitems => pure ?_
        rw [Expr.unplaced_array, Expr.unplaced_array, hitems]
      exact .take harray (fun _ _ _ => atom_lbracket) fun _ _ _ => atom_lbracket
    by_cases hbrace : kind = .punct .lbrace
    · subst hbrace
      have hdict : ∀ pos pos', Agrees 0 n n' Expr.unplaced
          (do return .dict (← Grammar.dictEntries test b) pos)
          (do return .dict (← Grammar.dictEntries test' b') pos') := by
        refine fun pos pos' => (dictEntries h hw).bind fun entries entries' hentries => pure ?_
        rw [Expr.unplaced_dict, Expr.unplaced_dict, hentries]
      exact .take hdict (fun _ _ _ => atom_lbrace) fun _ _ _ => atom_lbrace
    exact (fail.at_kind kind).congr
      (fun _ _ _ hkind => atom_of_stray hkind hleaf hbracket hbrace)
      fun _ _ _ hkind => atom_of_stray hkind hleaf hbracket hbrace

/-- An expression in parentheses is read by the reader for nested ones. -/
theorem factor : Agrees 1 (n + 1) (n' + 1) Expr.unplaced (Grammar.factor test b)
    (Grammar.factor test' b') := by
  unfold Grammar.factor
  refine ite_eat ?_ (atom h hw)
  refine skipNewlines.seq fun _ _ _ => (needed h).seq fun inner inner' hinner => ?_
  refine skipNewlines.seq fun _ _ _ => (expect _).seq fun _ _ _ => pure hinner

omit hw in
/-- Each further link begins with a token that tells it. -/
theorem links {m m' j j' : Nat} (hw : Within j j' m m' (n + 1) (n' + 1)) :
    Agrees 0 j j' (List.map Link.unplaced) (Grammar.links test m) (Grammar.links test' m') := by
  refine of_budget (fun m m' => end_of_ok [] [] (fun last => ?_) (fun last => ?_) rfl) ?_ hw
  · cases m <;> rfl
  · cases m' <;> rfl
  intro l l' m m' hw ih
  have hinner : Within l l' m m' n n' := ⟨hw.pred.le, hw.pred.budget, hw.pred.budget',
    Nat.le_of_succ_le_succ hw.bound, Nat.le_of_succ_le_succ hw.bound'⟩
  unfold Grammar.links
  refine position.seq fun pos pos' _ => peek (pure rfl) fun kind => ?_
  have hcons : ∀ {link link' : Link}, link.unplaced = link'.unplaced →
      Agrees 0 l l' (List.map Link.unplaced) (do return link :: (← Grammar.links test m))
        (do return link' :: (← Grammar.links test' m')) := by
    refine fun hlink => ih.bind fun rest rest' hrest => pure ?_
    rw [List.map_cons, List.map_cons, hlink, hrest]
  cases kind with
  | punct mark =>
    cases mark with
    | dot =>
      refine .advance (ident? (fun name => ?_) (peek fail fun _ => fail.at_kind _))
      have hattr : (Link.attr name pos).unplaced = (Link.attr name pos').unplaced := rfl
      exact (hcons hattr).pred
    | lparen =>
      refine .advance ((callArgs h hinner).bind fun args args' hargs => hcons ?_)
      rw [Link.unplaced, Link.unplaced, hargs]
    | lbracket =>
      refine .advance (skipNewlines.seq fun _ _ _ => ?_)
      refine ((needed h).within hinner).seq fun key key' hkey => ?_
      refine skipNewlines.seq fun _ _ _ => (expect _).seq fun _ _ _ => hcons ?_
      rw [Link.unplaced, Link.unplaced, hkey]
    | _ => exact (pure rfl).at_kind _
  | _ => exact (pure rfl).at_kind _

theorem chain : Agrees 1 (n + 1) (n' + 1) Expr.unplaced (Grammar.chain test b)
    (Grammar.chain test' b') := by
  unfold Grammar.chain
  refine (factor h hw).bind_sub fun head head' hhead => ?_
  refine (links h ⟨hw.le, hw.budget, hw.budget', Nat.le_succ n, Nat.le_succ n'⟩).bind
    fun ops ops' hops => ?_
  rcases nil_or_cons_of_map_eq hops with ⟨rfl, rfl⟩ | ⟨op, ops, op', ops', rfl, rfl⟩
  · exact pure hhead
  · refine pure ?_
    rw [Expr.unplaced_chain, Expr.unplaced_chain, hhead, hops]

theorem negative : Agrees 1 (n + 1) (n' + 1) Expr.unplaced (Grammar.negative test b)
    (Grammar.negative test' b') := by
  unfold Grammar.negative
  refine position.seq fun pos pos' _ => ite_eat ?_ (chain h hw)
  have hchain := (chain h hw).mono (Nat.le_refl 1) (Nat.le_succ n) (Nat.le_succ n')
  refine needExpr.seq fun _ _ _ => hchain.seq fun operand operand' hoperand => pure ?_
  rw [Expr.unplaced_negative, Expr.unplaced_negative, hoperand]

end Expression

section Levels

variable {n n' m m' N N' : Nat} {operand operand' : Reader Expr}
  (hoperand : Agrees 1 N N' Expr.unplaced operand operand')

include hoperand

/-- Operators are told by their tokens, each with an operand behind it. -/
theorem operands {ω : Type} (operator? : TokenKind → Option ω) (level : Level)
    (hw : Within n n' m m' N N') : Agrees 0 n n' (List.map Expr.unplacedStep)
      (Grammar.operands operator? level operand m)
      (Grammar.operands operator? level operand' m') := by
  refine of_budget (fun m m' => end_of_ok [] [] (fun last => ?_) (fun last => ?_) rfl) ?_ hw
  · cases m <;> rfl
  · cases m' <;> rfl
  intro n n' m m' hw ih
  unfold Grammar.operands
  refine position.seq fun pos pos' _ => peek (pure rfl) fun kind => ?_
  rw [Option.bind_some]
  cases operator? kind with
  | none => exact (pure rfl).at_kind kind
  | some op =>
    refine .advance (needExpr.seq fun _ _ _ => ?_)
    refine (hoperand.within hw.pred).seq fun e e' he => ih.seq fun rest rest' hrest => pure ?_
    rw [List.map_cons, List.map_cons, hrest, Expr.unplacedStep, Expr.unplacedStep, he]

theorem junction (keyword : Keyword) (level : Level) (hw : Within n n' m m' N N') :
    Agrees 0 n n' (List.map Expr.unplaced) (Grammar.junction keyword level operand m)
      (Grammar.junction keyword level operand' m') := by
  refine of_budget (fun m m' => end_of_ok [] [] (fun last => ?_) (fun last => ?_) rfl) ?_ hw
  · cases m <;> rfl
  · cases m' <;> rfl
  intro n n' m m' hw ih
  unfold Grammar.junction
  refine ite_eat ?_ (pure rfl)
  refine skipNewlines.seq fun _ _ _ => needExpr.seq fun _ _ _ => ?_
  refine (hoperand.within hw.pred).seq fun e e' he => ih.seq fun rest rest' hrest => pure ?_
  rw [List.map_cons, List.map_cons, he, hrest]

/-- A first operand and the operators of a level that follow. -/
theorem operation {ω : Type} {b b' : Nat} (operator? : TokenKind → Option ω) (level : Level)
    {node : Expr → List (ω × Expr × Position) → Expr}
    (hnode : ∀ first rest, (node first rest).unplaced =
      node first.unplaced (rest.map Expr.unplacedStep)) (hw : Within N N' b b' N N') :
    Agrees 1 N N' Expr.unplaced (Grammar.operation operator? level operand node b)
      (Grammar.operation operator? level operand' node b') := by
  unfold Grammar.operation
  refine hoperand.bind fun first first' hfirst => ?_
  refine (operands hoperand operator? level hw).bind fun rest rest' hrest => ?_
  rcases nil_or_cons_of_map_eq hrest with ⟨rfl, rfl⟩ | ⟨step, rest, step', rest', rfl, rfl⟩
  · exact pure hfirst
  · exact pure (by rw [hnode, hnode, hfirst, hrest])

/-- A first operand and those that follow a word each. -/
theorem gathering {b b' : Nat} (keyword : Keyword) (level : Level) {node : List Expr → Expr}
    (hnode : ∀ items, (node items).unplaced = node (items.map Expr.unplaced))
    (hw : Within N N' b b' N N') :
    Agrees 1 N N' Expr.unplaced (Grammar.gathering keyword level operand node b)
      (Grammar.gathering keyword level operand' node b') := by
  unfold Grammar.gathering
  refine hoperand.bind fun first first' hfirst => ?_
  refine (junction hoperand keyword level hw).bind fun rest rest' hrest => ?_
  rcases nil_or_cons_of_map_eq hrest with ⟨rfl, rfl⟩ | ⟨item, rest, item', rest', rfl, rfl⟩
  · exact pure hfirst
  · refine pure ?_
    rw [hnode, hnode, List.map_cons, hfirst, hrest, ← List.map_cons]

end Levels

section Test

variable {n n' b b' : Nat} {test test' : Reader Expr} (h : Agrees 1 n n' Expr.unplaced test test')
  (hw : Within (n + 1) (n' + 1) b b' (n + 1) (n' + 1))

include h hw

theorem product : Agrees 1 (n + 1) (n' + 1) Expr.unplaced (Grammar.product test b)
    (Grammar.product test' b') := by
  have hlevel : ∀ test b, Grammar.product test b =
    Grammar.operation multiplicative? .multiplicative (Grammar.negative test b) .arith b :=
    tierReader_multiplicative
  rw [hlevel, hlevel]
  exact operation (negative h hw.below) _ _ Expr.unplaced_arith hw

theorem sum : Agrees 1 (n + 1) (n' + 1) Expr.unplaced (Grammar.sum test b)
    (Grammar.sum test' b') := by
  have hlevel : ∀ test b, Grammar.sum test b =
    Grammar.operation additive? .additive (Grammar.product test b) .arith b := tierReader_additive
  rw [hlevel, hlevel]
  exact operation (product h hw) _ _ Expr.unplaced_arith hw

theorem augmented : Agrees 1 (n + 1) (n' + 1) Expr.unplaced (Grammar.augmented test b)
    (Grammar.augmented test' b') := by
  have hlevel : ∀ test b, Grammar.augmented test b =
    Grammar.operation augment? .augment (Grammar.sum test b) .augment b := tierReader_augment
  rw [hlevel, hlevel]
  exact operation (sum h hw) _ _ Expr.unplaced_augment hw

theorem comparison : Agrees 1 (n + 1) (n' + 1) Expr.unplaced (Grammar.comparison test b)
    (Grammar.comparison test' b') := by
  have hlevel : ∀ test b, Grammar.comparison test b =
    Grammar.operation comparison? .comparison (Grammar.augmented test b) .comparison b :=
    tierReader_comparison
  rw [hlevel, hlevel]
  exact operation (augmented h hw) _ _ Expr.unplaced_comparison hw

/-- As many words are taken on both sides. -/
theorem negation {j j' m m' : Nat} (hm : Within j j' m m' (n + 1) (n' + 1)) :
    Agrees 1 j j' Expr.unplaced (Grammar.negation test b m) (Grammar.negation test' b' m') := by
  have hcomparison := comparison h hw
  refine of_budget (fun m m' => ?_) (fun l l' m m' hm ih => ?_) hm
  · refine hcomparison.end_congr (fun last => ?_) fun last => ?_
    · cases m <;> rfl
    · cases m' <;> rfl
  · unfold Grammar.negation
    refine position.seq fun pos pos' _ => ite_eat ?_ (hcomparison.within hm)
    refine needExpr.seq fun _ _ _ => ih.seq fun operand operand' hoperand => pure ?_
    rw [Expr.unplaced_not, Expr.unplaced_not, hoperand]

theorem conjunction : Agrees 1 (n + 1) (n' + 1) Expr.unplaced (Grammar.conjunction test b)
    (Grammar.conjunction test' b') := by
  have hlevel : ∀ test b, Grammar.conjunction test b =
    Grammar.gathering .andKw .and (Grammar.negation test b b) .and b := tierReader_and
  rw [hlevel, hlevel]
  exact gathering (negation h hw hw) _ _ Expr.unplaced_and hw

theorem disjunction : Agrees 1 (n + 1) (n' + 1) Expr.unplaced (Grammar.disjunction test b)
    (Grammar.disjunction test' b') := by
  have hlevel : ∀ test b, Grammar.disjunction test b =
    Grammar.gathering .orKw .or (Grammar.conjunction test b) .or b := tierReader_or
  rw [hlevel, hlevel]
  exact gathering (conjunction h hw) _ _ Expr.unplaced_or hw

end Test

/-- Expressions. -/
theorem test {n n' m m' : Nat} (hw : Within n n' m m' n n') :
    Agrees 1 n n' Expr.unplaced (Grammar.test m) (Grammar.test m') := by
  refine of_budget (fun m m' => end_of_error (fun last => ?_) fun last => ?_)
    (fun l l' m m' hm ih => ?_) hw
  · cases m <;> exact ⟨_, rfl⟩
  · cases m' <;> exact ⟨_, rfl⟩
  · exact disjunction ih ⟨hm.le, hm.budget, hm.budget', Nat.le_refl _, Nat.le_refl _⟩

section Assignment

variable {α : Type} {n n' m m' N N' : Nat} {view : α → γ} {value value' : Reader α}

theorem assigned (hvalue : Agrees 1 N N' view value value') {fault fault' : GrammarFault}
    (hw : Within n n' m m' N N') : Agrees 0 n n' (List.map view)
      (Grammar.assigned value fault m) (Grammar.assigned value' fault' m') := by
  refine of_budget (fun m m' => end_of_ok [] [] (fun last => ?_) (fun last => ?_) rfl) ?_ hw
  · cases m <;> rfl
  · cases m' <;> rfl
  intro n n' m m' hw ih
  unfold Grammar.assigned
  refine ite_eat (needExpr.seq fun _ _ _ => ?_) (pure rfl)
  refine (hvalue.within hw.pred).seq fun v v' hv => ih.seq fun rest rest' hrest => pure ?_
  rw [List.map_cons, List.map_cons, hv, hrest]

end Assignment

end Agrees

end Stencil.Grammar
