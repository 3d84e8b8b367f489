import Stencil.Proofs.Grammar.Progress.Statement

/-!
How far every reader of the grammar goes, whatever tokens it gets: tokens that were cut short or
that are missing in the middle are no exception. A program is read with a budget of one for each
token, and no greater budget reads it differently.
-/

namespace Stencil

/-- The diagnostic names the place of one of the tokens, or the beginning if there are none. -/
def Diagnostic.IsPlacedIn (tokens : List Token) (d : Diagnostic) : Prop :=
  (∃ t ∈ tokens, d.pos = some t.pos) ∨ tokens = [] ∧ d.pos = some ⟨0, 1⟩

namespace Grammar

/-- The readers of the grammar by their budgets, each with the tokens it takes at least. -/
inductive IsReader : {α : Type} → Nat → (Nat → Reader α) → Prop
  | blocks : IsReader 0 Grammar.blocks
  | codeBlock : IsReader 1 Grammar.codeBlock
  | referenceBlock : IsReader 1 Grammar.referenceBlock
  | templateBlocks : IsReader 0 Grammar.templateBlocks
  | body (stops : List Keyword) : IsReader 0 fun b => Grammar.body b stops
  | statement : IsReader 1 fun b => Grammar.statement (Grammar.body (b - 1)) b
  | conditional : IsReader 1 fun b => Grammar.conditional (Grammar.body (b - 1)) b
  | branches : IsReader 1 fun b => Grammar.branches (Grammar.body (b - 1)) b b
  | loop : IsReader 1 fun b => Grammar.loop (Grammar.body (b - 1)) b
  | loopHead : IsReader 1 Grammar.loopHead
  | loopClauses : IsReader 1 Grammar.loopClauses
  | formulaUnless (stop : TokenKind) : IsReader 0 (Grammar.formulaUnless stop)
  | function (isMethod : Bool) :
    IsReader 1 fun b => Grammar.function isMethod (Grammar.body (b - 1)) b
  | parameters : IsReader 0 Grammar.parameters
  | baseName : IsReader 0 fun _ => Grammar.baseName
  | namedSection (kind : SectionKind) :
    IsReader 1 fun b => Grammar.namedSection kind (Grammar.body (b - 1))
  | needName (fault : GrammarFault) : IsReader 1 fun _ => Grammar.needName fault
  | needPath (fault : GrammarFault) : IsReader 1 fun _ => Grammar.needPath fault
  | importAs : IsReader 1 fun _ => Grammar.importAs
  | importFrom : IsReader 1 Grammar.importFrom
  | importNames : IsReader 1 Grammar.importNames
  | importName : IsReader 1 fun _ => Grammar.importName
  | importEnd : IsReader 0 fun _ => Grammar.importEnd
  | returned : IsReader 0 Grammar.returned
  | formula : IsReader 1 Grammar.formula
  | assignments? : IsReader 1 fun b => Grammar.assignments? b b
  | parallel : IsReader 1 Grammar.parallel
  | testList : IsReader 1 fun b => Grammar.testList b b
  | test : IsReader 1 Grammar.test
  | disjunction : IsReader 1 fun b => Grammar.disjunction (Grammar.test (b - 1)) b
  | conjunction : IsReader 1 fun b => Grammar.conjunction (Grammar.test (b - 1)) b
  | negation : IsReader 1 fun b => Grammar.negation (Grammar.test (b - 1)) b b
  | comparison : IsReader 1 fun b => Grammar.comparison (Grammar.test (b - 1)) b
  | augmented : IsReader 1 fun b => Grammar.augmented (Grammar.test (b - 1)) b
  | sum : IsReader 1 fun b => Grammar.sum (Grammar.test (b - 1)) b
  | product : IsReader 1 fun b => Grammar.product (Grammar.test (b - 1)) b
  | negative : IsReader 1 fun b => Grammar.negative (Grammar.test (b - 1)) b
  | chain : IsReader 1 fun b => Grammar.chain (Grammar.test (b - 1)) b
  | links : IsReader 0 fun b => Grammar.links (Grammar.test (b - 1)) b
  | factor : IsReader 1 fun b => Grammar.factor (Grammar.test (b - 1)) b
  | atom : IsReader 1 fun b => Grammar.atom (Grammar.test (b - 1)) b
  | arrayItems : IsReader 1 fun b => Grammar.arrayItems (Grammar.test b) b
  | dictEntries : IsReader 1 fun b => Grammar.dictEntries (Grammar.test b) b
  | callArgs : IsReader 1 fun b => Grammar.callArgs (Grammar.test b) b

namespace IsReader

variable {α : Type} {least n b b' : Nat} {r : Nat → Reader α}

/-- Readers of the grammar are settled where the budgets cover the input. Nested readers stand
behind a token that has been taken, so one unit less is enough for them. -/
theorem settled (hr : IsReader least r) (hb : Covers n b b' n) :
    Settled Anything least n (r b) (r b') := by
  have hpred : Covers (n - 1) (b - 1) (b' - 1) (n - 1) :=
    ⟨Nat.sub_le_sub_right hb.budget 1, Nat.sub_le_sub_right hb.budget' 1, Nat.le_refl _⟩
  have htest : Settled Anything 1 (n - 1) (Grammar.test (b - 1)) (Grammar.test (b' - 1)) :=
    Settled.test hpred
  have hbody : ∀ stops, Settled Anything 0 (n - 1) (Grammar.body (b - 1) stops)
      (Grammar.body (b' - 1) stops) := fun stops => Settled.body stops hpred
  cases hr with
  | blocks => exact .blocks hb
  | codeBlock => exact .codeBlock hb
  | referenceBlock => exact .referenceBlock hb
  | templateBlocks => exact .templateBlocks hb
  | body stops => exact .body stops hb
  | statement => exact .statement hbody hb
  | conditional => exact .conditional hbody hb
  | branches => exact .branches hbody hb hb
  | loop => exact .loop hbody hb
  | loopHead => exact .loopHead hb
  | loopClauses => exact .loopClauses hb
  | formulaUnless stop => exact .formulaUnless stop hb
  | function isMethod => exact .function hbody hb isMethod
  | parameters => exact .parameters hb
  | baseName => exact .baseName
  | namedSection kind => exact .namedSection hbody kind
  | needName fault => exact .needName fault
  | needPath fault => exact .needPath fault
  | importAs => exact .importAs
  | importFrom => exact .importFrom hb
  | importNames => exact .importNames hb
  | importName => exact .importName
  | importEnd => exact .importEnd
  | returned => exact .returned hb
  | formula => exact .formula hb
  | assignments? => exact .assignments? hb hb
  | parallel => exact .parallel hb
  | testList => exact .testList hb hb
  | test => exact .test hb
  | disjunction => exact .disjunction htest hb
  | conjunction => exact .conjunction htest hb
  | negation => exact .negation htest hb hb
  | comparison => exact .comparison htest hb
  | augmented => exact .augmented htest hb
  | sum => exact .sum htest hb
  | product => exact .product htest hb
  | negative => exact .negative htest hb
  | chain => exact .chain htest hb
  | links => exact .links htest hb
  | factor => exact .factor htest hb
  | atom => exact .atom htest hb
  | arrayItems => exact .arrayItems (.test hb) hb
  | dictEntries => exact .dictEntries (.test hb) hb
  | callArgs => exact .callArgs (.test hb) hb

/-- A reader of the grammar takes at least its tokens, whatever its budget. -/
theorem bounded (hr : IsReader least r) (b : Nat) : Bounded Anything least (r b) :=
  (hr.settled (n := 0) ⟨Nat.zero_le b, Nat.zero_le b, Nat.le_refl 0⟩).left

/-- The budget plays no part as long as it covers the input. -/
theorem budgets (hr : IsReader least r) (last : Position) {ts : List Token}
    (hb : ts.length ≤ b) (hb' : ts.length ≤ b') : r b last ts = r b' last ts :=
  (hr.settled ⟨hb, hb', Nat.le_refl ts.length⟩).agree last ts trivial (Nat.le_refl ts.length)

end IsReader

/-- The place of the token at hand is one of the input. -/
theorem isPlacedIn_of_suffix {tokens rest : List Token} {d : Diagnostic} (hrest : rest <:+ tokens)
    (hpos : d.pos = some (here (lastPosition tokens) rest)) : d.IsPlacedIn tokens := by
  cases rest with
  | cons t rest => exact Or.inl ⟨t, hrest.subset List.mem_cons_self, hpos⟩
  | nil =>
    cases hlast : tokens.getLast? with
    | none =>
      refine Or.inr ⟨List.getLast?_eq_none_iff.mp hlast, ?_⟩
      rw [hpos, here, lastPosition, hlast]
      rfl
    | some t =>
      refine Or.inl ⟨t, List.mem_of_getLast? hlast, ?_⟩
      rw [hpos, here, lastPosition, hlast]
      rfl

def AgreeBelow {α : Type} (n : Nat) (x x' : Reader α) : Prop :=
  ∀ last ts, ts.length < n → x last ts = x' last ts

section Nested

variable {ts : List Token} {b b' : Nat} (last : Position) (hb : ts.length ≤ b)
  (hb' : ts.length ≤ b')

include hb hb'

/-- A nested expression is asked for behind a token of the one around it. -/
theorem disjunction_eq_of_agreeBelow {x x' : Reader Expr} (hx : Bounded Anything 1 x)
    (hx' : Bounded Anything 1 x') (h : AgreeBelow ts.length x x') :
    disjunction x b last ts = disjunction x' b' last ts := by
  cases ts with
  | nil =>
    have hend : ∀ x b, disjunction x b last [] =
        .error (Diagnostic.ofGrammarFault .endInAtom last) := by
      intro x b
      cases b <;> rfl
    rw [hend, hend]
  | cons t ts =>
    have hnested : Settled Anything 1 ((t :: ts).length - 1) x x' :=
      ⟨hx, hx', fun last' ts' _ hts' => h last' ts' (Nat.lt_succ_of_le hts')⟩
    exact (Settled.disjunction hnested ⟨hb, hb', Nat.le_refl _⟩).agree last _ trivial
      (Nat.le_refl _)

/-- A body is asked for behind a token of the statement around it. -/
theorem statement_eq_of_agreeBelow {body body' : BodyReader}
    (hbody : ∀ stops, Bounded Anything 0 (body stops))
    (hbody' : ∀ stops, Bounded Anything 0 (body' stops))
    (h : ∀ stops, AgreeBelow ts.length (body stops) (body' stops)) :
    statement body b last ts = statement body' b' last ts := by
  cases ts with
  | nil => rfl
  | cons t ts =>
    have hnested : ∀ stops, Settled Anything 0 ((t :: ts).length - 1) (body stops)
        (body' stops) := by
      refine fun stops => ⟨hbody stops, hbody' stops, fun last' ts' _ hts' => ?_⟩
      exact h stops last' ts' (Nat.lt_succ_of_le hts')
    have hstatement : Settled Anything 1 (t :: ts).length (statement body b) (statement body' b') :=
      .statement hnested ⟨hb, hb', Nat.le_refl _⟩
    exact hstatement.agree last _ trivial (Nat.le_refl _)

end Nested

/-- Whatever the tokens, each reader that succeeds leaves an end of its input that is shorter by
the tokens it has to take; statements, formulas and expressions have to take one. Each reader
that fails names the place of one of the tokens, and budgets that cover the input all give the
same answer. Nested expressions and bodies are asked for with fewer tokens than the expression
or the statement around them, so a program is read to an end. -/
theorem readers_progress (tokens : List Token) :
    (∀ {α : Type} (least : Nat) (r : Nat → Reader α), IsReader least r →
      ∀ budget ts, ts <:+ tokens →
        (∀ a rest, r budget (lastPosition tokens) ts = .ok (a, rest) →
          rest <:+ ts ∧ rest.length + least ≤ ts.length) ∧
        (∀ d, r budget (lastPosition tokens) ts = .error d → d.IsPlacedIn tokens) ∧
        ∀ budget', ts.length ≤ budget → ts.length ≤ budget' →
          r budget (lastPosition tokens) ts = r budget' (lastPosition tokens) ts) ∧
    (∀ x x', Bounded Anything 1 x → Bounded Anything 1 x' →
      ∀ last ts b b', ts.length ≤ b → ts.length ≤ b' → AgreeBelow ts.length x x' →
        disjunction x b last ts = disjunction x' b' last ts) ∧
    (∀ body body' : BodyReader, (∀ stops, Bounded Anything 0 (body stops)) →
      (∀ stops, Bounded Anything 0 (body' stops)) →
      ∀ last ts b b', ts.length ≤ b → ts.length ≤ b' →
        (∀ stops, AgreeBelow ts.length (body stops) (body' stops)) →
        statement body b last ts = statement body' b' last ts) ∧
    (∀ budget, tokens.length ≤ budget → Program.ofTokens tokens =
      (blocks budget (lastPosition tokens) tokens).map Prod.fst) ∧
    ∀ d, Program.ofTokens tokens = .error d → d.IsPlacedIn tokens := by
  have hprogram : Program.ofTokens tokens =
      (blocks tokens.length (lastPosition tokens) tokens).map Prod.fst := by
    unfold Program.ofTokens
    cases blocks tokens.length (lastPosition tokens) tokens <;> rfl
  refine ⟨?_, ?_, ?_, fun budget hbudget => ?_, fun d herror => ?_⟩
  · intro α least r hr budget ts hts
    refine ⟨fun a rest hread => ?_, fun d hread => ?_, fun budget' hbudget hbudget' => ?_⟩
    · have htakes := (hr.bounded budget).takes trivial hread
      exact ⟨htakes.isSuffix, htakes.length_le⟩
    · obtain ⟨rest, hrest, hpos⟩ := (hr.bounded budget).blames trivial hread
      exact isPlacedIn_of_suffix (hrest.trans hts) hpos
    · exact hr.budgets _ hbudget hbudget'
  · intro x x' hx hx' last ts b b' hb hb' h
    exact disjunction_eq_of_agreeBelow last hb hb' hx hx' h
  · intro body body' hbody hbody' last ts b b' hb hb' h
    exact statement_eq_of_agreeBelow last hb hb' hbody hbody' h
  · rw [hprogram, IsReader.blocks.budgets _ (Nat.le_refl _) hbudget]
  · rw [hprogram] at herror
    cases hread : blocks tokens.length (lastPosition tokens) tokens with
    | ok result =>
      rw [hread] at herror
      cases herror
    | error e =>
      rw [hread] at herror
      cases herror
      obtain ⟨rest, hrest, hpos⟩ := (IsReader.blocks.bounded _).blames trivial hread
      exact isPlacedIn_of_suffix hrest hpos

/-! A loop that is cut short in its head. -/

namespace CutShort

def tokens : List Token :=
  [⟨.codeOpen, ⟨0, 1⟩⟩, ⟨.word .forKw, ⟨3, 1⟩⟩, ⟨.ident "i", ⟨7, 1⟩⟩]

/-- The name is read, the statement is not, and the place of the name is blamed. -/
theorem loop_cut_short :
    (test 1 (lastPosition tokens) (tokens.drop 2) = .ok (.ident "i" ⟨7, 1⟩, []) ∧
      ([] : List Token).length + 1 ≤ (tokens.drop 2).length) ∧
    (∃ d, Grammar.statement (body 1) 2 (lastPosition tokens) (tokens.drop 1) = .error d ∧
      d.IsPlacedIn tokens) ∧
    disjunction (test 0) 1 (lastPosition tokens) (tokens.drop 2) =
      disjunction (test 5) 6 (lastPosition tokens) (tokens.drop 2) ∧
    Grammar.statement (body 1) 2 (lastPosition tokens) (tokens.drop 1) =
      Grammar.statement (body 4) 5 (lastPosition tokens) (tokens.drop 1) ∧
    Program.ofTokens tokens = (blocks 9 (lastPosition tokens) tokens).map Prod.fst ∧
    ∃ d, Program.ofTokens tokens = .error d ∧ d.IsPlacedIn tokens := by
  obtain ⟨hreaders, hnested, hbodies, hbudgets, hprogram⟩ := readers_progress tokens
  obtain ⟨htakes, -, -⟩ := hreaders 1 _ .test 1 (tokens.drop 2) (List.drop_suffix 2 tokens)
  obtain ⟨-, hblames, -⟩ := hreaders 1 _ .statement 2 (tokens.drop 1) (List.drop_suffix 1 tokens)
  refine ⟨⟨rfl, (htakes _ _ rfl).2⟩, ⟨_, rfl, hblames _ rfl⟩, ?_, ?_, hbudgets 9 (by decide),
    ⟨_, rfl, hprogram _ rfl⟩⟩
  · refine hnested _ _ (IsReader.test.bounded 0) (IsReader.test.bounded 5) _ _ _ _ (by decide)
      (by decide) fun last ts hts => ?_
    have hlength : ts.length < 1 := hts
    exact IsReader.test.budgets last (by omega) (by omega)
  · refine hbodies _ _ (fun stops => (IsReader.body stops).bounded 1)
      (fun stops => (IsReader.body stops).bounded 4) _ _ _ _ (by decide) (by decide)
      fun stops last ts hts => ?_
    have hlength : ts.length < 2 := hts
    exact (IsReader.body stops).budgets last (by omega) (by omega)

end CutShort

end Grammar

end Stencil
