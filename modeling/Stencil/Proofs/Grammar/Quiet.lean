import Stencil.Proofs.Grammar.Agreement.Expression
import Stencil.Proofs.Token.Seam

/-!
What readers do with the texts among the tokens, and what they fail with. A reader carries
texts if those of the tokens that it takes are the texts of what it makes of them, in the
same order, and if it fails with a complaint of the grammar alone; texts that were carried
before it may stand in front. A quiet reader takes no text. Readers of expressions and
formulas are quiet: the only tokens that they take are words, literals and marks, and a
formula that is read twice is read from the same tokens.
-/

namespace Stencil

/-- The diagnostic is about the text of a program, not about a run of it, so no frame has
passed it on. -/
def Diagnostic.isAboutText (d : Diagnostic) : Bool :=
  match d.cause with
  | .lexical _ | .grammar _ => d.trace.isEmpty
  | _ => false

def textsOf (ts : List Token) : List String := ts.filterMap (·.kind.text?)

theorem textsOf_cons (t : Token) (ts : List Token) :
    textsOf (t :: ts) = t.kind.text?.toList ++ textsOf ts := by
  cases ht : t.kind.text? with
  | none => exact List.filterMap_cons_none ht
  | some content => exact List.filterMap_cons_some ht

namespace Grammar

variable {α β : Type}

/-- Texts from before the input and those that were taken are the texts of what was read,
or there is a complaint about the text. -/
def Carried (before : List String) (view : α → List String) (ts : List Token) :
    Except Diagnostic (α × List Token) → Prop
  | .ok (a, rest) => before ++ textsOf ts = view a ++ textsOf rest
  | .error d => d.isAboutText = true

/-- The reader carries texts over to what it reads, and fails only with complaints. -/
def Carries (before : List String) (view : α → List String) (r : Reader α) : Prop :=
  ∀ last ts, Carried before view ts (r last ts)

def CarriesAt (kind : TokenKind) (before : List String) (view : α → List String)
    (r : Reader α) : Prop :=
  ∀ last t ts, t.kind = kind → Carried before view (t :: ts) (r last (t :: ts))

abbrev Quiet (r : Reader α) : Prop := Carries [] (fun _ => []) r

section Rules

variable {before : List String} {view viewx : α → List String} {viewf : β → List String}
  {x : Reader α} {f : α → Reader β} {kind : TokenKind} {ts : List Token}

/-- Texts that the first part has carried over are there before the second part. -/
theorem carried_bind {last : Position} (hx : Carried [] viewx ts (x last ts))
    (hf : ∀ a, Carries (before ++ viewx a) viewf (f a)) :
    Carried before viewf ts ((x >>= f) last ts) := by
  change Carried before viewf ts (Reader.bind x f last ts)
  unfold Reader.bind
  cases hread : x last ts with
  | error d =>
    rw [hread] at hx
    exact hx
  | ok result =>
    obtain ⟨a, left⟩ := result
    rw [hread] at hx
    have hfirst : textsOf ts = viewx a ++ textsOf left := hx
    have hsecond := hf a last left
    dsimp only
    cases hrest : f a last left with
    | error d =>
      rw [hrest] at hsecond
      exact hsecond
    | ok result =>
      rw [hrest] at hsecond
      have hsecond : (before ++ viewx a) ++ textsOf left = viewf result.1 ++ textsOf result.2 :=
        hsecond
      rw [List.append_assoc, ← hfirst] at hsecond
      exact hsecond

namespace Carries

theorem at_kind (h : Carries before view x) (kind : TokenKind) : CarriesAt kind before view x :=
  fun last t ts _ => h last (t :: ts)

theorem pure {a : α} (h : view a = before) : Carries before view (Pure.pure a) := by
  intro last ts
  subst h
  rfl

theorem fail (fault : GrammarFault) : Carries before view (Grammar.fail fault) := fun _ _ => rfl

/-- A sequence carries over the texts of both of its parts. -/
theorem bind (hx : Carries [] viewx x) (hf : ∀ a, Carries (before ++ viewx a) viewf (f a)) :
    Carries before viewf (x >>= f) :=
  fun last ts => carried_bind (hx last ts) hf

/-- After a quiet reader there are no more texts than before. -/
theorem seq (hx : Quiet x) (hf : ∀ a, Carries before viewf (f a)) :
    Carries before viewf (x >>= f) :=
  hx.bind fun a => by
    rw [List.append_nil]
    exact hf a

/-- Where a token stands plays no part. -/
theorem position : Quiet Grammar.position := fun _ _ => rfl

theorem atExpr : Quiet Grammar.atExpr := fun _ _ => rfl

theorem needExpr (fault : GrammarFault) : Quiet (Grammar.needExpr fault) := by
  intro last ts
  unfold Grammar.needExpr
  split
  · rfl
  · rfl

theorem textsOf_dropNewlines (ts : List Token) : textsOf (dropNewlines ts) = textsOf ts := by
  induction ts with
  | nil => rfl
  | cons t ts ih =>
    unfold dropNewlines
    split
    · next hnewline =>
      rw [ih, textsOf_cons, hnewline]
      rfl
    · rfl

/-- Newlines are no texts. -/
theorem skipNewlines : Quiet Grammar.skipNewlines :=
  fun _ ts => (textsOf_dropNewlines ts).symm

theorem textsOf_tail_of_isAt (hat : isAt kind ts = true) (hkind : kind.text? = none) :
    textsOf ts.tail = textsOf ts := by
  cases ts with
  | nil => cases hat
  | cons t ts =>
    have htoken : t.kind = kind := of_decide_eq_true hat
    rw [textsOf_cons, htoken, hkind]
    rfl

/-- A token that is no text is taken quietly. -/
theorem eat (hkind : kind.text? = none) : Quiet (Grammar.eat kind) := by
  intro last ts
  unfold Grammar.eat
  split
  · next hat => exact (textsOf_tail_of_isAt hat hkind).symm
  · rfl

theorem expect (hkind : kind.text? = none) (fault : GrammarFault) :
    Quiet (Grammar.expect kind fault) := by
  intro last ts
  unfold Grammar.expect
  split
  · next hat => exact (textsOf_tail_of_isAt hat hkind).symm
  · rfl

theorem ident? : Quiet Grammar.ident? := by
  intro last ts
  unfold Grammar.ident?
  split
  · rfl
  · rfl

/-- A choice that a quiet reader makes. -/
theorem ite {c : Reader Bool} {y : Reader α} (hc : Quiet c) (hx : Carries before view x)
    (hy : Carries before view y) : Carries before view (do if ← c then x else y) := by
  refine hc.seq fun b => ?_
  cases b with
  | true => exact hx
  | false => exact hy

/-- A reader carries texts over if it does at the end of the input and at each kind of token. -/
theorem peek {f : Option TokenKind → Reader β} (hend : Carries before viewf (f none))
    (h : ∀ kind, CarriesAt kind before viewf (f (some kind))) :
    Carries before viewf (Grammar.peek >>= f) := by
  intro last ts
  cases ts with
  | nil => exact hend last []
  | cons t ts => exact h t.kind last t ts rfl

end Carries

namespace CarriesAt

theorem pure {a : α} (h : view a = before) : CarriesAt kind before view (Pure.pure a) :=
  (Carries.pure h).at_kind kind

theorem fail (fault : GrammarFault) : CarriesAt kind before view (Grammar.fail fault) :=
  (Carries.fail fault).at_kind kind

theorem bind (hx : CarriesAt kind [] viewx x)
    (hf : ∀ a, Carries (before ++ viewx a) viewf (f a)) :
    CarriesAt kind before viewf (x >>= f) :=
  fun last t ts hkind => carried_bind (hx last t ts hkind) hf

theorem position {f : Position → Reader β} (h : ∀ pos, CarriesAt kind before viewf (f pos)) :
    CarriesAt kind before viewf (Grammar.position >>= f) :=
  fun last t ts hkind => h t.pos last t ts hkind

/-- The token at hand goes over to the texts if it is one. -/
theorem advance {f : Unit → Reader β} (h : Carries (before ++ kind.text?.toList) viewf (f ())) :
    CarriesAt kind before viewf (Grammar.advance >>= f) := by
  rintro last t ts rfl
  have htoken : Carried [] (fun _ => t.kind.text?.toList) (t :: ts)
      (Grammar.advance last (t :: ts)) := textsOf_cons t ts
  exact carried_bind htoken fun _ => h

/-- A token that is no text is left out. -/
theorem skip (hkind : kind.text? = none) {f : Unit → Reader β} (h : Carries before viewf (f ())) :
    CarriesAt kind before viewf (Grammar.advance >>= f) := by
  refine advance ?_
  rwa [hkind, Option.toList_none, List.append_nil]

end CarriesAt

end Rules

namespace Carries

theorem itemsUntil {item : Reader α} (hitem : Quiet item) (closer : Punct)
    (fault : Option TokenKind → GrammarFault) (budget : Nat) :
    Quiet (Grammar.itemsUntil item closer fault budget) := by
  induction budget with
  | zero => exact hitem.seq fun a => pure rfl
  | succ budget ih =>
    unfold Grammar.itemsUntil
    refine skipNewlines.seq fun _ => ite (eat rfl) (pure rfl) ?_
    refine hitem.seq fun first => skipNewlines.seq fun _ => ?_
    refine ite (eat rfl) (ih.seq fun rest => pure rfl) (ite (eat rfl) (pure rfl) ?_)
    exact peek (fail _) fun kind => .fail _

/-! Expressions. -/

section Expression

variable {test : Reader Expr} (htest : Quiet test)

include htest

theorem needed (fault : GrammarFault) : Quiet (Grammar.needed test fault) :=
  (needExpr fault).seq fun _ => htest

theorem dictEntry : Quiet (Grammar.dictEntry test) := by
  unfold Grammar.dictEntry
  refine (needed htest _).seq fun key => skipNewlines.seq fun _ => (expect rfl _).seq fun _ => ?_
  exact skipNewlines.seq fun _ => (needed htest _).seq fun value => pure rfl

/-- No atom is a text outside of blocks. -/
theorem atom (budget : Nat) : Quiet (Grammar.atom test budget) := by
  intro last ts
  cases ts with
  | nil => rfl
  | cons t ts =>
    cases hleaf : leaf? t.kind with
    | some leaf =>
      have hkind : t.kind.text? = none := by
        generalize t.kind = kind at hleaf
        cases kind <;> first | rfl | cases hleaf
      have htexts : textsOf (t :: ts) = textsOf ts := by
        rw [textsOf_cons, hkind]
        rfl
      rw [atom_of_leaf hleaf]
      exact htexts
    | none =>
      by_cases hbracket : t.kind = .punct .lbracket
      · have hitems : Quiet (do return Expr.array (← Grammar.arrayItems test budget) t.pos) :=
          (itemsUntil (needed htest _) _ _ budget).seq fun items => pure rfl
        have harray : CarriesAt (.punct .lbracket) [] (fun _ => []) (do
            Grammar.advance
            return Expr.array (← Grammar.arrayItems test budget) t.pos) := .skip rfl hitems
        rw [atom_lbracket hbracket]
        exact harray last t ts hbracket
      by_cases hbrace : t.kind = .punct .lbrace
      · have hentries : Quiet (do return Expr.dict (← Grammar.dictEntries test budget) t.pos) :=
          (itemsUntil (dictEntry htest) _ _ budget).seq fun entries => pure rfl
        have hdict : CarriesAt (.punct .lbrace) [] (fun _ => []) (do
            Grammar.advance
            return Expr.dict (← Grammar.dictEntries test budget) t.pos) := .skip rfl hentries
        rw [atom_lbrace hbrace]
        exact hdict last t ts hbrace
      rw [atom_of_stray rfl hleaf hbracket hbrace]
      rfl

theorem factor (budget : Nat) : Quiet (Grammar.factor test budget) := by
  unfold Grammar.factor
  refine ite (eat rfl) ?_ (atom htest budget)
  refine skipNewlines.seq fun _ => (needed htest _).seq fun inner => skipNewlines.seq fun _ => ?_
  exact (expect rfl _).seq fun _ => pure rfl

theorem links (budget : Nat) : Quiet (Grammar.links test budget) := by
  induction budget with
  | zero => exact pure rfl
  | succ budget ih =>
    unfold Grammar.links
    refine position.seq fun pos => peek (pure rfl) fun kind => ?_
    cases kind with
    | punct mark =>
      cases mark with
      | dot =>
        refine .skip rfl (ident?.seq fun found => ?_)
        cases found with
        | some name => exact ih.seq fun rest => pure rfl
        | none => exact peek (fail _) fun kind => .fail _
      | lparen =>
        refine .skip rfl ((itemsUntil (needed htest _) _ _ budget).seq fun args => ?_)
        exact ih.seq fun rest => pure rfl
      | lbracket =>
        refine .skip rfl (skipNewlines.seq fun _ => (needed htest _).seq fun key => ?_)
        refine skipNewlines.seq fun _ => (expect rfl _).seq fun _ => ih.seq fun rest => pure rfl
      | _ => exact .pure rfl
    | _ => exact .pure rfl

theorem chain (budget : Nat) : Quiet (Grammar.chain test budget) := by
  unfold Grammar.chain
  refine (factor htest budget).seq fun head => (links htest budget).seq fun ops => ?_
  cases ops with
  | nil => exact pure rfl
  | cons link rest => exact pure rfl

theorem negative (budget : Nat) : Quiet (Grammar.negative test budget) := by
  unfold Grammar.negative
  refine position.seq fun pos => ite (eat rfl) ?_ (chain htest budget)
  exact (needExpr _).seq fun _ => (chain htest budget).seq fun operand => pure rfl

end Expression

section Levels

variable {operand : Reader Expr} (hoperand : Quiet operand)

include hoperand

/-- No text is an operator. -/
theorem operands {ω : Type} (operator? : TokenKind → Option ω)
    (hoperator : ∀ content, operator? (.text content) = none) (level : Level) (budget : Nat) :
    Quiet (Grammar.operands operator? level operand budget) := by
  induction budget with
  | zero => exact pure rfl
  | succ budget ih =>
    unfold Grammar.operands
    refine position.seq fun pos => peek (pure rfl) fun kind => ?_
    rw [Option.bind_some]
    cases hop : operator? kind with
    | none => exact .pure rfl
    | some op =>
      have hkind : kind.text? = none := by
        cases kind with
        | text content =>
          rw [hoperator] at hop
          cases hop
        | _ => rfl
      refine .skip hkind ((needExpr _).seq fun _ => hoperand.seq fun e => ?_)
      exact ih.seq fun rest => pure rfl

theorem junction (keyword : Keyword) (level : Level) (budget : Nat) :
    Quiet (Grammar.junction keyword level operand budget) := by
  induction budget with
  | zero => exact pure rfl
  | succ budget ih =>
    unfold Grammar.junction
    refine ite (eat rfl) ?_ (pure rfl)
    refine skipNewlines.seq fun _ => (needExpr _).seq fun _ => hoperand.seq fun e => ?_
    exact ih.seq fun rest => pure rfl

theorem operation {ω : Type} (operator? : TokenKind → Option ω)
    (hoperator : ∀ content, operator? (.text content) = none) (level : Level)
    (node : Expr → List (ω × Expr × Position) → Expr) (budget : Nat) :
    Quiet (Grammar.operation operator? level operand node budget) := by
  unfold Grammar.operation
  refine hoperand.seq fun first => (operands hoperand _ hoperator _ budget).seq fun rest => ?_
  cases rest with
  | nil => exact pure rfl
  | cons step rest => exact pure rfl

theorem gathering (keyword : Keyword) (level : Level) (node : List Expr → Expr) (budget : Nat) :
    Quiet (Grammar.gathering keyword level operand node budget) := by
  unfold Grammar.gathering
  refine hoperand.seq fun first => (junction hoperand _ _ budget).seq fun rest => ?_
  cases rest with
  | nil => exact pure rfl
  | cons item rest => exact pure rfl

end Levels

section Test

variable {test : Reader Expr} {budget : Nat}

theorem negation (hcomparison : Quiet (Grammar.comparison test budget)) (left : Nat) :
    Quiet (Grammar.negation test budget left) := by
  induction left with
  | zero => exact hcomparison
  | succ left ih =>
    unfold Grammar.negation
    refine position.seq fun pos => ite (eat rfl) ?_ hcomparison
    exact (needExpr _).seq fun _ => ih.seq fun operand => pure rfl

/-- From the tier of the minus sign down to the weakest one. -/
theorem disjunction (htest : Quiet test) (budget : Nat) :
    Quiet (Grammar.disjunction test budget) := by
  have hproduct : Quiet (tierReader test budget budget .multiplicative) := by
    rw [tierReader_multiplicative]
    exact operation (negative htest budget) _ (fun _ => rfl) _ _ budget
  have hsum : Quiet (tierReader test budget budget .additive) := by
    rw [tierReader_additive]
    exact operation hproduct _ (fun _ => rfl) _ _ budget
  have haugmented : Quiet (tierReader test budget budget .augment) := by
    rw [tierReader_augment]
    exact operation hsum _ (fun _ => rfl) _ _ budget
  have hcomparison : Quiet (tierReader test budget budget .comparison) := by
    rw [tierReader_comparison]
    exact operation haugmented _ (fun _ => rfl) _ _ budget
  have hnegation : Quiet (tierReader test budget budget .not) := negation hcomparison budget
  have hconjunction : Quiet (tierReader test budget budget .and) := by
    rw [tierReader_and]
    exact gathering hnegation _ _ _ budget
  have hdisjunction : Quiet (tierReader test budget budget .or) := by
    rw [tierReader_or]
    exact gathering hconjunction _ _ _ budget
  exact hdisjunction

end Test

/-- Expressions take no text. -/
theorem test (budget : Nat) : Quiet (Grammar.test budget) := by
  induction budget with
  | zero => exact fail _
  | succ budget ih => exact disjunction ih (budget + 1)

/-! Formulas. -/

theorem assigned {value : Reader α} (hvalue : Quiet value) (fault : GrammarFault)
    (budget : Nat) : Quiet (Grammar.assigned value fault budget) := by
  induction budget with
  | zero => exact pure rfl
  | succ budget ih =>
    unfold Grammar.assigned
    refine ite (eat rfl) ?_ (pure rfl)
    exact (needExpr fault).seq fun _ => hvalue.seq fun v => ih.seq fun rest => pure rfl

theorem assignments? (budget left : Nat) : Quiet (Grammar.assignments? budget left) := by
  induction left with
  | zero => exact fail _
  | succ left ih =>
    unfold Grammar.assignments?
    refine (test budget).seq fun first => (assigned (test budget) _ budget).seq fun values => ?_
    cases values with
    | nil => exact pure rfl
    | cons value values =>
      refine ite (eat rfl) (ite atExpr ?_ (pure rfl)) (pure rfl)
      exact ih.seq fun chains => pure rfl

theorem testList (budget left : Nat) : Quiet (Grammar.testList budget left) := by
  induction left with
  | zero => exact fail _
  | succ left ih =>
    unfold Grammar.testList
    refine (test budget).seq fun first => ite (eat rfl) ?_ (pure rfl)
    exact (needExpr _).seq fun _ => ih.seq fun rest => pure rfl

theorem parallel (budget : Nat) : Quiet (Grammar.parallel budget) := by
  unfold Grammar.parallel
  refine (testList budget budget).seq fun first => ?_
  exact (assigned (testList budget budget) _ budget).seq fun rest => pure rfl

/-- Formulas take no text. -/
theorem formula (budget : Nat) : Quiet (Grammar.formula budget) := by
  intro last ts
  have hchains := assignments? budget budget last ts
  unfold Grammar.formula
  cases hread : Grammar.assignments? budget budget last ts with
  | error d =>
    rw [hread] at hchains
    exact hchains
  | ok result =>
    obtain ⟨chains, rest⟩ := result
    rw [hread] at hchains
    cases chains with
    | some chains => exact hchains
    | none => exact parallel budget last ts

end Carries

end Grammar

end Stencil
