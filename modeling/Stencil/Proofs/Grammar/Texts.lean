import Stencil.Proofs.Grammar.Quiet
import Stencil.Proofs.Grammar.Agreement.Program

/-!
The texts of a program. The texts that stand in the bodies of statements, read from left
to right, are those of the tokens: each reader carries the texts it takes over to the
statements it makes, and a program leaves no token. Only the readers of the blocks of a
program and of the text in a body take texts; all others hand on those of the bodies in
them.
-/

namespace Stencil

mutual

def Stmt.texts : Stmt → List String
  | .text content => [content]
  | .cond branches otherwise _ => textsOfBranches branches ++ textsOfElse otherwise
  | .loop _ _ _ body _ => textsOfBody body
  | .function _ _ _ _ body _ => textsOfBody body
  | .struct _ body _ => textsOfBody body
  | .block _ body _ => textsOfBody body
  | .inject _ body _ => textsOfBody body
  | _ => []

def textsOfBody : List Stmt → List String
  | [] => []
  | stmt :: rest => stmt.texts ++ textsOfBody rest

def textsOfBranches : List (Expr × List Stmt) → List String
  | [] => []
  | (_, body) :: rest => textsOfBody body ++ textsOfBranches rest

def textsOfElse : Option (List Stmt) → List String
  | none => []
  | some body => textsOfBody body

end

def Program.texts (program : Program) : List String := textsOfBody program

theorem textsOfBody_append (body body' : List Stmt) :
    textsOfBody (body ++ body') = textsOfBody body ++ textsOfBody body' := by
  induction body with
  | nil => rfl
  | cons stmt body ih =>
    rw [List.cons_append, textsOfBody, textsOfBody, ih, List.append_assoc]

namespace Grammar

namespace Carries

/-! Template blocks. -/

/-- A reference block has no text in it. -/
theorem referenceBlock (budget : Nat) :
    CarriesAt .refOpen [] Stmt.texts (Grammar.referenceBlock budget) := by
  unfold Grammar.referenceBlock
  refine .position fun pos => .skip rfl (skipNewlines.seq fun _ => (needExpr _).seq fun _ => ?_)
  refine (formula budget).seq fun f => skipNewlines.seq fun _ => peek (fail _) fun kind => ?_
  cases kind with
  | refClose => exact .skip rfl (pure rfl)
  | _ => exact .fail _

/-- The texts between code blocks go over to the body that they stand in. -/
theorem templateBlocks (budget : Nat) :
    Carries [] textsOfBody (Grammar.templateBlocks budget) := by
  induction budget with
  | zero => exact pure rfl
  | succ budget ih =>
    unfold Grammar.templateBlocks
    refine peek (pure rfl) fun kind => ?_
    cases kind with
    | codeOpen => exact .skip rfl (pure rfl)
    | text content => exact .advance (ih.bind fun rest => pure rfl)
    | refOpen =>
      exact (referenceBlock (budget + 1)).bind fun block => ih.bind fun rest => pure rfl
    | _ => exact .fail _

/-! Statements without bodies. -/

theorem formulaUnless (stop : TokenKind) (budget : Nat) :
    Quiet (Grammar.formulaUnless stop budget) := by
  intro last ts
  have hformula := formula budget last ts
  unfold Grammar.formulaUnless
  by_cases hstop : isAt stop ts = true
  · rw [if_pos hstop]
    rfl
  · rw [if_neg hstop]
    cases hread : Grammar.formula budget last ts with
    | error d =>
      rw [hread] at hformula
      exact hformula
    | ok result =>
      rw [hread] at hformula
      exact hformula

theorem loopClauses (budget : Nat) : Quiet (Grammar.loopClauses budget) := by
  unfold Grammar.loopClauses
  refine (formulaUnless _ budget).seq fun condition => (expect rfl _).seq fun _ => ?_
  exact (formulaUnless _ budget).seq fun update => (expect rfl _).seq fun _ => pure rfl

theorem loopHead (budget : Nat) : Quiet (Grammar.loopHead budget) := by
  have hclauses : ∀ first, Quiet (do
      Grammar.expect semicolon .noColonInFor
      return (first, ← Grammar.loopClauses budget) : Reader (Option Formula × _)) := fun first =>
    (expect rfl _).seq fun _ => (loopClauses budget).seq fun clauses => pure rfl
  unfold Grammar.loopHead
  refine ite (eat rfl) (pure rfl) ((formulaUnless _ budget).seq fun first => ?_)
  dsimp only
  split
  · exact ite (eat rfl) (pure rfl) (hclauses first)
  · exact hclauses first

theorem needName (fault : GrammarFault) : Quiet (Grammar.needName fault) := by
  unfold Grammar.needName
  refine ident?.seq fun found => ?_
  cases found with
  | some name => exact pure rfl
  | none => exact fail _

theorem needPath (fault : GrammarFault) : Quiet (Grammar.needPath fault) := by
  unfold Grammar.needPath
  refine peek (fail _) fun kind => ?_
  cases kind with
  | str path => exact .skip rfl (pure rfl)
  | _ => exact .fail _

theorem parameters (budget : Nat) : Quiet (Grammar.parameters budget) := by
  unfold Grammar.parameters
  exact ite (eat rfl) (itemsUntil (needName _) _ _ budget) (pure rfl)

theorem baseName : Quiet Grammar.baseName := by
  unfold Grammar.baseName
  exact ite (eat rfl) ((needName _).seq fun name => pure rfl) (pure rfl)

theorem importEnd : Quiet Grammar.importEnd := by
  unfold Grammar.importEnd
  refine peek (pure rfl) fun kind => ?_
  cases kind with
  | newline => exact .pure rfl
  | codeClose => exact .pure rfl
  | _ => exact .fail _

theorem importName : Quiet Grammar.importName := by
  unfold Grammar.importName
  refine ident?.seq fun found => ?_
  cases found with
  | none => exact peek (fail _) fun kind => .fail _
  | some name => exact ite (eat rfl) ((needName _).seq fun rename => pure rfl) (pure rfl)

theorem importNames (budget : Nat) : Quiet (Grammar.importNames budget) := by
  induction budget with
  | zero => exact importName.seq fun name => pure rfl
  | succ budget ih =>
    unfold Grammar.importNames
    exact importName.seq fun first => ite (eat rfl) (ih.seq fun rest => pure rfl) (pure rfl)

end Carries

namespace CarriesAt

variable {kind : TokenKind} (hkind : kind.text? = none)

include hkind

theorem importAs : CarriesAt kind [] Stmt.texts Grammar.importAs := by
  unfold Grammar.importAs
  refine .position fun pos => .skip hkind ((Carries.needPath _).seq fun path => ?_)
  refine (Carries.expect rfl _).seq fun _ => (Carries.needName _).seq fun name => ?_
  exact Carries.importEnd.seq fun _ => .pure rfl

theorem importFrom (budget : Nat) : CarriesAt kind [] Stmt.texts (Grammar.importFrom budget) := by
  have hend : ∀ path names pos, Carries [] Stmt.texts (do
      if names.isEmpty then Grammar.fail .noNamesInFrom
      Grammar.importEnd
      return Stmt.importFrom path names pos : Reader Stmt) := by
    intro path names pos
    dsimp only
    split
    · exact (Carries.fail _).seq fun _ => Carries.importEnd.seq fun _ => .pure rfl
    · exact Carries.importEnd.seq fun _ => .pure rfl
  unfold Grammar.importFrom
  refine .position fun pos => .skip hkind ((Carries.needPath _).seq fun path => ?_)
  refine (Carries.expect rfl _).seq fun _ => (Carries.eat rfl).seq fun listed => ?_
  cases listed with
  | true =>
    exact (Carries.itemsUntil Carries.importName _ _ budget).seq fun names => hend path names pos
  | false => exact (Carries.importNames budget).seq fun names => hend path names pos

theorem returned (budget : Nat) : CarriesAt kind [] Stmt.texts (Grammar.returned budget) := by
  unfold Grammar.returned
  refine .position fun pos => .skip hkind (.ite .atExpr ?_ (.pure rfl))
  exact (Carries.formula budget).seq fun f => .pure rfl

end CarriesAt

/-! Statements with bodies, over a reader of bodies that carries texts. -/

section Body

variable {body : BodyReader} (hbody : ∀ stops, Carries [] textsOfBody (body stops))

include hbody

/-- The texts of a conditional are those of its branches in turn. -/
theorem Carries.branches (budget left : Nat) : Carries []
    (fun more => textsOfBranches more.1 ++ textsOfElse more.2)
    (Grammar.branches body budget left) := by
  induction left with
  | zero => exact .fail _
  | succ left ih =>
    unfold Grammar.branches
    refine .peek (.fail _) fun kind => ?_
    cases kind with
    | word keyword =>
      cases keyword with
      | elifKw =>
        refine .skip rfl ((Carries.needed (Carries.test budget) _).seq fun condition => ?_)
        refine (Carries.expect rfl _).seq fun _ => (hbody _).bind fun stmts => ?_
        refine ih.bind fun more => .pure ?_
        rw [textsOfBranches, List.append_assoc, List.nil_append]
      | elseKw =>
        refine .skip rfl ((Carries.expect rfl _).seq fun _ => (hbody _).bind fun stmts => ?_)
        exact (Carries.expect rfl _).seq fun _ => .pure rfl
      | endKw => exact .skip rfl (.pure rfl)
      | _ => exact .fail _
    | _ => exact .fail _

namespace CarriesAt

variable {kind : TokenKind} (hkind : kind.text? = none)

include hkind

/-- A conditional has the texts of its branches. -/
theorem conditional (budget : Nat) :
    CarriesAt kind [] Stmt.texts (Grammar.conditional body budget) := by
  unfold Grammar.conditional
  refine .position fun pos => .skip hkind ?_
  refine (Carries.needed (Carries.test budget) _).seq fun condition => ?_
  refine (Carries.expect rfl _).seq fun _ => (hbody _).bind fun stmts => ?_
  refine (Carries.branches hbody budget budget).bind fun more => .pure ?_
  rw [Stmt.texts, textsOfBranches, List.append_assoc, List.nil_append]

/-- A loop has the texts of its body. -/
theorem loop (budget : Nat) : CarriesAt kind [] Stmt.texts (Grammar.loop body budget) := by
  unfold Grammar.loop
  refine .position fun pos => .skip hkind ((Carries.loopHead budget).seq fun head => ?_)
  exact (hbody _).bind fun stmts => (Carries.expect rfl _).seq fun _ => .pure rfl

/-- A function has the texts of its body. -/
theorem function (isMethod : Bool) (budget : Nat) :
    CarriesAt kind [] Stmt.texts (Grammar.function isMethod body budget) := by
  unfold Grammar.function
  refine .position fun pos => .skip hkind ((Carries.needName _).seq fun name => ?_)
  refine (Carries.parameters budget).seq fun params => Carries.baseName.seq fun base => ?_
  refine (Carries.expect rfl _).seq fun _ => (hbody _).bind fun stmts => ?_
  exact (Carries.expect rfl _).seq fun _ => .pure rfl

theorem namedSection (kindOfSection : SectionKind) :
    CarriesAt kind [] Stmt.texts (Grammar.namedSection kindOfSection body) := by
  unfold Grammar.namedSection
  refine .position fun pos => .skip hkind ((Carries.needName _).seq fun name => ?_)
  refine (Carries.expect rfl _).seq fun _ => (hbody _).bind fun stmts => ?_
  refine (Carries.expect rfl _).seq fun _ => .pure ?_
  cases kindOfSection <;> rfl

end CarriesAt

/-- A statement has the texts that are read as parts of it. -/
theorem Carries.statement (budget : Nat) :
    Carries [] Stmt.texts (Grammar.statement body budget) := by
  have hformula : ∀ found pos, Carries [] Stmt.texts (do
      if ← Grammar.atExpr then return .formula (← Grammar.formula budget) pos
      Grammar.fail (.strayInCode found)) := fun found pos =>
    .ite .atExpr ((Carries.formula budget).seq fun f => .pure rfl) (.fail _)
  unfold Grammar.statement
  refine Carries.position.seq fun pos => .peek (hformula none pos) fun kind => ?_
  cases kind with
  | word keyword =>
    cases keyword with
    | ifKw => exact .conditional hbody rfl budget
    | forKw => exact .loop hbody rfl budget
    | defKw => exact .function hbody rfl false budget
    | metKw => exact .function hbody rfl true budget
    | structKw => exact .namedSection hbody rfl .struct
    | blockKw => exact .namedSection hbody rfl .block
    | injectKw => exact .namedSection hbody rfl .inject
    | importKw => exact .importAs rfl
    | fromKw => exact .importFrom rfl budget
    | returnKw => exact .returned rfl budget
    | breakKw => exact .skip rfl (.pure rfl)
    | continueKw => exact .skip rfl (.pure rfl)
    | _ => exact (hformula _ pos).at_kind _
  | _ => exact (hformula _ pos).at_kind _

end Body

namespace Carries

/-- A body has the texts of its statements. -/
theorem body (budget : Nat) (stops : List Keyword) :
    Carries [] textsOfBody (Grammar.body budget stops) := by
  induction budget generalizing stops with
  | zero => exact .pure rfl
  | succ budget ih =>
    have hstatement : ∀ kind : TokenKind, Carries [] textsOfBody (do
        if stopsAt stops kind then return []
        let stmt ← Grammar.statement (Grammar.body budget) (budget + 1)
        return stmt :: (← Grammar.body budget stops)) := by
      intro kind
      split
      · exact .pure rfl
      · exact (statement ih _).bind fun stmt => (ih stops).bind fun rest => .pure rfl
    unfold Grammar.body
    refine skipNewlines.seq fun _ => peek (.pure rfl) fun kind => ?_
    cases kind with
    | codeClose =>
      refine .skip rfl ((templateBlocks budget).bind fun blocks => (ih stops).bind fun rest => ?_)
      exact .pure (textsOfBody_append blocks rest)
    | _ => exact (hstatement _).at_kind _

theorem codeBlock (budget : Nat) : Carries [] textsOfBody (Grammar.codeBlock budget) := by
  induction budget with
  | zero => exact .fail _
  | succ budget ih =>
    have hstatement : Carries [] textsOfBody (do
        let stmt ← Grammar.statement (Grammar.body budget) (budget + 1)
        return stmt :: (← Grammar.codeBlock budget)) :=
      (statement (body budget) _).bind fun stmt => ih.bind fun rest => .pure rfl
    unfold Grammar.codeBlock
    refine skipNewlines.seq fun _ => peek (.fail _) fun kind => ?_
    cases kind with
    | codeClose => exact .skip rfl (.pure rfl)
    | _ => exact hstatement.at_kind _

/-- The texts of a program are read in their order. -/
theorem blocks (budget : Nat) : Carries [] textsOfBody (Grammar.blocks budget) := by
  induction budget with
  | zero => exact .pure rfl
  | succ budget ih =>
    unfold Grammar.blocks
    refine peek (.pure rfl) fun kind => ?_
    cases kind with
    | text content => exact .advance (ih.bind fun rest => .pure rfl)
    | refOpen =>
      exact (referenceBlock (budget + 1)).bind fun block => ih.bind fun rest => .pure rfl
    | codeOpen =>
      refine .skip rfl ((codeBlock budget).bind fun stmts => ih.bind fun rest => .pure ?_)
      exact textsOfBody_append stmts rest
    | _ => exact .fail _

end Carries

/-- A program takes all tokens. -/
theorem blocks_leaves_nothing {budget : Nat} {last : Position} {ts left : List Token}
    {program : Program} (hts : ts.length ≤ budget)
    (hread : blocks budget last ts = .ok (program, left)) : left = [] := by
  induction budget generalizing ts program with
  | zero =>
    cases hread
    exact List.eq_nil_of_length_eq_zero (Nat.le_zero.mp hts)
  | succ budget ih =>
    cases ts with
    | nil =>
      cases hread
      rfl
    | cons t ts =>
      have hw : Within (budget + 1) (budget + 1) (budget + 1) (budget + 1) (budget + 1)
        (budget + 1) := ⟨Nat.le_refl _, Nat.le_refl _, Nat.le_refl _, Nat.le_refl _, Nat.le_refl _⟩
      have htail : AllText [] := by simp [AllText]
      have htogether : Together [] [] ts ts :=
        together_of_map (List.append_nil _).symm (List.append_nil _).symm
      rw [List.length_cons, Nat.succ_le_succ_iff] at hts
      obtain ⟨_, _, rest, _, after, -, -, -, hrest, -, hafter, -⟩ :=
        exists_block last hw htail rfl htogether hts hts hread
      exact ih hrest hafter

end Grammar

/-- The texts of a program are those of its tokens. -/
theorem Program.texts_ofTokens {tokens : List Token} {program : Program}
    (h : ofTokens tokens = .ok program) : program.texts = textsOf tokens := by
  unfold ofTokens at h
  split at h
  · next left hread =>
    cases h
    have hleft : left = [] := Grammar.blocks_leaves_nothing (Nat.le_refl _) hread
    have hblocks := Grammar.Carries.blocks tokens.length (Grammar.lastPosition tokens) tokens
    rw [hread, hleft] at hblocks
    have htexts : textsOf tokens = textsOfBody program ++ [] := hblocks
    rw [htexts, List.append_nil]
    rfl
  · cases h

/-! Texts in a branch, in a loop within it and in the other branch. -/

namespace Branching

def kinds : List TokenKind :=
  [.text "a", .codeOpen, .word .ifKw, .ident "x", .punct .colon, .codeClose, .text "b", .codeOpen,
    .word .forKw, .punct .colon, .codeClose, .text "c", .codeOpen, .word .endKw, .word .elseKw,
    .punct .colon, .codeClose, .text "d", .codeOpen, .word .endKw, .codeClose, .text "e"]

def tokens : List Token := kinds.zipIdx.map fun (kind, i) => ⟨kind, ⟨i, 1⟩⟩

def program : Program :=
  [.text "a", .cond [(.ident "x" ⟨3, 1⟩, [.text "b", .loop none none none [.text "c"] ⟨8, 1⟩])]
    (some [.text "d"]) ⟨2, 1⟩, .text "e"]

/-- Texts inside a conditional, a loop and a branch are all kept. -/
theorem texts_in_order : Program.ofTokens tokens = .ok program ∧
    program.texts = textsOf tokens ∧ textsOf tokens = ["a", "b", "c", "d", "e"] :=
  ⟨rfl, Program.texts_ofTokens rfl, rfl⟩

end Branching

end Stencil
