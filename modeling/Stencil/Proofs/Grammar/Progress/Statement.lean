import Stencil.Proofs.Grammar.Agreement.Statement
import Stencil.Proofs.Grammar.Progress.Expression

/-!
How far readers of statements and programs go. A statement takes its first token before it asks
for a body, and a body asks for the next statement only behind the tokens of the one before, so
the readers of nested bodies are asked about fewer tokens.
-/

namespace Stencil.Grammar

namespace Settled

variable {shape : List Token → Prop} {n m m' b b' : Nat}

/-! Template blocks. -/

theorem referenceBlock (hb : Covers n b b' n) :
    Settled shape 1 n (Grammar.referenceBlock b) (Grammar.referenceBlock b') := by
  unfold Grammar.referenceBlock
  refine position fun pos => drop (skipNewlines.seq fun _ => (needExpr _).seq fun _ => ?_)
  refine (formula hb).pred.bind fun f => skipNewlines.seq fun _ => peek (fail _) fun kind => ?_
  cases kind with
  | refClose => exact advance (pure _)
  | _ => exact fail _

theorem templateBlocks (h : Covers n m m' n) :
    Settled Anything 0 n (Grammar.templateBlocks m) (Grammar.templateBlocks m') := by
  refine of_budget (.pure []) (.pure []) (fun m m' last => ?_) (fun n m m' h ih => ?_) h
  · cases m <;> cases m' <;> rfl
  · unfold Grammar.templateBlocks
    refine peek (pure []) fun kind => ?_
    cases kind with
    | codeOpen => exact advance (pure [])
    | text content => exact advance (ih.bind fun rest => pure _)
    | refOpen =>
      have hblock : Settled (Begins .refOpen) 1 n (Grammar.referenceBlock (m + 1))
          (Grammar.referenceBlock (m' + 1)) := referenceBlock h.self
      exact (hblock.bind_pred fun block => ih.bind fun rest => pure _).loose
    | _ => exact fail _

/-! Statements without bodies. -/

theorem formulaUnless (stop : TokenKind) (hb : Covers n b b' n) :
    Settled shape 0 n (Grammar.formulaUnless stop b) (Grammar.formulaUnless stop b') := by
  refine of_inputs fun ts hts => ?_
  cases hat : isAt stop ts with
  | true => exact (pure none).as hts (fun _ => if_pos hat) fun _ => if_pos hat
  | false =>
    have hformula : Settled shape 0 n (do return some (← Grammar.formula b))
        (do return some (← Grammar.formula b')) :=
      ((formula hb).on shape).loose.bind fun f => pure _
    exact hformula.as hts (fun _ => formulaUnless_of_isAt_eq_false hat)
      fun _ => formulaUnless_of_isAt_eq_false hat

theorem loopClauses (hb : Covers n b b' n) :
    Settled Anything 1 n (Grammar.loopClauses b) (Grammar.loopClauses b') := by
  unfold Grammar.loopClauses
  refine (formulaUnless _ hb).seq fun condition => (expect _).loose.seq fun _ => ?_
  exact (formulaUnless _ hb).seq fun update => (expect _).bind fun _ => pure _

/-- A head takes its colon. -/
theorem loopHead (hb : Covers n b b' n) :
    Settled Anything 1 n (Grammar.loopHead b) (Grammar.loopHead b') := by
  have hclauses : ∀ first, Settled Anything 1 n (do
      Grammar.expect semicolon .noColonInFor
      return (first, ← Grammar.loopClauses b) : Reader (Option Formula × _)) (do
      Grammar.expect semicolon .noColonInFor
      return (first, ← Grammar.loopClauses b')) := fun first =>
    (expect _).loose.seq fun _ => (loopClauses hb).bind fun clauses => pure _
  unfold Grammar.loopHead
  refine ite_eat (pure _) ((formulaUnless _ hb).seq fun first => ?_)
  dsimp only
  split
  · exact ite_eat (pure _) (hclauses first)
  · exact hclauses first

theorem needName (fault : GrammarFault) :
    Settled shape 1 n (Grammar.needName fault) (Grammar.needName fault) := by
  unfold Grammar.needName
  exact ident? (fun name => pure name) (fail _)

theorem needPath (fault : GrammarFault) :
    Settled shape 1 n (Grammar.needPath fault) (Grammar.needPath fault) := by
  unfold Grammar.needPath
  refine peek (fail _) fun kind => ?_
  cases kind with
  | str path => exact advance (pure path)
  | _ => exact fail _

theorem parameters (h : Covers n m m' n) :
    Settled Anything 0 n (Grammar.parameters m) (Grammar.parameters m') := by
  unfold Grammar.parameters
  exact ite_eat (itemsUntil (needName _) _ _ h).pred.loose (pure [])

theorem baseName : Settled shape 0 n Grammar.baseName Grammar.baseName := by
  unfold Grammar.baseName
  exact ite_eat ((needName _).loose.bind fun name => pure _) (pure none)

theorem importEnd : Settled shape 0 n Grammar.importEnd Grammar.importEnd := by
  unfold Grammar.importEnd
  refine peek (pure _) fun kind => ?_
  cases kind with
  | newline => exact pure _
  | codeClose => exact pure _
  | _ => exact fail _

theorem importName : Settled Anything 1 n Grammar.importName Grammar.importName := by
  unfold Grammar.importName
  refine ident? (fun name => ?_) (peek (fail _) fun kind => fail _)
  exact ite_eat ((needName _).loose.bind fun rename => pure _) (pure _)

theorem importNames (h : Covers n m m' n) :
    Settled Anything 1 n (Grammar.importNames m) (Grammar.importNames m') := by
  have hname : Settled Anything 1 n Grammar.importName Grammar.importName := importName
  refine of_budget (hname.left.bind fun name => .pure [name])
    (hname.right.bind fun name => .pure [name]) (fun m m' last => ?_) (fun n m m' h ih => ?_) h
  · cases m <;> cases m' <;> rfl
  · unfold Grammar.importNames
    refine importName.bind fun first => ite_eat ?_ (pure [first])
    exact ih.loose.bind fun rest => pure _

theorem importAs : Settled shape 1 n Grammar.importAs Grammar.importAs := by
  unfold Grammar.importAs
  refine position fun pos => drop ((needPath _).bind fun path => (expect _).loose.seq fun _ => ?_)
  exact (needName _).loose.seq fun name => importEnd.bind fun _ => pure _

theorem importFrom (hb : Covers n b b' n) :
    Settled shape 1 n (Grammar.importFrom b) (Grammar.importFrom b') := by
  have hend : ∀ {n} names path pos, Settled Anything 0 n (do
      if List.isEmpty names then Grammar.fail .noNamesInFrom
      Grammar.importEnd
      return Stmt.importFrom path names pos : Reader Stmt) (do
      if List.isEmpty names then Grammar.fail .noNamesInFrom
      Grammar.importEnd
      return Stmt.importFrom path names pos) := by
    intro n names path pos
    dsimp only
    split
    · exact (fail (k := 0) _).seq fun _ => importEnd.bind fun _ => pure _
    · exact importEnd.bind fun _ => pure _
  unfold Grammar.importFrom
  refine position fun pos => drop ((needPath _).bind fun path => (expect _).loose.seq fun _ => ?_)
  have hnames := importNames hb.below
  have hlisted := itemsUntil importName .rparen .strayInNames hb.below
  refine ite_eat (hlisted.pred.loose.bind fun names => hend names path pos)
    (hnames.loose.bind fun names => hend names path pos)

theorem returned (hb : Covers n b b' n) :
    Settled shape 0 n (Grammar.returned b) (Grammar.returned b') := by
  unfold Grammar.returned
  refine position fun pos => drop (ite_atExpr ?_ (pure _))
  exact (formula hb).pred.loose.bind fun f => pure _

/-- At a token that token is taken. -/
theorem returned_at {kind : TokenKind} (hb : Covers n b b' n) :
    Settled (Begins kind) 1 n (Grammar.returned b) (Grammar.returned b') := by
  unfold Grammar.returned
  refine position fun pos => advance (ite_atExpr ?_ (pure _))
  exact (formula hb).pred.loose.bind fun f => pure _

/-! Statements with bodies, over readers of bodies. -/

section Body

variable {body body' : BodyReader}
  (hbody : ∀ stops, Settled Anything 0 (n - 1) (body stops) (body' stops)) (hb : Covers n b b' n)

include hbody hb

/-- Each further branch takes a word, and the last one the end. -/
theorem branches {j : Nat} (h : Covers j m m' n) :
    Settled Anything 1 j (Grammar.branches body b m) (Grammar.branches body' b' m') := by
  refine of_budget (.fail _) (.fail _) (fun m m' last => ?_) (fun j m m' h ih => ?_) h
  · cases m <;> cases m' <;> rfl
  · have hstmts : ∀ stops, Settled Anything 0 (j - 1) (body stops) (body' stops) :=
      fun stops => (hbody stops).shorter h.pred.bound
    unfold Grammar.branches
    refine peek (fail _) fun kind => ?_
    cases kind with
    | word keyword =>
      cases keyword with
      | elifKw =>
        have htest : Settled Anything 1 (j - 1) (Grammar.test b) (Grammar.test b') :=
          ((test hb).shorter h.bound).pred
        refine advance ((needed htest _).loose.bind fun condition => ?_)
        refine (expect _).loose.bind fun _ => (hstmts _).bind fun stmts => ?_
        exact ih.loose.bind fun more => pure _
      | elseKw =>
        refine advance ((expect _).loose.bind fun _ => (hstmts _).bind fun stmts => ?_)
        exact (expect _).loose.bind fun _ => pure _
      | endKw => exact advance (pure _)
      | _ => exact fail _
    | _ => exact fail _

theorem conditional :
    Settled shape 1 n (Grammar.conditional body b) (Grammar.conditional body' b') := by
  unfold Grammar.conditional
  refine position fun pos => drop ((needed (test hb).pred _).bind fun condition => ?_)
  refine (expect _).loose.bind fun _ => (hbody _).bind fun stmts => ?_
  exact (branches hbody hb hb).pred.loose.bind fun more => pure _

theorem loop : Settled shape 1 n (Grammar.loop body b) (Grammar.loop body' b') := by
  unfold Grammar.loop
  refine position fun pos => drop ((loopHead hb.below).bind fun head => ?_)
  exact (hbody _).bind fun stmts => (expect _).loose.bind fun _ => pure _

theorem function (isMethod : Bool) :
    Settled shape 1 n (Grammar.function isMethod body b) (Grammar.function isMethod body' b') := by
  unfold Grammar.function
  refine position fun pos => drop ((needName _).bind fun name => ?_)
  refine (parameters hb.below).bind fun params => baseName.bind fun base => ?_
  refine (expect _).loose.bind fun _ => (hbody _).bind fun stmts => ?_
  exact (expect _).loose.bind fun _ => pure _

omit hb in
theorem namedSection (kind : SectionKind) :
    Settled shape 1 n (Grammar.namedSection kind body) (Grammar.namedSection kind body') := by
  unfold Grammar.namedSection
  refine position fun pos => drop ((needName _).bind fun name => (expect _).loose.bind fun _ => ?_)
  exact (hbody _).bind fun stmts => (expect _).loose.bind fun _ => pure _

/-- A statement takes a token, and asks for bodies behind it. -/
theorem statement :
    Settled shape 1 n (Grammar.statement body b) (Grammar.statement body' b') := by
  have hformula : ∀ {shape} found pos, Settled shape 1 n (do
      if ← Grammar.atExpr then return Stmt.formula (← Grammar.formula b) pos
      Grammar.fail (.strayInCode found)) (do
      if ← Grammar.atExpr then return Stmt.formula (← Grammar.formula b') pos
      Grammar.fail (.strayInCode found)) := fun found pos =>
    ite_atExpr (((formula hb).on _).bind fun f => pure _) (fail _)
  unfold Grammar.statement
  refine position fun pos => peek (hformula none pos) fun kind => ?_
  cases kind with
  | word keyword =>
    cases keyword with
    | ifKw => exact conditional hbody hb
    | forKw => exact loop hbody hb
    | defKw => exact function hbody hb false
    | metKw => exact function hbody hb true
    | structKw => exact namedSection hbody .struct
    | blockKw => exact namedSection hbody .block
    | injectKw => exact namedSection hbody .inject
    | importKw => exact importAs
    | fromKw => exact importFrom hb
    | returnKw => exact returned_at hb
    | breakKw => exact advance (pure _)
    | continueKw => exact advance (pure _)
    | _ => exact hformula _ pos
  | _ => exact hformula _ pos

end Body

/-- A body takes what its statements take. -/
theorem body (stops : List Keyword) (h : Covers n m m' n) :
    Settled Anything 0 n (Grammar.body m stops) (Grammar.body m' stops) := by
  refine of_budgets (fun _ => .pure []) (fun _ => .pure []) (fun m m' last stops => ?_)
    (fun n m m' h ih stops => ?_) h stops
  · cases m <;> cases m' <;> rfl
  · have hstatement : ∀ kind : TokenKind, Settled (Begins kind) 0 n (do
        if stopsAt stops kind then return []
        let stmt ← Grammar.statement (Grammar.body m) (m + 1)
        return stmt :: (← Grammar.body m stops)) (do
        if stopsAt stops kind then return []
        let stmt ← Grammar.statement (Grammar.body m') (m' + 1)
        return stmt :: (← Grammar.body m' stops)) := by
      intro kind
      split
      · exact pure []
      · have hstmt : Settled (Begins kind) 1 n (Grammar.statement (Grammar.body m) (m + 1))
            (Grammar.statement (Grammar.body m') (m' + 1)) := statement ih h.self
        exact (hstmt.bind_pred fun stmt => (ih stops).bind fun rest => pure _).loose
    unfold Grammar.body
    refine skipNewlines.seq fun _ => peek (pure []) fun kind => ?_
    cases kind with
    | codeClose =>
      refine advance ((templateBlocks h.self.pred).bind fun blocks => ?_)
      exact (ih stops).bind fun rest => pure _
    | _ => exact hstatement _

/-- A code block takes its closer. -/
theorem codeBlock (h : Covers n m m' n) :
    Settled Anything 1 n (Grammar.codeBlock m) (Grammar.codeBlock m') := by
  refine of_budget (.fail _) (.fail _) (fun m m' last => ?_) (fun n m m' h ih => ?_) h
  · cases m <;> cases m' <;> rfl
  · have hstatement : ∀ {shape}, Settled shape 1 n (do
        let stmt ← Grammar.statement (Grammar.body m) (m + 1)
        return stmt :: (← Grammar.codeBlock m)) (do
        let stmt ← Grammar.statement (Grammar.body m') (m' + 1)
        return stmt :: (← Grammar.codeBlock m')) :=
      (statement (fun stops => body stops h.self.pred) h.self).bind_pred fun stmt =>
        ih.loose.bind fun rest => pure _
    unfold Grammar.codeBlock
    refine skipNewlines.seq fun _ => peek (fail _) fun kind => ?_
    cases kind with
    | codeClose => exact advance (pure _)
    | _ => exact hstatement

theorem blocks (h : Covers n m m' n) :
    Settled Anything 0 n (Grammar.blocks m) (Grammar.blocks m') := by
  refine of_budget (.pure _) (.pure _) (fun m m' last => ?_) (fun n m m' h ih => ?_) h
  · cases m <;> cases m' <;> rfl
  · unfold Grammar.blocks
    refine peek (pure _) fun kind => ?_
    cases kind with
    | text content => exact advance (ih.bind fun rest => pure _)
    | refOpen =>
      have hblock : Settled (Begins .refOpen) 1 n (Grammar.referenceBlock (m + 1))
          (Grammar.referenceBlock (m' + 1)) := referenceBlock h.self
      exact (hblock.bind_pred fun block => ih.bind fun rest => pure _).loose
    | codeOpen =>
      exact advance ((codeBlock h.self.pred).loose.bind fun stmts => ih.bind fun rest => pure _)
    | _ => exact fail _

end Settled

end Stencil.Grammar
