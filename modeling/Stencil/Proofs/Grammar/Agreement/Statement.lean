import Stencil.Grammar.Statement
import Stencil.Proofs.Grammar.Agreement.Formula

/-!
Readers of statements agree. What a statement reads of its body may come to the end of
the input, where the body ends; then the word that has to follow is missing, so no
statement is read from an input that is spent too early.
-/

namespace Stencil.Grammar

/-- Where the token does not come first, there is a formula. -/
theorem formulaUnless_of_isAt_eq_false {stop : TokenKind} {b : Nat} {last : Position}
    {ts : List Token} (h : isAt stop ts = false) :
    formulaUnless stop b last ts = (do return some (← formula b) : Reader _) last ts := by
  rw [formulaUnless, if_neg (Bool.eq_false_iff.mp h)]
  change _ = Reader.bind (formula b) _ last ts
  unfold Reader.bind
  cases formula b last ts with
  | ok result => rfl
  | error d => rfl

theorem unplaced_sectionStmt (of : SectionKind) (name : String) (body : List Stmt)
    (pos : Position) :
    (sectionStmt of name body pos).unplaced =
      sectionStmt of name (body.map Stmt.unplaced) .start := by
  cases of with
  | struct => exact congrArg (Stmt.struct name · .start) (unplacedBody_eq body)
  | block => exact congrArg (Stmt.block name · .start) (unplacedBody_eq body)
  | inject => exact congrArg (Stmt.inject name · .start) (unplacedBody_eq body)

namespace Agrees

section Plain

variable {n n' b b' : Nat}

theorem needName {fault fault' : GrammarFault} :
    Agrees 1 n n' id (Grammar.needName fault) (Grammar.needName fault') :=
  ident? (fun _ => pure rfl) fail

theorem needPath {fault fault' : GrammarFault} :
    Agrees 1 n n' id (Grammar.needPath fault) (Grammar.needPath fault') := by
  unfold Grammar.needPath
  refine peek fail fun kind => ?_
  cases kind with
  | str path => exact .advance (pure rfl)
  | _ => exact fail.at_kind _

theorem baseName : Agrees 0 n n' id Grammar.baseName Grammar.baseName := by
  unfold Grammar.baseName
  refine ite_eat (needName.seq fun name name' hname => pure ?_) (pure rfl)
  exact congrArg some hname

/-- An import ends at the same token on both sides. -/
theorem importEnd : Agrees 0 n n' id Grammar.importEnd Grammar.importEnd := by
  unfold Grammar.importEnd
  refine peek (pure rfl) fun kind => ?_
  cases kind with
  | newline => exact (pure rfl).at_kind _
  | codeClose => exact (pure rfl).at_kind _
  | _ => exact fail.at_kind _

theorem importName : Agrees 1 n n' id Grammar.importName Grammar.importName := by
  unfold Grammar.importName
  refine ident? (fun name => ite_eat (needName.seq fun rename rename' h => ?_) (pure rfl))
    (peek fail fun _ => fail.at_kind _)
  obtain rfl : rename = rename' := h
  exact pure rfl

/-- The same names are taken from a module. -/
theorem importNames {m m' N N' : Nat} (hw : Within n n' m m' N N') :
    Agrees 1 n n' id (Grammar.importNames m) (Grammar.importNames m') := by
  have hend : ∀ m last, ∃ d, Grammar.importNames m last [] = .error d := by
    intro m last
    cases m with
    | zero => exact ⟨_, rfl⟩
    | succ m => exact ⟨_, rfl⟩
  refine of_budget (fun m m' => end_of_error (hend m) (hend m')) (fun n n' m m' _ ih => ?_) hw
  unfold Grammar.importNames
  refine importName.bind_sub fun first first' hfirst => ?_
  obtain rfl : first = first' := hfirst
  refine ite_eat (ih.loose.pred.bind fun rest rest' hrest => ?_) (pure rfl)
  obtain rfl : rest = rest' := hrest
  exact pure rfl

theorem importAs (kind : TokenKind) : AgreesAt kind 1 n n' Stmt.unplaced Grammar.importAs
    Grammar.importAs := by
  unfold Grammar.importAs
  refine .position fun pos pos' => .advance (needPath.seq fun path path' hpath => ?_)
  refine (expect _).seq fun _ _ _ => needName.seq fun name name' hname => ?_
  obtain rfl : path = path' := hpath
  obtain rfl : name = name' := hname
  exact importEnd.seq fun _ _ _ => pure rfl

variable (hb : Within n n' b b' n n')

include hb

theorem parameters : Agrees 0 n n' id (Grammar.parameters b) (Grammar.parameters b') := by
  unfold Grammar.parameters
  refine ite_eat (pred ?_) (pure rfl)
  exact (itemsUntil needName .rparen hb).coarsen fun names names' h => by simpa using h

/-- The path and the names of an import are the same on both sides. -/
theorem importFrom (kind : TokenKind) : AgreesAt kind 1 (n + 1) (n' + 1) Stmt.unplaced
    (Grammar.importFrom b) (Grammar.importFrom b') := by
  have hend : ∀ path names pos pos', Agrees 0 n n' Stmt.unplaced
      (do
        if names.isEmpty then Grammar.fail .noNamesInFrom
        Grammar.importEnd
        return Stmt.importFrom path names pos)
      (do
        if names.isEmpty then Grammar.fail .noNamesInFrom
        Grammar.importEnd
        return Stmt.importFrom path names pos') := by
    intro path names pos pos'
    have hfail : Agrees 0 n n' id (Grammar.fail .noNamesInFrom : Reader Unit)
        (Grammar.fail .noNamesInFrom) := fail
    dsimp only
    split
    · exact hfail.seq fun _ _ _ => importEnd.seq fun _ _ _ => pure rfl
    · exact importEnd.seq fun _ _ _ => pure rfl
  unfold Grammar.importFrom
  refine .position fun pos pos' => .advance (needPath.seq fun path path' hpath => ?_)
  obtain rfl : path = path' := hpath
  refine (expect _).seq fun _ _ _ => ite_eat ?_ ?_
  · refine pred ?_
    refine (itemsUntil importName .rparen hb).bind fun names names' hnames => ?_
    obtain rfl : names = names' := by simpa using hnames
    exact hend path names pos pos'
  · refine (importNames hb).seq fun names names' hnames => ?_
    obtain rfl : names = names' := hnames
    exact hend path names pos pos'

/-- A reference block is read from its opener to its closer. -/
theorem referenceBlock : Agrees 1 n n' Stmt.unplaced (Grammar.referenceBlock b)
    (Grammar.referenceBlock b') := by
  unfold Grammar.referenceBlock
  refine position.seq fun pos pos' _ => advance.seq fun _ _ _ => skipNewlines.seq fun _ _ _ => ?_
  refine needExpr.seq fun _ _ _ => (formula hb).bind fun f f' hf => skipNewlines.seq fun _ _ _ => ?_
  refine peek fail fun kind => ?_
  cases kind with
  | refClose =>
    exact .advance (pure (congrArg (Stmt.reference · .start) hf))
  | _ => exact fail.at_kind _

theorem formulaUnless (stop : TokenKind) : Agrees 0 n n' (Option.map Formula.unplaced)
    (Grammar.formulaUnless stop b) (Grammar.formulaUnless stop b') := by
  have hread : Agrees 0 n n' (Option.map Formula.unplaced) (do return some (← Grammar.formula b))
      (do return some (← Grammar.formula b')) :=
    (formula hb).seq fun f f' hf => pure (by rw [Option.map_some, Option.map_some, hf])
  refine of_kinds (hread.end_congr (fun _ => formulaUnless_of_isAt_eq_false rfl)
    fun _ => formulaUnless_of_isAt_eq_false rfl) fun kind => ?_
  by_cases hkind : kind = stop
  · have hstop : ∀ b last t ts, t.kind = kind → Grammar.formulaUnless stop b last (t :: ts) =
        (Pure.pure none : Reader (Option Formula)) last (t :: ts) := by
      intro b last t ts ht
      have hat : isAt stop (t :: ts) = true := decide_eq_true (ht.trans hkind)
      rw [Grammar.formulaUnless, if_pos hat]
      rfl
    exact ((pure rfl).at_kind kind).congr (hstop b) (hstop b')
  · refine (hread.at_kind kind).congr (fun last t ts ht => ?_) fun last t ts ht => ?_
    · exact formulaUnless_of_isAt_eq_false (decide_eq_false (ht ▸ hkind))
    · exact formulaUnless_of_isAt_eq_false (decide_eq_false (ht ▸ hkind))

/-- Clauses that are missing are missing on both sides. -/
theorem loopClauses : Agrees 0 n n'
    (fun clauses => (clauses.1.map Formula.unplaced, clauses.2.map Formula.unplaced))
    (Grammar.loopClauses b) (Grammar.loopClauses b') := by
  unfold Grammar.loopClauses
  refine (formulaUnless hb _).seq fun condition condition' hcondition => ?_
  refine (expect _).seq fun _ _ _ => (formulaUnless hb _).seq fun update update' hupdate => ?_
  refine (expect _).seq fun _ _ _ => pure ?_
  rw [hcondition, hupdate]

/-- Both heads are of the same form. -/
theorem loopHead : Agrees 0 n n'
    (fun head => (head.1.map Formula.unplaced, head.2.1.map Formula.unplaced,
      head.2.2.map Formula.unplaced))
    (Grammar.loopHead b) (Grammar.loopHead b') := by
  have hclauses : ∀ first first', first.map Formula.unplaced = first'.map Formula.unplaced →
      Agrees 0 n n' (fun head : Option Formula × _ => (head.1.map Formula.unplaced,
          head.2.1.map Formula.unplaced, head.2.2.map Formula.unplaced))
        (do
          Grammar.expect semicolon .noColonInFor
          return (first, ← Grammar.loopClauses b))
        (do
          Grammar.expect semicolon .noColonInFor
          return (first', ← Grammar.loopClauses b')) := by
    intro first first' hfirst
    refine (expect _).seq fun _ _ _ => (loopClauses hb).bind fun clauses clauses' h => pure ?_
    obtain ⟨hcondition, hupdate⟩ := Prod.mk.inj h
    rw [hfirst, hcondition, hupdate]
  unfold Grammar.loopHead
  refine ite_eat (pure rfl) ((formulaUnless hb _).seq fun first first' hfirst => ?_)
  rcases none_or_some_of_map_eq hfirst with ⟨rfl, rfl⟩ | ⟨f, f', rfl, rfl, -⟩
  · exact hclauses none none rfl
  · exact ite_eat (pure (by rw [hfirst])) (hclauses (some f) (some f') hfirst)

theorem returned (kind : TokenKind) : AgreesAt kind 1 (n + 1) (n' + 1) Stmt.unplaced
    (Grammar.returned b) (Grammar.returned b') := by
  unfold Grammar.returned
  refine .position fun pos pos' => .advance (ite_atExpr ?_ (pure rfl))
  refine (formula hb).loose.bind fun f f' hf => pure ?_
  exact congrArg (fun value => Stmt.return (some value) .start) hf

end Plain

/-- Texts and reference blocks are read up to the same opener. -/
theorem templateBlocks {n n' m m' N N' : Nat} (hw : Within n n' m m' N N') :
    Agrees 0 n n' (List.map Stmt.unplaced) (Grammar.templateBlocks m)
      (Grammar.templateBlocks m') := by
  refine of_budget (fun m m' => end_of_ok [] [] (fun last => ?_) (fun last => ?_) rfl) ?_ hw
  · cases m <;> rfl
  · cases m' <;> rfl
  intro n n' m m' hw ih
  unfold Grammar.templateBlocks
  refine peek (pure rfl) fun kind => ?_
  cases kind with
  | codeOpen => exact .advance (pure rfl)
  | text content =>
    refine .advance (ih.bind fun rest rest' hrest => pure ?_)
    rw [List.map_cons, List.map_cons, hrest]
  | refOpen =>
    refine (loose (k := 1) ?_).at_kind _
    refine (referenceBlock hw.self).bind_sub fun block block' hblock => ?_
    refine ih.bind fun rest rest' hrest => pure ?_
    rw [List.map_cons, List.map_cons, hblock, hrest]
  | _ => exact fail.at_kind _

section Body

variable {n n' b b' : Nat} {body body' : BodyReader} (hb : Within n n' b b' n n')
  (hbody : ∀ stops, Agrees 0 n n' (List.map Stmt.unplaced) (body stops) (body' stops))

include hb hbody

/-- The branches of a conditional are read up to its end on both sides. -/
theorem branches {m m' : Nat} (hw : Within n n' m m' n n') :
    Agrees 0 n n' (fun found => (found.1.map unplacedBranch, found.2.map (List.map Stmt.unplaced)))
      (Grammar.branches body b m) (Grammar.branches body' b' m') := by
  refine of_budget (fun m m' => end_of_error (fun last => ?_) (fun last => ?_)) ?_ hw
  · cases m <;> exact ⟨_, rfl⟩
  · cases m' <;> exact ⟨_, rfl⟩
  intro l l' m m' hw ih
  have hnested : ∀ stops, Agrees 0 l l' (List.map Stmt.unplaced) (body stops) (body' stops) :=
    fun stops => (hbody stops).within hw.pred
  unfold Grammar.branches
  refine peek fail fun kind => ?_
  cases kind with
  | word keyword =>
    cases keyword with
    | elifKw =>
      have htest := (test hb).within hw.pred
      refine .advance ((needed htest).seq fun condition condition' hcondition => ?_)
      refine (expect _).seq fun _ _ _ => (hnested _).seq fun stmts stmts' hstmts => ?_
      refine ih.bind fun more more' hmore => pure ?_
      obtain ⟨hmore, hotherwise⟩ := Prod.mk.inj hmore
      rw [List.map_cons, List.map_cons, unplacedBranch, unplacedBranch, hcondition, hstmts, hmore,
        hotherwise]
    | elseKw =>
      refine .advance ((expect _).seq fun _ _ _ => (hnested _).seq fun stmts stmts' hstmts => ?_)
      refine (expect _).seq fun _ _ _ => pure ?_
      rw [Option.map_some, Option.map_some, hstmts]
    | endKw => exact .advance (pure rfl)
    | _ => exact fail.at_kind _
  | _ => exact fail.at_kind _

/-- A conditional is read alike if its bodies are. -/
theorem conditional (kind : TokenKind) : AgreesAt kind 1 (n + 1) (n' + 1) Stmt.unplaced
    (Grammar.conditional body b) (Grammar.conditional body' b') := by
  unfold Grammar.conditional
  refine .position fun pos pos' => .advance ?_
  refine (needed (test hb)).seq fun condition condition' hcondition => ?_
  refine (expect _).seq fun _ _ _ => (hbody _).seq fun stmts stmts' hstmts => ?_
  refine (branches hb hbody hb).bind fun found found' hfound => pure ?_
  obtain ⟨hmore, hotherwise⟩ := Prod.mk.inj hfound
  simp only [Stmt.unplaced_cond, List.map_cons, unplacedBranch, hcondition, hstmts, hmore,
    hotherwise]

/-- A loop is read alike if its body is. -/
theorem loop (kind : TokenKind) : AgreesAt kind 1 (n + 1) (n' + 1) Stmt.unplaced
    (Grammar.loop body b) (Grammar.loop body' b') := by
  unfold Grammar.loop
  refine .position fun pos pos' => .advance ((loopHead hb).seq fun head head' hhead => ?_)
  refine (hbody _).seq fun stmts stmts' hstmts => (expect _).seq fun _ _ _ => pure ?_
  obtain ⟨hinit, hclauses⟩ := Prod.mk.inj hhead
  obtain ⟨hcondition, hupdate⟩ := Prod.mk.inj hclauses
  simp only [Stmt.unplaced_loop, hinit, hcondition, hupdate, hstmts]

/-- A function is read alike if its body is. -/
theorem function (isMethod : Bool) (kind : TokenKind) :
    AgreesAt kind 1 (n + 1) (n' + 1) Stmt.unplaced (Grammar.function isMethod body b)
      (Grammar.function isMethod body' b') := by
  unfold Grammar.function
  refine .position fun pos pos' => .advance (needName.seq fun name name' hname => ?_)
  refine (parameters hb).seq fun params params' hparams => baseName.seq fun base base' hbase => ?_
  obtain rfl : name = name' := hname
  obtain rfl : params = params' := hparams
  obtain rfl : base = base' := hbase
  refine (expect _).seq fun _ _ _ => (hbody _).seq fun stmts stmts' hstmts => ?_
  refine (expect _).seq fun _ _ _ => pure ?_
  rw [Stmt.unplaced_function, Stmt.unplaced_function, hstmts]

omit hb in
theorem namedSection (of : SectionKind) (kind : TokenKind) :
    AgreesAt kind 1 (n + 1) (n' + 1) Stmt.unplaced (Grammar.namedSection of body)
      (Grammar.namedSection of body') := by
  unfold Grammar.namedSection
  refine .position fun pos pos' => .advance (needName.seq fun name name' hname => ?_)
  obtain rfl : name = name' := hname
  refine (expect _).seq fun _ _ _ => (hbody _).seq fun stmts stmts' hstmts => ?_
  refine (expect _).seq fun _ _ _ => pure ?_
  rw [unplaced_sectionStmt, unplaced_sectionStmt, hstmts]

omit hb in
/-- One statement, which takes at least one token. -/
theorem statement {m m' : Nat} (hm : Within (n + 1) (n' + 1) m m' (n + 1) (n' + 1)) :
    Agrees 1 (n + 1) (n' + 1) Stmt.unplaced (Grammar.statement body m)
      (Grammar.statement body' m') := by
  have hformula : ∀ pos pos' found found', Agrees 1 (n + 1) (n' + 1) Stmt.unplaced
      (do
        if ← atExpr then return .formula (← Grammar.formula m) pos
        Grammar.fail (.strayInCode found))
      (do
        if ← atExpr then return .formula (← Grammar.formula m') pos'
        Grammar.fail (.strayInCode found')) := by
    intro pos pos' found found'
    refine ite_atExpr ((formula hm).bind fun f f' hf => pure ?_) fail
    exact congrArg (Stmt.formula · .start) hf
  unfold Grammar.statement
  refine position.seq fun pos pos' _ => peek (hformula pos pos' none none) fun kind => ?_
  cases kind with
  | word keyword =>
    cases keyword with
    | ifKw => exact conditional hm.below hbody _
    | forKw => exact loop hm.below hbody _
    | defKw => exact function hm.below hbody false _
    | metKw => exact function hm.below hbody true _
    | structKw => exact namedSection hbody .struct _
    | blockKw => exact namedSection hbody .block _
    | injectKw => exact namedSection hbody .inject _
    | importKw => exact importAs _
    | fromKw => exact importFrom hm.below _
    | returnKw => exact returned hm.below _
    | breakKw => exact .advance (pure rfl)
    | continueKw => exact .advance (pure rfl)
    | _ => exact (hformula pos pos' _ _).at_kind _
  | _ => exact (hformula pos pos' _ _).at_kind _

end Body

/-- A body is read up to the same word on both sides. -/
theorem body {n n' m m' N N' : Nat} (hw : Within n n' m m' N N') (stops : List Keyword) :
    Agrees 0 n n' (List.map Stmt.unplaced) (Grammar.body m stops) (Grammar.body m' stops) := by
  refine of_budgets (fun m m' stops => end_of_ok [] [] (fun last => ?_) (fun last => ?_) rfl)
    (fun n n' m m' hw ih stops => ?_) hw stops
  · cases m <;> rfl
  · cases m' <;> rfl
  have hother : ∀ kind, Agrees 0 (n + 1) (n' + 1) (List.map Stmt.unplaced)
      (do
        if stopsAt stops kind then return []
        let stmt ← Grammar.statement (Grammar.body m) (m + 1)
        return stmt :: (← Grammar.body m stops))
      (do
        if stopsAt stops kind then return []
        let stmt ← Grammar.statement (Grammar.body m') (m' + 1)
        return stmt :: (← Grammar.body m' stops)) := by
    intro kind
    split
    · exact pure rfl
    · refine loose (k := 1) ?_
      refine (statement ih hw.self).bind_sub fun stmt stmt' hstmt => ?_
      refine (ih stops).bind fun rest rest' hrest => pure ?_
      rw [List.map_cons, List.map_cons, hstmt, hrest]
  unfold Grammar.body
  refine skipNewlines.seq fun _ _ _ => peek (pure rfl) fun kind => ?_
  cases kind with
  | codeClose =>
    refine .advance ((templateBlocks hw.pred).bind fun blocks blocks' hblocks => ?_)
    refine (ih stops).bind fun rest rest' hrest => pure ?_
    rw [List.map_append, List.map_append, hblocks, hrest]
  | _ => exact (hother _).at_kind _

end Agrees

end Stencil.Grammar
