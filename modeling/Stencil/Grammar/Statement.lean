import Stencil.Grammar.Expression
import Stencil.Token.Lexer

/-!
Reading statements and whole programs from tokens. A statement's body may leave
the code block for text and reference blocks and come back to it. Readers of
statements are written over a reader for bodies; `body` ties the knot, with the
same rule for budgets as in expressions.
-/

namespace Stencil.Grammar

/-- A reader for a statement's body, which ends before one of the words. -/
abbrev BodyReader := List Keyword → Reader (List Stmt)

def word (keyword : Keyword) : TokenKind := .word keyword

def colon : TokenKind := .punct .colon

def semicolon : TokenKind := .punct .semicolon

def referenceBlock (budget : Nat) : Reader Stmt := do
  let pos ← position
  advance
  skipNewlines
  needExpr .noFormulaInRef
  let f ← formula budget
  skipNewlines
  match ← peek with
  | none => fail .refCutShort
  | some .refClose =>
    advance
    return .reference f pos
  | some _ => fail .unclosedRef

def templateBlocks : Nat → Reader (List Stmt)
  | 0 => return []
  | budget + 1 => do
    match ← peek with
    | none => return []
    | some .codeOpen =>
      advance
      return []
    | some (.text content) =>
      advance
      return .text content :: (← templateBlocks budget)
    | some .refOpen =>
      let block ← referenceBlock (budget + 1)
      return block :: (← templateBlocks budget)
    | found => fail (.strayInTemplate found)

def branches (body : BodyReader) (budget : Nat) :
    Nat → Reader (List (Expr × List Stmt) × Option (List Stmt))
  | 0 => fail .noEndInIf
  | left + 1 => do
    match ← peek with
    | some (.word .elifKw) =>
      advance
      let condition ← needed (test budget) .noTestInElif
      expect colon .noColonInElif
      let stmts ← body [.elifKw, .elseKw, .endKw]
      let (more, otherwise) ← branches body budget left
      return ((condition, stmts) :: more, otherwise)
    | some (.word .elseKw) =>
      advance
      expect colon .noColonInElse
      let stmts ← body [.endKw]
      expect (word .endKw) .noEndInIf
      return ([], some stmts)
    | some (.word .endKw) =>
      advance
      return ([], none)
    | _ => fail .noEndInIf

def conditional (body : BodyReader) (budget : Nat) : Reader Stmt := do
  let pos ← position
  advance
  let condition ← needed (test budget) .noTestInIf
  expect colon .noColonInIf
  let stmts ← body [.elifKw, .elseKw, .endKw]
  let (more, otherwise) ← branches body budget budget
  return .cond ((condition, stmts) :: more) otherwise pos

def formulaUnless (stop : TokenKind) (budget : Nat) : Reader (Option Formula) := fun last ts =>
  if isAt stop ts then .ok (none, ts)
  else match formula budget last ts with
    | .ok (f, rest) => .ok (some f, rest)
    | .error d => .error d

def loopClauses (budget : Nat) : Reader (Option Formula × Option Formula) := do
  let condition ← formulaUnless semicolon budget
  expect semicolon .noSecondSemicolon
  let update ← formulaUnless colon budget
  expect colon .noColonInFor
  return (condition, update)

def loopHead (budget : Nat) : Reader (Option Formula × Option Formula × Option Formula) := do
  if ← eat colon then return (none, none, none)
  let first ← formulaUnless semicolon budget
  if first.isSome then
    if ← eat colon then return (none, first, none)
  expect semicolon .noColonInFor
  return (first, ← loopClauses budget)

def loop (body : BodyReader) (budget : Nat) : Reader Stmt := do
  let pos ← position
  advance
  let (init, condition, update) ← loopHead budget
  let stmts ← body [.endKw]
  expect (word .endKw) .noEndInFor
  return .loop init condition update stmts pos

def needName (fault : GrammarFault) : Reader String := do
  match ← ident? with
  | some name => return name
  | none => fail fault

def parameters (budget : Nat) : Reader (List String) := do
  if ← eat (.punct .lparen) then
    itemsUntil (needName .noNameInParams) .rparen (fun _ => .unclosedParams) budget
  else return []

def baseName : Reader (Option String) := do
  if ← eat (word .extendsKw) then return some (← needName .noNameInExtends)
  return none

def function (isMethod : Bool) (body : BodyReader) (budget : Nat) : Reader Stmt := do
  let pos ← position
  advance
  let name ← needName .noNameInDef
  let params ← parameters budget
  let base ← baseName
  expect colon .noColonInDef
  let stmts ← body [.endKw]
  expect (word .endKw) .noEndInDef
  return .function name params base isMethod stmts pos

def sectionStmt : SectionKind → String → List Stmt → Position → Stmt
  | .struct => .struct
  | .block => .block
  | .inject => .inject

def namedSection (kind : SectionKind) (body : BodyReader) : Reader Stmt := do
  let pos ← position
  advance
  let name ← needName (.noNameIn kind)
  expect colon (.noColonIn kind)
  let stmts ← body [.endKw]
  expect (word .endKw) (.noEndIn kind)
  return sectionStmt kind name stmts pos

def needPath (fault : GrammarFault) : Reader String := do
  match ← peek with
  | some (.str path) =>
    advance
    return path
  | _ => fail fault

/-- An import ends with the line or with the block. -/
def importEnd : Reader Unit := do
  match ← peek with
  | none | some .newline | some .codeClose => return ()
  | found => fail (.strayAfterImport found)

def importAs : Reader Stmt := do
  let pos ← position
  advance
  let path ← needPath .noPathInImport
  expect (word .asKw) .noAsInImport
  let name ← needName .noAliasInImport
  importEnd
  return .importAs path name pos

def importName : Reader ImportName := do
  match ← ident? with
  | none => fail (.strayInNames (← peek))
  | some name =>
    if ← eat (word .asKw) then return ⟨name, some (← needName .noAliasInFrom)⟩
    return ⟨name, none⟩

def importNames : Nat → Reader (List ImportName)
  | 0 => do return [← importName]
  | budget + 1 => do
    let first ← importName
    if ← eat (.punct .comma) then return first :: (← importNames budget)
    return [first]

def importFrom (budget : Nat) : Reader Stmt := do
  let pos ← position
  advance
  let path ← needPath .noPathInFrom
  expect (word .importKw) .noImportInFrom
  let names ← if ← eat (.punct .lparen) then itemsUntil importName .rparen .strayInNames budget
    else importNames budget
  if names.isEmpty then fail .noNamesInFrom
  importEnd
  return .importFrom path names pos

def returned (budget : Nat) : Reader Stmt := do
  let pos ← position
  advance
  if ← atExpr then return .return (some (← formula budget)) pos
  return .return none pos

def statement (body : BodyReader) (budget : Nat) : Reader Stmt := do
  let pos ← position
  match ← peek with
  | some (.word .ifKw) => conditional body budget
  | some (.word .forKw) => loop body budget
  | some (.word .defKw) => function false body budget
  | some (.word .metKw) => function true body budget
  | some (.word .structKw) => namedSection .struct body
  | some (.word .blockKw) => namedSection .block body
  | some (.word .injectKw) => namedSection .inject body
  | some (.word .importKw) => importAs
  | some (.word .fromKw) => importFrom budget
  | some (.word .returnKw) => returned budget
  | some (.word .breakKw) =>
    advance
    return .break pos
  | some (.word .continueKw) =>
    advance
    return .continue pos
  | found =>
    if ← atExpr then return .formula (← formula budget) pos
    fail (.strayInCode found)

def stopsAt (stops : List Keyword) : TokenKind → Bool
  | .word keyword => stops.contains keyword
  | _ => false

def body : Nat → BodyReader
  | 0, _ => return []
  | budget + 1, stops => do
    skipNewlines
    match ← peek with
    | none => return []
    | some .codeClose =>
      advance
      let blocks ← templateBlocks budget
      return blocks ++ (← body budget stops)
    | some kind =>
      if stopsAt stops kind then return []
      let stmt ← statement (body budget) (budget + 1)
      return stmt :: (← body budget stops)

/-- The statements of a code block of the program, whose closer is taken. -/
def codeBlock : Nat → Reader (List Stmt)
  | 0 => fail .codeCutShort
  | budget + 1 => do
    skipNewlines
    match ← peek with
    | none => fail .codeCutShort
    | some .codeClose =>
      advance
      return []
    | some _ =>
      let stmt ← statement (body budget) (budget + 1)
      return stmt :: (← codeBlock budget)

def blocks : Nat → Reader Program
  | 0 => return []
  | budget + 1 => do
    match ← peek with
    | none => return []
    | some (.text content) =>
      advance
      return .text content :: (← blocks budget)
    | some .refOpen =>
      let block ← referenceBlock (budget + 1)
      return block :: (← blocks budget)
    | some .codeOpen =>
      advance
      let stmts ← codeBlock budget
      return stmts ++ (← blocks budget)
    | found => fail (.strayInTemplate found)

/-- The position that stands for the end of the tokens. -/
def lastPosition (tokens : List Token) : Position :=
  (tokens.getLast?.map Token.pos).getD .start

end Stencil.Grammar

namespace Stencil.Program

def ofTokens (tokens : List Token) : Except Diagnostic Program :=
  match Grammar.blocks tokens.length (Grammar.lastPosition tokens) tokens with
  | .ok (program, _) => .ok program
  | .error d => .error d

def ofSource (source : String) : Except Diagnostic Program :=
  match tokenize source with
  | .ok tokens => ofTokens tokens
  | .error d => .error d

end Stencil.Program
