import Stencil.Diagnostic
import Stencil.Program.Basic

/-!
Reading expressions and formulas from tokens. From the weakest to the strongest
the levels are `or`, `and`, `not`, comparison, augmented assignment, sums,
products, the minus sign, and the chain of attributes, calls and indexes after
an atom. Every level is written over a reader for nested expressions; `test`
ties the knot. A reader returns the tokens it leaves, and its budget is never
less than the number of tokens at hand, so that a spent budget means that the
input has ended.
-/

namespace Stencil.Grammar

/-- A reader gets the position that stands for the end of the input and the
tokens at hand, and returns what it read with the tokens it left. -/
def Reader (α : Type) := Position → List Token → Except Diagnostic (α × List Token)

namespace Reader

@[always_inline, inline]
def pure {α : Type} (a : α) : Reader α := fun _ ts => .ok (a, ts)

@[always_inline, inline]
def bind {α β : Type} (x : Reader α) (f : α → Reader β) : Reader β := fun last ts =>
  match x last ts with
  | .ok (a, rest) => f a last rest
  | .error d => .error d

end Reader

@[always_inline]
instance : Monad Reader where
  pure := Reader.pure
  bind := Reader.bind

/-- The position of the token at hand, or of the last token at the end. -/
def here (last : Position) : List Token → Position
  | t :: _ => t.pos
  | [] => last

@[inline]
def position : Reader Position := fun last ts => .ok (here last ts, ts)

@[inline]
def fail {α : Type} (fault : GrammarFault) : Reader α := fun last ts =>
  .error (Diagnostic.ofGrammarFault fault (here last ts))

@[inline]
def peek : Reader (Option TokenKind) := fun _ ts => .ok (ts.head?.map Token.kind, ts)

@[inline]
def advance : Reader Unit := fun _ ts => .ok ((), ts.tail)

def isAt (kind : TokenKind) : List Token → Bool
  | t :: _ => t.kind = kind
  | [] => false

@[inline]
def eat (kind : TokenKind) : Reader Bool := fun _ ts =>
  if isAt kind ts then .ok (true, ts.tail) else .ok (false, ts)

@[inline]
def expect (kind : TokenKind) (fault : GrammarFault) : Reader Unit := fun last ts =>
  if isAt kind ts then .ok ((), ts.tail)
  else .error (Diagnostic.ofGrammarFault fault (here last ts))

def startsExpr : List Token → Bool
  | t :: _ => t.kind.startsExpr
  | [] => false

@[inline]
def atExpr : Reader Bool := fun _ ts => .ok (startsExpr ts, ts)

@[inline]
def needExpr (fault : GrammarFault) : Reader Unit := fun last ts =>
  if startsExpr ts then .ok ((), ts)
  else .error (Diagnostic.ofGrammarFault fault (here last ts))

def dropNewlines : List Token → List Token
  | [] => []
  | t :: rest => if t.kind = .newline then dropNewlines rest else t :: rest

@[inline]
def skipNewlines : Reader Unit := fun _ ts => .ok ((), dropNewlines ts)

@[inline]
def ident? : Reader (Option String) := fun _ ts =>
  match ts with
  | ⟨.ident name, _⟩ :: rest => .ok (some name, rest)
  | _ => .ok (none, ts)

/-- Items up to a closer, with commas between them and newlines around them; a
comma may stand before the closer. A token after an item that is neither is
reported with itself. -/
def itemsUntil {α : Type} (item : Reader α) (closer : Punct)
    (fault : Option TokenKind → GrammarFault) : Nat → Reader (List α)
  | 0 => do return [← item]
  | budget + 1 => do
    skipNewlines
    if ← eat (.punct closer) then return []
    let first ← item
    skipNewlines
    if ← eat (.punct .comma) then
      return first :: (← itemsUntil item closer fault budget)
    if ← eat (.punct closer) then return [first]
    fail (fault (← peek))

def needed (test : Reader Expr) (fault : GrammarFault) : Reader Expr := do
  needExpr fault
  test

def arrayItems (test : Reader Expr) (budget : Nat) : Reader (List Expr) :=
  itemsUntil (needed test .unclosedArray) .rbracket (fun _ => .unclosedArray) budget

def dictEntry (test : Reader Expr) : Reader (Expr × Expr) := do
  let key ← needed test .unclosedDict
  skipNewlines
  expect (.punct .colon) .noColonInDict
  skipNewlines
  let value ← needed test .noValueInDict
  return (key, value)

def dictEntries (test : Reader Expr) (budget : Nat) : Reader (List (Expr × Expr)) :=
  itemsUntil (dictEntry test) .rbrace (fun _ => .unclosedDict) budget

def callArgs (test : Reader Expr) (budget : Nat) : Reader (List Expr) :=
  itemsUntil (needed test .unclosedCall) .rparen (fun _ => .unclosedCall) budget

def atom (test : Reader Expr) (budget : Nat) : Reader Expr := fun last ts =>
  match ts with
  | [] => fail .endInAtom last []
  | t :: rest =>
    match t.kind with
    | .word .nilKw => .ok (.nil, rest)
    | .word .trueKw => .ok (.bool true, rest)
    | .word .falseKw => .ok (.bool false, rest)
    | .int value => .ok (.int value, rest)
    | .float value => .ok (.float value, rest)
    | .str content => .ok (.str content, rest)
    | .ident name => .ok (.ident name t.pos, rest)
    | .word .superKw => .ok (.super t.pos, rest)
    | .punct .lbracket =>
      match arrayItems test budget last rest with
      | .ok (items, left) => .ok (.array items t.pos, left)
      | .error d => .error d
    | .punct .lbrace =>
      match dictEntries test budget last rest with
      | .ok (entries, left) => .ok (.dict entries t.pos, left)
      | .error d => .error d
    | found => fail (.strayInAtom found) last ts

def factor (test : Reader Expr) (budget : Nat) : Reader Expr := do
  if ← eat (.punct .lparen) then
    skipNewlines
    let inner ← needed test .noTestInParens
    skipNewlines
    expect (.punct .rparen) .unclosedParens
    return inner
  atom test budget

def links (test : Reader Expr) : Nat → Reader (List Link)
  | 0 => return []
  | budget + 1 => do
    let pos ← position
    match ← peek with
    | some (.punct .dot) =>
      advance
      match ← ident? with
      | some name => return .attr name pos :: (← links test budget)
      | none => fail (if (← peek).isNone then .endAfterDot else .noNameAfterDot)
    | some (.punct .lparen) =>
      advance
      let args ← callArgs test budget
      return .call args pos :: (← links test budget)
    | some (.punct .lbracket) =>
      advance
      skipNewlines
      let key ← needed test .noIndex
      skipNewlines
      expect (.punct .rbracket) .unclosedIndex
      return .index key pos :: (← links test budget)
    | _ => return []

def chain (test : Reader Expr) (budget : Nat) : Reader Expr := do
  let head ← factor test budget
  match ← links test budget with
  | [] => return head
  | ops => return .chain head ops

def negative (test : Reader Expr) (budget : Nat) : Reader Expr := do
  let pos ← position
  if ← eat (.arith .sub) then
    needExpr .noOperandOfMinus
    return .negative (← chain test budget) pos
  chain test budget

def operands {ω : Type} (operator? : TokenKind → Option ω) (level : Level)
    (operand : Reader Expr) : Nat → Reader (List (ω × Expr × Position))
  | 0 => return []
  | budget + 1 => do
    let pos ← position
    match (← peek).bind operator? with
    | none => return []
    | some op =>
      advance
      needExpr (.noOperand level)
      let e ← operand
      return (op, e, pos) :: (← operands operator? level operand budget)

def multiplicative? : TokenKind → Option ArithOp
  | .arith .mul => some .mul
  | .arith .div => some .div
  | .arith .mod => some .mod
  | _ => none

def additive? : TokenKind → Option ArithOp
  | .arith .add => some .add
  | .arith .sub => some .sub
  | _ => none

def augment? : TokenKind → Option ArithOp
  | .augment op => some op
  | _ => none

def comparison? : TokenKind → Option CompOp
  | .comp op => some op
  | _ => none

def product (test : Reader Expr) (budget : Nat) : Reader Expr := do
  let first ← negative test budget
  match ← operands multiplicative? .multiplicative (negative test budget) budget with
  | [] => return first
  | rest => return .arith first rest

def sum (test : Reader Expr) (budget : Nat) : Reader Expr := do
  let first ← product test budget
  match ← operands additive? .additive (product test budget) budget with
  | [] => return first
  | rest => return .arith first rest

def augmented (test : Reader Expr) (budget : Nat) : Reader Expr := do
  let first ← sum test budget
  match ← operands augment? .augment (sum test budget) budget with
  | [] => return first
  | rest => return .augment first rest

def comparison (test : Reader Expr) (budget : Nat) : Reader Expr := do
  let first ← augmented test budget
  match ← operands comparison? .comparison (augmented test budget) budget with
  | [] => return first
  | rest => return .comparison first rest

/-- Any number of `not` before a comparison. -/
def negation (test : Reader Expr) (budget : Nat) : Nat → Reader Expr
  | 0 => comparison test budget
  | left + 1 => do
    let pos ← position
    if ← eat (.word .notKw) then
      needExpr .noOperandOfNot
      return .not (← negation test budget left) pos
    comparison test budget

def junction (keyword : Keyword) (level : Level) (operand : Reader Expr) :
    Nat → Reader (List Expr)
  | 0 => return []
  | budget + 1 => do
    if ← eat (.word keyword) then
      skipNewlines
      needExpr (.noOperand level)
      let e ← operand
      return e :: (← junction keyword level operand budget)
    return []

def conjunction (test : Reader Expr) (budget : Nat) : Reader Expr := do
  let first ← negation test budget budget
  match ← junction .andKw .and (negation test budget budget) budget with
  | [] => return first
  | rest => return .and (first :: rest)

def disjunction (test : Reader Expr) (budget : Nat) : Reader Expr := do
  let first ← conjunction test budget
  match ← junction .orKw .or (conjunction test budget) budget with
  | [] => return first
  | rest => return .or (first :: rest)

def test : Nat → Reader Expr
  | 0 => fail .endInAtom
  | budget + 1 => disjunction (test budget) (budget + 1)

def assigned {α : Type} (value : Reader α) (fault : GrammarFault) : Nat → Reader (List α)
  | 0 => return []
  | budget + 1 => do
    if ← eat .assign then
      needExpr fault
      let v ← value
      return v :: (← assigned value fault budget)
    return []

/-- Chains of assignments divided by commas, if the tokens are of that shape
throughout. -/
def assignments? (budget : Nat) : Nat → Reader (Option (List (List Expr)))
  | 0 => fail .endInAtom
  | left + 1 => do
    let first ← test budget
    match ← assigned (test budget) .noValueInAssign budget with
    | [] => return none
    | values =>
      if ← eat (.punct .comma) then
        if ← atExpr then
          return (← assignments? budget left).map ((first :: values) :: ·)
        return none
      return some [first :: values]

def testList (budget : Nat) : Nat → Reader (List Expr)
  | 0 => fail .endInAtom
  | left + 1 => do
    let first ← test budget
    if ← eat (.punct .comma) then
      needExpr .noTestInList
      return first :: (← testList budget left)
    return [first]

def parallel (budget : Nat) : Reader Formula := do
  let first ← testList budget budget
  let rest ← assigned (testList budget budget) .noValueInMulti budget
  return .parallel (first :: rest)

/-- Chains of assignments where every part is one; otherwise the same tokens are
read again as lists of targets and values. -/
def formula (budget : Nat) : Reader Formula := fun last ts =>
  match assignments? budget budget last ts with
  | .error d => .error d
  | .ok (some chains, rest) => .ok (.assignments chains, rest)
  | .ok (none, _) => parallel budget last ts

end Stencil.Grammar
