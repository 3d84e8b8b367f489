import Stencil.Diagnostic
import Stencil.Number.Reading
import Stencil.Token.Basic

/-!
From the characters of a template to its tokens. A template is text until an
opener; inside a code or a reference block the words and marks of the language
are read until a closer. Each step reads a non-empty stretch at the head of the
input and reports it as a `Piece`, so that the stretches put together are the
source; positions move on by what was read. A comment stands for one newline,
and a line break directly after a code block belongs to the block.
-/

namespace Stencil

structure Marker where
  first : Char
  second : Char
deriving DecidableEq

namespace Marker

def of? (s : String) : Option Marker :=
  match s.toList with
  | [a, b] => if a.toNat < 128 ∧ b.toNat < 128 then some ⟨a, b⟩ else none
  | _ => none

def heads (m : Marker) : List Char → Bool
  | a :: b :: _ => a = m.first && b = m.second
  | _ => false

def codeOpen : Marker := ⟨'\x7b', '@'⟩

def codeClose : Marker := ⟨'@', '\x7d'⟩

end Marker

structure Delimiters where
  refOpen : Marker
  refClose : Marker
deriving DecidableEq

namespace Delimiters

def standard : Delimiters := ⟨⟨'\x7b', ':'⟩, ⟨':', '\x7d'⟩⟩

/-- Two ASCII characters each, and the opener not the one of code blocks. -/
def of? (refOpen refClose : String) : Option Delimiters :=
  match Marker.of? refOpen, Marker.of? refClose with
  | some opener, some closer =>
    if opener = Marker.codeOpen then none else some ⟨opener, closer⟩
  | _, _ => none

end Delimiters

namespace Lexer

inductive Mode
  | text
  | code
  | reference
deriving DecidableEq

/-- A stretch at the head of the input: the token it stands for, if any, its
characters, the line breaks counted in it, what follows, and the mode there. -/
structure Piece where
  token : Option TokenKind
  read : List Char
  lines : Nat
  rest : List Char
  mode : Mode

/-- The characters of a line break at the head of the input: `\r\n`, `\r` or
`\n`. -/
def lineBreak : List Char → List Char
  | '\r' :: '\n' :: _ => ['\r', '\n']
  | '\r' :: _ => ['\r']
  | '\n' :: _ => ['\n']
  | _ => []

def isLineBreak (c : Char) : Bool := c = '\n' || c = '\r'

def lineBreaksFrom (count : Nat) : List Char → Nat
  | [] => count
  | '\r' :: '\n' :: rest => lineBreaksFrom (count + 1) rest
  | '\r' :: rest => lineBreaksFrom (count + 1) rest
  | '\n' :: rest => lineBreaksFrom (count + 1) rest
  | _ :: rest => lineBreaksFrom count rest

/-- The text up to the next opener and what follows it; `read` holds the
characters already passed in reverse. -/
def textFrom (d : Delimiters) (read : List Char) : List Char → List Char × List Char
  | [] => (read.reverse, [])
  | c :: rest =>
    if Marker.codeOpen.heads (c :: rest) || d.refOpen.heads (c :: rest) then
      (read.reverse, c :: rest)
    else textFrom d (c :: read) rest

def textPiece (d : Delimiters) (cs : List Char) : Piece :=
  if Marker.codeOpen.heads cs then ⟨some .codeOpen, cs.take 2, 0, cs.drop 2, .code⟩
  else if d.refOpen.heads cs then ⟨some .refOpen, cs.take 2, 0, cs.drop 2, .reference⟩
  else
    let (text, rest) := textFrom d [] cs
    ⟨some (.text (String.ofList text)), text, lineBreaksFrom 0 text, rest, .text⟩

def isCodeBlank (c : Char) : Bool := c = ' ' || c = '\t' || c = '\x0b' || c = '\x0c'

def isIdentStart (c : Char) : Bool := c.isAlpha || c = '_'

def isIdentRest (c : Char) : Bool := c.isAlphanum || c = '_'

def blockCommentFrom (read : List Char) : List Char → List Char × List Char
  | [] => (read.reverse, [])
  | '*' :: '/' :: rest => (('/' :: '*' :: read).reverse, rest)
  | c :: rest => blockCommentFrom (c :: read) rest

/-- The characters between the opening quote and the first quote that no escape
covers, and what follows that quote. -/
def quotedFrom (read : List Char) : List Char → Option (List Char × List Char)
  | [] => none
  | '"' :: rest => some (read.reverse, rest)
  | '\\' :: c :: rest => quotedFrom (c :: '\\' :: read) rest
  | c :: rest => quotedFrom (c :: read) rest

def escape? : Char → Option Char
  | '0' => some '\x00'
  | 'a' => some '\x07'
  | 'b' => some '\x08'
  | 'f' => some '\x0c'
  | 'n' => some '\n'
  | 'r' => some '\r'
  | 't' => some '\t'
  | '\\' => some '\\'
  | '\'' => some '\''
  | '"' => some '"'
  | _ => none

/-- A backslash and a letter without a meaning stay as they are. -/
def unescape : List Char → List Char
  | [] => []
  | '\\' :: c :: rest =>
    match escape? c with
    | some meant => meant :: unescape rest
    | none => '\\' :: c :: unescape rest
  | c :: rest => c :: unescape rest

def plainNewlines : List Char → Nat
  | [] => 0
  | '\\' :: _ :: rest => plainNewlines rest
  | '\n' :: rest => plainNewlines rest + 1
  | _ :: rest => plainNewlines rest

/-- The mark that begins with a character, given the one after it, and whether
it takes that one too. -/
def mark? (c : Char) (next : Option Char) : Option (TokenKind × Bool) :=
  let equals := next = some '='
  match c with
  | '+' => some (if equals then (.augment .add, true) else (.arith .add, false))
  | '-' => some (if equals then (.augment .sub, true) else (.arith .sub, false))
  | '*' => some (if equals then (.augment .mul, true) else (.arith .mul, false))
  | '/' => some (if equals then (.augment .div, true) else (.arith .div, false))
  | '%' => some (if equals then (.augment .mod, true) else (.arith .mod, false))
  | '=' => some (if equals then (.comp .eq, true) else (.assign, false))
  | '!' => if equals then some (.comp .ne, true) else none
  | '<' => some (if equals then (.comp .le, true) else (.comp .lt, false))
  | '>' => some (if equals then (.comp .ge, true) else (.comp .gt, false))
  | '(' => some (.punct .lparen, false)
  | ')' => some (.punct .rparen, false)
  | '[' => some (.punct .lbracket, false)
  | ']' => some (.punct .rbracket, false)
  | '\x7b' => some (.punct .lbrace, false)
  | '\x7d' => some (.punct .rbrace, false)
  | ',' => some (.punct .comma, false)
  | ':' => some (.punct .colon, false)
  | ';' => some (.punct .semicolon, false)
  | '.' => some (.punct .dot, false)
  | _ => none

def utf8Length (cs : List Char) : Nat := cs.foldr (fun c n => c.utf8Size + n) 0

def advance (pos : Position) (read : List Char) (lines : Nat) : Position :=
  ⟨pos.offset + utf8Length read, pos.line + lines⟩

def numberPiece (mode : Mode) (pos : Position) (cs : List Char) :
    Except (LexFault × Position) Piece :=
  let whole := cs.takeWhile Char.isDigit
  match cs.dropWhile Char.isDigit with
  | '.' :: rest =>
    let fraction := rest.takeWhile Char.isDigit
    if fraction.isEmpty then .error (.danglingPoint, advance pos whole 0)
    else
      let value := Number.nearestDecimal false (Number.readDigits (whole ++ fraction))
        (-(fraction.length : Int))
      .ok ⟨some (.float value), whole ++ '.' :: fraction, 0, rest.dropWhile Char.isDigit, mode⟩
  | rest =>
    let value := Number.readDigits whole
    if value ≤ Number.greatestInt then
      .ok ⟨some (.int (Int64.ofNat value)), whole, 0, rest, mode⟩
    else .error (.intOutOfRange (String.ofList whole), pos)

def wordPiece (mode : Mode) (cs : List Char) : Piece :=
  let read := cs.takeWhile isIdentRest
  let word := String.ofList read
  let kind := match Keyword.ofSpelling? word with
    | some keyword => .word keyword
    | none => .ident word
  ⟨some kind, read, 0, cs.dropWhile isIdentRest, mode⟩

def quotedPiece (mode : Mode) (pos : Position) (cs : List Char) :
    Except (LexFault × Position) Piece :=
  match quotedFrom [] cs with
  | some (raw, rest) =>
    .ok ⟨some (.str (String.ofList (unescape raw))), '"' :: raw ++ ['"'], plainNewlines raw, rest,
      mode⟩
  | none => .error (.unclosedText, pos)

def lineCommentPiece (mode : Mode) (cs : List Char) : Piece :=
  let comment := cs.takeWhile (!isLineBreak ·)
  let rest := cs.dropWhile (!isLineBreak ·)
  let ending := lineBreak rest
  ⟨some .newline, '/' :: '/' :: comment ++ ending, if ending.isEmpty then 0 else 1,
    rest.drop ending.length, mode⟩

def blockCommentPiece (mode : Mode) (cs : List Char) : Piece :=
  let (comment, rest) := blockCommentFrom [] cs
  ⟨some .newline, '/' :: '*' :: comment, comment.count '\n', rest, mode⟩

def markPiece (mode : Mode) (pos : Position) (c : Char) (rest : List Char) :
    Except (LexFault × Position) Piece :=
  match mark? c rest.head? with
  | some (kind, true) => .ok ⟨some kind, c :: rest.take 1, 0, rest.drop 1, mode⟩
  | some (kind, false) => .ok ⟨some kind, [c], 0, rest, mode⟩
  | none => .error (.unsupported c, pos)

def codeClosePiece (rest : List Char) : Piece :=
  let ending := lineBreak rest
  ⟨some .codeClose, '@' :: '\x7d' :: ending, if ending.isEmpty then 0 else 1,
    rest.drop ending.length, .text⟩

/-- A stretch inside a block. Closers come before everything else, and the
closer of a code block ends a reference block too. -/
def codePiece (d : Delimiters) (mode : Mode) (pos : Position) (c : Char) (rest : List Char) :
    Except (LexFault × Position) Piece :=
  if c = '@' then
    if Marker.codeClose.heads (c :: rest) then .ok (codeClosePiece (rest.drop 1))
    else .error (.loneAt, pos)
  else if mode = .reference && d.refClose.heads (c :: rest) then
    .ok ⟨some .refClose, c :: rest.take 1, 0, rest.drop 1, .text⟩
  else if isLineBreak c then
    let ending := lineBreak (c :: rest)
    .ok ⟨some .newline, ending, 1, (c :: rest).drop ending.length, mode⟩
  else if isCodeBlank c then .ok ⟨none, [c], 0, rest, mode⟩
  else if c = '/' && rest.head? = some '/' then .ok (lineCommentPiece mode (rest.drop 1))
  else if c = '/' && rest.head? = some '*' then .ok (blockCommentPiece mode (rest.drop 1))
  else if c = '"' then quotedPiece mode pos rest
  else if c.isDigit then numberPiece mode pos (c :: rest)
  else if isIdentStart c then .ok (wordPiece mode (c :: rest))
  else markPiece mode pos c rest

def piece (d : Delimiters) (mode : Mode) (pos : Position) (c : Char) (rest : List Char) :
    Except (LexFault × Position) Piece :=
  match mode with
  | .text => .ok (textPiece d (c :: rest))
  | _ => codePiece d mode pos c rest

def finish (mode : Mode) (pos : Position) (tokens : List Token) : Except Diagnostic (List Token) :=
  if mode = .text then .ok tokens.reverse
  else .error (Diagnostic.ofLexFault .unclosedBlock pos)

/-- Reads piece after piece; `tokens` holds those found so far in reverse. Every
piece has a character, so the length of the input bounds the steps. -/
def tokensFrom (d : Delimiters) : Nat → Mode → Position → List Token → List Char →
    Except Diagnostic (List Token)
  | 0, mode, pos, tokens, _ => finish mode pos tokens
  | _ + 1, mode, pos, tokens, [] => finish mode pos tokens
  | steps + 1, mode, pos, tokens, c :: rest =>
    match piece d mode pos c rest with
    | .error (fault, place) => .error (Diagnostic.ofLexFault fault place)
    | .ok p =>
      let tokens := match p.token with
        | some kind => ⟨kind, pos⟩ :: tokens
        | none => tokens
      tokensFrom d steps p.mode (advance pos p.read p.lines) tokens p.rest

end Lexer

def tokenizeWith (d : Delimiters) (source : String) : Except Diagnostic (List Token) :=
  let cs := source.toList
  Lexer.tokensFrom d cs.length .text .start [] cs

def tokenize (source : String) : Except Diagnostic (List Token) :=
  tokenizeWith .standard source

def tokenizeBetween (refOpen refClose source : String) : Except Diagnostic (List Token) :=
  match Delimiters.of? refOpen refClose with
  | some d => tokenizeWith d source
  | none => .error (Diagnostic.ofLexFault .invalidDelimiters .start)

end Stencil
