import Stencil.Number.Shortest
import Stencil.Operator
import Stencil.Position

/-!
Tokens of a template: stretches of literal text, the delimiters of code and
reference blocks, and the words, literals and marks of the language inside the
blocks. `TokenKind.spelling` is how messages name a token.
-/

namespace Stencil

inductive Keyword
  | ifKw
  | elifKw
  | elseKw
  | endKw
  | forKw
  | defKw
  | metKw
  | structKw
  | blockKw
  | injectKw
  | extendsKw
  | superKw
  | importKw
  | fromKw
  | asKw
  | returnKw
  | breakKw
  | continueKw
  | trueKw
  | falseKw
  | nilKw
  | andKw
  | orKw
  | notKw
deriving DecidableEq

namespace Keyword

def spelling : Keyword → String
  | .ifKw => "if"
  | .elifKw => "elif"
  | .elseKw => "else"
  | .endKw => "end"
  | .forKw => "for"
  | .defKw => "def"
  | .metKw => "met"
  | .structKw => "struct"
  | .blockKw => "block"
  | .injectKw => "inject"
  | .extendsKw => "extends"
  | .superKw => "super"
  | .importKw => "import"
  | .fromKw => "from"
  | .asKw => "as"
  | .returnKw => "return"
  | .breakKw => "break"
  | .continueKw => "continue"
  | .trueKw => "true"
  | .falseKw => "false"
  | .nilKw => "nil"
  | .andKw => "and"
  | .orKw => "or"
  | .notKw => "not"

def all : List Keyword :=
  [.ifKw, .elifKw, .elseKw, .endKw, .forKw, .defKw, .metKw, .structKw, .blockKw, .injectKw,
    .extendsKw, .superKw, .importKw, .fromKw, .asKw, .returnKw, .breakKw, .continueKw, .trueKw,
    .falseKw, .nilKw, .andKw, .orKw, .notKw]

def ofSpelling? (word : String) : Option Keyword := all.find? (·.spelling = word)

end Keyword

inductive Punct
  | lparen
  | rparen
  | lbracket
  | rbracket
  | lbrace
  | rbrace
  | comma
  | colon
  | semicolon
  | dot
deriving DecidableEq

def Punct.spelling : Punct → String
  | .lparen => "("
  | .rparen => ")"
  | .lbracket => "["
  | .rbracket => "]"
  | .lbrace => "\x7b"
  | .rbrace => "\x7d"
  | .comma => ","
  | .colon => ":"
  | .semicolon => ";"
  | .dot => "."

inductive TokenKind
  | text (content : String)
  | codeOpen
  | codeClose
  | refOpen
  | refClose
  | int (value : Int64)
  | float (value : Float)
  | str (content : String)
  | ident (name : String)
  | word (keyword : Keyword)
  | arith (op : ArithOp)
  | assign
  | augment (op : ArithOp)
  | comp (op : CompOp)
  | punct (mark : Punct)
  | newline
deriving DecidableEq

namespace TokenKind

def startsExpr : TokenKind → Bool
  | .int _ | .float _ | .str _ | .ident _ => true
  | .word .nilKw | .word .trueKw | .word .falseKw | .word .superKw | .word .notKw => true
  | .arith .sub => true
  | .punct .lparen | .punct .lbracket | .punct .lbrace => true
  | _ => false

def spelling : TokenKind → String
  | .text _ => "text block"
  | .codeOpen => "\x7b@"
  | .codeClose => "@\x7d"
  | .refOpen => "\x7b:"
  | .refClose => ":\x7d"
  | .int value => toString value.toInt
  | .float value => Number.displayShortest value
  | .str content => "\"" ++ content ++ "\""
  | .ident name => name
  | .word keyword => keyword.spelling
  | .arith op => op.symbol
  | .assign => "="
  | .augment op => op.symbol ++ "="
  | .comp op => op.symbol
  | .punct mark => mark.spelling
  | .newline => "newline"

end TokenKind

structure Token where
  kind : TokenKind
  pos : Position
deriving DecidableEq

end Stencil
