import Stencil.Token.Basic

/-!
What can be wrong with the order of the tokens. Most faults name the piece that
is missing; the others carry the token that was found in its place, or nothing
at the end of the input.
-/

namespace Stencil

inductive SectionKind
  | struct
  | block
  | inject
deriving DecidableEq

def SectionKind.title : SectionKind → String
  | .struct => "struct"
  | .block => "block statement"
  | .inject => "inject statement"

inductive Level
  | or
  | and
  | comparison
  | augment
  | additive
  | multiplicative
deriving DecidableEq

def Level.title : Level → String
  | .or => "'or' operator"
  | .and => "'and' operator"
  | .comparison => "comparison"
  | .augment => "asscalc"
  | .additive => "expr"
  | .multiplicative => "term"

inductive GrammarFault
  | strayInTemplate (found : Option TokenKind)
  | strayInCode (found : Option TokenKind)
  | codeCutShort
  | noFormulaInRef
  | refCutShort
  | unclosedRef
  | noTestInIf
  | noColonInIf
  | noTestInElif
  | noColonInElif
  | noColonInElse
  | noEndInIf
  | noSecondSemicolon
  | noColonInFor
  | noEndInFor
  | noNameInDef
  | noNameInParams
  | unclosedParams
  | noNameInExtends
  | noColonInDef
  | noEndInDef
  | noNameIn (kind : SectionKind)
  | noColonIn (kind : SectionKind)
  | noEndIn (kind : SectionKind)
  | noPathInImport
  | noAsInImport
  | noAliasInImport
  | noPathInFrom
  | noImportInFrom
  | noNamesInFrom
  | noAliasInFrom
  | strayInNames (found : Option TokenKind)
  | strayAfterImport (found : Option TokenKind)
  | noValueInAssign
  | noValueInMulti
  | noTestInList
  | noOperand (level : Level)
  | noOperandOfNot
  | noOperandOfMinus
  | endAfterDot
  | noNameAfterDot
  | noIndex
  | unclosedIndex
  | unclosedCall
  | noTestInParens
  | unclosedParens
  | endInAtom
  | strayInAtom (found : TokenKind)
  | unclosedArray
  | unclosedDict
  | noColonInDict
  | noValueInDict
deriving DecidableEq

namespace GrammarFault

/-- A token between quotes, or a word for the end of the input. -/
def shown : Option TokenKind → String
  | some kind => "\"" ++ kind.spelling ++ "\""
  | none => "EOF"

def message : GrammarFault → String
  | strayInTemplate found => "syntax error. invalid token " ++ shown found ++ " in blocks"
  | strayInCode found => "syntax error. invalid token " ++ shown found ++ " in code block"
  | codeCutShort => "syntax error. reached EOF in code block"
  | noFormulaInRef => "syntax error. not found formula in reference block"
  | refCutShort => "syntax error. reached EOF in reference block"
  | unclosedRef => "syntax error. not found \":\x7d\""
  | noTestInIf => "syntax error. not found test in if statement"
  | noColonInIf => "syntax error. not found colon in if statement"
  | noTestInElif => "syntax error. not found test in elif statement"
  | noColonInElif => "syntax error. not found colon in elif statement"
  | noColonInElse => "syntax error. not found colon in else statement"
  | noEndInIf => "syntax error. not found 'end' in if statement"
  | noSecondSemicolon => "syntax error. not found semicolon (2)"
  | noColonInFor => "syntax error. not found colon in for statement"
  | noEndInFor => "syntax error. not found 'end' in for statement"
  | noNameInDef => "syntax error. not found identifier in func def"
  | noNameInParams => "syntax error. not found identifier in func def args"
  | unclosedParams => "syntax error. not found ')' in func def params"
  | noNameInExtends => "not found identifier in function extends"
  | noColonInDef => "not found colon"
  | noEndInDef => "not found 'end' in parse func def"
  | noNameIn kind => "syntax error. not found identifier in " ++ kind.title
  | noColonIn kind => "syntax error. not found colon in " ++ kind.title
  | noEndIn kind => "syntax error. not found 'end' in " ++ kind.title
  | noPathInImport => "syntax error. not found path in compile import as statement"
  | noAsInImport => "syntax error. not found keyword 'as' in compile import as statement"
  | noAliasInImport => "syntax error. not found alias in compile import as statement"
  | noPathInFrom => "syntax error. not found path in compile from import statement"
  | noImportInFrom => "syntax error. not found import in compile from import statement"
  | noNamesInFrom => "syntax error. not found import variables in compile from import statement"
  | noAliasInFrom => "syntax error. not found alias in compile import variables"
  | strayInNames found =>
    "syntax error. invalid token " ++ shown found ++ " in compile import variables"
  | strayAfterImport found =>
    "syntax error. invalid token " ++ shown found ++ " in compile import statement"
  | noValueInAssign => "syntax error. not found rhs test in assign list"
  | noValueInMulti => "syntax error. not found rhs in multi assign"
  | noTestInList => "syntax error. not found test in test list"
  | noOperand level => "syntax error. not found rhs operand in " ++ level.title
  | noOperandOfNot => "syntax error. not found operand in not operator"
  | noOperandOfMinus => "syntax error. not found operand in negative"
  | endAfterDot => "reached EOF after '.'"
  | noNameAfterDot => "not found identifier after '.'"
  | noIndex => "not found index in ring"
  | unclosedIndex => "not found ']'"
  | unclosedCall => "not found ')'"
  | noTestInParens => "syntax error. not found test in factor"
  | unclosedParens => "syntax error. not found ) in factor"
  | endInAtom => "syntax error. reached EOF in atom"
  | strayInAtom found => "syntax error. invalid token \"" ++ found.spelling ++ "\" in atom"
  | unclosedArray => "not found ']' in array"
  | unclosedDict => "not found right brace in parse dict"
  | noColonInDict => "not found colon in parse dict elem"
  | noValueInDict => "not found value in parse dict elem"

end GrammarFault

end Stencil
