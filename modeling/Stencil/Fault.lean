import Stencil.Builtin
import Stencil.Operator
import Stencil.TypeTag

/-!
Everything that can go wrong while a program runs. A fault names its cause;
`Fault.message` is the only place that puts it into words.
-/

namespace Stencil

inductive Fault
  | strayBreak
  | strayContinue
  | strayReturn
  | tooDeep
  | cannotCall (callee : TypeTag)
  | wrongArity (function : String) (takes given : Nat)
  | undefined (name : String)
  | undefinedInReference (name : String)
  | invalidTarget
  | assignToCall
  | targetsNeedArray
  | targetCount (values targets : Nat)
  | noAttribute (name : String) (owner : TypeTag)
  | fixedAttributes (name : String) (owner : TypeTag)
  | indexNotInt (key : TypeTag)
  | indexOutOfRange
  | keyNotText
  | literalKeyNotText
  | keyNotFound (key : String)
  | cannotIndex (owner : TypeTag)
  | cannotAssignIndex (owner : TypeTag)
  | notAModule (path : String)
  | notInModule (name path : String)
  | superNeedsCall
  | superOutsideFunction
  | noBase (function : String)
  | baseUndefined (name : String)
  | baseNotFunction (name : String)
  | injectOutsideFunction
  | noSuchBlock (name : String)
  | cannotCombine (op : ArithOp) (left right : TypeTag)
  | negativeRepeat
  | repeatTooLarge
  | zeroDivision
  | cannotCompare (op : CompOp) (left right : TypeTag)
  | cannotNegate (operand : TypeTag)
  | argumentCount (function : Builtin)
  | noLength (argument : TypeTag)
  | assertionFailed
  | invalidType
  | emptyText
  | invalidCodePoint
  | castNeedsType
  | noNamespace
  | invalidKey
  | extractUnsupported
  | exitCodeNotInt
  | danceNeedsSource
  | danceNeedsDict
  | aliasTooFew
  | aliasTooMany
  | aliasKeyNotText
  | aliasValueNotText
  | aliasNoteNotText
  | optionIndexNotInt
  | optionNameNotText (function : Builtin)
  | constructorCount (tag : TypeTag)
  | cannotConstruct (tag : TypeTag)
  | cannotCast (source target : TypeTag)
  | cannotCastText (text : String) (target : TypeTag)
  | noMethods (method : String)
  | notAMethod (method : String) (receiver : TypeTag)
  | takesNoArguments (method : String)
  | invalidArgument
  | emptySeparator
  | pushNeedsOne
  | dictMethodCount (method : String)
  | fileNameNotText
  | fileModeNotText
  | invalidFileMode (mode : String)
  | openFailed
  | fileClosed (method path : String)
  | fileMethodCount
  | fileTextNotText
  | readFailed
  | writeFailed

namespace Fault

/-- How a built-in function words a wrong number of arguments. -/
def argumentCountMessage : Builtin → String
  | .len => "len function need one argument"
  | .type | .id => "invalid arguments length"
  | .ord | .chr | .dance => "need one argument"
  | .openFile => "need file name and mode"
  | .optsGet => "can't invoke opts.get. need one argument"
  | .optsHas => "can't invoke opts.has. need one argument"
  | .optsArgs => "can't invoke opts.args. need one argument"
  | function => s!"invalid arguments length for {function.name}"

def message : Fault → String
  | strayBreak => "invalid break statement. not in loop"
  | strayContinue => "invalid continue statement. not in loop"
  | strayReturn => "invalid return statement. not in function"
  | tooDeep => "reached maximum recursion depth"
  | cannotCall callee => s!"can't call {callee.name}"
  | wrongArity function takes given =>
    s!"invalid arguments length. \"{function}\" takes {takes} arguments but {given} given"
  | undefined name => s!"\"{name}\" is not defined"
  | undefinedInReference name => s!"\"{name}\" is not defined in ref block"
  | invalidTarget => "invalid assign target"
  | assignToCall => "can't assign to function call"
  | targetsNeedArray => "can't assign to multiple targets. value is not array"
  | targetCount values targets => s!"can't assign {values} values to {targets} targets"
  | noAttribute name owner => s!"\"{name}\" is not defined in {owner.name}"
  | fixedAttributes name owner => s!"can't assign attribute \"{name}\" to {owner.name}"
  | indexNotInt key => s!"index is not int but {key.name}"
  | indexOutOfRange => "index out of range"
  | keyNotText => "dict key is not string"
  | literalKeyNotText => "key is not string in dict"
  | keyNotFound key => s!"not found key \"{key}\""
  | cannotIndex owner => s!"can't index {owner.name}"
  | cannotAssignIndex owner => s!"can't assign index to {owner.name}"
  | notAModule path => s!"\"{path}\" is not a module"
  | notInModule name path => s!"\"{name}\" is not defined in module \"{path}\""
  | superNeedsCall => "invalid super usage. super needs call"
  | superOutsideFunction => "invalid super call. not in function"
  | noBase function => s!"invalid super call. \"{function}\" has no extends"
  | baseUndefined name => s!"can't extends. \"{name}\" is not defined"
  | baseNotFunction name => s!"can't extends. \"{name}\" is not a function"
  | injectOutsideFunction => "inject statement needs function"
  | noSuchBlock name => s!"not found \"{name}\" block"
  | cannotCombine op left right => s!"can't {op.verb} {left.name} with {right.name}"
  | negativeRepeat => "can't mul string by negative value"
  | repeatTooLarge => "can't mul string. result too large"
  | zeroDivision => "zero division error"
  | cannotCompare op left right => s!"can't compare {op.name} {left.name} with {right.name}"
  | cannotNegate operand => s!"can't negative {operand.name}"
  | argumentCount function => argumentCountMessage function
  | noLength argument => s!"not supported object ({argument.name}) for len"
  | assertionFailed => "assertion error"
  | invalidType => "invalid type"
  | emptyText => "empty strings"
  | invalidCodePoint => "invalid code point"
  | castNeedsType => "invalid type for cast"
  | noNamespace => "unsupported object type"
  | invalidKey => "invalid key"
  | extractUnsupported => "unsupported object"
  | exitCodeNotInt => "invalid exit code type for exit"
  | danceNeedsSource => "invalid source code"
  | danceNeedsDict => "invalid context type. context will be dict"
  | aliasTooFew => "can't invoke alias.set. too few arguments"
  | aliasTooMany => "can't invoke alias.set. too many arguments"
  | aliasKeyNotText => "can't invoke alias.set. key is not string"
  | aliasValueNotText => "can't invoke alias.set. value is not string"
  | aliasNoteNotText => "can't invoke alias.set. description is not unicode"
  | optionIndexNotInt => "invalid argument type. argument is not int"
  | optionNameNotText function => s!"can't invoke {function.name}. argument is not string"
  | constructorCount tag => s!"invalid arguments length for {tag.name}"
  | cannotConstruct tag => s!"can't construct {tag.name}"
  | cannotCast source target => s!"can't cast {source.name} to {target.name}"
  | cannotCastText text target => s!"can't cast \"{text}\" to {target.name}"
  | noMethods method => s!"can't call {method} method"
  | notAMethod method receiver => s!"\"{method}\" is not a method of {receiver.name}"
  | takesNoArguments method => s!"can't invoke {method}. too many arguments"
  | invalidArgument => "invalid argument"
  | emptySeparator => "empty separator"
  | pushNeedsOne => "can't invoke array.push. need one argument"
  | dictMethodCount method => s!"can't invoke dict.{method}(). need one or two argument"
  | fileNameNotText => "invalid file name type"
  | fileModeNotText => "invalid mode type"
  | invalidFileMode mode => s!"invalid mode \"{mode}\""
  | openFailed => "failed to open file"
  | fileClosed method path => s!"can't {method} \"{path}\". file is closed"
  | fileMethodCount => "invalid arguments length"
  | fileTextNotText => "invalid argument type"
  | readFailed => "failed to read content from file"
  | writeFailed => "failed to write text"

end Fault

end Stencil
