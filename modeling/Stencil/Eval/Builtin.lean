import Stencil.Eval.Function
import Stencil.Grammar.Statement
import Stencil.Value.Builtin

/-!
The built-in functions that write output, stop the program, bind names in the
caller's frame, or consult the context. `dance` runs a program in a context of
its own: nothing that it prints or defines reaches the caller except through the
result, unless it exits, which ends the caller as well.
-/

namespace Stencil.Eval

def lineOf (args : List Value) : Eval String :=
  read fun m => String.intercalate " " (args.map fun v => (m.store.get v).display)
    ++ m.context.lineEnding.text

def puts (args : List Value) : Eval Value := do
  writeOut (← lineOf args)
  make (.int (Int64.ofNat args.length))

def eputs (args : List Value) : Eval Value := do
  writeErr (← lineOf args)
  make (.int (Int64.ofNat args.length))

def exitWith (args : List Value) (pos : Position) : Eval Value := do
  match args with
  | [code] =>
    match ← load code with
    | .int status => failWith (.exit status.toInt32) (some pos)
    | _ => fail .exitCodeNotInt pos
  | _ => fail (.argumentCount .exit) pos

def die (args : List Value) (pos : Position) : Eval Value := do
  let _ ← eputs args
  failWith (.exit 1) (some pos)

def fields? : Object → Option ScopeId
  | .struct type => some type.fields
  | .instance _ fields => some fields
  | _ => none

def extractEach (pos : Position) : List Value → Eval Unit
  | [] => pure ()
  | v :: rest => do
    match fields? (← load v) with
    | some fields =>
      let table ← read (·.store.scope fields)
      let locals ← read (·.frame.locals)
      modifyStore (·.updateScope locals (·.insertAll table.toList))
      extractEach pos rest
    | none => fail .extractUnsupported pos

def extract (args : List Value) (pos : Position) : Eval Value := do
  if args.isEmpty then fail (.argumentCount .extract) pos
  else
    extractEach pos args
    make .nil

/-- How a program that ran apart has ended, and the context it left. -/
structure Apart where
  context : Context
  failure : Option Diagnostic

/-- Runs a program in a context of its own, one level deeper. The caller's
context and frame stay as they are. -/
def runApart (ex : Executor) (context : Context) (program : Program) : Eval Apart := fun m =>
  let ⟨store, caller, frame, depth, inReference, library⟩ := m
  match bind (ex program) settle
      ⟨store, context, .top context.globals none, depth + 1, false, library⟩ with
  | .done _ inner =>
    .done ⟨inner.context, none⟩ ⟨inner.store, caller, frame, depth, inReference, library⟩
  | .fail d inner =>
    .done ⟨inner.context, some d⟩ ⟨inner.store, caller, frame, depth, inReference, library⟩
  | .starved inner => .starved inner

def Apart.complaint (apart : Apart) : Object :=
  match apart.failure with
  | some d => .str (apart.context.err ++ d.message)
  | none => if apart.context.err.isEmpty then .nil else .str apart.context.err

/-- Ends the caller of a program that has exited, after handing on its output. -/
def exitToo (apart : Apart) (d : Diagnostic) (pos : Position) : Eval Value := do
  writeOut apart.context.out
  writeErr apart.context.err
  fun m => .fail (m.pass d pos) m

def danceNames (args : List Value) (pos : Position) : Eval (Dict Value) := do
  match args with
  | [] => return .empty
  | v :: _ =>
    match ← load v with
    | .dict names => return names
    | _ => fail .danceNeedsDict pos

def danceSource (ex : Executor) (source : String) (names : Dict Value) : Eval Apart := do
  let globals ← newScope names
  let context ← read fun m => Context.fresh globals m.context.lineEnding .none
  match Program.ofSource source with
  | .ok program => runApart ex context program
  | .error d => return ⟨context, some d⟩

def dance (ex : Executor) (args : List Value) (pos : Position) : Eval Value := do
  match args with
  | [] => fail (.argumentCount .dance) pos
  | code :: rest =>
    match (← load code).text? with
    | none => fail .danceNeedsSource pos
    | some source =>
      let apart ← danceSource ex source (← danceNames rest pos)
      match apart.failure with
      | some ⟨.exit status, place, trace⟩ => exitToo apart ⟨.exit status, place, trace⟩ pos
      | _ =>
        let out ← make (.str apart.context.out)
        let complaint ← make apart.complaint
        make (.array #[out, complaint])

def textArgument (v : Value) (fault : Fault) (pos : Position) : Eval String := do
  match (← load v).text? with
  | some content => return content
  | none => fail fault pos

def setAlias (args : List Value) (pos : Position) : Eval Value := do
  match args with
  | [key, value] =>
    let key ← textArgument key .aliasKeyNotText pos
    let value ← textArgument value .aliasValueNotText pos
    modifyContext (·.setAlias key value none)
    make .nil
  | [key, value, description] =>
    let key ← textArgument key .aliasKeyNotText pos
    let value ← textArgument value .aliasValueNotText pos
    let description ← textArgument description .aliasNoteNotText pos
    modifyContext (·.setAlias key value (some description))
    make .nil
  | [] | [_] => fail .aliasTooFew pos
  | _ => fail .aliasTooMany pos

def makeText? : Option String → Eval Value
  | some content => make (.str content)
  | none => make .nil

def option (function : Builtin) (args : List Value) (pos : Position)
    (answer : Options → String → Eval Value) : Eval Value := do
  match args with
  | [v] =>
    match (← load v).text? with
    | some name => answer (← read (·.context.options)) name
    | none => fail (.optionNameNotText function) pos
  | _ => fail (.argumentCount function) pos

def positional (args : List Value) (pos : Position) : Eval Value := do
  match args with
  | [v] =>
    match ← load v with
    | .int index => makeText? (← read (·.context.options.positional? index))
    | _ => fail .optionIndexNotInt pos
  | _ => fail (.argumentCount .optsArgs) pos

def callBuiltin (ex : Executor) (function : Builtin) (args : List Value) (pos : Position) :
    Eval Value :=
  match function.callPlain? args with
  | some action => act pos action
  | none =>
    match function with
    | .puts => puts args
    | .eputs => eputs args
    | .exit => exitWith args pos
    | .die => die args pos
    | .extract => extract args pos
    | .dance => dance ex args pos
    | .aliasSet => setAlias args pos
    | .optsGet => option .optsGet args pos fun options name => makeText? (options.get? name)
    | .optsHas => option .optsHas args pos fun options name => make (.bool (options.has name))
    | .optsArgs => positional args pos
    | other => fail (.undefined other.name) pos

end Stencil.Eval
