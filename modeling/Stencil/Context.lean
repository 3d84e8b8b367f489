import Stencil.LineEnding
import Stencil.Options
import Stencil.Value.Basic

/-!
What surrounds a program and outlives a single run: the global names, the
collected output, the shortcuts and options, and the modules imported so far.
-/

namespace Stencil

/-- A shortcut that a program offers, with an optional description. -/
structure Alias where
  value : String
  description : Option String

structure Context where
  globals : ScopeId
  out : String
  err : String
  lineEnding : LineEnding
  aliases : Dict Alias
  options : Options
  /-- Modules by the full path of their file. -/
  modules : Dict Value

namespace Context

def fresh (globals : ScopeId) (lineEnding : LineEnding) (options : Options) : Context :=
  { globals, out := "", err := "", lineEnding, aliases := .empty, options, modules := .empty }

def writeOut (c : Context) (text : String) : Context := { c with out := c.out ++ text }

def writeErr (c : Context) (text : String) : Context := { c with err := c.err ++ text }

def clearOutput (c : Context) : Context := { c with out := "", err := "" }

def setAlias (c : Context) (key value : String) (description : Option String) : Context :=
  { c with aliases := c.aliases.insert key ⟨value, description⟩ }

def sortedAliases (c : Context) : List (String × Alias) :=
  c.aliases.toList.mergeSort fun a b => a.1 ≤ b.1

end Context

end Stencil
