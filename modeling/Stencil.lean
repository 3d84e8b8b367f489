import Stencil.Main
import Stencil.Proofs.Context.Growth
import Stencil.Proofs.Diagnostic.Excerpt
import Stencil.Proofs.Diagnostic.Frames
import Stencil.Proofs.Dict.Refinement
import Stencil.Proofs.Eval.Arithmetic
import Stencil.Proofs.Eval.Character
import Stencil.Proofs.Eval.Dance
import Stencil.Proofs.Eval.Depth
import Stencil.Proofs.Eval.Instance
import Stencil.Proofs.Eval.Ownership
import Stencil.Proofs.Eval.Unpacking
import Stencil.Proofs.Grammar.Classification
import Stencil.Proofs.Grammar.RoundTrip
import Stencil.Proofs.Grammar.Texts
import Stencil.Proofs.Module.Cache
import Stencil.Proofs.Options
import Stencil.Proofs.Override.Coverage
import Stencil.Proofs.Override.Resolution
import Stencil.Proofs.Place.ReadOverWrite
import Stencil.Proofs.Program.Concatenation
import Stencil.Proofs.Program.Signals
import Stencil.Proofs.Program.Termination
import Stencil.Proofs.Scope.Capture
import Stencil.Proofs.Scope.Confinement
import Stencil.Proofs.Session.Clear
import Stencil.Proofs.Settings
import Stencil.Proofs.Template.Numeral
import Stencil.Proofs.Template.Rendering
import Stencil.Proofs.Text.WordCase
import Stencil.Proofs.Token.Lines
import Stencil.Proofs.Token.Partition
import Stencil.Proofs.Token.Spelling
import Stencil.Proofs.Value.Isomorphism
import Stencil.Value.Show
import Stencil.Proofs.Diagnostic.Caret
import Stencil.Proofs.Text.Utf8
import Stencil.Proofs.Token.Lexeme
import Stencil.Proofs.Token.Literal
import Stencil.Proofs.Grammar.Progress.Basic
import Stencil.Proofs.Grammar.Progress.Expression
import Stencil.Proofs.Grammar.Progress.Statement
import Stencil.Proofs.Grammar.Progress.Program
