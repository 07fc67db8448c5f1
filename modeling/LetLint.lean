import LetLint.Text.CharClass
import LetLint.Text.Lines
import LetLint.Text.Quoted
import LetLint.Text.Search
import LetLint.Text.Utf8
import LetLint.Number.Text
import LetLint.Source.Basic
import LetLint.Token.Cursor
import LetLint.Tree.Document
import LetLint.Tree.Outline
import LetLint.Parse.Arena
import LetLint.Parse.Session
import LetLint.Symbol.MethodTable
import LetLint.Model.Scoping
import LetLint.Diagnostic.Report
import LetLint.Rule.LetSafety
import LetLint.Rule.Registry
import LetLint.Analysis.Analyzer
import LetLint.Analysis.Embedding
import LetLint.Proofs.Grammar.Derivation
import LetLint.Proofs.Grammar.Shape
import LetLint.Proofs.Grammar.Parts
import LetLint.Proofs.Parse.Reading
import LetLint.Proofs.Parse.Soundness
import LetLint.Proofs.Grammar.Layout
import LetLint.Proofs.Parse.Accepted
import LetLint.Proofs.Tree.Order
import LetLint.Proofs.Grammar.First
import LetLint.Proofs.Rule.Selection
import LetLint.Proofs.Parse.Lookahead
import LetLint.Proofs.Parse.Completeness
import LetLint.Proofs.Model.Lexical
import LetLint.Proofs.Model.Scoping
import LetLint.Proofs.Parse.Alike
import LetLint.Proofs.Parse.Simulation
import LetLint.Proofs.Source.Slices
import LetLint.Proofs.Source.Positions
import LetLint.Proofs.Token.Run
import LetLint.Proofs.Token.Spelling
import LetLint.Proofs.Token.Renaming
import LetLint.Proofs.Token.Writing
import LetLint.Proofs.Tree.Spans
import LetLint.Proofs.Tree.Listing
import LetLint.Proofs.Parse.Arena
import LetLint.Proofs.Tree.Keeping
import LetLint.Proofs.Tree.Relocation
import LetLint.Proofs.Tree.Renaming
import LetLint.Proofs.Model.Declaration
import LetLint.Proofs.Model.Relocation
import LetLint.Proofs.Model.Renaming
import LetLint.Proofs.Parse.Counted
import LetLint.Proofs.Parse.Changed
import LetLint.Proofs.Parse.Concatenation
import LetLint.Proofs.Parse.Renaming
import LetLint.Proofs.Rule.Relocation
import LetLint.Proofs.Text.Lines
import LetLint.Proofs.Text.Utf8
import LetLint.Proofs.Text.ZeroFree
import LetLint.Proofs.Order
import LetLint.Proofs.Analysis.Invariance
import LetLint.Proofs.Analysis.Justification
import LetLint.Proofs.Analysis.Schedule
import LetLint.Proofs.Analysis.Embedding
import LetLint.Proofs.Analysis.Renaming
import LetLint.Proofs.Symbol.TypeText
import LetLint.Proofs.Symbol.ReadBack
import LetLint.Proofs.Diagnostic.Carets
import LetLint.Proofs.Diagnostic.Filling
import LetLint.Proofs.Rule.Registry
import LetLint.Proofs.Token.Munch
import LetLint.Proofs.Token.Respacing
import LetLint.Proofs.Token.Literal
import LetLint.Proofs.Diagnostic.Locations
import LetLint.Proofs.Parse.Recovery
import LetLint.Proofs.Parse.Nesting
import LetLint.Proofs.Parse.Rereading
import LetLint.Proofs.Parse.Skipping
import LetLint.Proofs.Tree.Walk
import LetLint.Proofs.Parse.Progress
import LetLint.Proofs.Parse.Frame
import LetLint.Proofs.Parse.Matching
