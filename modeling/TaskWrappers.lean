import TaskWrappers.Artifact
import TaskWrappers.Candidate
import TaskWrappers.Catalog
import TaskWrappers.CommandLine.Basic
import TaskWrappers.CommandLine.Reader
import TaskWrappers.CommandLine.Reply
import TaskWrappers.Config.Basic
import TaskWrappers.Config.Load
import TaskWrappers.Config.Toml
import TaskWrappers.ConstantExpr.Token
import TaskWrappers.ConstantExpr.Value
import TaskWrappers.Declaration.Basic
import TaskWrappers.Declaration.OfTree
import TaskWrappers.Declaration.Text
import TaskWrappers.Digest
import TaskWrappers.Failure
import TaskWrappers.FileSystem.Basic
import TaskWrappers.FileSystem.Change
import TaskWrappers.FileSystem.Difference
import TaskWrappers.Language
import TaskWrappers.Main
import TaskWrappers.Marker
import TaskWrappers.Model
import TaskWrappers.Naming
import TaskWrappers.Outcome
import TaskWrappers.Pass
import TaskWrappers.Path
import TaskWrappers.Payload
import TaskWrappers.Project
import TaskWrappers.Project.Locate
import TaskWrappers.Proofs.ConstantExpr.Denotation
import TaskWrappers.Proofs.ConstantExpr.Grammar
import TaskWrappers.Proofs.ConstantExpr.Reader
import TaskWrappers.Proofs.Resolution.Canonical
import TaskWrappers.Proofs.Resolution.Display
import TaskWrappers.Proofs.Resolution.Exact
import TaskWrappers.Proofs.Resolution.Lookup
import TaskWrappers.Proofs.Text.Name
import TaskWrappers.Proofs.TypeExpr.Path
import TaskWrappers.Proofs.TypeExpr.ReadTokens
import TaskWrappers.Proofs.TypeExpr.RoundTrip
import TaskWrappers.Proofs.TypeExpr.Tokens
import TaskWrappers.Proofs.TypeExpr.WellFormed
import TaskWrappers.Proofs.Wrapper.Parameters
import TaskWrappers.Proofs.Wrapper.Payload
import TaskWrappers.Proofs.Wrapper.Scope
import TaskWrappers.Proofs.Wrapper.Short
import TaskWrappers.Report.Json
import TaskWrappers.Report.Text
import TaskWrappers.Scope
import TaskWrappers.Source.Grammar
import TaskWrappers.Source.Lexeme
import TaskWrappers.Source.Pattern
import TaskWrappers.Source.Reader
import TaskWrappers.Source.Reserved
import TaskWrappers.Source.Span
import TaskWrappers.Source.Tree
import TaskWrappers.SourceTree
import TaskWrappers.Symbol
import TaskWrappers.Task
import TaskWrappers.Text.Class
import TaskWrappers.Text.CodePoint
import TaskWrappers.Text.Cut
import TaskWrappers.Text.Edges
import TaskWrappers.Text.Json
import TaskWrappers.Text.Quoted
import TaskWrappers.Text.Width
import TaskWrappers.TypeExpr.Basic
import TaskWrappers.TypeExpr.Error
import TaskWrappers.TypeExpr.Printer
import TaskWrappers.TypeExpr.Reader
import TaskWrappers.TypeExpr.Token
import TaskWrappers.Warning
import TaskWrappers.Wrapper.Plan
import TaskWrappers.Wrapper.Source
import TaskWrappers.Proofs.Naming
import TaskWrappers.Proofs.Outcome.Parts
import TaskWrappers.Proofs.Outcome.Ledger
import TaskWrappers.Proofs.Outcome.Contest
import TaskWrappers.Proofs.Wrapper.Layout
import TaskWrappers.Proofs.Wrapper.Call
import TaskWrappers.Proofs.Wrapper.Members
import TaskWrappers.Proofs.Resolution.Cycle
import TaskWrappers.Proofs.TypeExpr.Grammar
import TaskWrappers.Proofs.TypeExpr.Exact
import TaskWrappers.Proofs.TypeExpr.Unambiguous
import TaskWrappers.Proofs.Resolution.Alias
import TaskWrappers.Proofs.Resolution.Alike
import TaskWrappers.Proofs.ConstantExpr.Path
import TaskWrappers.Proofs.Resolution.Dotted
import TaskWrappers.Proofs.TypeExpr.Tuple
import TaskWrappers.Proofs.Candidate
import TaskWrappers.Proofs.FileSystem.Tree
import TaskWrappers.Proofs.FileSystem.Change
import TaskWrappers.Proofs.Pass
import TaskWrappers.Proofs.Text.Bytes
import TaskWrappers.Proofs.Path.Below
import TaskWrappers.Proofs.Path.Parent
import TaskWrappers.Proofs.FileSystem.Below
import TaskWrappers.Proofs.SourceTree.Walk
import TaskWrappers.Proofs.SourceTree.Read
import TaskWrappers.Proofs.SourceTree.Watch
import TaskWrappers.Proofs.SourceTree.Exact
import TaskWrappers.Proofs.FileSystem.Way
import TaskWrappers.Proofs.SourceTree.Skip
import TaskWrappers.Proofs.FileSystem.Make
import TaskWrappers.Proofs.FileSystem.Sound
import TaskWrappers.Proofs.Analysis
import TaskWrappers.Proofs.Converge
import TaskWrappers.Proofs.FileOrder
import TaskWrappers.Proofs.Outcome.Place
import TaskWrappers.Proofs.Placed
import TaskWrappers.Proofs.Partial
import TaskWrappers.Proofs.Directive
import TaskWrappers.Proofs.Conditional
import TaskWrappers.Proofs.Resolution.Agree
import TaskWrappers.Proofs.ConstantExpr.Words
import TaskWrappers.Proofs.Resolution.Described
import TaskWrappers.Proofs.Outcome.Later
import TaskWrappers.Proofs.Unrelated
import TaskWrappers.Proofs.Outcome.Origin
import TaskWrappers.Proofs.ConstantExpr.Literal
import TaskWrappers.Proofs.Verbatim.Text
import TaskWrappers.Proofs.Verbatim.Reference
import TaskWrappers.Proofs.Verbatim.Declared
import TaskWrappers.Proofs.Outcome.Admission
import TaskWrappers.Proofs.Wrapper.Clash
import TaskWrappers.Proofs.ConstantExpr.Spelling
import TaskWrappers.Proofs.ConstantExpr.Written
import TaskWrappers.Proofs.Nesting
import TaskWrappers.Proofs.ConstantExpr.Composed
import TaskWrappers.Proofs.ConstantExpr.Global
import TaskWrappers.Proofs.Resolution.Qualifier
import TaskWrappers.Proofs.Resolution.Names
import TaskWrappers.Proofs.Wording.Choice
import TaskWrappers.Proofs.Wording.Qualified
import TaskWrappers.Proofs.Resolution.Nearest
import TaskWrappers.Proofs.TypeExpr.Global
import TaskWrappers.Proofs.Resolution.Declared
import TaskWrappers.Proofs.Resolution.Induction
import TaskWrappers.Proofs.Wrapper.Marks
import TaskWrappers.Proofs.Wrapper.System
import TaskWrappers.Proofs.FunctionResult
import TaskWrappers.Proofs.Closed
import TaskWrappers.Proofs.Text.Space
import TaskWrappers.Proofs.TypeExpr.Spaceless
import TaskWrappers.Proofs.TypeExpr.Apart
import TaskWrappers.Proofs.AliasLine
import TaskWrappers.Proofs.Project.Element
import TaskWrappers.Proofs.Project.Comment
import TaskWrappers.Proofs.ConstantExpr.Bounds
import TaskWrappers.Proofs.ConstantExpr.Trimmed
import TaskWrappers.Proofs.Argument.Constant
import TaskWrappers.Proofs.Argument.Named
