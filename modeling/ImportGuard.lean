import ImportGuard.Analysis
import ImportGuard.Check
import ImportGuard.CommandLine.Markup
import ImportGuard.CommandLine.Options
import ImportGuard.CommandLine.Run
import ImportGuard.CommandLine.Summary
import ImportGuard.Comment.Group
import ImportGuard.Comment.Map
import ImportGuard.Diagnostic
import ImportGuard.Directive
import ImportGuard.Finding
import ImportGuard.Journal
import ImportGuard.Journal.Pages
import ImportGuard.Main
import ImportGuard.Policy.Reader
import ImportGuard.Policy.Rule
import ImportGuard.Position
import ImportGuard.Program
import ImportGuard.Proofs.Analysis.Lowering
import ImportGuard.Proofs.Analysis.Output
import ImportGuard.Proofs.Analysis.RuleFindings
import ImportGuard.Proofs.Analysis.RuleLists
import ImportGuard.Proofs.Analysis.Suppression
import ImportGuard.Proofs.Analysis.Unspecified
import ImportGuard.Proofs.Analysis.UsableImports
import ImportGuard.Proofs.Check.Patterns
import ImportGuard.Proofs.Check.Report
import ImportGuard.Proofs.Check.SourceOrder
import ImportGuard.Proofs.Check.Unreadable
import ImportGuard.Proofs.Comment.Association
import ImportGuard.Proofs.Comment.Entries
import ImportGuard.Proofs.Comment.Grouping
import ImportGuard.Proofs.Comment.KeptOrder
import ImportGuard.Proofs.Comment.Lowering
import ImportGuard.Proofs.Comment.Mark
import ImportGuard.Proofs.Comment.PackageDoc
import ImportGuard.Proofs.Comment.Partition
import ImportGuard.Proofs.Comment.Rewording
import ImportGuard.Proofs.Directive.Ancestors
import ImportGuard.Proofs.Directive.Easing
import ImportGuard.Proofs.Directive.Inquiry
import ImportGuard.Proofs.Directive.Session
import ImportGuard.Proofs.Finding.Message
import ImportGuard.Proofs.Finding.Order
import ImportGuard.Proofs.Policy.Composition
import ImportGuard.Proofs.Policy.Paths
import ImportGuard.Proofs.Policy.Pattern
import ImportGuard.Proofs.Policy.RoundTrip
import ImportGuard.Proofs.Policy.Shape
import ImportGuard.Proofs.Position
import ImportGuard.Proofs.Settings.Faults
import ImportGuard.Proofs.StableSort
import ImportGuard.Proofs.Syntax.Moving
import ImportGuard.Proofs.Syntax.Sites
import ImportGuard.Proofs.Text.Literal
import ImportGuard.Proofs.Text.Pieces
import ImportGuard.Proofs.Text.Quoting
import ImportGuard.Proofs.Usage.Coverage
import ImportGuard.Proofs.Usage.Declarations
import ImportGuard.Proofs.Usage.Filing
import ImportGuard.Proofs.Usage.Likeness
import ImportGuard.Proofs.Usage.Mentions
import ImportGuard.Proofs.Usage.Nesting
import ImportGuard.Proofs.Usage.Reach
import ImportGuard.Proofs.Usage.Shadowing
import ImportGuard.Proofs.Usage.Signature
import ImportGuard.Proofs.Usage.TypeSwitch
import ImportGuard.Proofs.Usage.Visibility
import ImportGuard.Proofs.Usage.Walk
import ImportGuard.Proofs.Workspace.Packages
import ImportGuard.Proofs.Workspace.Paths
import ImportGuard.Proofs.Workspace.Tree
import ImportGuard.Proofs.Workspace.Walk
import ImportGuard.Settings.Basic
import ImportGuard.Settings.DotEnv
import ImportGuard.Settings.Json
import ImportGuard.Settings.Load
import ImportGuard.Settings.Value
import ImportGuard.Settings.Yaml.Reader
import ImportGuard.Settings.Yaml.Scalar
import ImportGuard.Settings.Yaml.Writer
import ImportGuard.Source
import ImportGuard.Syntax.File
import ImportGuard.Syntax.Grammar.Basic
import ImportGuard.Syntax.Grammar.Expression
import ImportGuard.Syntax.Grammar.Statement
import ImportGuard.Syntax.Grammar.Type
import ImportGuard.Syntax.Kind
import ImportGuard.Syntax.Node
import ImportGuard.Syntax.Token
import ImportGuard.Text.Blank
import ImportGuard.Text.Pieces
import ImportGuard.Text.Printable
import ImportGuard.Text.Quoted
import ImportGuard.Text.Shown
import ImportGuard.Text.Utf8
import ImportGuard.Usage.Event
import ImportGuard.Usage.Scope
import ImportGuard.Workspace.Packages
import ImportGuard.Workspace.Path
import ImportGuard.Workspace.Tree
