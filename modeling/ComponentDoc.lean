import ComponentDoc.Binding.Declarations
import ComponentDoc.Binding.Definition
import ComponentDoc.Binding.Dialect
import ComponentDoc.Binding.Events
import ComponentDoc.Binding.Markup
import ComponentDoc.Binding.Occurrence
import ComponentDoc.Binding.Resolution
import ComponentDoc.Binding.Symbols
import ComponentDoc.Cli.Args
import ComponentDoc.Cli.Run
import ComponentDoc.Cli.Usage
import ComponentDoc.Comment.Binder
import ComponentDoc.Comment.Doc
import ComponentDoc.Comment.Source
import ComponentDoc.Component.Basic
import ComponentDoc.Component.Block
import ComponentDoc.Component.Tag
import ComponentDoc.Config.Basic
import ComponentDoc.Config.Load
import ComponentDoc.Config.Read
import ComponentDoc.Document.Assemble
import ComponentDoc.Document.Encode
import ComponentDoc.Document.Entity
import ComponentDoc.Document.Kind
import ComponentDoc.Document.Locate
import ComponentDoc.Document.TypeDescriptor
import ComponentDoc.Extract
import ComponentDoc.Files.Scan
import ComponentDoc.Files.Tree
import ComponentDoc.Glob.Expand
import ComponentDoc.Glob.Pattern
import ComponentDoc.Json.Basic
import ComponentDoc.Json.Print
import ComponentDoc.Json.Read
import ComponentDoc.Main
import ComponentDoc.Path.Basic
import ComponentDoc.Path.Relation
import ComponentDoc.Script.Binding
import ComponentDoc.Script.Cursor
import ComponentDoc.Script.Fault
import ComponentDoc.Script.Grammar.Basic
import ComponentDoc.Script.Grammar.Chain
import ComponentDoc.Script.Grammar.Class
import ComponentDoc.Script.Grammar.Declaration
import ComponentDoc.Script.Grammar.Function
import ComponentDoc.Script.Grammar.Module
import ComponentDoc.Script.Grammar.Object
import ComponentDoc.Script.Grammar.Operator
import ComponentDoc.Script.Grammar.Params
import ComponentDoc.Script.Grammar.Parser
import ComponentDoc.Script.Grammar.Primary
import ComponentDoc.Script.Grammar.Statement
import ComponentDoc.Script.Grammar.Target
import ComponentDoc.Script.Grammar.Type
import ComponentDoc.Script.Infer
import ComponentDoc.Script.Item
import ComponentDoc.Script.Parse
import ComponentDoc.Script.Scan
import ComponentDoc.Script.Token
import ComponentDoc.Script.Tree
import ComponentDoc.Script.Value
import ComponentDoc.Script.Visit
import ComponentDoc.Text.Blank
import ComponentDoc.Text.Letter
import ComponentDoc.Text.Lines
import ComponentDoc.Text.Offset
import ComponentDoc.Text.Quoted
import ComponentDoc.Text.Search
import ComponentDoc.Text.Surrogate
import ComponentDoc.Proofs.Comment.Exclusive
import ComponentDoc.Proofs.Binding.Linked
import ComponentDoc.Proofs.Document.Findings
import ComponentDoc.Proofs.Document.Assembly
import ComponentDoc.Proofs.Document.Conservation
import ComponentDoc.Proofs.Document.Declaration
import ComponentDoc.Proofs.Document.Visibility
import ComponentDoc.Proofs.Document.Projection
import ComponentDoc.Proofs.Document.ListingOrder
import ComponentDoc.Proofs.Document.Unresolved
import ComponentDoc.Proofs.Shift.Document
import ComponentDoc.Proofs.Binding.Exported
import ComponentDoc.Proofs.Component.Leftmost
import ComponentDoc.Proofs.Component.Delimiters
import ComponentDoc.Proofs.Component.Blanked
import ComponentDoc.Proofs.Component.CommentedOut
import ComponentDoc.Proofs.Component.ScriptFree
import ComponentDoc.Proofs.Text.Bytes
import ComponentDoc.Proofs.Binding.Detection
import ComponentDoc.Proofs.Comment.Nearest
import ComponentDoc.Proofs.Comment.Claimed
import ComponentDoc.Proofs.Files.Ignored
import ComponentDoc.Proofs.Binding.Methods
import ComponentDoc.Proofs.Document.MethodNames
import ComponentDoc.Proofs.Binding.Resolved
import ComponentDoc.Proofs.Script.References
import ComponentDoc.Proofs.Binding.Computed
import ComponentDoc.Proofs.Binding.Static
import ComponentDoc.Proofs.Document.Dependencies
import ComponentDoc.Proofs.Binding.Aliases
import ComponentDoc.Proofs.Binding.Placed
import ComponentDoc.Proofs.Document.Rearranged
import ComponentDoc.Proofs.Component.Written
import ComponentDoc.Proofs.Component.Layout
import ComponentDoc.Proofs.Script.Cascade
import ComponentDoc.Proofs.Script.TypeOnly
import ComponentDoc.Proofs.Text.Trim
import ComponentDoc.Proofs.Document.TypeTag
import ComponentDoc.Proofs.Document.UnionText
import ComponentDoc.Proofs.Comment.DocBlock
import ComponentDoc.Proofs.Comment.ParamTag
import ComponentDoc.Proofs.Binding.ParamDefaults
import ComponentDoc.Proofs.Document.Located
import ComponentDoc.Proofs.Script.Sites
import ComponentDoc.Proofs.Binding.Emitted
import ComponentDoc.Proofs.Script.Respelled
import ComponentDoc.Proofs.Binding.Inlined
import ComponentDoc.Proofs.Binding.Shorthand
import ComponentDoc.Proofs.Path.Join
import ComponentDoc.Proofs.Path.Order
import ComponentDoc.Proofs.Path.Relative
import ComponentDoc.Proofs.Files.Lookup
import ComponentDoc.Proofs.Files.Scanned
import ComponentDoc.Proofs.Glob.Described
import ComponentDoc.Proofs.Glob.Reading
import ComponentDoc.Proofs.Files.Included
import ComponentDoc.Proofs.Cli.Labels
import ComponentDoc.Proofs.Binding.TopLevel
import ComponentDoc.Proofs.Files.Configured
import ComponentDoc.Proofs.Script.Collected
