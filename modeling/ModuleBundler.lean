import ModuleBundler.Dictionary
import ModuleBundler.Text.Basic
import ModuleBundler.Text.CodePoints
import ModuleBundler.Text.Blank
import ModuleBundler.Text.Word
import ModuleBundler.Text.Printable
import ModuleBundler.Token.Terminal
import ModuleBundler.Token.Lexeme
import ModuleBundler.Masking
import ModuleBundler.Token.Basic
import ModuleBundler.Token.Lexer
import ModuleBundler.Syntax.Tree
import ModuleBundler.Syntax.Machine
import ModuleBundler.Syntax.Parser
import ModuleBundler.Json.Basic
import ModuleBundler.Json.Writer
import ModuleBundler.Json.Reader
import ModuleBundler.Text.Quoted
import ModuleBundler.Syntax.Fault
import ModuleBundler.Hint
import ModuleBundler.Literal
import ModuleBundler.Rewriting.Declaration
import ModuleBundler.Rewriting.Scope
import ModuleBundler.Rewriting.Reference
import ModuleBundler.Rewriting.Prologue
import ModuleBundler.Rewriting.Basic
import ModuleBundler.Report
import ModuleBundler.Text.Case
import ModuleBundler.Regex.Basic
import ModuleBundler.Text.Integer
import ModuleBundler.Regex.Parser
import ModuleBundler.Regex.Matcher
import ModuleBundler.Path
import ModuleBundler.Utf8
import ModuleBundler.Disk
import ModuleBundler.Json.Whole
import ModuleBundler.Schema
import ModuleBundler.Log
import ModuleBundler.Failure
import ModuleBundler.Loader.Basic
import ModuleBundler.Loader.Rule
import ModuleBundler.Asset
import ModuleBundler.Graph.Basic
import ModuleBundler.Logged
import ModuleBundler.Graph.Discovery
import ModuleBundler.Graph.Builder
import ModuleBundler.Graph.Cycle
import ModuleBundler.Bundle.Script
import ModuleBundler.Bundle.Basic
import ModuleBundler.Build
import ModuleBundler.Config
import ModuleBundler.CommandLine.Help
import ModuleBundler.CommandLine.Arguments
import ModuleBundler.CommandLine.Command
import ModuleBundler.CommandLine.Basic
import ModuleBundler.Session
import ModuleBundler.Main
import ModuleBundler.Proofs.Spans
import ModuleBundler.Proofs.CodePoints
import ModuleBundler.Proofs.Lexeme
import ModuleBundler.Proofs.Literal
import ModuleBundler.Proofs.LiteralValue
import ModuleBundler.Proofs.CanonicalPath
import ModuleBundler.Proofs.NormalPath
import ModuleBundler.Proofs.Graph.Recorded
import ModuleBundler.Proofs.Graph.Invariant
import ModuleBundler.Proofs.Graph.Closure
import ModuleBundler.Proofs.Graph.Builder
import ModuleBundler.Proofs.Graph.Ending
import ModuleBundler.Proofs.Graph.Cycles
import ModuleBundler.Proofs.Graph.Files
import ModuleBundler.Proofs.Graph.Resolution
import ModuleBundler.Proofs.Graph.Spelling
import ModuleBundler.Proofs.Masking.Frame
import ModuleBundler.Proofs.Masking.Cut
import ModuleBundler.Proofs.Masking.Nesting
import ModuleBundler.Proofs.Masking.Division
import ModuleBundler.Proofs.Bundle.Mapping
import ModuleBundler.Proofs.Bundle.Rows
import ModuleBundler.Proofs.Bundle.Isolation
import ModuleBundler.Proofs.Syntax.Tokens
import ModuleBundler.Proofs.Lookback
import ModuleBundler.Proofs.Syntax.Undeclared
import ModuleBundler.Proofs.Syntax.Alike
import ModuleBundler.Proofs.Segments
import ModuleBundler.Proofs.Syntax.Written
import ModuleBundler.Proofs.Syntax.Nested
import ModuleBundler.Proofs.Letters
import ModuleBundler.Proofs.Renamed
import ModuleBundler.Proofs.Syntax.Opaque
import ModuleBundler.Proofs.Syntax.Phrases
import ModuleBundler.Proofs.Syntax.Named
import ModuleBundler.Proofs.Rewriting.Edits
import ModuleBundler.Proofs.Rewriting.Items
import ModuleBundler.Proofs.Rewriting.Passthrough
import ModuleBundler.Proofs.Rewriting.Binders
import ModuleBundler.Proofs.Rewriting.Prologue
import ModuleBundler.Proofs.Rewriting.Names
import ModuleBundler.Proofs.Rewriting.Fixpoint
import ModuleBundler.Proofs.Rewriting.Requires
import ModuleBundler.Proofs.Rewriting.Opaque
import ModuleBundler.Proofs.Rewriting.Capture
import ModuleBundler.Proofs.Bundle.Table
import ModuleBundler.Proofs.Bundle.Links
import ModuleBundler.Proofs.Json.Grammar
import ModuleBundler.Proofs.Json.Reading
import ModuleBundler.Proofs.Bundle.Lossless
import ModuleBundler.Proofs.Disk
import ModuleBundler.Proofs.CommandLine.Effects
import ModuleBundler.Proofs.CommandLine.Limits
import ModuleBundler.Proofs.Configuration
import ModuleBundler.Proofs.CommandLine.Escapes
import ModuleBundler.Proofs.Syntax.Gaps
import ModuleBundler.Proofs.Rewriting.Seams
import ModuleBundler.Proofs.Rewriting.Separation
import ModuleBundler.Proofs.Json.Documents
import ModuleBundler.Proofs.Syntax.Expressions
import ModuleBundler.Proofs.Rewriting.DefaultValue
import ModuleBundler.Proofs.Rewriting.Loaded
import ModuleBundler.Proofs.Rewriting.Variables
import ModuleBundler.Proofs.Rewriting.Hygiene
import ModuleBundler.Proofs.Rewriting.Apart
import ModuleBundler.Proofs.Rewriting.Patterns
import ModuleBundler.Proofs.Masking.Slashes
import ModuleBundler.Proofs.Syntax.Places
import ModuleBundler.Proofs.Syntax.Slashes
import ModuleBundler.Proofs.Rewriting.RegexLiterals
import ModuleBundler.Proofs.Syntax.Moved
import ModuleBundler.Proofs.Masking.LineEnds
import ModuleBundler.Proofs.Syntax.LineEnds
import ModuleBundler.Proofs.Rewriting.Exported
import ModuleBundler.Proofs.Rewriting.Moved
import ModuleBundler.Proofs.Rewriting.LineEnds
import ModuleBundler.Proofs.Rewriting.Positions
import ModuleBundler.Proofs.Syntax.Formed
import ModuleBundler.Proofs.Rewriting.Shorthand
import ModuleBundler.Proofs.Rewriting.Initializers
import ModuleBundler.Proofs.Rewriting.PropertyNames
import ModuleBundler.Proofs.Rewriting.Substitutions
import ModuleBundler.Proofs.Masking.Blanks
import ModuleBundler.Proofs.Rewriting.NamePlaces
import ModuleBundler.Proofs.Rewriting.TemplateCode
import ModuleBundler.Proofs.Rewriting.Imported
import ModuleBundler.Proofs.Rewriting.Getters
import ModuleBundler.Proofs.Rewriting.LiveNames
import ModuleBundler.Proofs.Rewriting.Relocated
import ModuleBundler.Proofs.Rewriting.Parts
import ModuleBundler.Proofs.Rewriting.Consumed
import ModuleBundler.Proofs.Rewriting.DefinedOnce
import ModuleBundler.Proofs.Syntax.Balance
import ModuleBundler.Proofs.Masking.MemberNames
import ModuleBundler.Proofs.Rewriting.FaultPlaces
import ModuleBundler.Proofs.Masking.Bodies
import ModuleBundler.Proofs.Syntax.Lossless
import ModuleBundler.Proofs.Session
import ModuleBundler.Proofs.Masking.Templates
import ModuleBundler.Proofs.Syntax.Twins
import ModuleBundler.Proofs.Syntax.Templates
