import RuleLang.Catalog.Basic
import RuleLang.Catalog.Builtin
import RuleLang.Catalog.Candidates
import RuleLang.Catalog.Depth
import RuleLang.Catalog.Reader
import RuleLang.Catalog.Table
import RuleLang.Catalog.Writer
import RuleLang.Command.Basic
import RuleLang.Command.Flag
import RuleLang.Command.Format
import RuleLang.Command.GrammarFile
import RuleLang.Command.Request
import RuleLang.Command.Run
import RuleLang.Command.Suggestion
import RuleLang.Command.World
import RuleLang.Config.Basic
import RuleLang.Config.EnvFile
import RuleLang.Editor.Completion
import RuleLang.Editor.Diagnostic
import RuleLang.Editor.EditCache
import RuleLang.Editor.Hover
import RuleLang.Editor.Lru
import RuleLang.Editor.Position
import RuleLang.Editor.Span
import RuleLang.Editor.TextEdit
import RuleLang.Files.Tree
import RuleLang.Grammar.Alternation
import RuleLang.Grammar.Highlighting
import RuleLang.Indent.Classify
import RuleLang.Indent.Edit
import RuleLang.Indent.Format
import RuleLang.Indent.Style
import RuleLang.Json.Decode
import RuleLang.Json.Number
import RuleLang.Json.Reader
import RuleLang.Json.Value
import RuleLang.Json.Writer
import RuleLang.Main
import RuleLang.Numeral.Decimal
import RuleLang.Numeral.Double
import RuleLang.Numeral.Integer
import RuleLang.Proofs.Catalog.RowOrder
import RuleLang.Proofs.Catalog.TableFaults
import RuleLang.Proofs.Catalog.TableRoundTrip
import RuleLang.Proofs.Command.CheckListing
import RuleLang.Proofs.Command.FileSafety
import RuleLang.Proofs.Command.Schedule
import RuleLang.Proofs.Command.StdinAlone
import RuleLang.Proofs.Command.WriteBack
import RuleLang.Proofs.Editor.CandidateIndent
import RuleLang.Proofs.Editor.ClientEdits
import RuleLang.Proofs.Editor.HoverPlace
import RuleLang.Proofs.Editor.HoverTokens
import RuleLang.Proofs.Editor.LineGrammar
import RuleLang.Proofs.Editor.LineParts
import RuleLang.Proofs.Editor.RecentKeys
import RuleLang.Proofs.Editor.Remarks
import RuleLang.Proofs.Editor.SpanLayout
import RuleLang.Proofs.Editor.TokenData
import RuleLang.Proofs.Editor.TokenSpans
import RuleLang.Proofs.Editor.WordRuns
import RuleLang.Proofs.Files.Rewriting
import RuleLang.Proofs.Grammar.Alternatives
import RuleLang.Proofs.Grammar.MetavariableMatches
import RuleLang.Proofs.Indent.ClosedForm
import RuleLang.Proofs.Indent.FinalLineFeed
import RuleLang.Proofs.Indent.FormatText
import RuleLang.Proofs.Indent.Formatted
import RuleLang.Proofs.Indent.Reindent
import RuleLang.Proofs.Indent.Sections
import RuleLang.Proofs.Json.Members
import RuleLang.Proofs.Json.Source
import RuleLang.Proofs.Json.StringLiteral
import RuleLang.Proofs.Numeral.ExactDouble
import RuleLang.Proofs.Numeral.ReadBack
import RuleLang.Proofs.Numeral.Spelling
import RuleLang.Proofs.Server.Answers
import RuleLang.Proofs.Server.CacheTransparency
import RuleLang.Proofs.Server.Documents
import RuleLang.Proofs.Server.EchoedIds
import RuleLang.Proofs.Server.Framing
import RuleLang.Proofs.Server.HeaderGrammar
import RuleLang.Proofs.Server.Malformed
import RuleLang.Proofs.Server.Output
import RuleLang.Proofs.Server.Publication
import RuleLang.Proofs.Server.Removal
import RuleLang.Proofs.Server.Run
import RuleLang.Proofs.Server.StyleBounds
import RuleLang.Proofs.Text.Boundary
import RuleLang.Proofs.Text.ColumnInverse
import RuleLang.Proofs.Text.Cursor
import RuleLang.Proofs.Text.Decoding
import RuleLang.Proofs.Text.Encoding
import RuleLang.Proofs.Text.LeadingSpace
import RuleLang.Proofs.Text.Pieces
import RuleLang.Proofs.Text.Trimming
import RuleLang.Server.Frame
import RuleLang.Server.Message
import RuleLang.Server.Session
import RuleLang.Server.State
import RuleLang.Text.Base64
import RuleLang.Text.Basic
import RuleLang.Text.Blank
import RuleLang.Text.Columns
import RuleLang.Text.Document
import RuleLang.Text.Printable
import RuleLang.Text.Quoted
import RuleLang.Text.Sha256
import RuleLang.Text.Utf8
import RuleLang.Yaml.Node
import RuleLang.Yaml.Resolve
import RuleLang.Yaml.Scalar
import RuleLang.Yaml.Source
import RuleLang.Yaml.Style
import RuleLang.Yaml.Timestamp
import RuleLang.Yaml.Token
import RuleLang.Yaml.Writer
