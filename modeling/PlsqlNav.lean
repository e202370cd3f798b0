import PlsqlNav.Command
import PlsqlNav.Command.Arguments
import PlsqlNav.Command.Run
import PlsqlNav.Cursor
import PlsqlNav.Documentation
import PlsqlNav.Failure
import PlsqlNav.Files.Ignore
import PlsqlNav.Files.Rule
import PlsqlNav.Files.Tree
import PlsqlNav.Files.Walk
import PlsqlNav.Format
import PlsqlNav.Glob
import PlsqlNav.Glob.Parser
import PlsqlNav.Main
import PlsqlNav.Outline
import PlsqlNav.Outline.Extent
import PlsqlNav.Outline.Header
import PlsqlNav.Outline.Query
import PlsqlNav.Outline.Scan
import PlsqlNav.Outline.Traversal
import PlsqlNav.Outline.Unexpected
import PlsqlNav.Parameter
import PlsqlNav.Path
import PlsqlNav.Proofs.Command.Ending
import PlsqlNav.Proofs.Cursor.Declaration
import PlsqlNav.Proofs.Cursor.Name
import PlsqlNav.Proofs.Cursor.Run
import PlsqlNav.Proofs.Documentation.Decoration
import PlsqlNav.Proofs.Documentation.Lines
import PlsqlNav.Proofs.Documentation.Tags
import PlsqlNav.Proofs.Files.Candidate
import PlsqlNav.Proofs.Files.Path
import PlsqlNav.Proofs.Files.Rule
import PlsqlNav.Proofs.Files.Selection
import PlsqlNav.Proofs.Files.Tree
import PlsqlNav.Proofs.Files.Walk
import PlsqlNav.Proofs.Glob.Encoding
import PlsqlNav.Proofs.Glob.Matching
import PlsqlNav.Proofs.Glob.Reading
import PlsqlNav.Proofs.Outline.Ancestors
import PlsqlNav.Proofs.Outline.Bodiless
import PlsqlNav.Proofs.Outline.Concatenation
import PlsqlNav.Proofs.Outline.Depth
import PlsqlNav.Proofs.Outline.Embedding
import PlsqlNav.Proofs.Outline.Enclosing
import PlsqlNav.Proofs.Outline.Excerpt
import PlsqlNav.Proofs.Outline.Issues
import PlsqlNav.Proofs.Outline.Kinds
import PlsqlNav.Proofs.Outline.Layout
import PlsqlNav.Proofs.Outline.Levels
import PlsqlNav.Proofs.Outline.Operand
import PlsqlNav.Proofs.Outline.Parent
import PlsqlNav.Proofs.Outline.Passing
import PlsqlNav.Proofs.Outline.Preorder
import PlsqlNav.Proofs.Outline.Switching
import PlsqlNav.Proofs.Outline.Traversal
import PlsqlNav.Proofs.Outline.WellFormed
import PlsqlNav.Proofs.Outline.WellNested
import PlsqlNav.Proofs.Report.Parameter
import PlsqlNav.Proofs.Scan.Action
import PlsqlNav.Proofs.Scan.Alike
import PlsqlNav.Proofs.Scan.Append
import PlsqlNav.Proofs.Scan.Correspondence
import PlsqlNav.Proofs.Scan.Declared
import PlsqlNav.Proofs.Scan.Directive
import PlsqlNav.Proofs.Scan.Finished
import PlsqlNav.Proofs.Scan.Forward
import PlsqlNav.Proofs.Scan.Headed
import PlsqlNav.Proofs.Scan.Members
import PlsqlNav.Proofs.Scan.Move
import PlsqlNav.Proofs.Scan.Progress
import PlsqlNav.Proofs.Scan.Readers
import PlsqlNav.Proofs.Scan.Recorded
import PlsqlNav.Proofs.Scan.Sound
import PlsqlNav.Proofs.Scan.UpTo
import PlsqlNav.Proofs.Scan.Walk
import PlsqlNav.Proofs.Search.Candidates
import PlsqlNav.Proofs.Search.Counterpart
import PlsqlNav.Proofs.Search.Definition
import PlsqlNav.Proofs.Search.Exact
import PlsqlNav.Proofs.Search.Goto
import PlsqlNav.Proofs.Search.History
import PlsqlNav.Proofs.Search.LetterCase
import PlsqlNav.Proofs.Search.Origin
import PlsqlNav.Proofs.Search.Pass
import PlsqlNav.Proofs.Search.Record
import PlsqlNav.Proofs.Search.Resolution
import PlsqlNav.Proofs.Search.Scope
import PlsqlNav.Proofs.Settings.Aliases
import PlsqlNav.Proofs.Text.Lines
import PlsqlNav.Proofs.Text.Position
import PlsqlNav.Proofs.Text.Trimmed
import PlsqlNav.Proofs.Token.Comment
import PlsqlNav.Proofs.Token.CommentEnd
import PlsqlNav.Proofs.Token.Coverage
import PlsqlNav.Proofs.Token.Excerpt
import PlsqlNav.Proofs.Token.Keyword
import PlsqlNav.Proofs.Token.Line
import PlsqlNav.Proofs.Token.Locality
import PlsqlNav.Proofs.Token.Placement
import PlsqlNav.Proofs.Token.Recogniser
import PlsqlNav.Proofs.Token.Word
import PlsqlNav.Proofs.Written.Advance
import PlsqlNav.Proofs.Written.Definition
import PlsqlNav.Proofs.Written.Reading
import PlsqlNav.Proofs.Written.RoundTrip
import PlsqlNav.Proofs.Written.Section
import PlsqlNav.Proofs.Written.Unit
import PlsqlNav.Report
import PlsqlNav.Report.Json
import PlsqlNav.Search.Cache
import PlsqlNav.Search.Memory
import PlsqlNav.Search.Navigator
import PlsqlNav.Search.Source
import PlsqlNav.Search.Synonyms
import PlsqlNav.Search.Workspace
import PlsqlNav.Settings
import PlsqlNav.Settings.Layer
import PlsqlNav.Symbol
import PlsqlNav.Text.Blank
import PlsqlNav.Text.Bytes
import PlsqlNav.Text.Case
import PlsqlNav.Text.Position
import PlsqlNav.Text.WordChar
import PlsqlNav.Token
import PlsqlNav.Token.Lexeme
import PlsqlNav.Token.Lexer
import PlsqlNav.Toml
import PlsqlNav.Toml.Document
import PlsqlNav.Toml.Quoted
import PlsqlNav.Toml.Scalar
