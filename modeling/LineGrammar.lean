import LineGrammar.Command.Arguments
import LineGrammar.Command.Error
import LineGrammar.Command.Program
import LineGrammar.Command.Session
import LineGrammar.Command.Settings
import LineGrammar.Completion.Basic
import LineGrammar.Completion.Completer
import LineGrammar.Completion.Feed
import LineGrammar.Completion.Words
import LineGrammar.Consulting
import LineGrammar.Document
import LineGrammar.Expression.Leaf
import LineGrammar.Expression.Parsing
import LineGrammar.Expression.Token
import LineGrammar.Grammar.Compiled
import LineGrammar.Grammar.Error
import LineGrammar.Grammar.Fragment
import LineGrammar.Grammar.Lowering
import LineGrammar.Grammar.Match
import LineGrammar.Highlight.Highlighter
import LineGrammar.Highlight.Styled
import LineGrammar.Inspection
import LineGrammar.Located
import LineGrammar.Main
import LineGrammar.Pattern.Basic
import LineGrammar.Pattern.Matching
import LineGrammar.Pattern.Reading
import LineGrammar.Proofs.Completion.Feeds
import LineGrammar.Proofs.Completion.Streaming
import LineGrammar.Proofs.Document
import LineGrammar.Proofs.Expression.LeafBody
import LineGrammar.Proofs.Expression.LeafNative
import LineGrammar.Proofs.Expression.LeafToken
import LineGrammar.Proofs.Expression.Parsed
import LineGrammar.Proofs.Expression.PhraseReading
import LineGrammar.Proofs.Expression.Phrases
import LineGrammar.Proofs.Expression.Pieces
import LineGrammar.Proofs.Expression.Scanning
import LineGrammar.Proofs.Grammar.Acceptance
import LineGrammar.Proofs.Grammar.Beginnings
import LineGrammar.Proofs.Grammar.Body
import LineGrammar.Proofs.Grammar.BodyScopes
import LineGrammar.Proofs.Grammar.BodySpans
import LineGrammar.Proofs.Grammar.BodyUses
import LineGrammar.Proofs.Grammar.Boundaries
import LineGrammar.Proofs.Grammar.Captures
import LineGrammar.Proofs.Grammar.Compiling
import LineGrammar.Proofs.Grammar.Completions
import LineGrammar.Proofs.Grammar.EndNodes
import LineGrammar.Proofs.Grammar.Innermost
import LineGrammar.Proofs.Grammar.Lowering
import LineGrammar.Proofs.Grammar.Occurrences
import LineGrammar.Proofs.Grammar.Sentences
import LineGrammar.Proofs.Grammar.Trailing
import LineGrammar.Proofs.Outcome
import LineGrammar.Proofs.Pattern.Characters
import LineGrammar.Proofs.Pattern.ClassText
import LineGrammar.Proofs.Pattern.Endings
import LineGrammar.Proofs.Pattern.Escapes
import LineGrammar.Proofs.Pattern.Frame
import LineGrammar.Proofs.Pattern.Groups
import LineGrammar.Proofs.Pattern.Nesting
import LineGrammar.Proofs.Pattern.Numbering
import LineGrammar.Proofs.Pattern.Quantifier
import LineGrammar.Proofs.Pattern.Segment
import LineGrammar.Proofs.Pattern.Spans
import LineGrammar.Proofs.Pattern.Ways
import LineGrammar.Proofs.Steps
import LineGrammar.Proofs.Tree.Basic
import LineGrammar.Proofs.Tree.Beginnings
import LineGrammar.Proofs.Tree.Bodies
import LineGrammar.Proofs.Tree.Completions
import LineGrammar.Proofs.Tree.Derivation
import LineGrammar.Proofs.Tree.Endings
import LineGrammar.Proofs.Tree.Exactness
import LineGrammar.Proofs.Tree.Language
import LineGrammar.Proofs.Tree.Slices
import LineGrammar.Proofs.Tree.Truncation
import LineGrammar.Proofs.Tree.Uses
import LineGrammar.Proofs.Tree.Variables
import LineGrammar.Proofs.Tree.Words
import LineGrammar.Registry
import LineGrammar.Text.Alphanumeric
import LineGrammar.Text.Blank
import LineGrammar.Text.Bytes
import LineGrammar.Text.CaseFolding
import LineGrammar.Text.Cased
import LineGrammar.Text.Extender
import LineGrammar.Text.Intervals
import LineGrammar.Text.Json
import LineGrammar.Text.Letter
import LineGrammar.Text.Lines
import LineGrammar.Text.Lowercase
import LineGrammar.Text.Number
import LineGrammar.Text.Quoted
import LineGrammar.Text.Record
import LineGrammar.Text.Unprintable
import LineGrammar.Tree
import LineGrammar.Validation.Deferred
import LineGrammar.Validation.Validator
import LineGrammar.Proofs.Completion.Cancellation
import LineGrammar.Proofs.Completion.Extension
import LineGrammar.Proofs.Highlight.Fingerprints
import LineGrammar.Proofs.Expression.Rendering
import LineGrammar.Proofs.Expression.Tokenizing
import LineGrammar.Proofs.Expression.RoundTrip
import LineGrammar.Proofs.Highlight.Lines
import LineGrammar.Proofs.Highlight.Outside
import LineGrammar.Proofs.Highlight.Places
import LineGrammar.Proofs.Highlight.Styles
import LineGrammar.Proofs.Expression.ClassMembers
import LineGrammar.Proofs.Expression.ClassLowering
import LineGrammar.Proofs.Expression.ClassReading
import LineGrammar.Proofs.Expression.ClassMeaning
import LineGrammar.Proofs.Text.Boundaries
import LineGrammar.Proofs.Expression.Layout
import LineGrammar.Proofs.Expression.Comments
import LineGrammar.Proofs.Expression.Errors
import LineGrammar.Proofs.Text.CommonPrefix
import LineGrammar.Proofs.Grammar.Literals
import LineGrammar.Proofs.Text.Lowercase
import LineGrammar.Proofs.Completion.IgnoringCase
import LineGrammar.Proofs.Expression.Verbatim
import LineGrammar.Proofs.Completion.Fields
import LineGrammar.Proofs.Validation.Judgements
import LineGrammar.Proofs.Validation.Positions
import LineGrammar.Proofs.Highlight.Splitting
import LineGrammar.Proofs.Grammar.Identifiers
import LineGrammar.Proofs.Text.Quoting
import LineGrammar.Proofs.Command.Settings
import LineGrammar.Proofs.Command.Output
import LineGrammar.Proofs.Command.Program
import LineGrammar.Proofs.Grammar.Enclosures
import LineGrammar.Proofs.Grammar.Faults
import LineGrammar.Proofs.Grammar.Alignment
