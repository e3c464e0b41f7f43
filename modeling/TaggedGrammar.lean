import TaggedGrammar.Main
import TaggedGrammar.Seed
import TaggedGrammar.Proofs.Expansion.Law
import TaggedGrammar.Proofs.Expansion.Scope
import TaggedGrammar.Proofs.Expansion.Tags
import TaggedGrammar.Proofs.Template.Body
import TaggedGrammar.Proofs.Template.Piece
import TaggedGrammar.Proofs.Template.Reading
import TaggedGrammar.Proofs.Expansion.Step
import TaggedGrammar.Proofs.Grammar.Parsed
import TaggedGrammar.Proofs.Grammar.Session
import TaggedGrammar.Proofs.Expansion.Derivation
import TaggedGrammar.Proofs.Expansion.Steering
import TaggedGrammar.Proofs.Expansion.Comparison
import TaggedGrammar.Proofs.Expansion.Depth
import TaggedGrammar.Proofs.Expansion.Machine
import TaggedGrammar.Proofs.Expansion.Resolution
import TaggedGrammar.Proofs.Expansion.Safety
import TaggedGrammar.Proofs.Template.Printing
import TaggedGrammar.Proofs.Yaml.Cursor
import TaggedGrammar.Proofs.Yaml.Scalar.Quoted
import TaggedGrammar.Proofs.Yaml.Scalar.Single
import TaggedGrammar.Proofs.Yaml.Scalar.Double
import TaggedGrammar.Proofs.Yaml.Scalar.Plain
import TaggedGrammar.Proofs.Yaml.Scalar.Style
import TaggedGrammar.Proofs.Yaml.Lexing
import TaggedGrammar.Proofs.Yaml.Node
import TaggedGrammar.Proofs.Yaml.Collection
import TaggedGrammar.Proofs.Yaml.Layout
import TaggedGrammar.Proofs.Yaml.Written
import TaggedGrammar.Proofs.Yaml.Nesting
import TaggedGrammar.Proofs.Document.Cognate
import TaggedGrammar.Proofs.Document.Storable
import TaggedGrammar.Proofs.Document.RoundTrip
import TaggedGrammar.Proofs.Document.Inverse
import TaggedGrammar.Proofs.Document.Shape
import TaggedGrammar.Proofs.Document.Loading
import TaggedGrammar.Proofs.Expansion.Limit
import TaggedGrammar.Proofs.Expansion.Progress
import TaggedGrammar.Proofs.Expansion.Unreached
import TaggedGrammar.Proofs.Expansion.Relevance
import TaggedGrammar.Proofs.Expansion.Lookup
import TaggedGrammar.Proofs.Expansion.Frames
import TaggedGrammar.Proofs.Expansion.Entry
import TaggedGrammar.Proofs.Expansion.Binding
import TaggedGrammar.Proofs.Template.Position
import TaggedGrammar.Proofs.Template.Joining
import TaggedGrammar.Proofs.Template.Location
import TaggedGrammar.Proofs.Template.Caret
import TaggedGrammar.Proofs.Block
import TaggedGrammar.Proofs.Grammar.Batch
import TaggedGrammar.Proofs.Text.Casing
import TaggedGrammar.Proofs.Expansion.Series
import TaggedGrammar.Proofs.CommandLine.Run
import TaggedGrammar.Proofs.Merging
import TaggedGrammar.Proofs.Template.Ending
import TaggedGrammar.Proofs.Template.Calls
import TaggedGrammar.Proofs.Text.Lowercase
import TaggedGrammar.Proofs.Text.Numeral
import TaggedGrammar.Proofs.Seed
