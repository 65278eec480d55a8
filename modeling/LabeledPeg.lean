import LabeledPeg.Grammar.Outline
import LabeledPeg.Grammar.Assembly
import LabeledPeg.Source.Files
import LabeledPeg.Program.Generate
import LabeledPeg.Parse.Script
import LabeledPeg.Parse.Interpreter
import LabeledPeg.Parse.Assertion
import LabeledPeg.Proofs.Grammar.Reachability
import LabeledPeg.Proofs.Program.Compile
import LabeledPeg.Proofs.Parse.Motion
import LabeledPeg.Proofs.Parse.Recognizer
import LabeledPeg.Proofs.Parse.Depth
import LabeledPeg.Proofs.Parse.Stable
import LabeledPeg.Proofs.Semantics.Matches
import LabeledPeg.Proofs.Semantics.Phrase
import LabeledPeg.Proofs.Semantics.Agreement
import LabeledPeg.Proofs.Parse.Lossless
import LabeledPeg.Proofs.Grammar.Normal
import LabeledPeg.Proofs.Source.Reader
import LabeledPeg.Proofs.Source.Token
import LabeledPeg.Proofs.Source.Level
import LabeledPeg.Proofs.Source.RoundTrip
import LabeledPeg.Proofs.Grammar.Library
import LabeledPeg.Proofs.Grammar.Selection
import LabeledPeg.Proofs.Grammar.Assembly
import LabeledPeg.Proofs.Program.Calls
import LabeledPeg.Proofs.Program.Sharing
import LabeledPeg.Proofs.Grammar.Import
import LabeledPeg.Proofs.Parse.Reuse
import LabeledPeg.Proofs.Parse.Course
import LabeledPeg.Proofs.Parse.Orderly
import LabeledPeg.Proofs.Parse.Finality
import LabeledPeg.Proofs.Parse.Recursion
import LabeledPeg.Proofs.Grammar.Rewriting
import LabeledPeg.Proofs.Grammar.Unlabeled
import LabeledPeg.Proofs.Parse.Unlabeled
import LabeledPeg.Proofs.Program.Go
import LabeledPeg.Proofs.Program.Spacing
import LabeledPeg.Proofs.Source.Document
import LabeledPeg.Proofs.Parse.Bookkeeping
import LabeledPeg.Proofs.Grammar.Cache
import LabeledPeg.Proofs.Grammar.Nodes
import LabeledPeg.Proofs.Program.Faults
import LabeledPeg.Proofs.Program.Contract
import LabeledPeg.Proofs.Program.Lexis
import LabeledPeg.Proofs.Program.Literals
import LabeledPeg.Proofs.Parse.Position
import LabeledPeg.Proofs.Parse.Evaluation
import LabeledPeg.Proofs.Parse.Labels
import LabeledPeg.Proofs.Source.Place
import LabeledPeg.Proofs.Source.Spans
import LabeledPeg.Proofs.Source.Pieces
import LabeledPeg.Proofs.Source.Lockstep
import LabeledPeg.Proofs.Source.Enclosed
import LabeledPeg.Proofs.Source.Insertion
import LabeledPeg.Proofs.Source.Continuation
import LabeledPeg.Proofs.Source.Concatenation
import LabeledPeg.Proofs.Source.Moved
import LabeledPeg.Proofs.Source.Cutting
import LabeledPeg.Proofs.Source.Truncation
import LabeledPeg.Proofs.Source.Excerpt
import LabeledPeg.Proofs.Grammar.Trail
import LabeledPeg.Proofs.Grammar.Origin
import LabeledPeg.Proofs.Grammar.Failure
import LabeledPeg.Proofs.Parse.Quiet
import LabeledPeg.Proofs.Program.Modularity
import LabeledPeg.Proofs.Program.Balance
import LabeledPeg.Proofs.Program.Sites
import LabeledPeg.Proofs.Program.Tokens
import LabeledPeg.Proofs.Program.Receivers
import LabeledPeg.Proofs.Program.Narrowing
import LabeledPeg.Proofs.Grammar.Search
import LabeledPeg.Proofs.Parse.Choice
import LabeledPeg.Proofs.Parse.Bounds
import LabeledPeg.Proofs.Parse.Repetition
import LabeledPeg.Proofs.Parse.Literal
import LabeledPeg.Proofs.Grammar.Index
