import TabStop.Main
import TabStop.Scanner
import TabStop.Tree.Copy
import TabStop.Tree.Replace
import TabStop.Proofs.Template.CaseEnd
import TabStop.Proofs.Template.CaseFolding
import TabStop.Proofs.Template.Equivalence
import TabStop.Proofs.Template.OpenCase
import TabStop.Proofs.Template.WordCase
import TabStop.Proofs.Text.Blanks
import TabStop.Proofs.Text.Dedent
import TabStop.Proofs.Token.Cuts
import TabStop.Proofs.Token.Lexing
import TabStop.Proofs.Links.Clones
import TabStop.Proofs.Links.Copying
import TabStop.Proofs.Links.Evolution
import TabStop.Proofs.Links.Failures
import TabStop.Proofs.Links.Moving
import TabStop.Proofs.Links.Normalizing
import TabStop.Proofs.Links.Outcomes
import TabStop.Proofs.Links.Ownership
import TabStop.Proofs.Links.ReplacedChildren
import TabStop.Proofs.Links.Sessions
import TabStop.Proofs.Links.Slots
import TabStop.Proofs.Source.Building
import TabStop.Proofs.Source.Escaping
import TabStop.Proofs.Source.Flattening
import TabStop.Proofs.Source.NormalForm
import TabStop.Proofs.Source.Outline
import TabStop.Proofs.Source.Reading
import TabStop.Proofs.Source.Rereading
import TabStop.Proofs.Source.RoundTrip
import TabStop.Proofs.Grammar.Balance
import TabStop.Proofs.Grammar.CodeBlocks
import TabStop.Proofs.Grammar.Constructs
import TabStop.Proofs.Grammar.Elements
import TabStop.Proofs.Grammar.PatternEnd
import TabStop.Proofs.Grammar.Progress
import TabStop.Proofs.Grammar.References
import TabStop.Proofs.Grammar.Remainders
import TabStop.Proofs.Grammar.Templates
import TabStop.Proofs.Grammar.TransformParts
import TabStop.Proofs.Primary.Assignment
import TabStop.Proofs.Primary.Choice
import TabStop.Proofs.Primary.Losses
import TabStop.Proofs.Primary.Survival
import TabStop.Proofs.Repeat.Calm
import TabStop.Proofs.Repeat.Clearing
import TabStop.Proofs.Repeat.Consistency
import TabStop.Proofs.Repeat.FinalStop
import TabStop.Proofs.Repeat.FirstPass
import TabStop.Proofs.Repeat.Overwriting
import TabStop.Proofs.Repeat.Passes
import TabStop.Proofs.Repeat.Remaining
import TabStop.Proofs.Repeat.Repeating
import TabStop.Proofs.Repeat.Strays
import TabStop.Proofs.Repeat.Turns
import TabStop.Proofs.Repeat.Writing
import TabStop.Proofs.Document.CopiedNodes
import TabStop.Proofs.Document.Dialect
import TabStop.Proofs.Document.Dissolving
import TabStop.Proofs.Document.Frame
import TabStop.Proofs.Document.HiddenNodes
import TabStop.Proofs.Document.InsertedText
import TabStop.Proofs.Document.JoinedTexts
import TabStop.Proofs.Document.Lengths
import TabStop.Proofs.Document.NewNodes
import TabStop.Proofs.Document.NormalTexts
import TabStop.Proofs.Document.Positions
import TabStop.Proofs.Document.Rendering
import TabStop.Proofs.Document.Splicing
import TabStop.Proofs.Edit.Capacity
import TabStop.Proofs.Edit.Claims
import TabStop.Proofs.Edit.Contents
import TabStop.Proofs.Edit.Refilling
import TabStop.Proofs.Edit.Typing
import TabStop.Proofs.Edit.Updating
import TabStop.Proofs.Edit.Use
import TabStop.Proofs.Code.Calls
import TabStop.Proofs.Code.Dependents
import TabStop.Proofs.Code.Evaluation
import TabStop.Proofs.Code.Freshness
import TabStop.Proofs.Code.Order
import TabStop.Proofs.Resolve.Cursor
import TabStop.Proofs.Resolve.NewIndexes
import TabStop.Proofs.Resolve.Questions
import TabStop.Proofs.Resolve.Room
import TabStop.Proofs.Resolve.Substitution
import TabStop.Proofs.Canonical.Echoing
import TabStop.Proofs.Canonical.FirstChoice
import TabStop.Proofs.Canonical.FixedPoint
import TabStop.Proofs.Canonical.Persisting
import TabStop.Proofs.Canonical.Rechoosing
import TabStop.Proofs.Canonical.Recovering
import TabStop.Proofs.Canonical.Reproducing
import TabStop.Proofs.Canonical.Returning
import TabStop.Proofs.Canonical.Retyping
import TabStop.Proofs.Canonical.Stabilizing
import TabStop.Proofs.Canonical.Unvalued
