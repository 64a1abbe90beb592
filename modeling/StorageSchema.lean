import StorageSchema.Main
import StorageSchema.Text.Occurrence
import StorageSchema.Proofs.Check.Classification
import StorageSchema.Proofs.Graph
import StorageSchema.Proofs.ComponentSearch.Cycles
import StorageSchema.Proofs.Check.Report
import StorageSchema.Proofs.Check.StaticCycles
import StorageSchema.Proofs.Check.PlainData
import StorageSchema.Proofs.Draft.Step
import StorageSchema.Proofs.Draft.View
import StorageSchema.Proofs.Draft.Outline
import StorageSchema.Grammar
import StorageSchema.Proofs.Token.Scan
import StorageSchema.Proofs.Draft.Prefix
import StorageSchema.Proofs.Draft.Derivation
import StorageSchema.Proofs.Draft.Grammar
import StorageSchema.Proofs.Draft.Completion
import StorageSchema.Proofs.Reader.Document
import StorageSchema.Proofs.Draft.Failure
import StorageSchema.Proofs.Token.Order
import StorageSchema.Proofs.Comments.Lines
import StorageSchema.Proofs.Comments.Margin
import StorageSchema.Proofs.Comments.Slots
import StorageSchema.Proofs.Comments.Attachment
import StorageSchema.Document.Written
import StorageSchema.Proofs.Written.Normal
import StorageSchema.Proofs.Written.TypeExpr
import StorageSchema.Proofs.Written.Reading
import StorageSchema.Proofs.Text.Position
import StorageSchema.Proofs.Text.CheckpointIndex
import StorageSchema.Proofs.Token.Slice
import StorageSchema.Proofs.Document.Cover
import StorageSchema.Proofs.Draft.Cover
import StorageSchema.Proofs.Document.Marks
import StorageSchema.Proofs.Check.Resolution
import StorageSchema.Proofs.Check.Answer
import StorageSchema.Proofs.Diagnostic
import StorageSchema.Proofs.Safety
import StorageSchema.Proofs.Conservation
import StorageSchema.Proofs.Check.View
import StorageSchema.Proofs.Reformatting
import StorageSchema.Proofs.Check.MoreLive
import StorageSchema.Proofs.Check.CycleAdvice
import StorageSchema.Proofs.Check.Exchange
import StorageSchema.Proofs.Check.LiveWrapping
import StorageSchema.Proofs.Token.Lookahead
import StorageSchema.Document.Modern
import StorageSchema.Proofs.Token.Renaming
import StorageSchema.Proofs.Draft.Legacy
import StorageSchema.Proofs.Modernization
import StorageSchema.Proofs.Text.Returns
import StorageSchema.Proofs.Token.Returns
import StorageSchema.Proofs.LineEndings
import StorageSchema.Proofs.Joining
import StorageSchema.Proofs.Draft.Heads
import StorageSchema.Proofs.DeclaredNames
import StorageSchema.Proofs.Token.LexicalGrammar
import StorageSchema.Proofs.Text.Quoted
import StorageSchema.Proofs.Rendering
import StorageSchema.Proofs.Token.Segment
import StorageSchema.Proofs.Segment
import StorageSchema.Proofs.Draft.TypeParts
import StorageSchema.Proofs.Draft.Parts
import StorageSchema.Proofs.Reparsing
import StorageSchema.Proofs.Number.Double
import StorageSchema.Proofs.Text.Occurrence
import StorageSchema.Proofs.Check.Worklist
import StorageSchema.Proofs.Json
import StorageSchema.Proofs.Text.EditDistance
import StorageSchema.Proofs.Text.ByteOrder
import StorageSchema.Proofs.Suggestion
