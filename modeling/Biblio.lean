import Biblio.Main
import Biblio.Request.Composition
import Biblio.Request.Script
import Biblio.Proofs.Ends
import Biblio.Proofs.Payload
import Biblio.Settings
import Biblio.Proofs.Line.Parts
import Biblio.Proofs.Tag
import Biblio.Proofs.Growth
import Biblio.Proofs.Line.Read
import Biblio.Proofs.Line.Rejected
import Biblio.Proofs.WellFormed
import Biblio.Proofs.Line.Write
import Biblio.Proofs.Line.Layout
import Biblio.Proofs.Locator.Grammar
import Biblio.Proofs.Locator.Read
import Biblio.Proofs.Locator.Write
import Biblio.Proofs.Locator.Stages
import Biblio.Proofs.Store.Step
import Biblio.Proofs.Store.Lines
import Biblio.Proofs.Store.Notes
import Biblio.Proofs.Store.Run
import Biblio.Proofs.Store.Contents
import Biblio.Proofs.Run.Query
import Biblio.Proofs.Run.Filter
import Biblio.Proofs.Run.Argument
import Biblio.Proofs.Run.Field
import Biblio.Proofs.Run.Call
import Biblio.Proofs.Run.Script
import Biblio.Proofs.Store.Reachable
import Biblio.Proofs.Index
import Biblio.Proofs.Query.Quiet
import Biblio.Proofs.Query.Scan
import Biblio.Proofs.Query.Count
import Biblio.Proofs.Query.First
import Biblio.Proofs.Built
import Biblio.Proofs.DataModel
import Biblio.Proofs.Query.Agree
import Biblio.Proofs.Query.Bucket
import Biblio.Proofs.Query.Template
import Biblio.Proofs.Access
import Biblio.Proofs.Line.Reread
import Biblio.Proofs.Query.Single
import Biblio.Proofs.Mapping.Pointwise
import Biblio.Proofs.Store.Frame
import Biblio.Proofs.Store.Joined
import Biblio.Proofs.Filter.Sequence
import Biblio.Proofs.Filter.Leaves
import Biblio.Proofs.Store.Success
import Biblio.Proofs.Query.Success
import Biblio.Proofs.Query.Reading
import Biblio.Proofs.Mapping.Reading
import Biblio.Proofs.Filter.Sifting
import Biblio.Proofs.Query.Cardinality
import Biblio.Proofs.Query.Lazy
import Biblio.Proofs.Query.Loop
import Biblio.Proofs.Query.Placeholder
import Biblio.Proofs.Mapping.Shape
import Biblio.Proofs.Query.Longer
import Biblio.Proofs.Store.Always
import Biblio.Proofs.Query.Located
import Biblio.Proofs.Query.Commute
import Biblio.Proofs.Query.Multiplicity
import Biblio.Proofs.Query.Occurrence
import Biblio.Proofs.Field.Extend
import Biblio.Proofs.Field.Written
import Biblio.Proofs.Field.Copy
import Biblio.Proofs.Field.Join
