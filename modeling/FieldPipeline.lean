import FieldPipeline.Main
import FieldPipeline.Path.History
import FieldPipeline.Path.Json
import FieldPipeline.Pipeline.Bench
import FieldPipeline.Reservation.History
import FieldPipeline.Stage
import FieldPipeline.Files.Tree
import FieldPipeline.Proofs.Navigation
import FieldPipeline.Proofs.Focus
import FieldPipeline.Proofs.Interleaving
import FieldPipeline.Proofs.Path.Json
import FieldPipeline.Proofs.Request.Grammar
import FieldPipeline.Proofs.Request.Regrouping
import FieldPipeline.Proofs.Footprint
import FieldPipeline.Proofs.Rendering
import FieldPipeline.Proofs.Collapse
import FieldPipeline.Proofs.Json.Value
import FieldPipeline.Proofs.Json.Layout
import FieldPipeline.Proofs.Pipeline.Form
import FieldPipeline.Proofs.Pipeline.Text
import FieldPipeline.Proofs.Reservation
import FieldPipeline.Proofs.Request.Continuation
import FieldPipeline.Proofs.Request.Forms
import FieldPipeline.Proofs.Json.Truncated
import FieldPipeline.Proofs.Request.Truncated
import FieldPipeline.Proofs.Path.History
import FieldPipeline.Proofs.Yaml.Line
import FieldPipeline.Proofs.Yaml.Token
import FieldPipeline.Proofs.Request.Formats
import FieldPipeline.Proofs.Path.Dotted
import FieldPipeline.Proofs.Pipeline.Bench
import FieldPipeline.Proofs.Files
import FieldPipeline.Proofs.Program
