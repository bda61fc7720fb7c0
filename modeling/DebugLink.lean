import DebugLink.Config.Load
import DebugLink.Console.Perform
import DebugLink.Main
import DebugLink.Proofs.Command.Insertion
import DebugLink.Proofs.Config.Layers
import DebugLink.Proofs.Console.Lines
import DebugLink.Proofs.Files.Rotation
import DebugLink.Proofs.Parser.Cursor
import DebugLink.Proofs.Parser.Nesting
import DebugLink.Proofs.Parser.Partition
import DebugLink.Proofs.Parser.Repetition
import DebugLink.Proofs.Record.Naming
import DebugLink.Proofs.Record.RoundTrip
import DebugLink.Proofs.Session.Closing
import DebugLink.Proofs.Session.Correlation
import DebugLink.Proofs.Session.Displacement
import DebugLink.Proofs.Session.Ending
import DebugLink.Proofs.Session.Failure
import DebugLink.Proofs.Session.Freshness
import DebugLink.Proofs.Session.Inorder
import DebugLink.Proofs.Session.MapWalk
import DebugLink.Proofs.Session.Racing
import DebugLink.Proofs.Session.Sending
import DebugLink.Proofs.Session.Vectors
import DebugLink.Proofs.Session.View
import DebugLink.Proofs.Status.Idle
import DebugLink.Proofs.Status.Resumption
import DebugLink.Proofs.TypeName.Respelling
import DebugLink.Proofs.Variable.Attachment
import DebugLink.Proofs.Variable.Effect
import DebugLink.Proofs.Variable.Relisting
import DebugLink.Proofs.Watch.Dependence
import DebugLink.Proofs.Watch.Numbers
import DebugLink.Proofs.Watch.Pointers
import DebugLink.Proofs.Watch.Shapes
import DebugLink.Proofs.Watch.Unescaping
import DebugLink.Session.Script
