import EchoLoad.Main
import EchoLoad.Rehearsal
import EchoLoad.Proofs.Connection.Reassembly
import EchoLoad.Proofs.Connection.Segmentation
import EchoLoad.Proofs.Connection.Integrity
import EchoLoad.Proofs.Connection.Lifecycle
import EchoLoad.Proofs.Connection.Opening
import EchoLoad.Proofs.Connection.Transcript
import EchoLoad.Proofs.Connection.HeadLimit
import EchoLoad.Proofs.Connection.Echo
import EchoLoad.Proofs.Handshake.Request
import EchoLoad.Proofs.Run.Setup
import EchoLoad.Proofs.Run.Total
import EchoLoad.Proofs.Session.Books
import EchoLoad.Proofs.Run.Accounting
import EchoLoad.Proofs.Run.Courses
import EchoLoad.Proofs.Run.Provenance
import EchoLoad.Proofs.Session.Deeds
import EchoLoad.Proofs.Url.Parse
import EchoLoad.Proofs.Run.Progress
import EchoLoad.Proofs.Session.Retention
import EchoLoad.Proofs.Run.Release
import EchoLoad.Proofs.Frame.Grammar
import EchoLoad.Proofs.Frame.Shortest
import EchoLoad.Proofs.Connection.Reading
import EchoLoad.Proofs.Connection.SizeLimit
import EchoLoad.Proofs.Threshold
import EchoLoad.Proofs.Handshake.Answer
import EchoLoad.Proofs.Connection.Blocked
import EchoLoad.Proofs.Connection.Buffers
import EchoLoad.Proofs.Connection.Termination
import EchoLoad.Proofs.Connection.Pauses
import EchoLoad.Proofs.Desk
import EchoLoad.Proofs.Run.Workload
import EchoLoad.Proofs.Destination
