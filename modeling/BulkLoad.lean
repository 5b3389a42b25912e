import BulkLoad.Library.Host
import BulkLoad.Proofs.Buffer.Bounds
import BulkLoad.Proofs.Buffer.Release
import BulkLoad.Proofs.Library.Resolution
import BulkLoad.Proofs.Library.Sharing
import BulkLoad.Proofs.Session.Conversation
import BulkLoad.Proofs.Session.Delivery
import BulkLoad.Proofs.Session.Lockstep
import BulkLoad.Proofs.Session.Verdict
import BulkLoad.Proofs.Session.Visible
import BulkLoad.Session.Pool
import BulkLoad.Proofs.Session.Driving
import BulkLoad.Proofs.Server.Locality
import BulkLoad.Proofs.Session.Containment
import BulkLoad.Proofs.Session.Interleaving
import BulkLoad.Proofs.Column.Construction
import BulkLoad.Proofs.Column.Stepping
import BulkLoad.Proofs.Column.Texts
import BulkLoad.Proofs.Column.Numbers
import BulkLoad.Proofs.Library.Entries
import BulkLoad.Proofs.Library.Candidates
import BulkLoad.Proofs.Library.Newest
import BulkLoad.Proofs.Library.Directories
import BulkLoad.Proofs.Library.Environment
import BulkLoad.Proofs.Session.Admission
import BulkLoad.Proofs.Session.TableName
