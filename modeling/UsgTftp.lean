import UsgTftp.ConfigFile.RoundTrip
import UsgTftp.ConfigFile.Startup
import UsgTftp.Datagrams.Parties
import UsgTftp.Download.Agreement
import UsgTftp.Download.Granted
import UsgTftp.Download.Lossless
import UsgTftp.Download.Reassembly
import UsgTftp.Download.Reordered
import UsgTftp.Download.SharedServer
import UsgTftp.Download.SingleLoss
import UsgTftp.Download.TransferId
import UsgTftp.Main.Paths
import UsgTftp.Main.SendNetascii
import UsgTftp.Multicast.Delivery
import UsgTftp.Multicast.Isolation
import UsgTftp.Multicast.Joins
import UsgTftp.Multicast.MainLoop
import UsgTftp.Multicast.Paths
import UsgTftp.Multicast.Resends
import UsgTftp.Server.Audit
import UsgTftp.Server.Batch
import UsgTftp.Server.Bounds
import UsgTftp.Server.Distribution
import UsgTftp.Server.FrontEnds
import UsgTftp.Server.LibraryPool
import UsgTftp.Server.MainLoop
import UsgTftp.Server.Negotiation
import UsgTftp.Server.Pool
import UsgTftp.Server.Retransmission
import UsgTftp.Server.StoredWrites
import UsgTftp.Server.TransferSize
import UsgTftp.Server.WriteBounds
import UsgTftp.Upload.Acks
import UsgTftp.Upload.Cadence
import UsgTftp.Upload.Concurrent
import UsgTftp.Upload.FinalAck
import UsgTftp.Upload.Loss
import UsgTftp.Upload.Lossless
import UsgTftp.Upload.Netascii
import UsgTftp.Upload.NoOverwrite
import UsgTftp.Upload.Segmentation
import UsgTftp.Web.Atomic
import UsgTftp.Web.AuditLog
import UsgTftp.Web.AuditTrail
import UsgTftp.Web.Inside
import UsgTftp.Web.Parallel
import UsgTftp.Web.ProxyLine
import UsgTftp.Web.UploadFaults
import UsgTftp.Web.UploadWrites
import UsgTftp.WritePatterns
