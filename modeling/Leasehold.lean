import Leasehold.Client
import Leasehold.Command
import Leasehold.Command.Arguments
import Leasehold.Command.Execution
import Leasehold.Command.Help
import Leasehold.Command.Report
import Leasehold.Config
import Leasehold.Config.Reader
import Leasehold.Config.Sources
import Leasehold.Config.Writer
import Leasehold.Disk
import Leasehold.Duration
import Leasehold.Duration.Text
import Leasehold.Environment
import Leasehold.Error
import Leasehold.Ident
import Leasehold.Lease
import Leasehold.Ledger
import Leasehold.LockTable
import Leasehold.LogFilter
import Leasehold.Main
import Leasehold.OpenTable
import Leasehold.Owner
import Leasehold.RangeLock
import Leasehold.Recovery
import Leasehold.Recovery.Durable
import Leasehold.Recovery.Listing
import Leasehold.Recovery.Record
import Leasehold.Recovery.Site
import Leasehold.Recovery.Volatile
import Leasehold.Server
import Leasehold.Server.Clock
import Leasehold.Server.Disposal
import Leasehold.Server.Grace
import Leasehold.Server.Holding
import Leasehold.Server.Locking
import Leasehold.Server.Opening
import Leasehold.Server.Registry
import Leasehold.Session
import Leasehold.Share
import Leasehold.Slot
import Leasehold.SocketAddress
import Leasehold.State
import Leasehold.Stripes
import Leasehold.Table
import Leasehold.Text.Blank
import Leasehold.Text.Hex
import Leasehold.Text.Quoted
import Leasehold.Text.Utf8
import Leasehold.WallTime
import Leasehold.Yaml.Node
import Leasehold.Yaml.Node.Reader
import Leasehold.Yaml.Scalar
import Leasehold.Yaml.Source
import Leasehold.Yaml.Token
import Leasehold.Yaml.Token.Block
import Leasehold.Yaml.Token.Flow
import Leasehold.Yaml.Token.Name
import Leasehold.Yaml.Token.Reader
import Leasehold.Yaml.Value
import Leasehold.Yaml.Writer
import Leasehold.Proofs.Octets
import Leasehold.Proofs.IdentifierLayout
import Leasehold.Proofs.LockExclusion
import Leasehold.Proofs.Execution
import Leasehold.Proofs.Update
import Leasehold.Proofs.RequestEffects
import Leasehold.Proofs.LeaseExpiry
import Leasehold.Proofs.ShareExclusion
import Leasehold.Proofs.SessionIdentity
import Leasehold.Proofs.SlotReplay
import Leasehold.Proofs.Keeping
import Leasehold.Proofs.RecoveryTables
import Leasehold.Proofs.Deeds
import Leasehold.Proofs.DurableRecords
import Leasehold.Proofs.GraceWindow
import Leasehold.Proofs.LockBacking
import Leasehold.Proofs.ReclaimRights
import Leasehold.Proofs.FailedReclaims
import Leasehold.Proofs.ClientTable
import Leasehold.Proofs.Resumption
import Leasehold.Proofs.Teardown
import Leasehold.Proofs.Isolation
import Leasehold.Proofs.KeyReuse
import Leasehold.Proofs.Displacement
import Leasehold.Proofs.Routing
import Leasehold.Proofs.Sweeping
import Leasehold.Proofs.StoreAgreement
import Leasehold.Proofs.RefusedLocks
import Leasehold.Proofs.FailedCloses
import Leasehold.Proofs.Finality
import Leasehold.Proofs.ByteCoverage
import Leasehold.Proofs.OpenGrants
import Leasehold.Proofs.Downgrades
import Leasehold.Proofs.WindowClosing
import Leasehold.Proofs.UnforgottenOwners
import Leasehold.Proofs.RefusedRegistrations
import Leasehold.Proofs.StateAging
import Leasehold.Proofs.OwnerNumbers
import Leasehold.Proofs.LockFiles
import Leasehold.Proofs.Retransmission
import Leasehold.Proofs.RangeDifference
import Leasehold.Proofs.SafeSettings
import Leasehold.Proofs.StoreHistory
import Leasehold.Proofs.ListenerOrder
