import Kagisecure.Library.OrderedMap
import Kagisecure.Library.GreedyOrder
import Kagisecure.Library.Kahn
import Kagisecure.Library.Replay
import Kagisecure.Library.Reach
import Kagisecure.Library.Frontier
import Kagisecure.Library.Fallible
import Kagisecure.Library.Cbor
import Kagisecure.Core.Ids
import Kagisecure.Core.Model
import Kagisecure.Core.Audit
import Kagisecure.Core.Audit.Chain
import Kagisecure.Core.Vault.Body
import Kagisecure.Core.Vault.File
import Kagisecure.Core.Vault.Session
import Kagisecure.Core.Vault.Refresh
import Kagisecure.Shared.Error
import Kagisecure.Shared.RosterOp
import Kagisecure.Shared.EpochOp
import Kagisecure.Shared.Payload
import Kagisecure.Shared.Record
import Kagisecure.Shared.Exchange
import Kagisecure.Shared.Exchange.Records
import Kagisecure.Shared.Replica
import Kagisecure.Shared.Replica.Handles
import Kagisecure.Shared.Transparent
import Kagisecure.Shared.Roster
import Kagisecure.Shared.Roster.Snapshot
import Kagisecure.Shared.Roster.Discovery
import Kagisecure.Shared.Roster.Stages
import Kagisecure.Shared.Roster.History
import Kagisecure.Shared.Roster.RecordSet
import Kagisecure.Shared.Roster.Invariant
import Kagisecure.Shared.Roster.Growth
import Kagisecure.Shared.Roster.Outsiders
import Kagisecure.Shared.Roster.Insertion
import Kagisecure.Shared.Roster.NewRecord
import Kagisecure.Shared.Epoch
import Kagisecure.Shared.View
import Kagisecure.Shared.Write
import Kagisecure.Shared.Admin.Change
import Kagisecure.Shared.Write.Records
import Kagisecure.Shared.Admin.Exchange
import Kagisecure.Shared.Write.Sequence
import Kagisecure.Shared.Write.OneDevice
import Kagisecure.Shared.Write.Always
import Kagisecure.Shared.Merge
import Kagisecure.Shared.Merge.Convergence
import Kagisecure.Shared.Merge.VersionSet
import Kagisecure.Shared.Merge.Slots
import Kagisecure.Shared.Merge.OnTop
import Kagisecure.Library.Machine
import Kagisecure.Agent.Approval
import Kagisecure.Agent.Approval.Queue
import Kagisecure.Agent.Catalog
import Kagisecure.Agent.Catalog.Hidden
import Kagisecure.Agent.Extension.Approved
import Kagisecure.Agent.Extension.FillLease
import Kagisecure.Agent.Extension.Review
import Kagisecure.Agent.Extension.Review.Runs
import Kagisecure.Agent.Service.LeaseCover
import Kagisecure.Agent.Service.WrittenFiles
import Kagisecure.Agent.Service.WrittenFiles.Lock
import Kagisecure.ExtensionIpc.Origin
import Kagisecure.ExtensionIpc.Website
import Kagisecure.Host.Bundle
import Kagisecure.Host.Engine
import Kagisecure.Host.Engine.Imports
import Kagisecure.Shared.Epoch.Fresh
import Kagisecure.Shared.Merge.Kept
import Kagisecure.Shared.Roster.Equivocation
import Kagisecure.Shared.Roster.Linearized
import Kagisecure.Shared.Roster.Replayed
import Kagisecure.Library.Bytes
import Kagisecure.Library.CborReader
import Kagisecure.Shared.Cbor
import Kagisecure.Shared.Cbor.Ranges
import Kagisecure.Shared.Cbor.Values
import Kagisecure.Shared.Record.Bytes
import Kagisecure.Shared.Unattended
import Kagisecure.Core.Inject.Cut
import Kagisecure.Core.Inject.Delivery
import Kagisecure.Shared.Bundle
import Kagisecure.Core.Audit.Hex
import Kagisecure.Core.Base32
import Kagisecure.Core.Recovery
import Kagisecure.Core.Totp.Percent
import Kagisecure.Core.Totp.Seed
import Kagisecure.Core.Totp.Uri
import Kagisecure.Shared.Cbor.Maps
import Kagisecure.Agent.Children
import Kagisecure.Agent.Service.AddVariables
import Kagisecure.Agent.Service.ById
import Kagisecure.Agent.Unattended.Decide
import Kagisecure.Core.Lease.Ledger
import Kagisecure.Ffi.Draft
import Kagisecure.Ffi.Presence
import Kagisecure.Ffi.Presence.Refusals
import Kagisecure.Ffi.Revision
import Kagisecure.Core.Generator
import Kagisecure.Ffi.Presence.Password
import Kagisecure.Import.Commit
import Kagisecure.Import.Preview
import Kagisecure.Shared.Admin.Sync
import Kagisecure.Agent.TestLogin
import Kagisecure.Agent.Extension.Choose
import Kagisecure.Import.Csv.Order
import Kagisecure.Import.Csv.Secrets
import Kagisecure.Agent.Unattended.Origins
