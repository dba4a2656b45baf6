import WireMesh.Async.Basic
import WireMesh.Async.Calls
import WireMesh.Async.Agreement
import WireMesh.Async.Throws
import WireMesh.Buckets
import WireMesh.Cbor
import WireMesh.Chain
import WireMesh.Kleene
import WireMesh.Revocation
import WireMesh.Text
import WireMesh.Token
import WireMesh.TypeScript.Predicates
import WireMesh.TypeScript.Tokens
import WireMesh.TypeScript.RevocationView
import WireMesh.Rust.Predicates
import WireMesh.Rust.Tokens
import WireMesh.Rust.Revocation
import WireMesh.Soundness
import WireMesh.Bars
import WireMesh.Termination
import WireMesh.Agreement
import WireMesh.TypeScript.Mint
import WireMesh.Issuance
import WireMesh.Permanence
import WireMesh.Convergence
import WireMesh.Room
import WireMesh.TypeScript.Room
import WireMesh.Membership
import WireMesh.Durability
import WireMesh.Verdicts
import WireMesh.Reader
import WireMesh.Cbor.Read
import WireMesh.BinarySearch
import WireMesh.Machine
import WireMesh.OrderedMap
import WireMesh.StorageProgram
import WireMesh.StoragePool
import WireMesh.Rust.Wire.Value
import WireMesh.Rust.Wire.Record
import WireMesh.Rust.Wire.Strict
import WireMesh.ByteExact
import WireMesh.TypeScript.SecureChannel
import WireMesh.SecureDelivery
import WireMesh.TypeScript.PeerAdvert
import WireMesh.TypeScript.VerdictCache
import WireMesh.TypeScript.DataSync
import WireMesh.TypeScript.Mailbox
import WireMesh.TypeScript.RelayHub
import WireMesh.TypeScript.RelaySteps
import WireMesh.TypeScript.RelayMaps
import WireMesh.Freshness
import WireMesh.Attribution
import WireMesh.Departure
import WireMesh.RelayUse
import WireMesh.SingleWriter
import WireMesh.TypeScript.RelayChannels
import WireMesh.TypeScript.ChannelSteps
import WireMesh.TypeScript.HelloExchange
import WireMesh.TypeScript.HelloProgress
import WireMesh.Forgetting
import WireMesh.HelloRounds
import WireMesh.TypeScript.Logs
import WireMesh.TypeScript.Notices
import WireMesh.Replication
import WireMesh.OwnLog
import WireMesh.SharedLogs
import WireMesh.MailboxBudgets
import WireMesh.TypeScript.Bulk
import WireMesh.TypeScript.BulkTransfer
import WireMesh.TypeScript.BulkReceiver
import WireMesh.BulkCredit
import WireMesh.BulkProgress
import WireMesh.BulkOutcome
import WireMesh.CyclicField
import WireMesh.GaussJordan
import WireMesh.CauchyCode
import WireMesh.TypeScript.ErasureCoding
import WireMesh.Rust.ErasureCoding
import WireMesh.ByteField
import WireMesh.Elimination
import WireMesh.Reconstruction
import WireMesh.ErasurePort
import WireMesh.Fallible
import WireMesh.TypeScript.ShardManifest
import WireMesh.TypeScript.ShardCollector
import WireMesh.ShardedDelivery
import WireMesh.SingleUse
import WireMesh.Threshold
import WireMesh.TypeScript.ThresholdParticipant
import WireMesh.Rust.ThresholdParticipant
import WireMesh.NonceUse
import WireMesh.ShareReleases
import WireMesh.HostileRequests
import WireMesh.Feldman
import WireMesh.Rust.Reshare
import WireMesh.Rust.ReshareSpec
import WireMesh.TypeScript.Reshare
import WireMesh.ReshareConsistency
import WireMesh.SecretSharing
import WireMesh.HonestReshare
import WireMesh.ReshareThreshold
import WireMesh.TypeScript.Numbers
import WireMesh.TypeScript.RoomRekey
import WireMesh.RoomKeys
import WireMesh.TypeScript.CoordinatorElection
import WireMesh.CoordinatorAgreement
import WireMesh.Chunked
import WireMesh.TypeScript.ByteStream
import WireMesh.TypeScript.MeshSession
import WireMesh.TypeScript.PendingRequests
import WireMesh.TypeScript.SessionConnections
import WireMesh.ManageResponses
import WireMesh.SessionEnds
import WireMesh.Rust.Session
import WireMesh.SessionShutdown
import WireMesh.TypeScript.WebrtcNegotiation
import WireMesh.Negotiations
import WireMesh.Rust.Wire.KeyOrder
import WireMesh.BulkWindow
import WireMesh.Calendar
import WireMesh.Conversations
import WireMesh.ErasureSafety
import WireMesh.GrantQueries
import WireMesh.Handshake
import WireMesh.Pattern
import WireMesh.PingRoundTrips
import WireMesh.RoomPath
import WireMesh.Rust.Conditions
import WireMesh.Rust.Instants
import WireMesh.Rust.Room
import WireMesh.Rust.Verbs
import WireMesh.SfuRoster
import WireMesh.TypeScript.RevocationStore
import WireMesh.TypeScript.SfuCall
import WireMesh.VerdictAccounting
import WireMesh.AsyncQueue
import WireMesh.GossipExpansion
import WireMesh.CapabilityRequests
