import Linkora.Lib.Store
import Linkora.Lib.Checked
import Linkora.Lib.Index
import Linkora.Lib.Run
import Linkora.Contract.Types
import Linkora.Contract.State
import Linkora.Contract.Validation
import Linkora.Contract.Graph
import Linkora.Contract.Posts
import Linkora.Contract.Profiles
import Linkora.Contract.Pools
import Linkora.Contract.Tips
import Linkora.Contract.Governance
import Linkora.Contract.Moderation
import Linkora.Contract.Credentials
import Linkora.Contract.Access
import Linkora.Contract.Ledger
import Linkora.Contract.Entry
import Linkora.Contract.Parameters
import Linkora.Contract.Proposals
import Linkora.Contract.Schedule
import Linkora.Contract.Adjacency
import Linkora.Contract.Registration
import Linkora.Contract.FollowModel
import Linkora.Contract.Tombstones
import Linkora.Contract.Signers
import Linkora.Contract.PoolAccess
import Linkora.Contract.Stakes
import Linkora.Contract.Solvency
import Linkora.Contract.Nullifiers
import Linkora.Contract.Registry
import Linkora.Contract.Migration
import Linkora.Contract.Blocking
import Linkora.Contract.PostIndex
import Linkora.Contract.LikeCounts
import Linkora.Contract.BlockedLikes
import Linkora.Contract.Decisions
import Linkora.Contract.Pausing
import Linkora.Contract.Privileges
import Linkora.Referral.Program
import Linkora.Referral.Runs
import Linkora.Lib.Merkle
import Linkora.Lib.Sha256
import Linkora.Sdk.Credentials
import Linkora.Indexer.Circuit
import Linkora.Indexer.Gossip
import Linkora.Indexer.Divergence
import Linkora.Lib.Bisect
import Linkora.Lib.Window
import Linkora.Indexer.Tables
import Linkora.Indexer.StateRoot
import Linkora.Indexer.RootOrder
import Linkora.Indexer.Stream
import Linkora.Indexer.Recovery
import Linkora.Lib.Replay
import Linkora.Indexer.Projection
import Linkora.Indexer.Posts
import Linkora.Indexer.Proposals
import Linkora.Indexer.Pipeline
import Linkora.Indexer.Deltas
import Linkora.Contract.Published
import Linkora.Contract.Silent
import Linkora.Indexer.Delivery
import Linkora.Indexer.Tracking
import Linkora.Indexer.Strkey
import Linkora.Indexer.Mirror
import Linkora.Sdk.Membership
import Linkora.Oracle.Codec
import Linkora.Lib.Text
import Linkora.Lib.X25519
import Linkora.Oracle.Attestations
import Linkora.Sdk.Dm
import Linkora.Lib.Rows
import Linkora.Mobile.DmThread
import Linkora.Mobile.DmOutbox
import Linkora.Mobile.DmSync
import Linkora.Mobile.Posts
import Linkora.Wire.Structs
import Linkora.Wire.Decoders
import Linkora.Wire.Events
import Linkora.Sdk.Queue
import Linkora.Sdk.QueueTurns
import Linkora.Sdk.QueueLog
import Linkora.Sdk.QueueOutcomes
import Linkora.Sdk.QueueMoves
import Linkora.Sdk.QueueKept
import Linkora.Sdk.QueueRestart
import Linkora.Sdk.QueueOrder
import Linkora.Lib.Lru
import Linkora.Oracle.Cache
import Linkora.Oracle.Service
import Linkora.Oracle.Windows
import Linkora.Oracle.Served
import Linkora.Oracle.Refused
import Linkora.Lib.Seen
import Linkora.Relay.Auth
import Linkora.Relay.Replays
import Linkora.Indexer.StellarAuth
import Linkora.Indexer.Honoured
import Linkora.Relay.Messages
import Linkora.Relay.Reads
import Linkora.Relay.Receipts
import Linkora.Relay.Submission
import Linkora.Indexer.Notifications
import Linkora.Relay.Retries
import Linkora.Indexer.Pushes
import Linkora.Sdk.Subscriber
import Linkora.Sdk.Subscribed
import Linkora.Sdk.SubscribedRuns
import Linkora.Contract.Deadlines
import Linkora.Contract.Quorum
import Linkora.Contract.Feeds
import Linkora.Contract.Suggestions
import Linkora.Contract.Rent
import Linkora.Contract.TipTotals
import Linkora.Contract.Cooldowns
import Linkora.Contract.Reveals
import Linkora.Indexer.Accumulated
import Linkora.Contract.Backlogs
import Linkora.Contract.Cleanups
import Linkora.Indexer.TokenBucket
import Linkora.Indexer.RateLimiter
import Linkora.Indexer.Fanout
import Linkora.Lib.Links
import Linkora.Oracle.LinkedCache
import Linkora.Indexer.Retention
import Linkora.Indexer.FeedCache
import Linkora.Sdk.Rotation
import Linkora.Indexer.ClientAddress
import Linkora.Web.Governance
import Linkora.Web.LinkPreview
import Linkora.Web.OptimisticStore
import Linkora.Indexer.Multipart
import Linkora.Indexer.Uploads
import Linkora.Indexer.ReadBack
import Linkora.Lib.Recency
import Linkora.Relay.Typing
import Linkora.Lib.Decimal
import Linkora.Indexer.SignedRequests
import Linkora.Mobile.TxDescriptors
import Linkora.Mobile.SignedDescriptors
import Linkora.Lib.Double
import Linkora.Lib.Decoding
import Linkora.Lib.Json
import Linkora.Sdk.Pagination
import Linkora.Sdk.PagedLists
