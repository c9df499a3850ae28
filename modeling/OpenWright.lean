import OpenWright.MerkleTree.PrefixPath
import OpenWright.MerkleTree.Frontier
import OpenWright.Hash.Sha256
import OpenWright.Python.Value
import OpenWright.Python.Json
import OpenWright.Canonical
import OpenWright.Merkle.Incremental
import OpenWright.Merkle.Inclusion
import OpenWright.Merkle.Consistency
import OpenWright.Python.Base64
import OpenWright.Signing
import OpenWright.Witness
import OpenWright.Events
import OpenWright.Ledger
import OpenWright.LedgerThreads
import OpenWright.Verify
import OpenWright.Python.Dump
import OpenWright.Python.Model
import OpenWright.Merkle.Content
import OpenWright.Merkle.Sharded
import OpenWright.ShardedLedger
import OpenWright.ShardedThreads
import OpenWright.Lines
import OpenWright.Python.Text
import OpenWright.FileLedger
import OpenWright.FileCommit
import OpenWright.SqlLedger
import OpenWright.Crosswalk
import OpenWright.DeepVerify
import OpenWright.Report
import OpenWright.VerifyAccepts
import OpenWright.Encodable
import OpenWright.Runtime
import OpenWright.Retention
import OpenWright.WitnessService
import OpenWright.HonestProducer
import OpenWright.SpillCrash
import OpenWright.DropAccounting
import OpenWright.Pipeline
import OpenWright.PipelineFlow
import OpenWright.PipelineFlush
import OpenWright.PipelineMarkers
import OpenWright.PipelineStop
import OpenWright.PipelineWorker
import OpenWright.PipelineLocks
import OpenWright.CanonicalEquality
import OpenWright.Go.Canonical
import OpenWright.CheckpointStore
import OpenWright.CrosswalkSemantics
import OpenWright.CrosswalkSafety
import OpenWright.Anchor
import OpenWright.BrowserVerifier
import OpenWright.Go.Decode
import OpenWright.Go.Event
import OpenWright.EventModel
import OpenWright.Go.Leaf
import OpenWright.AnchorForks
import OpenWright.CheckpointListing
import OpenWright.CrosswalkOrder
import OpenWright.Timestamps
import OpenWright.Rfc3339
import OpenWright.Go.Timestamp
import OpenWright.ReportPeriod
import OpenWright.Gate
import OpenWright.CrosswalkPin
import OpenWright.Ed25519.Pure
import OpenWright.Edwards
import OpenWright.Python.PowMod
import OpenWright.Ed25519.Field
import OpenWright.Ed25519.Group
import OpenWright.Ed25519.Encodings
import OpenWright.VerifyReturns
import OpenWright.Adapters.Event
import OpenWright.Adapters.Receipt
import OpenWright.Adapters.SideChannel
import OpenWright.Adapters.Spans
import OpenWright.Lineage
import OpenWright.Normalize
import OpenWright.Go.Records
import OpenWright.Go.Merkle
import OpenWright.Go.Report
import OpenWright.Go.Interop
import OpenWright.Go.Build
import OpenWright.SdkRuns
import OpenWright.HttpServer
import OpenWright.Scheduler
import OpenWright.Profiles
import OpenWright.Exports
import OpenWright.Identity
