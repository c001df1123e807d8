import DistKV.Lib.Succession
import DistKV.Lib.Triple
import DistKV.Lib.Prog
import DistKV.Lib.Run
import DistKV.Lib.Replica
import DistKV.Lib.Join
import DistKV.Lib.Words
import DistKV.Lib.Mixing
import DistKV.Hash
import DistKV.Ring
import DistKV.Store
import DistKV.Handlers
import DistKV.Distributor
import DistKV.Cluster
import DistKV.Clients
import DistKV.Gossip
import DistKV.GossipNet
import DistKV.Generation
import DistKV.Refresh
import DistKV.Calls
import DistKV.KeyRanges
import DistKV.MemoryStats
import DistKV.System
import DistKV.Fleet
import DistKV.Colocated
import DistKV.Shell
import DistKV.Startup
import DistKV.Console
import DistKV.Proofs.Hash
import DistKV.Proofs.Ring
import DistKV.Proofs.Routing
import DistKV.Proofs.Disruption
import DistKV.Proofs.Store
import DistKV.Proofs.Construct
import DistKV.Proofs.Restart
import DistKV.Proofs.Distributor
import DistKV.Proofs.Session
import DistKV.Proofs.Start
import DistKV.Proofs.Transparency
import DistKV.Proofs.Acknowledgement
import DistKV.Proofs.Failover
import DistKV.Proofs.BestEffort
import DistKV.Proofs.LazyMigration
import DistKV.Proofs.Discord
import DistKV.Proofs.Staleness
import DistKV.Proofs.Clients
import DistKV.Proofs.Agreement
import DistKV.Proofs.Apart
import DistKV.Proofs.Atomic
import DistKV.Proofs.Effects
import DistKV.Proofs.Gossip
import DistKV.Proofs.MergeView
import DistKV.Proofs.GossipNet
import DistKV.Proofs.Liveness
import DistKV.Proofs.Silence
import DistKV.Proofs.Monotone
import DistKV.Proofs.Departure
import DistKV.Proofs.Flapping
import DistKV.Proofs.News
import DistKV.Proofs.Reconcile
import DistKV.Proofs.Subscribers
import DistKV.Proofs.Decimal
import DistKV.Proofs.Generation
import DistKV.Proofs.Launches
import DistKV.Proofs.LocalStore
import DistKV.Proofs.KeyRanges
import DistKV.Proofs.Layout
import DistKV.Proofs.Starvation
import DistKV.Proofs.MergePaths
import DistKV.Proofs.Detector
import DistKV.Proofs.Calls
import DistKV.Proofs.Refresh
import DistKV.Proofs.Recovery
import DistKV.Proofs.Footprint
import DistKV.Proofs.Accounting
import DistKV.Proofs.Colocated
import DistKV.Proofs.Shell
import DistKV.Proofs.CommandLoop
import DistKV.Proofs.Console
import DistKV.Proofs.Requests
import DistKV.Proofs.Provenance
import DistKV.Proofs.System
import DistKV.Proofs.Kills
import DistKV.Proofs.Identity
import DistKV.Proofs.Destinations
import DistKV.Proofs.Startup
import DistKV.Proofs.Concord
import DistKV.Proofs.Split
import DistKV.Proofs.Sides
