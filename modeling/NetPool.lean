import NetPool.Activity
import NetPool.Address.Basic
import NetPool.Address.Range
import NetPool.Address.Subnet
import NetPool.Allocation.Block
import NetPool.Allocation.Lease
import NetPool.Allocation.Monitor
import NetPool.Allocation.Pin
import NetPool.Allocation.Retry
import NetPool.Allocation.Table
import NetPool.Cache.Entries
import NetPool.Cache.Store
import NetPool.Claim.Basic
import NetPool.Claim.Layout
import NetPool.Claim.Record
import NetPool.Clock
import NetPool.Command.Grammar
import NetPool.Command.Invocation
import NetPool.Endpoint.Basic
import NetPool.Endpoint.Follower
import NetPool.Endpoint.Peers
import NetPool.Endpoint.Registry
import NetPool.Failure
import NetPool.Files.Tree
import NetPool.Json.Basic
import NetPool.Json.Reader
import NetPool.Json.Token
import NetPool.Json.Writer
import NetPool.Main
import NetPool.Node.Basic
import NetPool.Node.Config
import NetPool.Node.Health
import NetPool.Node.Identity
import NetPool.Node.Lifecycle
import NetPool.Number.Binary
import NetPool.Number.Shortest
import NetPool.Pool.Basic
import NetPool.Pool.Kind
import NetPool.Pool.Search
import NetPool.Program
import NetPool.Proofs.Address
import NetPool.Proofs.Block.Adoption
import NetPool.Proofs.Block.Calls
import NetPool.Proofs.Block.Cluster
import NetPool.Proofs.Block.Disjoint
import NetPool.Proofs.Block.Handed
import NetPool.Proofs.Block.Lasting
import NetPool.Proofs.Block.Order
import NetPool.Proofs.Block.Pass
import NetPool.Proofs.Block.Tended
import NetPool.Proofs.Cache
import NetPool.Proofs.Endpoint.Delivery
import NetPool.Proofs.Endpoint.Listing
import NetPool.Proofs.Endpoint.View
import NetPool.Proofs.Exchanges
import NetPool.Proofs.Files
import NetPool.Proofs.Interference
import NetPool.Proofs.Json
import NetPool.Proofs.Keys
import NetPool.Proofs.Lease.Calls
import NetPool.Proofs.Lease.Effect
import NetPool.Proofs.Lease.Exclusive
import NetPool.Proofs.Lease.Leasing
import NetPool.Proofs.Lease.Monitored
import NetPool.Proofs.Lease.Slots
import NetPool.Proofs.Lease.Watched
import NetPool.Proofs.Pin.Earliest
import NetPool.Proofs.Pin.Pinning
import NetPool.Proofs.Pin.Stable
import NetPool.Proofs.Placed
import NetPool.Proofs.Pool
import NetPool.Proofs.Reconcile.Adrift
import NetPool.Proofs.Reconcile.Clash
import NetPool.Proofs.Reconcile.Converge
import NetPool.Proofs.Reconcile.Desk
import NetPool.Proofs.Reconcile.Failing
import NetPool.Proofs.Reconcile.Publish
import NetPool.Proofs.Record
import NetPool.Proofs.Running
import NetPool.Proofs.Scene
import NetPool.Proofs.Search
import NetPool.Proofs.Store.Change
import NetPool.Proofs.Store.Consumer
import NetPool.Proofs.Store.Following
import NetPool.Proofs.Store.History
import NetPool.Proofs.Store.Order
import NetPool.Proofs.Store.Supplied
import NetPool.Proofs.Subnet
import NetPool.Proofs.Text
import NetPool.Reconcile.Basic
import NetPool.Reconcile.Loop
import NetPool.Reconcile.Sweep
import NetPool.Report
import NetPool.Settings.Load
import NetPool.Settings.Node
import NetPool.Settings.Pool
import NetPool.Settings.Tree
import NetPool.Sim.Launch
import NetPool.Sim.Run
import NetPool.Sim.Script
import NetPool.Sim.Serve
import NetPool.Sim.Session.Background
import NetPool.Sim.Session.Basic
import NetPool.Sim.Session.Claims
import NetPool.Sim.Session.Files
import NetPool.Sim.Session.Stations
import NetPool.Sim.Session.Store
import NetPool.Sim.World
import NetPool.Store.Basic
import NetPool.Store.Feed
import NetPool.Store.Memory
import NetPool.Store.Serve
import NetPool.Store.Watch
import NetPool.Text.Blank
import NetPool.Text.Bytes
import NetPool.Text.Cut
import NetPool.Text.Decimal
import NetPool.Text.Quoted
import NetPool.Text.Timestamp
import NetPool.Text.Unseen
import NetPool.Toml.Reader
import NetPool.Toml.Scalar
import NetPool.Toml.Scan
import NetPool.Toml.Table
import NetPool.Toml.Text
import NetPool.Toml.Writer
import NetPool.Proofs.Slots
import NetPool.Proofs.Pin.Outline
import NetPool.Proofs.Pin.Contest
import NetPool.Proofs.Pin.Leftover
import NetPool.Proofs.Sighting
import NetPool.Proofs.Pin.Removal
import NetPool.Proofs.Departure
import NetPool.Proofs.Store.Journal
import NetPool.Proofs.Store.Retained
import NetPool.Proofs.Store.Identity
import NetPool.Proofs.Block.Alone
import NetPool.Proofs.Block.Tiles
import NetPool.Proofs.Store.Locking
import NetPool.Proofs.Edits
import NetPool.Proofs.Lease.Acquired
import NetPool.Proofs.Block.Blocked
import NetPool.Proofs.Mishaps
import NetPool.Proofs.Block.Shaken
import NetPool.Proofs.Reconcile.Resumed
import NetPool.Proofs.Lease.Deadline
import NetPool.Proofs.Spelling
import NetPool.Proofs.Pin.Cleared
import NetPool.Proofs.Rebuilt
import NetPool.Proofs.Draw
import NetPool.Proofs.TextOrder
import NetPool.Proofs.KeyOrder
import NetPool.Proofs.Gaps
import NetPool.Proofs.Nesting
import NetPool.Proofs.Strict
