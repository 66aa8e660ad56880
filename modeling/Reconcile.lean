import Reconcile.Algebra
import Reconcile.Config.Basic
import Reconcile.Config.Json
import Reconcile.Config.Toml
import Reconcile.Counter
import Reconcile.Decimal
import Reconcile.Diamond
import Reconcile.Digest.Sha256
import Reconcile.Double
import Reconcile.History
import Reconcile.Json.Codec
import Reconcile.Json.Number
import Reconcile.Json.Reader
import Reconcile.Json.Records
import Reconcile.Json.Text
import Reconcile.Json.Value
import Reconcile.Json.Writer
import Reconcile.Listener
import Reconcile.Manager.Basic
import Reconcile.Manager.Call
import Reconcile.Manager.Error
import Reconcile.Numeral
import Reconcile.Observation
import Reconcile.Register
import Reconcile.Retry
import Reconcile.Revision
import Reconcile.Room.Cross
import Reconcile.Room.Dialog
import Reconcile.Room.Directory
import Reconcile.Room.Identifier
import Reconcile.Simulation.Process
import Reconcile.Simulation.Run
import Reconcile.Simulation.Script
import Reconcile.Simulation.Transport
import Reconcile.Simulation.World
import Reconcile.Storage.Disk
import Reconcile.Storage.Path
import Reconcile.Storage.Store
import Reconcile.Text.Blank
import Reconcile.Text.Cross
import Reconcile.Text.Edit
import Reconcile.Text.Hidden
import Reconcile.Text.Quoted
import Reconcile.Text.Squash
import Reconcile.Toml.Moment
import Reconcile.Toml.Number
import Reconcile.Toml.Reader
import Reconcile.Toml.Table
import Reconcile.Toml.Text
import Reconcile.Width
import Reconcile.Proofs.Grid
import Reconcile.Proofs.Path
import Reconcile.Proofs.Lawful
import Reconcile.Proofs.Tiling
import Reconcile.Proofs.Weight
import Reconcile.Proofs.Keyed
import Reconcile.Proofs.Room.Cross
import Reconcile.Proofs.Room.Convergence
import Reconcile.Proofs.Text.Trace
import Reconcile.Proofs.Text.Cross
import Reconcile.Proofs.Text.Merge
import Reconcile.Proofs.Text.Origin
import Reconcile.Proofs.Text.Depth
import Reconcile.Proofs.Text.Convergence
import Reconcile.Proofs.Text.Squash
import Reconcile.Proofs.Register
import Reconcile.Proofs.Register.Convergence
import Reconcile.Proofs.Manager.Sound
import Reconcile.Proofs.Manager.Answer
import Reconcile.Proofs.Manager.Session
import Reconcile.Proofs.Domain
import Reconcile.Proofs.Manager.Queues
import Reconcile.Proofs.History
import Reconcile.Proofs.Network
import Reconcile.Proofs.Kinds
import Reconcile.Proofs.Ledger
import Reconcile.Proofs.Counter
import Reconcile.Proofs.Counter.Balance
import Reconcile.Proofs.Room.Forward
import Reconcile.Proofs.Limits
import Reconcile.Proofs.Manager.Rebase
import Reconcile.Proofs.Manager.CatchUp
import Reconcile.Proofs.Manager.Shared
import Reconcile.Proofs.Manager.Shut
import Reconcile.Proofs.Closing
import Reconcile.Proofs.Manager.Fatal
import Reconcile.Proofs.Manager.Resume
import Reconcile.Proofs.Manager.Notice
import Reconcile.Proofs.Manager.Broadcast
import Reconcile.Proofs.Composition
import Reconcile.Proofs.Squashing
import Reconcile.Proofs.Undo
import Reconcile.Proofs.Text.Survivors
import Reconcile.Proofs.Text.Concurrent
import Reconcile.Proofs.Room.Merge
import Reconcile.Proofs.Manager.Depth
import Reconcile.Proofs.Manager.Atomic
import Reconcile.Proofs.Sync.Phase
import Reconcile.Proofs.Sync.Session
import Reconcile.Proofs.Sync.Finish
import Reconcile.Proofs.Replica
import Reconcile.Proofs.Manager.Retry
import Reconcile.Proofs.Sync.Solo
import Reconcile.Proofs.Register.Contest
import Reconcile.Proofs.Json.Text
import Reconcile.Proofs.Json.Number
import Reconcile.Proofs.Json.Reader
import Reconcile.Proofs.Json.Records
import Reconcile.Proofs.Json.Exchange
import Reconcile.Proofs.Storage.Path
import Reconcile.Proofs.Storage.Disk
import Reconcile.Proofs.Storage.Store
import Reconcile.Proofs.Recursion
import Reconcile.Proofs.Room.Dialog
import Reconcile.Proofs.Room.Termination
import Reconcile.Proofs.Text.Arithmetic
import Reconcile.Proofs.Text.Termination
import Reconcile.Proofs.Listener
