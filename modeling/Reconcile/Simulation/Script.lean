import Reconcile.Config.Basic
import Reconcile.Manager.Call

/-! Scripts of several clients of one resource, and the reports of what they did. -/

namespace Reconcile.Simulation

structure Addressed (α : Type) where
  client : Option String
  content : α

inductive Moment
  | beforePush
  | afterPush
  | beforePull
  | afterPull
  deriving DecidableEq, Repr

inductive Direction
  | push
  | pull
  deriving DecidableEq, Repr

inductive Act (σ op : Type)
  | call (action : Manager.Action)
  | add (ops : List op)
  | reset
  | close
  | view
  /-- Takes a snapshot, and keeps it under a name if there is one. -/
  | snapshot (slot : Option String)
  | restore (snapshot : Snapshot σ op)
  | restoreSlot (slot : String)
  /-- Registers the listener of the tag. At its notifications it runs the scripts, one each. -/
  | listen (tag : String) (scripts : List (List (Addressed (Act σ op))))
  | unlisten (tag : String)
  | configure (config : Config)
  | fail (direction : Direction) (count : Nat) (fault : TransportFault)
  | answerPush (outcome : PushOutcome op)
  | answerPull (pulled : Pulled op)
  /-- Runs the steps during the next call that has no hook yet. -/
  | hook (moment : Moment) (steps : List (Addressed (Act σ op)))
  | attempts
  /-- Commits directly, at the given revision or at the latest one. -/
  | commit (made : Option Revision) (batch : List op)
  | history
  | runPeriodic (period : Nat) (stopped : Bool)
  | shutdown (value : Bool)
  | dropShutdown
  /-- Runs the first step while the others happen at their moments after its start. -/
  | join (main : Addressed (Act σ op)) (events : List (Nat × List (Addressed (Act σ op))))
  | cancelAfter (duration : Nat) (step : Addressed (Act σ op))

abbrev Step (σ op : Type) := Addressed (Act σ op)

structure View (σ : Type) where
  status : Manager.Status
  revision : Revision
  state : σ
  pending : Nat
  inflight : Nat

structure Reported (σ ρ : Type) where
  result : ρ
  after : Option (View σ)

inductive Result (σ op : Type)
  | nothing
  | count (n : Nat)
  | flag (b : Bool)
  | name (text : String)
  | listener (id : Nat)
  | snapshot (s : Snapshot σ op)
  | attempts (pushes pulls accepted : Nat)
  | outcome (o : PushOutcome op)
  | history (h : History op)
  | failed (e : SyncError)
  | refused (f : TransportFault)
  | joined (main : Reported σ (Result σ op))
  | finished (step : Reported σ (Result σ op))
  | cancelled

abbrev Report (σ op : Type) := Reported σ (Result σ op)

inductive Occasion
  | hook (moment : Moment)
  | listener (tag : String)
  | event (moment : Nat)
  deriving DecidableEq, Repr

inductive Entry (σ op : Type)
  | pushed (client : String) (made : Revision) (batch : List op)
  | pulled (client : String) (since : Revision)
  | retried (client : String) (attempt : Nat) (delay : Option Nat)
  | notified (client tag : String) (state : σ)
  | ran (occasion : Occasion) (report : Report σ op)

structure Setup (σ : Type) where
  name : String
  initial : σ
  policy : Retry.Policy

end Reconcile.Simulation
