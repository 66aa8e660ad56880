import Reconcile.Retry
import Reconcile.Text.Blank

/-! The settings of one client. Every setting has a default, and a configuration is checked before
it is used. -/

namespace Reconcile

structure Config where
  clientId : String := "client"
  /-- Milliseconds between the attempts of a call. -/
  retryDelay : Nat := Retry.FixedDelay.default.delay
  maxRetries : Option Nat := none
  /-- Seconds between periodic syncs. -/
  syncInterval : Nat := 30
  snapshotDir : String := ".otsync/snapshots"
  deriving DecidableEq, Repr

namespace Config

inductive Fault
  | emptyClientId
  | zeroInterval
  | zeroRetries
  deriving DecidableEq, Repr

def Fault.message : Fault → String
  | .emptyClientId => "client_id cannot be empty"
  | .zeroInterval => "sync_interval_secs must be greater than zero"
  | .zeroRetries => "max_retries must be at least 1 when set"

def validate (c : Config) : Except Fault Unit :=
  if c.clientId.toList.all Text.isBlank then .error .emptyClientId
  else if c.syncInterval = 0 then .error .zeroInterval
  else if c.maxRetries = some 0 then .error .zeroRetries
  else .ok ()

def retryPolicy (c : Config) : Retry.FixedDelay := ⟨c.retryDelay, c.maxRetries⟩

end Config

end Reconcile
