import Reconcile.Config.Basic
import Reconcile.Json.Codec

/-! Configurations as JSON values. A setting that is missing has its default, and an array may end
early. -/

namespace Reconcile.Config

open Json (Value Coded encode decode?)

def names : List String :=
  ["client_id", "retry_delay_ms", "max_retries", "sync_interval_secs", "snapshot_dir"]

def given? : Value → Option (List (Option Value))
  | .array items =>
    if items.length ≤ names.length then
      some (items.map some ++ List.replicate (names.length - items.length) none)
    else none
  | v => v.record? names

def decodeOr? {α : Type} [Coded α] (default : α) : Option Value → Option α
  | none => some default
  | some v => decode? v

instance : Coded Config where
  encode c := .object [("client_id", encode c.clientId), ("retry_delay_ms", encode c.retryDelay),
    ("max_retries", encode c.maxRetries), ("sync_interval_secs", encode c.syncInterval),
    ("snapshot_dir", encode c.snapshotDir)]
  decode? v := do
    let usual : Config := { }
    match ← given? v with
    | [clientId, retryDelay, maxRetries, syncInterval, snapshotDir] =>
      let maxRetries ← decodeOr? usual.maxRetries maxRetries
      if ∀ n ∈ maxRetries, Width.Unsigned32 n then
        return {
          clientId := ← decodeOr? usual.clientId clientId
          retryDelay := ← decodeOr? usual.retryDelay retryDelay
          maxRetries
          syncInterval := ← decodeOr? usual.syncInterval syncInterval
          snapshotDir := ← decodeOr? usual.snapshotDir snapshotDir }
      else none
    | _ => none

end Reconcile.Config
