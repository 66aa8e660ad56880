import Reconcile.Config.Basic
import Reconcile.Toml.Reader

/-! Configurations as TOML documents. A setting that is missing has its default, names that are no
settings are ignored. -/

namespace Reconcile.Config

def text? : Toml.Value → Option String
  | .string text => some text
  | _ => none

def natural? : Toml.Value → Option Nat
  | .integer n => n.toNat?
  | _ => none

def natural32? (v : Toml.Value) : Option Nat := (natural? v).filter (Width.Unsigned32 ·)

def setting? {α : Type} (t : Toml.Table) (name : String) (default : α)
    (read : Toml.Value → Option α) : Option α :=
  match t.get? name with
  | none => some default
  | some v => read v

def ofTable? (t : Toml.Table) : Option Config := do
  let usual : Config := { }
  return {
    clientId := ← setting? t "client_id" usual.clientId text?
    retryDelay := ← setting? t "retry_delay_ms" usual.retryDelay natural?
    maxRetries := ← setting? t "max_retries" usual.maxRetries fun v => (natural32? v).map some
    syncInterval := ← setting? t "sync_interval_secs" usual.syncInterval natural?
    snapshotDir := ← setting? t "snapshot_dir" usual.snapshotDir text? }

def ofToml? (text : String) : Option Config := Toml.read? text >>= ofTable?

end Reconcile.Config
