import Reconcile.Json.Codec
import Reconcile.Manager.Basic
import Reconcile.Register
import Reconcile.Room.Directory
import Reconcile.Text.Edit

/-! The JSON form of states, operations, snapshots and the answers of a server. Fields are written
in the order in which they are declared, the name of a tagged record first. -/

namespace Reconcile.Json

instance : Coded Revision where
  encode r := encode r.value
  decode? v := (decode? v).map Revision.mk

instance : Coded Text.Document where
  encode doc := .string (String.ofList doc)
  decode?
    | .string text => some text.toList
    | _ => none

def decodeEdit? (places : List String) (v : Value) : Option Text.Edit := do
  match ← v.tagged? "type" places with
  | ("Insert", v) =>
    match ← v.record? ["pos", "text"] with
    | [some pos, some text] => return .insert (← decode? pos) (← decode? text)
    | _ => none
  | ("Delete", v) =>
    match ← v.record? ["pos", "text"] with
    | [some pos, some text] => return .delete (← decode? pos) (← decode? text)
    | _ => none
  | ("Replace", v) =>
    match ← v.record? ["pos", "old", "new"] with
    | [some pos, some old, some new] =>
      return .replace (← decode? pos) (← decode? old) (← decode? new)
    | _ => none
  | _ => none

instance : Coded Text.Edit where
  encode
    | .insert pos text =>
      .object [("type", .string "Insert"), ("pos", encode pos), ("text", encode text)]
    | .delete pos text =>
      .object [("type", .string "Delete"), ("pos", encode pos), ("text", encode text)]
    | .replace pos old new =>
      .object [("type", .string "Replace"), ("pos", encode pos), ("old", encode old),
        ("new", encode new)]
  decode? := decodeEdit? []
  decodePart? := decodeEdit? ["Insert", "Delete", "Replace"]

instance : Coded Room where
  encode room :=
    .object [("participants", encode room.participants), ("deleted", encode room.deleted)]
  decode? v := do
    match ← v.record? ["participants", "deleted"] with
    | [some participants, some deleted] => return ⟨← decode? participants, ← decode? deleted⟩
    | _ => none

def decodeChange? (places : List String) (v : Value) : Option Room.Change := do
  match ← v.tagged? "type" places with
  | ("Add", v) =>
    match ← v.record? ["id", "participants"] with
    | [some id, some participants] => return .add (← decode? id) (← decode? participants)
    | _ => none
  | ("Delete", v) =>
    match ← v.record? ["id"] with
    | [some id] => return .delete (← decode? id)
    | _ => none
  | ("Restore", v) =>
    match ← v.record? ["id"] with
    | [some id] => return .restore (← decode? id)
    | _ => none
  | ("Withdraw", v) =>
    match ← v.record? ["id", "participants"] with
    | [some id, some participants] => return .withdraw (← decode? id) (← decode? participants)
    | _ => none
  | _ => none

instance : Coded Room.Change where
  encode
    | .add id participants =>
      .object [("type", .string "Add"), ("id", encode id), ("participants", encode participants)]
    | .delete id => .object [("type", .string "Delete"), ("id", encode id)]
    | .restore id => .object [("type", .string "Restore"), ("id", encode id)]
    | .withdraw id participants =>
      .object [("type", .string "Withdraw"), ("id", encode id),
        ("participants", encode participants)]
  decode? := decodeChange? []
  decodePart? := decodeChange? ["Add", "Delete", "Restore", "Withdraw"]

variable {σ op V : Type}

instance [Coded V] : Coded (Register.Write String V) where
  encode w :=
    .object [("key", encode w.key), ("prev", encode w.before), ("next", encode w.after)]
  decode? v := do
    match ← v.record? ["key", "prev", "next"] with
    | [some key, before, after] =>
      return ⟨← decode? key, ← decodeOptional? before, ← decodeOptional? after⟩
    | _ => none

instance [Coded σ] [Coded op] : Coded (Snapshot σ op) where
  encode s :=
    .object [("revision", encode s.revision), ("base", encode s.base),
      ("inflight", encode s.inflight), ("pending", encode s.pending)]
  decode? v := do
    match ← v.record? ["revision", "base", "inflight", "pending"] with
    | [some revision, some base, some inflight, some pending] =>
      return ⟨← decode? revision, ← decode? base, ← decode? inflight, ← decode? pending⟩
    | _ => none

instance [Coded op] : Coded (Pulled op) where
  encode p := .object [("revision", encode p.revision), ("operations", encode p.operations)]
  decode? v := do
    match ← v.record? ["revision", "operations"] with
    | [some revision, some operations] => return ⟨← decode? revision, ← decode? operations⟩
    | _ => none

instance [Coded op] : Coded (PushOutcome op) where
  encode
    | .accepted revision =>
      .object [("outcome", .string "Accepted"), ("revision", encode revision)]
    | .conflict operations revision =>
      .object [("outcome", .string "Conflict"), ("operations", encode operations),
        ("revision", encode revision)]
  decode? v := do
    match ← v.tagged? "outcome" [] with
    | ("Accepted", v) =>
      match ← v.record? ["revision"] with
      | [some revision] => return .accepted (← decode? revision)
      | _ => none
    | ("Conflict", v) =>
      match ← v.record? ["operations", "revision"] with
      | [some operations, some revision] =>
        return .conflict (← decodePart? operations) (← decode? revision)
      | _ => none
    | _ => none

end Reconcile.Json
