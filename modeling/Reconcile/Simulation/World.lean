import Std.Data.ExtTreeMap
import Reconcile.Simulation.Process
import Reconcile.Simulation.Script

/-! The world of a scenario: the clock, the history that all clients share, and what each client and
its transport have been told to do. -/

namespace Reconcile.Simulation

structure Channel where
  value : Bool
  version : Nat
  hasSender : Bool
  hasReceiver : Bool
  deriving DecidableEq, Repr

structure Audience (σ op : Type) where
  id : Nat
  scripts : List (List (Step σ op))

structure Client (σ op : Type) where
  manager : Manager σ op String
  policy : Retry.Policy
  recorded : Bool := true
  audiences : Std.ExtTreeMap String (Audience σ op) := ∅
  hooks : List (Moment × List (Step σ op)) := []
  pushFaults : List TransportFault := []
  pullFaults : List TransportFault := []
  pushAnswers : List (PushOutcome op) := []
  pullAnswers : List (Pulled op) := []
  pushes : Nat := 0
  pulls : Nat := 0
  accepted : Nat := 0
  /-- The channel that stops the periodic loop. -/
  stop : Option Nat := none

structure World (σ op : Type) where
  now : Nat := 0
  history : History op
  clients : Std.ExtTreeMap String (Client σ op)
  slots : Std.ExtTreeMap String (Snapshot σ op) := ∅
  channels : Array Channel := #[]
  /-- What has happened, the latest first. -/
  entries : List (Entry σ op) := []

variable {σ op : Type}

instance : Clock (World σ op) where
  now w := w.now
  setNow moment w := { w with now := moment }

def Client.view (c : Client σ op) : View σ where
  status := c.manager.status
  revision := c.manager.revision
  state := c.manager.state
  pending := c.manager.pending.length
  inflight := c.manager.inflight.length

def Client.takeHook (c : Client σ op) (moment : Moment) :
    Option (List (Step σ op)) × Client σ op :=
  match c.hooks.find? (·.1 = moment) with
  | none => (none, c)
  | some (_, steps) =>
    (some steps, { c with hooks := c.hooks.eraseP (·.1 = moment) })

namespace World

def setClient (w : World σ op) (name : String) (c : Client σ op) : World σ op :=
  { w with clients := w.clients.insert name c }

def record (w : World σ op) (e : Entry σ op) : World σ op :=
  { w with entries := e :: w.entries }

def modifyChannel (w : World σ op) (i : Nat) (f : Channel → Channel) : World σ op :=
  { w with channels := w.channels.modify i f }

def release (w : World σ op) (name : String) : World σ op :=
  match w.clients[name]? with
  | some c => w.setClient name { c with manager := c.manager.release }
  | none => w

def start (history : List op) (setups : List (Setup σ)) : World σ op where
  history := ⟨history⟩
  clients := setups.foldl (fun clients s =>
    clients.insert s.name { manager := .new s.initial, policy := s.policy }) ∅

end World

abbrev Sim (σ op α : Type) := Process (World σ op) α

def record (e : Entry σ op) : Sim σ op Unit := .modify (·.record e)

def getClient (name : String) : Sim σ op (Client σ op) :=
  .get fun w =>
    match w.clients[name]? with
    | some c => .done c
    | none => .stuck

def changeClient {α : Type} (name : String) (f : Client σ op → α × Client σ op) : Sim σ op α := do
  let (result, c) := f (← getClient name)
  Process.modify (·.setClient name c)
  return result

def modifyClient (name : String) (f : Client σ op → Client σ op) : Sim σ op Unit :=
  changeClient name fun c => ((), f c)

def changeManager {α : Type} (name : String)
    (f : Manager σ op String → α × Manager σ op String) : Sim σ op α :=
  changeClient name fun c =>
    let (result, m) := f c.manager
    (result, { c with manager := m })

end Reconcile.Simulation
