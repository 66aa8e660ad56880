import Reconcile.Manager.Stage
import Reconcile.Simulation.Transport

/-! Running scripts. Steps run other steps and calls ask again and again, so everything here has a
patience that decreases with each; a scenario gets more of it than any script can use up. -/

namespace Reconcile.Simulation

variable {σ op : Type} (a : Algebra σ op)

section
variable (run : Step σ op → Sim σ op (Report σ op)) (client : String)

structure Handle where
  policy : Retry.Policy
  recorded : Bool

def getHandle : Sim σ op Handle := do
  let c ← getClient client
  return ⟨c.policy, c.recorded⟩

def recordRetry (handle : Handle) (attempt : Nat) {α : Type} :
    Except TransportFault α → Sim σ op Unit
  | .error (.network _) =>
    if handle.recorded then record (.retried client attempt (handle.policy attempt))
    else return ()
  | _ => return ()

def converse (handle : Handle) : Nat → Manager.Stage op → Sim σ op (Except SyncError Nat)
  | _, .settled (.ended result) => return result
  | 0, _ => .stuck
  | patience + 1, .sent call => do
    let answer ← ask run client call.purpose
    recordRetry client handle call.attempt answer
    converse handle patience (.heard call answer)
  | patience + 1, stage => do
    match stage with
    | .settled (.wait delay _) => .sleep delay
    | _ => pure ()
    let (notice, stage) ← changeManager client fun m =>
      let (m, notice, stage) := m.proceed a handle.policy stage
      ((notice, stage), m)
    announce run client notice
    converse handle patience stage

def perform (handle : Handle) (patience : Nat) (action : Manager.Action) :
    Sim σ op (Except SyncError Nat) := do
  let start ← changeManager client fun m =>
    let (m, start) := m.start a action
    (start, m)
  match start with
  | .ended result => return result
  | .asking call =>
    let result ← (converse a run client handle patience (.asking call)).guarded (·.release client)
    Process.modify (·.release client)
    return result

def syncAndPull (handle : Handle) (patience : Nat) : Sim σ op (Except SyncError Nat) := do
  match ← perform a run client handle patience .sync with
  | .error e => return .error e
  | .ok _ => perform a run client handle patience .pull

def tolerance : Nat := 5

/-- The moment of the tick after one that was due at `due` and came at `now`. -/
def nextTick (due now period : Nat) : Nat :=
  if due + tolerance < now then now + period else due + period

def periodic (handle : Handle) (period i : Nat) : Nat → Nat → Nat → Sim σ op (Result σ op)
  | 0, _, _ => .stuck
  | patience + 1, due, seen => do
    .await (some due) fun w =>
      w.channels[i]?.any fun ch => seen < ch.version || !ch.hasSender
    let now ← .look World.now
    if due ≤ now then
      let next := nextTick due now period
      match ← syncAndPull a run client handle patience with
      | .error .closed => return .nothing
      | .error e =>
        if e.isFatal then return .failed e
        else periodic handle period i patience next seen
      | .ok _ => periodic handle period i patience next seen
    else
      match (← .look World.channels)[i]? with
      | some ch =>
        if seen < ch.version then
          if ch.value then return .nothing
          else periodic handle period i patience due ch.version
        else return .nothing
      | none => return .nothing

def dropSender : Option Nat → Sim σ op Unit
  | some i => .modify (·.modifyChannel i fun ch => { ch with hasSender := false })
  | none => return ()

def openChannel (value : Bool) : Sim σ op Nat := do
  let c ← getClient client
  let i ← .change fun w =>
    (w.channels.size, { w with channels := w.channels.push ⟨value, 0, true, true⟩ })
  dropSender c.stop
  modifyClient client fun c => { c with stop := some i }
  return i

def stopListening (i : Nat) (w : World σ op) : World σ op :=
  w.modifyChannel i fun ch => { ch with hasReceiver := false }

def runPeriodic (patience period : Nat) (stopped : Bool) : Sim σ op (Result σ op) := do
  let i ← openChannel client stopped
  let handle ← getHandle client
  let now ← .look World.now
  let result ←
    if stopped then pure .nothing
    else (periodic a run client handle period i patience now 0).guarded (stopListening i)
  .modify (stopListening i)
  return result

def shutdown (value : Bool) : Sim σ op Bool := do
  let c ← getClient client
  match c.stop with
  | none => return false
  | some i =>
    .change fun w =>
      match w.channels[i]? with
      | some ch =>
        if ch.hasReceiver then
          (true, w.modifyChannel i fun ch => { ch with value, version := ch.version + 1 })
        else (false, w)
      | none => (false, w)

def dropShutdown : Sim σ op Bool := do
  let c ← getClient client
  dropSender c.stop
  modifyClient client fun c => { c with stop := none }
  return c.stop.isSome

def runEvents (start : Nat) : List (Nat × List (Step σ op)) → Sim σ op Unit
  | [] => return ()
  | (moment, steps) :: events => do
    .sleepUntil (start + moment)
    runSteps run (.event moment) steps
    runEvents start events

def announced {ε ρ : Type} (f : Manager σ op String →
      Except ε ρ × Manager σ op String × Option (Notice σ String)) :
    Sim σ op (Except ε ρ) := do
  let (result, notice) ← changeManager client fun m =>
    let (result, m, notice) := f m
    ((result, notice), m)
  announce run client notice
  return result

def keep (slot : Option String) (s : Snapshot σ op) : Sim σ op Unit :=
  match slot with
  | some slot => .modify fun w => { w with slots := w.slots.insert slot s }
  | none => return ()

def restore (s : Snapshot σ op) : Sim σ op (Result σ op) := do
  match ← announced run client (·.restore a s) with
  | .ok () => return .nothing
  | .error e => return .failed e

def listen (tag : String) (scripts : List (List (Step σ op))) : Sim σ op (Result σ op) := do
  let id ← changeManager client (·.listen tag)
  modifyClient client fun c =>
    let scripts := match c.audiences[tag]? with
      | some audience => audience.scripts
      | none => scripts
    { c with audiences := c.audiences.insert tag ⟨id, scripts⟩ }
  return .listener id

def unlisten (tag : String) : Sim σ op (Result σ op) := do
  let c ← getClient client
  match c.audiences[tag]? with
  | some audience => return .flag (← changeManager client (·.unlisten audience.id))
  | none => .stuck

def configure (config : Config) : Sim σ op (Result σ op) := do
  match config.validate with
  | .error fault => return .failed (.config fault.message)
  | .ok () =>
    modifyClient client fun c =>
      { c with policy := config.retryPolicy.nextDelay, recorded := false }
    return .name config.clientId

def fail (direction : Direction) (count : Nat) (fault : TransportFault) : Sim σ op Unit :=
  modifyClient client fun c =>
    let faults := List.replicate count fault
    match direction with
    | .push => { c with pushFaults := c.pushFaults ++ faults }
    | .pull => { c with pullFaults := c.pullFaults ++ faults }

end

def commit (made : Option Revision) (batch : List op) : Sim σ op (Result σ op) := do
  let outcome ← .change fun w =>
    let (outcome, history) := w.history.push (made.getD w.history.revision) batch
    (outcome, { w with history })
  match outcome with
  | .ok outcome => return .outcome outcome
  | .error fault => return .refused fault

def clientAct (run : Step σ op → Sim σ op (Report σ op)) (patience : Nat) (client : String) :
    Act σ op → Sim σ op (Result σ op)
  | .call action => do
    match ← perform a run client (← getHandle client) patience action with
    | .error e => return .failed e
    | .ok n =>
      match action with
      | .pull => return .count n
      | _ => return .nothing
  | .add ops => do
    let notice ← changeManager client fun m => (m.add a ops).swap
    announce run client notice
    return .nothing
  | .reset => do
    match ← announced run client (·.reset a) with
    | .ok n => return .count n
    | .error e => return .failed e
  | .close => do
    changeManager client fun m => ((), m.close)
    return .nothing
  | .view => return .nothing
  | .snapshot slot => do
    let c ← getClient client
    match c.manager.snapshot with
    | .error e => return .failed e
    | .ok s =>
      keep slot s
      return .snapshot s
  | .restore s => restore a run client s
  | .restoreSlot slot => do
    match (← .look World.slots)[slot]? with
    | some s => restore a run client s
    | none => .stuck
  | .listen tag scripts => listen client tag scripts
  | .unlisten tag => unlisten client tag
  | .configure config => configure client config
  | .fail direction count fault => do
    fail client direction count fault
    return .nothing
  | .answerPush outcome => do
    modifyClient client fun c => { c with pushAnswers := c.pushAnswers ++ [outcome] }
    return .nothing
  | .answerPull pulled => do
    modifyClient client fun c => { c with pullAnswers := c.pullAnswers ++ [pulled] }
    return .nothing
  | .hook moment steps => do
    modifyClient client fun c => { c with hooks := c.hooks ++ [(moment, steps)] }
    return .nothing
  | .attempts => do
    let c ← getClient client
    return .attempts c.pushes c.pulls c.accepted
  | .runPeriodic period stopped => runPeriodic a run client patience period stopped
  | .shutdown value => return .flag (← shutdown client value)
  | .dropShutdown => return .flag (← dropShutdown client)
  | .commit made batch => commit made batch
  | .history => return .history (← .look World.history)
  | .join main events => do
    let start ← .look World.now
    let (main, _) ← Process.both (run main) (runEvents run start events)
    return .joined main
  | .cancelAfter duration step => do
    let now ← .look World.now
    match ← (run step).within (now + duration) with
    | some report => return .finished report
    | none => return .cancelled

def act (run : Step σ op → Sim σ op (Report σ op)) (patience : Nat) :
    Option String → Act σ op → Sim σ op (Result σ op)
  | some client, content => clientAct a run patience client content
  | none, .commit made batch => commit made batch
  | none, .history => return .history (← .look World.history)
  | none, content@(.join _ _) | none, content@(.cancelAfter _ _) =>
    clientAct a run patience "" content
  | none, _ => .stuck

def runStep : Nat → Step σ op → Sim σ op (Report σ op)
  | 0, _ => .stuck
  | patience + 1, step => do
    let result ← act a (runStep patience) patience step.client step.content
    match step.client with
    | none => return ⟨result, none⟩
    | some client => return ⟨result, some (← getClient client).view⟩

def patience : Nat := 1000000000000000000

def runScript : List (Step σ op) → World σ op →
    Option (List (Report σ op × List (Entry σ op)) × World σ op)
  | [], w => some ([], w)
  | step :: steps, w => do
    let (report, w) ← (runStep a patience step).run { w with entries := [] }
    let entries := w.entries.reverse
    let (reports, w) ← runScript steps w
    return ((report, entries) :: reports, w)

end Reconcile.Simulation
