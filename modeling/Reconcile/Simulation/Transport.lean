import Reconcile.Simulation.World

/-! How a scripted client's calls reach the history, and how its listeners are told. A call is
recorded, runs the next hook before it, takes the next fault, or else the next scripted answer, or
else the answer of the history, and runs the next hook after it. Steps of hooks and listeners are
run by the function `run`. -/

namespace Reconcile.Simulation

variable {σ op : Type} (run : Step σ op → Sim σ op (Report σ op))

def runSteps (occasion : Occasion) : List (Step σ op) → Sim σ op Unit
  | [] => return ()
  | s :: steps => do
    record (.ran occasion (← run s))
    runSteps occasion steps

def runHook (client : String) (moment : Moment) : Sim σ op Unit := do
  match ← changeClient client (·.takeHook moment) with
  | some steps => runSteps run (.hook moment) steps
  | none => return ()

def deliverPush (client : String) (made : Revision) (batch : List op) :
    Sim σ op (Except TransportFault (PushOutcome op)) := do
  let c ← getClient client
  let c := { c with pushes := c.pushes + 1 }
  match c.pushFaults, c.pushAnswers with
  | fault :: faults, _ =>
    modifyClient client fun _ => { c with pushFaults := faults }
    return .error fault
  | [], outcome :: outcomes =>
    modifyClient client fun _ => { c with pushAnswers := outcomes }
    return .ok outcome
  | [], [] =>
    modifyClient client fun _ => c
    .change fun w =>
      let (outcome, history) := w.history.push made batch
      (outcome, { w with history })

def countAccepted : Except TransportFault (PushOutcome op) → Nat
  | .ok (.accepted _) => 1
  | _ => 0

def push (client : String) (made : Revision) (batch : List op) :
    Sim σ op (Except TransportFault (PushOutcome op)) := do
  record (.pushed client made batch)
  runHook run client .beforePush
  let outcome ← deliverPush client made batch
  modifyClient client fun c => { c with accepted := c.accepted + countAccepted outcome }
  runHook run client .afterPush
  return outcome

def deliverPull (client : String) (since : Revision) :
    Sim σ op (Except TransportFault (Pulled op)) := do
  let c ← getClient client
  let c := { c with pulls := c.pulls + 1 }
  match c.pullFaults, c.pullAnswers with
  | fault :: faults, _ =>
    modifyClient client fun _ => { c with pullFaults := faults }
    return .error fault
  | [], pulled :: answers =>
    modifyClient client fun _ => { c with pullAnswers := answers }
    return .ok pulled
  | [], [] =>
    modifyClient client fun _ => c
    .look fun w => w.history.pull since

def pull (client : String) (since : Revision) : Sim σ op (Except TransportFault (Pulled op)) := do
  record (.pulled client since)
  runHook run client .beforePull
  let pulled ← deliverPull client since
  runHook run client .afterPull
  return pulled

def ask (client : String) :
    (purpose : Manager.Purpose op) → Sim σ op (Except TransportFault purpose.Response)
  | .checkout => pull run client .genesis
  | .pull since => pull run client since
  | .push made batch => push run client made batch

def tell (client : String) (state : σ) (tag : String) : Sim σ op Unit := do
  record (.notified client tag state)
  let script ← changeClient client fun c =>
    match c.audiences[tag]? with
    | some ⟨id, script :: scripts⟩ =>
      (script, { c with audiences := c.audiences.insert tag ⟨id, scripts⟩ })
    | _ => ([], c)
  runSteps run (.listener tag) script

def tellAll (client : String) : List (String × σ) → Sim σ op Unit
  | [] => return ()
  | (tag, state) :: turns => do
    tell run client state tag
    tellAll client turns

def announce (client : String) : Option (Notice σ String) → Sim σ op Unit
  | some notice => tellAll run client notice.turns
  | none => return ()

end Reconcile.Simulation
