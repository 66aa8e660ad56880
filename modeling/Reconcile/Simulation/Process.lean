/-! Cooperative processes over a shared world with a clock. A process reads and writes the world
until it ends or has to wait, for a moment or for something to happen; time passes only while
everything waits. A process that waits can be cancelled, and then has a last word on the world. -/

namespace Reconcile.Simulation

class Clock (ω : Type) where
  now : ω → Nat
  setNow : Nat → ω → ω

inductive Process (ω α : Type)
  | done (a : α)
  | get (next : ω → Process ω α)
  | set (w : ω) (next : Process ω α)
  /-- Waits until the moment `due`, or until the world is such that `woken` holds; `cancel` is what
  is left to do should the process not be allowed to go on. -/
  | wait (due : Option Nat) (woken : ω → Bool) (cancel : ω → ω) (next : Process ω α)
  | stuck

namespace Process

variable {ω α β : Type}

def bind : Process ω α → (α → Process ω β) → Process ω β
  | .done a, f => f a
  | .get next, f => .get fun w => bind (next w) f
  | .set w next, f => .set w (bind next f)
  | .wait due woken cancel next, f => .wait due woken cancel (bind next f)
  | .stuck, _ => .stuck

instance : Monad (Process ω) where
  pure := .done
  bind := bind

@[simp] theorem bind_done (p : Process ω α) : p.bind .done = p := by
  induction p <;> simp_all [bind]

theorem bind_assoc {γ : Type} (p : Process ω α) (f : α → Process ω β) (g : β → Process ω γ) :
    (p.bind f).bind g = p.bind fun a => (f a).bind g := by
  induction p <;> simp_all [bind]

def look (f : ω → α) : Process ω α := .get fun w => .done (f w)

def change (f : ω → α × ω) : Process ω α :=
  .get fun w => .set (f w).2 (.done (f w).1)

def modify (f : ω → ω) : Process ω Unit := .get fun w => .set (f w) (.done ())

def guarded (cleanup : ω → ω) : Process ω α → Process ω α
  | .done a => .done a
  | .get next => .get fun w => guarded cleanup (next w)
  | .set w next => .set w (guarded cleanup next)
  | .wait due woken cancel next =>
    .wait due woken (fun w => cleanup (cancel w)) (guarded cleanup next)
  | .stuck => .stuck

variable [Clock ω]

def isReady (due : Option Nat) (woken : ω → Bool) (w : ω) : Bool :=
  due.any (· ≤ Clock.now w) || woken w

def await (due : Option Nat) (woken : ω → Bool) : Process ω Unit :=
  .get fun w => if isReady due woken w then .done () else .wait due woken id (.done ())

def sleepUntil (moment : Nat) : Process ω Unit := await (some moment) fun _ => false

def sleep (duration : Nat) : Process ω Unit :=
  .get fun w => sleepUntil (Clock.now w + duration)

def earliest : Option Nat → Option Nat → Option Nat
  | some s, some t => some (min s t)
  | some s, none => some s
  | none, t => t

/-- A waiting process beside another one, which goes on until it has to wait too. The first one is
looked after again when it need not wait any longer: `resume` is both of them from there on. -/
def beside (due : Option Nat) (woken : ω → Bool) (cancel : ω → ω) (next : Process ω α)
    (resume : Process ω β → Process ω (α × β)) : Process ω β → Process ω (α × β)
  | .done b => (Process.wait due woken cancel next).bind fun a => .done (a, b)
  | .get nextB => .get fun w => beside due woken cancel next resume (nextB w)
  | .set w nextB => .set w (beside due woken cancel next resume nextB)
  | .wait dueB wokenB cancelB nextB =>
    .wait (earliest due dueB) (fun w => woken w || wokenB w) (fun w => cancelB (cancel w))
      (.get fun w =>
        if isReady due woken w then resume (.wait dueB wokenB cancelB nextB)
        else beside due woken cancel next resume nextB)
  | .stuck => .stuck

def both : Process ω α → Process ω β → Process ω (α × β)
  | .done a, q => q.bind fun b => .done (a, b)
  | .get next, q => .get fun w => both (next w) q
  | .set w next, q => .set w (both next q)
  | .wait due woken cancel next, q => beside due woken cancel next (both next) q
  | .stuck, _ => .stuck

def within (moment : Nat) : Process ω α → Process ω (Option α)
  | .done a => .done (some a)
  | .get next => .get fun w => within moment (next w)
  | .set w next => .set w (within moment next)
  | .wait due woken cancel next =>
    .wait (earliest due (some moment)) woken cancel
      (.get fun w =>
        if isReady due woken w then within moment next
        else .set (cancel w) (.done none))
  | .stuck => .stuck

/-- Runs a process to its end, with the clock set to the next moment that is waited for whenever
nothing else can happen. -/
def run : Process ω α → ω → Option (α × ω)
  | .done a, w => some (a, w)
  | .get next, w => run (next w) w
  | .set w next, _ => run next w
  | .wait due woken _ next, w =>
    if isReady due woken w then run next w
    else
      match due with
      | some moment => run next (Clock.setNow moment w)
      | none => none
  | .stuck, _ => none

end Process

end Reconcile.Simulation
