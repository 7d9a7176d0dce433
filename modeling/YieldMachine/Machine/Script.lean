import YieldMachine.Machine.Bounce

/-!
# Scripted machines

Small machines that are given by a list of states.  They exercise every kind of
transfer, among them calls: the called state resumes its caller when it finishes.
-/

namespace YieldMachine

/-- A state of a scripted machine, with elements of type `α`. -/
inductive ScriptState (α : Type) where
  | goto (state : Nat)
  | emit (state : Nat) (value : α)
  /-- emits how often this state was entered -/
  | emitCount (state : Nat)
  /-- resumes what the machine, or the call, was started with -/
  | finish
  | done
  /-- a bounce without a next step and without a value -/
  | stopSilent
  /-- a bounce without a next step that carries a value -/
  | stopWith (value : α)
  /-- goes to `a` the first `n` times, then once to `b` -/
  | loop (n a b : Nat)
  /-- goes to a state that resumes at `back` when it finishes -/
  | call (state back : Nat)
  | fail (text : String)

/-- What a state resumes when it finishes. -/
inductive Resume where
  | stop
  | back (state : Nat) (outer : Resume)

/-- A deferred step of a scripted machine. -/
inductive ScriptStep where
  | enter (state : Nat) (k : Resume)
  | resume (k : Resume)

/-- What a scripted machine remembers: how often each state was entered and how often
each loop has turned, and the states entered so far. -/
structure ScriptLog where
  visits : Array Nat
  turns : Array Nat
  trace : Array Nat

namespace ScriptLog

/-- The memory of a machine with `n` states that was not entered yet. -/
def empty (n : Nat) : ScriptLog := ⟨Array.replicate n 0, Array.replicate n 0, #[]⟩

/-- Enters a state. -/
def enter (log : ScriptLog) (state : Nat) : ScriptLog :=
  { log with visits := log.visits.modify state (· + 1), trace := log.trace.push state }

end ScriptLog

/-- A transfer to a state, which has to exist. -/
def scriptGoto {α : Type} (states : Array (ScriptState α)) (state : Nat) (k : Resume)
    (value : Option α) : Eff ScriptLog (Bounce ScriptStep α) :=
  if state < states.size then pure ⟨some (.enter state k), value⟩ else throw .invalid

/-- Runs one state. -/
def ScriptState.run {α : Type} (states : Array (ScriptState α)) (ofCount : Nat → α)
    (state : Nat) (k : Resume) : ScriptState α → Eff ScriptLog (Bounce ScriptStep α)
  | .goto goal => scriptGoto states goal k none
  | .emit goal value => scriptGoto states goal k (some value)
  | .emitCount goal => do
    let log ← get
    scriptGoto states goal k (some (ofCount (log.visits.getD state 0)))
  | .finish => pure (.goto (.resume k))
  | .done => pure .done
  | .stopSilent => pure ⟨none, none⟩
  | .stopWith value => pure ⟨none, some value⟩
  | .loop n a b => do
    let log ← get
    if log.turns.getD state 0 < n then
      set { log with turns := log.turns.modify state (· + 1) }
      scriptGoto states a k none
    else
      set { log with turns := log.turns.setIfInBounds state 0 }
      scriptGoto states b k none
  | .call goal back => scriptGoto states goal (.back back k) none
  | .fail text => throw (.raised text)

/-- Takes a deferred step of a scripted machine. -/
def scriptStep {α : Type} (states : Array (ScriptState α)) (ofCount : Nat → α) :
    ScriptStep → Eff ScriptLog (Bounce ScriptStep α)
  | .resume .stop => pure .done
  | .resume (.back state k) => scriptGoto states state k none
  | .enter state k => do
    match states[state]? with
    | none => throw .invalid
    | some s =>
      modify (·.enter state)
      s.run states ofCount state k

end YieldMachine
