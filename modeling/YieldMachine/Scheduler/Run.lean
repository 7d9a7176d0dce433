import YieldMachine.Scheduler.Basic

/-!
# Running threads

The scheduler resumes the thread with the highest current priority, the one added
first on ties, and every thread that is passed over gains priority.
-/

namespace YieldMachine.Scheduler

/-- Whether a thread goes before another one. -/
def precedes (a b : Thread) : Bool :=
  b.current < a.current || (a.current == b.current && a.order < b.order)

/-- The better of two candidates. -/
def better (best : Option (Nat × Thread)) (candidate : Nat × Thread) : Option (Nat × Thread) :=
  match best with
  | none => some candidate
  | some b => if precedes candidate.2 b.2 then some candidate else some b

/-- The scheduled threads. -/
def scheduled (s : Scheduler) : List (Nat × Thread) :=
  s.members.filterMap fun (_, i) => s.threads[i]?.map (i, ·)

/-- The thread that goes before all other scheduled ones. -/
def first? (s : Scheduler) : Option Nat := (s.scheduled.foldl better none).map (·.1)

/-- A thread that is passed over gains priority. -/
def Thread.aged (t : Thread) : Thread :=
  if t.current < maxPriority then { t with current := t.current + 1 } else t

/-- Lets the scheduled threads other than the selected one gain priority, which the
selected one loses. -/
def age (s : Scheduler) (selected : Nat) : Scheduler :=
  let s := s.members.foldl
    (fun s (_, i) => if i = selected then s else s.update i Thread.aged) s
  s.update selected fun t => { t with current := t.priority }

/-- Selects a thread by priority. -/
def selectByPriority (s : Scheduler) : Option Nat × Scheduler :=
  match s.first? with
  | none => (none, s)
  | some i => (some i, s.age i)

/-- The thread to resume after a signal of the previous one: none stops the run. -/
def next (s : Scheduler) (previous : Option String) : Signal → Option Nat × Scheduler
  | .quit => (none, s)
  | .remove =>
    match previous with
    | some id => (s.drop id).selectByPriority
    | none => s.selectByPriority
  | .switch id =>
    match s.member? id with
    | some i => (some i, s)
    | none => s.selectByPriority
  | .proceed => s.selectByPriority

/-- How a run ends. -/
inductive Ending where
  | finished
  | cancelled
  /-- the bound on the number of turns is used up -/
  | exhausted
  deriving DecidableEq, Repr

/-- What one turn of the scheduler leads to: the end, or the signal that the next turn
acts on and the thread that sent it. -/
inductive Turn where
  | ended (ending : Ending)
  | goOn (signal : Signal) (sender : Option String)

/-- Takes one turn: a thread is chosen and steps, or is dropped when it is at its
end. -/
def turn (cancelled : Scheduler → Bool) (signal : Signal) (sender : Option String)
    (s : Scheduler) : Turn × Scheduler :=
  if s.members.isEmpty then (.ended .finished, s)
  else if cancelled s then (.ended .cancelled, s)
  else
    match s.next sender signal with
    | (none, s) => (.ended .finished, s)
    | (some i, s) =>
      let s := s.prime i
      let id := (s.threads[i]?.map (·.id)).getD ""
      match s.ahead? i with
      | none => (.goOn .proceed none, s.drop id)
      | some signal => (.goOn signal (some id), s.take i)

/-- Takes turns until a run ends, at most `fuel` of them. -/
def turns (cancelled : Scheduler → Bool) :
    Nat → Signal → Option String → Scheduler → Ending × Scheduler
  | 0, _, _, s => (.exhausted, s)
  | fuel + 1, signal, sender, s =>
    match turn cancelled signal sender s with
    | (.ended ending, s) => (ending, s)
    | (.goOn signal sender, s) => turns cancelled fuel signal sender s

/-- Steps threads until all of them are at their end, one of them stops the run, or the
run is cancelled. -/
def run (cancelled : Scheduler → Bool) (fuel : Nat) (s : Scheduler) : Ending × Scheduler :=
  turns cancelled fuel .proceed none s

end YieldMachine.Scheduler
