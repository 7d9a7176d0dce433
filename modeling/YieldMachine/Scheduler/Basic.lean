import YieldMachine.Word

/-!
# Cooperative threads

A thread is a generator of signals.  Each element that it produces hands control
back to the scheduler, and says which thread to resume next.  The signals of a thread
come from a script, whose steps may also start other threads.
-/

namespace YieldMachine

/-- What a thread tells the scheduler after a step. -/
inductive Signal where
  /-- the next thread is picked by priority -/
  | proceed
  /-- the signalling thread is dropped -/
  | remove
  /-- the scheduler stops -/
  | quit
  /-- the named thread is resumed, or one by priority if there is none -/
  | switch (id : String)
  deriving DecidableEq, Repr

namespace Signal

/-- The thread that a switch names. -/
def target? : Signal → Option String
  | .switch id => some id
  | _ => none

/-- The text of a signal. -/
def text : Signal → String
  | .proceed => "continue"
  | .remove => "remove"
  | .quit => "quit"
  | .switch id => "continue with " ++ id

end Signal

/-- One step of a thread: it starts the threads in some slots and gives a signal. -/
structure Cue where
  starts : List String
  signal : Signal
  deriving DecidableEq, Repr

/-- What a thread does: its steps, and the slots of the threads that it starts after the
last of them. -/
structure Script where
  cues : List Cue
  final : List String
  deriving DecidableEq, Repr

namespace Script

/-- A script that only gives signals. -/
def ofSignals (signals : List Signal) : Script := ⟨signals.map (⟨[], ·⟩), []⟩

/-- The threads that are started before the next signal, or before the end. -/
def starts (script : Script) : List String :=
  match script.cues with
  | [] => script.final
  | cue :: _ => cue.starts

/-- The script after the next signal.  Nothing is done twice. -/
def tail (script : Script) : Script :=
  match script.cues with
  | [] => ⟨[], []⟩
  | _ :: cues => ⟨cues, script.final⟩

end Script

/-- The generator of a thread: what is left of its script, whether an element is computed
ahead of being asked for, and what was computed and not yet taken, which is nothing at
the end of the script. -/
structure Feed where
  rest : Script
  primed : Bool
  ahead : Option (Option Signal)
  deriving DecidableEq, Repr

/-- The feed after the next element is computed. -/
def Feed.computed (f : Feed) : Feed :=
  ⟨f.rest.tail, f.primed, some (f.rest.cues.head?.map Cue.signal)⟩

/-- A thread.  `current` grows each time the thread is passed over, and drops back to
`priority` when it is selected; `order` tells which of two threads was added first. -/
structure Thread where
  id : String
  priority : Int
  current : Int
  order : Nat
  feed : Feed
  deriving DecidableEq, Repr

/-- The greatest priority. -/
def maxPriority : Int := Word.half - 1

/-- Why a thread is refused. -/
inductive ThreadError where
  | noIdentifier
  | priority (id : String)
  | duplicate (id : String)
  | noThread
  deriving DecidableEq, Repr

/-- The text of an error. -/
def ThreadError.message : ThreadError → String
  | .noIdentifier => "microthread without identifier"
  | .priority id =>
    "priority out of range: " ++ id ++ ": must be less than " ++ toString maxPriority
  | .duplicate id => "duplicate microthread identifier: " ++ id
  | .noThread => "nil microthread"

/-- An entry of the log: a thread computed an element, or a start was refused. -/
inductive LogEntry where
  | computed (id : String)
  | refused (e : ThreadError)
  deriving DecidableEq, Repr

/-- A scheduler with all threads that exist.  `members` are the scheduled ones by
identifier, `slots` those that can be started by name, and `added` counts the threads
added so far. -/
structure Scheduler where
  threads : Array Thread
  members : List (String × Nat)
  slots : List (String × Nat)
  added : Nat
  log : Array LogEntry

namespace Scheduler

/-- A scheduler without threads. -/
def empty : Scheduler := ⟨#[], [], [], 0, #[]⟩

/-- The number of scheduled threads. -/
def length (s : Scheduler) : Nat := s.members.length

/-- Changes one thread. -/
def update (s : Scheduler) (i : Nat) (f : Thread → Thread) : Scheduler :=
  { s with threads := s.threads.modify i f }

/-- Adds a line to the log. -/
def note (s : Scheduler) (e : LogEntry) : Scheduler := { s with log := s.log.push e }

/-- The scheduled thread with an identifier. -/
def member? (s : Scheduler) (id : String) : Option Nat := s.members.lookup id

/-- Schedules a thread. -/
def add (s : Scheduler) (thread : Option Nat) : Except ThreadError Scheduler :=
  match thread.bind fun i => s.threads[i]?.map (i, ·) with
  | none => .error .noThread
  | some (i, t) =>
    if (s.member? t.id).isSome then .error (.duplicate t.id)
    else .ok
      { s.update i ({ · with order := s.added }) with
        members := s.members ++ [(t.id, i)]
        added := s.added + 1 }

/-- Unschedules the thread with an identifier. -/
def drop (s : Scheduler) (id : String) : Scheduler :=
  { s with members := s.members.filter (·.1 != id) }

/-- Starts the thread in a slot; a refusal goes to the log. -/
def spawn (s : Scheduler) (slot : String) : Scheduler :=
  match s.add (s.slots.lookup slot) with
  | .ok s => s
  | .error e => s.note (.refused e)

/-- Starts the threads in some slots, one after the other. -/
def spawnAll (s : Scheduler) (slots : List String) : Scheduler := slots.foldl spawn s

/-- Computes the next element of a thread from its script, or finds that there is none. -/
def compute (s : Scheduler) (i : Nat) : Scheduler :=
  match s.threads[i]? with
  | none => s
  | some t =>
    let s := if t.feed.rest.cues.isEmpty then s else s.note (.computed t.id)
    (s.spawnAll t.feed.rest.starts).update i ({ · with feed := t.feed.computed })

/-- Computes the next element of a thread unless it is there already. -/
def prime (s : Scheduler) (i : Nat) : Scheduler :=
  match s.threads[i]? with
  | some t => if t.feed.ahead.isNone then s.compute i else s
  | none => s

/-- What a thread has computed and not yet handed over. -/
def ahead? (s : Scheduler) (i : Nat) : Option Signal :=
  (s.threads[i]?.bind (·.feed.ahead)).join

/-- Hands over the computed element of a thread. -/
def take (s : Scheduler) (i : Nat) : Scheduler :=
  match s.threads[i]? with
  | none => s
  | some t =>
    if t.feed.primed then s.compute i
    else s.update i ({ · with feed := { t.feed with ahead := none } })

/-- Makes a thread and puts it into a slot.  It needs an identifier, and a priority that
leaves room for growing. -/
def build (s : Scheduler) (slot id : String) (priority : Int) (script : Script)
    (primed : Bool) : Except ThreadError Scheduler :=
  if id = "" then .error .noIdentifier
  else if priority = maxPriority then .error (.priority id)
  else
    let i := s.threads.size
    let t : Thread := ⟨id, priority, priority, 0, ⟨script, primed, none⟩⟩
    let s := { s with threads := s.threads.push t }
    let s := if primed then s.compute i else s
    .ok { s with slots := (slot, i) :: s.slots }

end Scheduler

end YieldMachine
