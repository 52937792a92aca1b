import ShipNet.Errorable

/-! `EventLoop`: a queue of tasks to run at once and a list of tasks to run at some
time, with `Execute`, `Delay` and `ProceedTasks`. A task is known by the calls that it
makes when it runs. -/
namespace ShipNet
open Fallible

/-- A call that a function makes while it runs. -/
inductive TaskCall (ν δ : Type) where
  /-- `Execute(function)`. -/
  | execute (function : ν)
  /-- `Delay(function, millis)`. -/
  | delay (function : δ) (millis : Int64)

/-- What the functions call. Those that are run by their time do not call `Delay`. -/
structure TaskGraph (ν δ : Type) where
  calls : ν → List (TaskCall ν δ)
  delayedCalls : δ → List ν

structure EventLoop (ν δ : Type) where
  immediateTasks : List ν := []
  delayedTasks : List (UInt32 × δ) := []
  /-- How often the clock was read. -/
  readings : Nat := 0
  /-- The functions that were called, each kind in its order. The code keeps no such
  record. -/
  ran : List ν := []
  ranDelayed : List (UInt32 × δ) := []

variable {ν δ : Type}

def TaskCall.executed? : TaskCall ν δ → Option ν
  | execute function => some function
  | delay _ _ => none

/-- The functions that a function submits to run at once. -/
def TaskGraph.executes (graph : TaskGraph ν δ) (function : ν) : List ν :=
  (graph.calls function).filterMap TaskCall.executed?

namespace EventLoop

/-- `Execute(function)`. -/
def execute (l : EventLoop ν δ) (function : ν) : EventLoop ν δ :=
  { l with immediateTasks := l.immediateTasks ++ [function] }

variable (graph : TaskGraph ν δ) (clock : Nat → UInt64)

/-- `ShipUtils::GetCurrentMillis()`. -/
def getCurrentMillis (l : EventLoop ν δ) : UInt64 × EventLoop ν δ :=
  (clock l.readings, { l with readings := l.readings + 1 })

/-- `Delay(function, millis)`. The time is kept in 32 bits. -/
def delay (l : EventLoop ν δ) (function : δ) (millis : Int64) : EventLoop ν δ :=
  let (now, l) := l.getCurrentMillis clock
  { l with delayedTasks := l.delayedTasks ++ [((now + millis.toUInt64).toUInt32, function)] }

def call (l : EventLoop ν δ) : TaskCall ν δ → EventLoop ν δ
  | .execute function => l.execute function
  | .delay function millis => l.delay clock function millis

/-- The body of `while (!immediateTasks.empty())`. The task at the front is popped
after it has run. -/
def proceedFront (l : EventLoop ν δ) : Exec (EventLoop ν δ) :=
  match l.immediateTasks with
  | [] => throw .emptyDeque
  | front :: _ =>
    let l := (graph.calls front).foldl (call clock) { l with ran := l.ran ++ [front] }
    pure { l with immediateTasks := l.immediateTasks.drop 1 }

/-- `delayedTasks.remove_if` from an element on: the elements that stay, and the
loop after the others were run. -/
def removeIf (currentTime : UInt32) : List (UInt32 × δ) → EventLoop ν δ → List (UInt32 × δ) × EventLoop ν δ
  | [], l => ([], l)
  | it :: later, l =>
    if it.1 ≤ currentTime then
      removeIf currentTime later
        ((graph.delayedCalls it.2).foldl execute { l with ranDelayed := l.ranDelayed ++ [it] })
    else
      let (kept, l) := removeIf currentTime later l
      (it :: kept, l)

/-- The loop over the immediate tasks, given up after so many of them. -/
def proceedImmediate (fuel : Nat) (l : EventLoop ν δ) : Exec (EventLoop ν δ) :=
  loop .endless (whileRound (fun l : EventLoop ν δ => !l.immediateTasks.isEmpty) (proceedFront graph clock)) fuel l

/-- `ProceedTasks()`. -/
def proceedTasks (fuel : Nat) (l : EventLoop ν δ) : Exec (EventLoop ν δ) := do
  let l ← proceedImmediate graph clock fuel l
  if l.delayedTasks.isEmpty then pure l
  else
    let (now, l) := l.getCurrentMillis clock
    let (delayedTasks, l) := removeIf graph now.toUInt32 l.delayedTasks l
    pure { l with delayedTasks := delayedTasks }

/-- A call on the loop from outside. -/
inductive Operation (ν δ : Type) where
  | execute (function : ν)
  | delay (function : δ) (millis : Int64)
  | proceedTasks

end EventLoop

/-! ### Tasks whose calls form a tree -/

mutual

/-- A task, as the calls that it makes when it runs. The name tells it apart. -/
inductive Task (ν : Type) where
  | done (name : ν)
  /-- `Execute(function)`. -/
  | execute (function : Task ν) (rest : Task ν)
  /-- `Delay(function, millis)`. -/
  | delay (function : DelayedTask ν) (millis : Int64) (rest : Task ν)

/-- A task that is run by its time, and does not call `Delay` itself. -/
inductive DelayedTask (ν : Type) where
  | done (name : ν)
  | execute (function : Task ν) (rest : DelayedTask ν)

end

namespace Task

def name : Task ν → ν
  | done name => name
  | execute _ rest => rest.name
  | delay _ _ rest => rest.name

def calls : Task ν → List (TaskCall (Task ν) (DelayedTask ν))
  | done _ => []
  | execute function rest => .execute function :: rest.calls
  | delay function millis rest => .delay function millis :: rest.calls

/-- How many tasks run because of it, itself included. -/
def weight : Task ν → Nat
  | done _ => 1
  | execute function rest => function.weight + rest.weight
  | delay _ _ rest => rest.weight

end Task

namespace DelayedTask

def name : DelayedTask ν → ν
  | done name => name
  | execute _ rest => rest.name

def calls : DelayedTask ν → List (Task ν)
  | done _ => []
  | execute function rest => function :: rest.calls

end DelayedTask

/-- Trees of calls, as a graph in which every line ends. -/
def trees (ν : Type) : TaskGraph (Task ν) (DelayedTask ν) where
  calls := Task.calls
  delayedCalls := DelayedTask.calls

namespace EventLoop

/-- The number of rounds that the immediate tasks can take. -/
def weight : List (Task ν) → Nat
  | [] => 0
  | function :: later => function.weight + weight later

def step (clock : Nat → UInt64) (l : EventLoop (Task ν) (DelayedTask ν)) :
    Operation (Task ν) (DelayedTask ν) → Exec (EventLoop (Task ν) (DelayedTask ν))
  | .execute function => pure (l.execute function)
  | .delay function millis => pure (l.delay clock function millis)
  | .proceedTasks => l.proceedTasks (trees ν) clock (weight l.immediateTasks + 1)

end EventLoop

end ShipNet
