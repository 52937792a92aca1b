import Mathlib.Data.List.Perm.Basic
import ShipNet.EventLoop
import ShipNet.Transition

/-! Every task that an event loop is asked to run is run once, or still waits. The
immediate tasks form one sequence in the order in which they were submitted: those
that have run, then those in the queue. A delayed task leaves its list by running. -/
namespace ShipNet.EventLoop
open Fallible

variable {ν δ : Type} {graph : TaskGraph ν δ} {clock : Nat → UInt64} {before l now after : EventLoop ν δ} {ran : List ν}

/-! ### The calls of a task -/

/-- A call of `Delay`, with the time that it reads. -/
structure Submission (δ : Type) where
  now : UInt64
  function : δ
  millis : Int64

/-- What it puts in the list. -/
def Submission.entry (submission : Submission δ) : UInt32 × δ :=
  ((submission.now + submission.millis.toUInt64).toUInt32, submission.function)

/-- The calls of `Delay` among the calls of a task, from this reading of the clock on. -/
def submissionsOf (clock : Nat → UInt64) : List (TaskCall ν δ) → Nat → List (Submission δ)
  | [], _ => []
  | .execute _ :: later, readings => submissionsOf clock later readings
  | .delay function millis :: later, readings =>
    ⟨clock readings, function, millis⟩ :: submissionsOf clock later (readings + 1)

/-- The calls of `Delay` that tasks make one after another. -/
def submissions (graph : TaskGraph ν δ) (clock : Nat → UInt64) : List ν → Nat → List (Submission δ)
  | [], _ => []
  | function :: later, readings => submissionsOf clock (graph.calls function) readings ++
    submissions graph clock later (readings + (submissionsOf clock (graph.calls function) readings).length)

theorem submissions_append (first later : List ν) (readings : Nat) :
    submissions graph clock (first ++ later) readings = submissions graph clock first readings ++
      submissions graph clock later (readings + (submissions graph clock first readings).length) := by
  induction first generalizing readings with
  | nil => rfl
  | cons function first ih =>
    simp only [List.cons_append, submissions, ih, List.append_assoc, List.length_append, Nat.add_assoc]

/-- A task puts what it submits at the ends of the queue and of the list. -/
theorem calls_eq (clock : Nat → UInt64) (calls : List (TaskCall ν δ)) (l : EventLoop ν δ) :
    calls.foldl (call clock) l = { l with
      immediateTasks := l.immediateTasks ++ calls.filterMap TaskCall.executed?
      delayedTasks := l.delayedTasks ++ (submissionsOf clock calls l.readings).map Submission.entry
      readings := l.readings + (submissionsOf clock calls l.readings).length } := by
  induction calls generalizing l with
  | nil => simp [submissionsOf]
  | cons first later ih =>
    rw [List.foldl_cons, ih]
    cases first with
    | execute function => simp [call, execute, submissionsOf, TaskCall.executed?]
    | delay function millis =>
      simp [call, delay, getCurrentMillis, submissionsOf, Submission.entry, TaskCall.executed?, List.filterMap_cons,
        Nat.add_assoc, Nat.add_comm 1]

theorem executes_eq (functions : List ν) (l : EventLoop ν δ) :
    functions.foldl execute l = { l with immediateTasks := l.immediateTasks ++ functions } := by
  induction functions generalizing l with
  | nil => simp
  | cons function functions ih => simp [ih, execute]

/-! ### One call of `ProceedTasks` -/

/-- The loop over the immediate tasks has run these tasks, from `before` on. -/
structure Proceeding (graph : TaskGraph ν δ) (clock : Nat → UInt64) (before now : EventLoop ν δ) (ran : List ν) :
    Prop where
  order : before.immediateTasks ++ ran.flatMap graph.executes = ran ++ now.immediateTasks
  waiting : now.delayedTasks = before.delayedTasks ++ (submissions graph clock ran before.readings).map Submission.entry
  readings : now.readings = before.readings + (submissions graph clock ran before.readings).length
  runs : now.ran = before.ran ++ ran
  noneDelayed : now.ranDelayed = before.ranDelayed

theorem proceeding_start (graph : TaskGraph ν δ) (clock : Nat → UInt64) (before : EventLoop ν δ) :
    Proceeding graph clock before before [] := by
  constructor <;> simp [submissions]

/-- The task at the front runs, and what it submits comes behind all others. -/
theorem proceedFront_eq {front : ν} {later : List ν} (waiting : l.immediateTasks = front :: later) :
    proceedFront graph clock l = .ok {
      immediateTasks := later ++ graph.executes front
      delayedTasks := l.delayedTasks ++ (submissionsOf clock (graph.calls front) l.readings).map Submission.entry
      readings := l.readings + (submissionsOf clock (graph.calls front) l.readings).length
      ran := l.ran ++ [front]
      ranDelayed := l.ranDelayed } := by
  simp only [proceedFront, waiting, calls_eq, pure_is_ok, List.cons_append, List.drop_succ_cons, List.drop_zero]
  rfl

theorem Proceeding.front {front : ν} {later : List ν} (proceeding : Proceeding graph clock before now ran)
    (waiting : now.immediateTasks = front :: later) :
    Returns (proceedFront graph clock now) fun next => Proceeding graph clock before next (ran ++ [front]) := by
  have last : submissions graph clock (ran ++ [front]) before.readings =
      submissions graph clock ran before.readings ++ submissionsOf clock (graph.calls front) now.readings := by
    rw [submissions_append, proceeding.readings, submissions, submissions, List.append_nil]
  rw [proceedFront_eq waiting]
  refine (returns_ok _ _).mpr ⟨?_, ?_, ?_, ?_, proceeding.noneDelayed⟩
  · have order := proceeding.order
    rw [waiting] at order
    rw [List.flatMap_append, List.flatMap_singleton, ← List.append_assoc, order]
    simp
  · simp only [last, proceeding.waiting, List.map_append, List.append_assoc]
  · simp only [last, proceeding.readings, List.length_append, Nat.add_assoc]
  · simp only [proceeding.runs, List.append_assoc]

/-- Where the loop over the immediate tasks ends, the queue is empty. -/
theorem proceeding_of_immediate {fuel : Nat} (ended : proceedImmediate graph clock fuel before = .ok now) :
    now.immediateTasks = [] ∧ ∃ ran, Proceeding graph clock before now ran := by
  have kept (now next : EventLoop ν δ) (reached : ∃ ran, Proceeding graph clock before now ran)
      (passed : (!now.immediateTasks.isEmpty) = true) (stepped : proceedFront graph clock now = .ok next) :
      ∃ ran, Proceeding graph clock before next ran := by
    obtain ⟨ran, proceeding⟩ := reached
    cases waiting : now.immediateTasks with
    | nil => simp [waiting] at passed
    | cons front later =>
      obtain ⟨after, same, further⟩ := proceeding.front waiting
      cases same.symm.trans stepped
      exact ⟨_, further⟩
  obtain ⟨proceeding, stopped⟩ := while_ok (fun now => ∃ ran, Proceeding graph clock before now ran) kept
    ⟨[], proceeding_start graph clock before⟩ ended
  exact ⟨by simpa using stopped, proceeding⟩

/-- `remove_if` runs the tasks whose time has come and keeps the others. -/
theorem removeIf_eq (graph : TaskGraph ν δ) (currentTime : UInt32) (pending : List (UInt32 × δ)) (l : EventLoop ν δ) :
    removeIf graph currentTime pending l =
      (pending.filter fun it => ¬ it.1 ≤ currentTime, { l with
        immediateTasks := l.immediateTasks ++
          (pending.filter fun it => it.1 ≤ currentTime).flatMap fun it => graph.delayedCalls it.2
        ranDelayed := l.ranDelayed ++ pending.filter fun it => it.1 ≤ currentTime }) := by
  induction pending generalizing l with
  | nil => simp only [removeIf, List.filter_nil, List.flatMap_nil, List.append_nil]
  | cons it later ih =>
    by_cases due : it.1 ≤ currentTime
    · simp only [removeIf, executes_eq, ih, List.filter_cons, due, decide_true, not_true, decide_false,
        if_true, Bool.false_eq_true, if_false, List.flatMap_cons, List.append_assoc, List.singleton_append]
    · simp only [removeIf, ih, List.filter_cons, due, decide_false, not_false_eq_true, decide_true,
        if_true, Bool.false_eq_true, if_false]

/-- The list of delayed tasks when the immediate ones have run. -/
def pendingBehind (graph : TaskGraph ν δ) (clock : Nat → UInt64) (before : EventLoop ν δ) (ran : List ν) :
    List (UInt32 × δ) :=
  before.delayedTasks ++ (submissions graph clock ran before.readings).map Submission.entry

/-- The time that is read then. -/
def timeBehind (graph : TaskGraph ν δ) (clock : Nat → UInt64) (before : EventLoop ν δ) (ran : List ν) : UInt64 :=
  clock (before.readings + (submissions graph clock ran before.readings).length)

/-- What a call of `ProceedTasks` that came back did: it ran the immediate tasks in the
order in which they were submitted, down to the last one that they submitted themselves,
and then those delayed tasks whose time had come. What these submitted is the queue. The
clock is not read for an empty list. -/
structure Proceeded (graph : TaskGraph ν δ) (clock : Nat → UInt64) (before after : EventLoop ν δ) (ran : List ν)
    (due : List (UInt32 × δ)) : Prop where
  order : ran = before.immediateTasks ++ ran.flatMap graph.executes
  taken : due = (pendingBehind graph clock before ran).filter fun it =>
    it.1 ≤ (timeBehind graph clock before ran).toUInt32
  kept : after.delayedTasks = (pendingBehind graph clock before ran).filter fun it =>
    ¬ it.1 ≤ (timeBehind graph clock before ran).toUInt32
  queue : after.immediateTasks = due.flatMap fun it => graph.delayedCalls it.2
  runs : after.ran = before.ran ++ ran
  runsDelayed : after.ranDelayed = before.ranDelayed ++ due
  readings : after.readings = before.readings + (submissions graph clock ran before.readings).length +
    if (pendingBehind graph clock before ran).isEmpty then 0 else 1

theorem proceeded_of_proceeds {fuel : Nat} (proceeds : l.proceedTasks graph clock fuel = .ok after) :
    ∃ ran due, Proceeded graph clock l after ran due := by
  obtain ⟨now, immediate, rest⟩ := returns_of_bind proceeds
  obtain ⟨empty, ran, proceeding⟩ := proceeding_of_immediate immediate
  have order := proceeding.order
  rw [empty, List.append_nil] at order
  have pending : now.delayedTasks = pendingBehind graph clock l ran := proceeding.waiting
  rw [pending] at rest
  split at rest
  · rename_i none
    cases rest
    have none := List.isEmpty_iff.mp none
    refine ⟨ran, [], order.symm, ?_, ?_, empty, proceeding.runs, ?_, ?_⟩
    · rw [none, List.filter_nil]
    · rw [pending, none, List.filter_nil]
    · rw [proceeding.noneDelayed, List.append_nil]
    · rw [none]
      exact proceeding.readings
  · rename_i some
    simp only [getCurrentMillis, removeIf_eq] at rest
    cases rest
    have time : clock now.readings = timeBehind graph clock l ran := congrArg clock proceeding.readings
    refine ⟨ran, _, order.symm, rfl, ?_, ?_, proceeding.runs, ?_, ?_⟩
    · simp only [pending, time]
    · simp only [pending, empty, time, List.nil_append]
    · simp only [pending, proceeding.noneDelayed, time]
    · simp only [if_neg some, proceeding.readings]

/-! ### Trees of calls come to an end -/

/-- A task weighs one more than what it submits. -/
theorem weight_executes : ∀ function : Task ν, weight ((trees ν).executes function) + 1 = function.weight
  | .done _ => rfl
  | .execute function rest => by
    have further := weight_executes rest
    simp only [weight, TaskGraph.executes, trees, Task.calls, Task.weight, TaskCall.executed?, List.filterMap_cons]
      at further ⊢
    omega
  | .delay _ _ rest => weight_executes rest

theorem weight_append (first later : List (Task ν)) : weight (first ++ later) = weight first + weight later := by
  induction first with
  | nil => simp only [List.nil_append, weight, Nat.zero_add]
  | cons function rest ih => simp only [List.cons_append, weight, ih, Nat.add_assoc]

theorem immediate_returns (clock : Nat → UInt64) (before : EventLoop (Task ν) (DelayedTask ν)) :
    Returns (proceedImmediate (trees ν) clock (weight before.immediateTasks + 1) before) fun _ => True := by
  unfold proceedImmediate
  refine (while_returns (fun _ => True) (fun now : EventLoop (Task ν) (DelayedTask ν) => weight now.immediateTasks)
    ?_ trivial (Nat.lt_succ_self _)).mono fun _ _ => trivial
  intro now _ passed
  cases waiting : now.immediateTasks with
  | nil => simp [waiting] at passed
  | cons front later =>
    rw [proceedFront_eq waiting]
    refine (returns_ok _ _).mpr ⟨trivial, ?_⟩
    have one := weight_executes front
    rw [weight_append]
    simp only [weight] at one ⊢
    omega

theorem proceedTasks_returns (clock : Nat → UInt64) (l : EventLoop (Task ν) (DelayedTask ν)) :
    Returns (step clock l .proceedTasks) fun after => ∃ ran due, Proceeded (trees ν) clock l after ran due := by
  obtain ⟨now, immediate, -⟩ := immediate_returns clock l
  have proceeds : Returns (l.proceedTasks (trees ν) clock (weight l.immediateTasks + 1)) fun _ => True := by
    rw [proceedTasks, immediate, ok_bind]
    split
    · exact (returns_ok _ _).mpr trivial
    · exact (returns_ok _ _).mpr trivial
  obtain ⟨after, proceeds, -⟩ := proceeds
  exact ⟨after, proceeds, proceeded_of_proceeds proceeds⟩

/-! ### Runs -/

/-- A call on the loop, with how often the clock was read before it, and the tasks that
were run in it. -/
structure Turn (ν δ : Type) where
  operation : Operation ν δ
  readings : Nat
  ran : List ν
  due : List (UInt32 × δ)

namespace Turn

/-- What was submitted to run at once: by the call, or by the tasks that were run. -/
def submitted (graph : TaskGraph ν δ) (turn : Turn ν δ) : List ν :=
  match turn.operation with
  | .execute function => [function]
  | .delay _ _ => []
  | .proceedTasks => turn.ran.flatMap graph.executes ++ turn.due.flatMap fun it => graph.delayedCalls it.2

/-- What was to be run by its time. -/
def delayed (graph : TaskGraph ν δ) (clock : Nat → UInt64) (turn : Turn ν δ) : List (Submission δ) :=
  match turn.operation with
  | .execute _ => []
  | .delay function millis => [⟨clock turn.readings, function, millis⟩]
  | .proceedTasks => submissions graph clock turn.ran turn.readings

end Turn

/-- A call on the loop, with what it did. -/
def turn (clock : Nat → UInt64) (l : EventLoop (Task ν) (DelayedTask ν))
    (operation : Operation (Task ν) (DelayedTask ν)) :
    Exec (EventLoop (Task ν) (DelayedTask ν) × Turn (Task ν) (DelayedTask ν)) := do
  let after ← step clock l operation
  pure (after, ⟨operation, l.readings, after.ran.drop l.ran.length, after.ranDelayed.drop l.ranDelayed.length⟩)

/-- The immediate tasks that were submitted are those that ran and then those in the
queue. The delayed tasks that were asked for are those that ran and those in the
list, which are in the order in which they were asked for. -/
structure Ordered (graph : TaskGraph ν δ) (clock : Nat → UInt64) (l : EventLoop ν δ) (turns : List (Turn ν δ)) :
    Prop where
  immediate : turns.flatMap (Turn.submitted graph) = turns.flatMap Turn.ran ++ l.immediateTasks
  delayed : ((turns.flatMap (Turn.delayed graph clock)).map Submission.entry).Perm
    (turns.flatMap Turn.due ++ l.delayedTasks)
  kept : l.delayedTasks.Sublist ((turns.flatMap (Turn.delayed graph clock)).map Submission.entry)

variable {turns : List (Turn ν δ)}

/-- A call puts tasks in the queue and in the list, and runs none. -/
theorem Ordered.asked (ordered : Ordered graph clock l turns) {next : Turn ν δ} (none : next.ran = [] ∧ next.due = [])
    (queue : after.immediateTasks = l.immediateTasks ++ next.submitted graph)
    (list : after.delayedTasks = l.delayedTasks ++ (next.delayed graph clock).map Submission.entry) :
    Ordered graph clock after (turns ++ [next]) := by
  obtain ⟨noneRan, noneDue⟩ := none
  refine ⟨?_, ?_, ?_⟩
  · simp only [List.flatMap_append, List.flatMap_singleton, ordered.immediate, queue, noneRan, List.append_nil,
      List.append_assoc]
  · simp only [List.flatMap_append, List.flatMap_singleton, List.map_append, list, noneDue, List.append_nil,
      ← List.append_assoc]
    exact ordered.delayed.append_right _
  · simp only [List.flatMap_append, List.flatMap_singleton, List.map_append, list]
    exact ordered.kept.append (List.Sublist.refl _)

theorem Ordered.proceeded (ordered : Ordered graph clock l turns) {due : List (UInt32 × δ)}
    (proceeded : Proceeded graph clock l after ran due) :
    Ordered graph clock after (turns ++ [⟨.proceedTasks, l.readings, ran, due⟩]) := by
  refine ⟨?_, ?_, ?_⟩
  · simp only [List.flatMap_append, List.flatMap_singleton, Turn.submitted, ordered.immediate, proceeded.queue]
    conv_rhs => rw [proceeded.order]
    simp only [List.append_assoc]
  · have split := List.filter_append_perm
      (fun it : UInt32 × δ => decide (it.1 ≤ (timeBehind graph clock l ran).toUInt32)) (pendingBehind graph clock l ran)
    simp only [← decide_not] at split
    rw [← proceeded.taken, ← proceeded.kept] at split
    simp only [List.flatMap_append, List.flatMap_singleton, List.map_append, Turn.delayed, List.append_assoc]
    refine ((ordered.delayed.append_right _).trans ?_)
    rw [List.append_assoc]
    exact List.Perm.append_left _ split.symm
  · simp only [List.flatMap_append, List.flatMap_singleton, List.map_append, Turn.delayed, proceeded.kept]
    exact List.filter_sublist.trans (ordered.kept.append (List.Sublist.refl _))

/-- The record of the tasks that were called shows those of this call. -/
theorem Proceeded.turn {l after : EventLoop (Task ν) (DelayedTask ν)} {ran : List (Task ν)}
    {due : List (UInt32 × DelayedTask ν)} (proceeded : Proceeded (trees ν) clock l after ran due)
    (stepped : step clock l .proceedTasks = .ok after) :
    EventLoop.turn clock l .proceedTasks = .ok (after, ⟨.proceedTasks, l.readings, ran, due⟩) := by
  simp only [EventLoop.turn, stepped, ok_bind, pure_is_ok, proceeded.runs, proceeded.runsDelayed, List.drop_left]

theorem turn_operation {l after : EventLoop (Task ν) (DelayedTask ν)} {operation : Operation (Task ν) (DelayedTask ν)}
    {done : Turn (Task ν) (DelayedTask ν)} (turned : turn clock l operation = .ok (after, done)) :
    done.operation = operation := by
  obtain ⟨next, -, same⟩ := returns_of_bind turned
  cases same
  rfl

theorem Ordered.turn {l : EventLoop (Task ν) (DelayedTask ν)} {turns : List (Turn (Task ν) (DelayedTask ν))}
    (ordered : Ordered (trees ν) clock l turns) (operation : Operation (Task ν) (DelayedTask ν)) :
    Returns (EventLoop.turn clock l operation) fun out => Ordered (trees ν) clock out.1 (turns ++ [out.2]) := by
  cases operation with
  | execute function =>
    refine (returns_ok _ _).mpr (ordered.asked ?_ rfl ?_)
    · exact ⟨List.drop_length, List.drop_length⟩
    · exact (List.append_nil _).symm
  | delay function millis =>
    refine (returns_ok _ _).mpr (ordered.asked ?_ ?_ rfl)
    · exact ⟨List.drop_length, List.drop_length⟩
    · exact (List.append_nil _).symm
  | proceedTasks =>
    obtain ⟨after, stepped, ran, due, proceeded⟩ := proceedTasks_returns clock l
    rw [proceeded.turn stepped]
    exact (returns_ok _ _).mpr (ordered.proceeded proceeded)

/-- Tasks that are told apart by their names run at most once each. -/
theorem Ordered.once {l : EventLoop (Task ν) (DelayedTask ν)} {turns : List (Turn (Task ν) (DelayedTask ν))}
    (ordered : Ordered (trees ν) clock l turns)
    (distinct : ((turns.flatMap (Turn.submitted (trees ν))).map Task.name ++
      (turns.flatMap (Turn.delayed (trees ν) clock)).map fun submission => submission.function.name).Nodup) :
    ((turns.flatMap Turn.ran).map Task.name ++ (turns.flatMap Turn.due).map fun it => it.2.name).Nodup := by
  have delayed := ordered.delayed.map fun it : UInt32 × DelayedTask ν => it.2.name
  rw [List.map_map] at delayed
  have names := delayed.append_left ((turns.flatMap (Turn.submitted (trees ν))).map Task.name)
  have all := names.nodup_iff.mp distinct
  rw [ordered.immediate, List.map_append, List.map_append] at all
  refine all.sublist ?_
  exact (List.sublist_append_left _ _).append (List.sublist_append_left _ _)

/-- Every run of calls returns. At its end, and so at every moment of it, the tasks that
the calls and the tasks that were run have submitted are where their order puts them, none
has run twice, and a call of `ProceedTasks` returns and runs what is due in its order. -/
theorem tasks_run_in_order_once (clock : Nat → UInt64) (operations : List (Operation (Task ν) (DelayedTask ν))) :
    ∃ final turns, Transition.run (turn clock) {} operations = .ok (final, turns) ∧
      turns.map Turn.operation = operations ∧ Ordered (trees ν) clock final turns ∧
      (((turns.flatMap (Turn.submitted (trees ν))).map Task.name ++
          (turns.flatMap (Turn.delayed (trees ν) clock)).map fun submission => submission.function.name).Nodup →
        ((turns.flatMap Turn.ran).map Task.name ++ (turns.flatMap Turn.due).map fun it => it.2.name).Nodup) ∧
      ∃ after ran due, step clock final .proceedTasks = .ok after ∧ Proceeded (trees ν) clock final after ran due := by
  have start : Ordered (trees ν) clock {} [] := ⟨rfl, .refl _, .refl _⟩
  have any : Transition.Meets (turn clock) (fun _ _ => True) {} operations :=
    Transition.meets_of_forall fun _ _ _ => trivial
  obtain ⟨⟨final, turns⟩, ran, ordered⟩ := Transition.run_records (Ordered (trees ν) clock)
    (fun _ _ operation ordered _ => ordered.turn operation) start any
  have shown := Transition.run_shows Turn.operation (fun _ _ _ _ => turn_operation) ran
  obtain ⟨after, proceeds, proceeded⟩ := proceedTasks_returns clock final
  exact ⟨final, turns, ran, shown, ordered, ordered.once, after, _, _, proceeds, proceeded.choose_spec.choose_spec⟩

end ShipNet.EventLoop
