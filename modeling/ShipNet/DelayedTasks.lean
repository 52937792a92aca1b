import Mathlib.Algebra.Group.Int.Defs
import Mathlib.Algebra.Group.Nat.Defs
import ShipNet.Polling
import ShipNet.TaskOrder
import ShipNet.Transition

/-! When delayed tasks run. Deadline and time are compared in 32 bits, so a task is
run on time as long as every comparison up to its deadline falls into the cycle of
2^32 milliseconds that the deadline is in. -/
namespace ShipNet.EventLoop
open Fallible Polling

variable {ν : Type} {clock : Nat → UInt64} {l before after : EventLoop (Task ν) (DelayedTask ν)}

/-! ### The list of delayed tasks -/

/-- What a run does with the list: calls of `Delay`, and the comparisons of
`ProceedTasks` with the tasks that they run. It does not read the clock for none. -/
abbrev Log (ν : Type) := List (Event (Submission (DelayedTask ν)) (UInt32 × DelayedTask ν) UInt64)

/-- The time at which a task should run. -/
def Submission.deadline (submission : Submission (DelayedTask ν)) : Nat :=
  submission.now.toNat + submission.millis.toInt.toNat

def Submission.isDue (time : UInt64) (submission : Submission (DelayedTask ν)) : Bool :=
  submission.entry.1 ≤ time.toUInt32

/-- What a call did, seen in the loop before and after it. -/
def logOf (clock : Nat → UInt64) (before after : EventLoop (Task ν) (DelayedTask ν)) :
    Operation (Task ν) (DelayedTask ν) → Log ν
  | .execute _ => []
  | .delay function millis => [.arrive ⟨clock before.readings, function, millis⟩]
  | .proceedTasks =>
    let submitted := submissions (trees ν) clock (after.ran.drop before.ran.length) before.readings
    submitted.map .arrive ++
      [if after.readings = before.readings + submitted.length then .idle
        else .poll (clock (after.readings - 1)) (after.ranDelayed.drop before.ranDelayed.length)]

def record (clock : Nat → UInt64) (l : EventLoop (Task ν) (DelayedTask ν))
    (operation : Operation (Task ν) (DelayedTask ν)) : Exec (EventLoop (Task ν) (DelayedTask ν) × Log ν) := do
  let after ← step clock l operation
  pure (after, logOf clock l after operation)

/-- The entries of a list that a comparison finds due, and those that stay. -/
theorem filter_entries (time : UInt64) (waiting : List (Submission (DelayedTask ν))) :
    ((waiting.map Submission.entry).filter fun it => it.1 ≤ time.toUInt32) =
        (waiting.filter (Submission.isDue time)).map Submission.entry ∧
      ((waiting.map Submission.entry).filter fun it => ¬ it.1 ≤ time.toUInt32) =
        (waiting.filter fun submission => !submission.isDue time).map Submission.entry := by
  constructor
  · rw [List.filter_map]
    rfl
  · simp only [List.filter_map, Function.comp_def, Submission.isDue, decide_not]

theorem proceedTasks_logs {waiting : List (Submission (DelayedTask ν))}
    (known : l.delayedTasks = waiting.map Submission.entry) (ran : step clock l .proceedTasks = .ok after) :
    ∃ still, Follows Submission.entry Submission.isDue waiting (logOf clock l after .proceedTasks) still ∧
      after.delayedTasks = still.map Submission.entry := by
  obtain ⟨tasks, taken, proceeded⟩ := proceeded_of_proceeds ran
  have waits : pendingBehind (trees ν) clock l tasks =
      (waiting ++ submissions (trees ν) clock tasks l.readings).map Submission.entry := by
    rw [pendingBehind, known, List.map_append]
  have readings := proceeded.readings
  obtain ⟨due, stay⟩ := filter_entries (timeBehind (trees ν) clock l tasks)
    (waiting ++ submissions (trees ν) clock tasks l.readings)
  have dueNow := proceeded.taken
  have kept := proceeded.kept
  rw [waits] at readings dueNow kept
  simp only [logOf, proceeded.runs, List.drop_left]
  by_cases none : waiting ++ submissions (trees ν) clock tasks l.readings = []
  · rw [none] at readings kept
    rw [if_pos (by simpa using readings)]
    refine ⟨[], (follows_arrivals waiting _).append ?_, kept⟩
    rw [none]
    exact .idle (.nil [])
  · have some : ¬ ((waiting ++ submissions (trees ν) clock tasks l.readings).map Submission.entry).isEmpty := by
      simpa using none
    rw [if_neg some] at readings
    rw [if_neg (by omega), readings, proceeded.runsDelayed, List.drop_left, Nat.add_sub_cancel, dueNow, due]
    exact ⟨_, (follows_arrivals waiting _).append (.poll (.nil _)), kept.trans stay⟩

theorem record_follows {waiting : List (Submission (DelayedTask ν))} {operation : Operation (Task ν) (DelayedTask ν)}
    {log : Log ν} (known : l.delayedTasks = waiting.map Submission.entry)
    (stepped : record clock l operation = .ok (after, log)) :
    ∃ still, Follows Submission.entry Submission.isDue waiting log still ∧
      after.delayedTasks = still.map Submission.entry := by
  obtain ⟨next, ran, same⟩ := returns_of_bind stepped
  cases same
  cases operation with
  | execute function =>
    cases ran
    exact ⟨waiting, .nil waiting, known⟩
  | delay function millis =>
    cases ran
    refine ⟨waiting ++ [⟨clock l.readings, function, millis⟩], .arrive (.nil _), ?_⟩
    simp only [delay, getCurrentMillis, known, List.map_append, List.map_cons, List.map_nil, Submission.entry]
  | proceedTasks => exact proceedTasks_logs known ran

/-- A run puts tasks in the list and takes them out as polls do. -/
theorem run_follows {waiting : List (Submission (DelayedTask ν))}
    {operations : List (Operation (Task ν) (DelayedTask ν))} {logs : List (Log ν)}
    (known : l.delayedTasks = waiting.map Submission.entry)
    (ran : Transition.run (record clock) l operations = .ok (after, logs)) :
    ∃ still, Follows Submission.entry Submission.isDue waiting logs.flatten still := by
  induction operations generalizing l waiting logs with
  | nil =>
    cases ran
    exact ⟨waiting, .nil waiting⟩
  | cons operation operations ih =>
    obtain ⟨⟨next, log⟩, stepped, rest⟩ := returns_of_bind ran
    obtain ⟨⟨final, later⟩, further, same⟩ := returns_of_bind rest
    cases same
    obtain ⟨still, first, kept⟩ := record_follows known stepped
    obtain ⟨last, follows⟩ := ih kept further
    exact ⟨last, first.append follows⟩

/-! ### Deadlines -/

/-- A call of `Delay` in a run, of a task that no other call has the name of. -/
structure Tracked (clock : Nat → UInt64) (operations : List (Operation (Task ν) (DelayedTask ν))) where
  final : EventLoop (Task ν) (DelayedTask ν)
  logs : List (Log ν)
  ran : Transition.run (record clock) {} operations = .ok (final, logs)
  earlier : Log ν
  submission : Submission (DelayedTask ν)
  later : Log ν
  split : logs.flatten = earlier ++ .arrive submission :: later
  named : ∀ other : Submission (DelayedTask ν), .arrive other ∈ earlier ++ later →
    other.function.name ≠ submission.function.name

namespace Tracked

variable {operations : List (Operation (Task ν) (DelayedTask ν))} (tracked : Tracked clock operations)

/-- The tasks that a comparison runs include this one. -/
def RunBy (taken : List (UInt32 × DelayedTask ν)) : Prop :=
  ∃ it ∈ taken, it.2.name = tracked.submission.function.name

/-- The delay is one of 31 bits, and no time is read that is further from the deadline
than that. -/
structure InRange : Prop where
  notNegative : 0 ≤ tracked.submission.millis
  small : tracked.submission.millis.toInt < 2 ^ 31
  readings : ∀ time taken, .poll time taken ∈ tracked.later →
    tracked.submission.now ≤ time ∧ time.toNat < tracked.submission.deadline + 2 ^ 31

/-- The first call of `ProceedTasks` at or after the deadline runs the task, and none
before it. -/
structure OnTime : Prop where
  polls : ∀ earlier time taken later, tracked.later = earlier ++ .poll time taken :: later →
    (tracked.RunBy taken ↔ tracked.submission.deadline ≤ time.toNat ∧
      ∀ earlierTime others, .poll earlierTime others ∈ earlier → earlierTime.toNat < tracked.submission.deadline)
  idle : ∀ earlier later, tracked.later = earlier ++ .idle :: later →
    ∃ time taken, .poll time taken ∈ earlier ∧ tracked.RunBy taken

/-- Up to the first time at or after the deadline, the times that are compared with it
are in its cycle of 2^32 milliseconds. -/
def InCycle : Prop :=
  ∀ earlier time taken later, tracked.later = earlier ++ .poll time taken :: later →
    (∀ earlierTime others, .poll earlierTime others ∈ earlier → earlierTime.toNat < tracked.submission.deadline) →
    time.toNat / 2 ^ 32 = tracked.submission.deadline / 2 ^ 32

end Tracked

/-- The deadline in the list is the time at which the task should run, in 32 bits. -/
theorem toNat_entry {submission : Submission (DelayedTask ν)} (notNegative : 0 ≤ submission.millis) :
    submission.entry.1.toNat = submission.deadline % 2 ^ 32 := by
  have delay : submission.millis.toUInt64.toNat = submission.millis.toInt.toNat :=
    Int64.toNat_toUInt64_of_le notNegative
  rw [Submission.entry, UInt64.toNat_toUInt32, UInt64.toNat_add, delay, Submission.deadline]
  omega

/-- Near the deadline, comparing in 32 bits is comparing exactly within one cycle. -/
theorem isDue_iff {submission : Submission (DelayedTask ν)} (notNegative : 0 ≤ submission.millis)
    (small : submission.millis.toInt < 2 ^ 31) {time : UInt64} (after : submission.now ≤ time)
    (near : time.toNat < submission.deadline + 2 ^ 31) :
    (submission.isDue time = true ↔ submission.deadline ≤ time.toNat) ↔
      time.toNat / 2 ^ 32 = submission.deadline / 2 ^ 32 := by
  have due : submission.isDue time = true ↔ submission.deadline % 2 ^ 32 ≤ time.toNat % 2 ^ 32 := by
    rw [Submission.isDue, decide_eq_true_iff, UInt32.le_iff_toNat_le, toNat_entry notNegative, UInt64.toNat_toUInt32]
  have start : submission.now.toNat ≤ time.toNat := after
  have length : submission.deadline < submission.now.toNat + 2 ^ 31 := by
    rw [Submission.deadline]
    omega
  rw [due]
  omega

/-- A comparison at or after this time. -/
def AtOrAfter (deadline : Nat) : Event (Submission (DelayedTask ν)) (UInt32 × DelayedTask ν) UInt64 → Prop
  | .poll time _ => deadline ≤ time.toNat
  | .arrive _ | .idle => False

theorem none_atOrAfter {deadline : Nat} {log : Log ν} : (∀ event ∈ log, ¬ AtOrAfter deadline event) ↔
    ∀ time taken, .poll time taken ∈ log → time.toNat < deadline := by
  constructor
  · intro none time taken member
    exact Nat.lt_of_not_le (none _ member)
  · intro before event member reached
    cases event with
    | poll time taken => exact Nat.not_le.mpr (before time taken member) reached
    | arrive submission => exact reached
    | idle => exact reached

namespace Tracked

variable {operations : List (Operation (Task ν) (DelayedTask ν))} (tracked : Tracked clock operations)

/-- From its submission on the task waits, and no other of its name. -/
theorem waits : ∃ waiting still,
    Follows Submission.entry Submission.isDue waiting tracked.later still ∧
      Alone Submission.entry (fun it => it.2.name = tracked.submission.function.name) tracked.submission waiting := by
  have empty : ({} : EventLoop (Task ν) (DelayedTask ν)).delayedTasks = [].map Submission.entry := rfl
  obtain ⟨still, follows⟩ := run_follows empty tracked.ran
  rw [tracked.split] at follows
  obtain ⟨mid, first, second⟩ := follows.split
  cases second with
  | arrive rest =>
    refine ⟨_, still, rest, ?_, ?_⟩
    · exact List.mem_append_right _ List.mem_cons_self
    · intro other there same
      rcases List.mem_append.mp there with old | new
      · rcases first.arrived old with impossible | arrived
        · cases impossible
        · exact absurd same (tracked.named other (List.mem_append_left _ arrived))
      · exact List.mem_singleton.mp new

theorem noArrival : NoArrival Submission.entry (fun it => it.2.name = tracked.submission.function.name)
    tracked.later :=
  fun other arrived => tracked.named other (List.mem_append_right _ arrived)

theorem runBy_iff {earlier later : Log ν} {time : UInt64} {taken : List (UInt32 × DelayedTask ν)}
    (split : tracked.later = earlier ++ .poll time taken :: later) :
    tracked.RunBy taken ↔ First (Event.Finds Submission.isDue tracked.submission) earlier (.poll time taken) := by
  obtain ⟨waiting, still, follows, alone⟩ := tracked.waits
  have noArrival := tracked.noArrival
  rw [split] at follows noArrival
  exact follows.taken_iff alone rfl noArrival

end Tracked

/-- A delayed task runs on time exactly if no comparison up to its deadline is made in
another cycle of the 32 bits: then the first time at or after the deadline is the first
that finds the task due. -/
theorem delayed_task_on_time_iff (clock : Nat → UInt64) (operations : List (Operation (Task ν) (DelayedTask ν)))
    (tracked : Tracked clock operations) (inRange : tracked.InRange) : tracked.OnTime ↔ tracked.InCycle := by
  have polls : tracked.OnTime ↔ ∀ earlier event later, tracked.later = earlier ++ event :: later →
      (First (Event.Finds Submission.isDue tracked.submission) earlier event ↔
        First (AtOrAfter tracked.submission.deadline) earlier event) := by
    constructor
    · intro onTime earlier event later split
      cases event with
      | poll time taken =>
        rw [← tracked.runBy_iff split, onTime.polls earlier time taken later split, First, none_atOrAfter]
        rfl
      | arrive submission => exact ⟨fun first => first.1.elim, fun first => first.1.elim⟩
      | idle => exact ⟨fun first => first.1.elim, fun first => first.1.elim⟩
    · intro agree
      refine ⟨?_, ?_⟩
      · intro earlier time taken later split
        rw [tracked.runBy_iff split, agree earlier _ later split, First, none_atOrAfter]
        rfl
      · intro earlier later split
        obtain ⟨waiting, still, follows, alone⟩ := tracked.waits
        have noArrival := tracked.noArrival
        rw [split] at follows noArrival
        exact follows.taken_before_idle alone rfl noArrival
  rw [polls, first_agree_iff, Tracked.InCycle]
  constructor
  · intro agree earlier time taken later split before
    have member : .poll time taken ∈ tracked.later := by simp [split]
    obtain ⟨after, near⟩ := inRange.readings time taken member
    exact (isDue_iff inRange.notNegative inRange.small after near).mp
      (agree earlier _ later split (none_atOrAfter.mpr before))
  · intro inCycle earlier event later split before
    cases event with
    | poll time taken =>
      have member : .poll time taken ∈ tracked.later := by simp [split]
      obtain ⟨after, near⟩ := inRange.readings time taken member
      exact (isDue_iff inRange.notNegative inRange.small after near).mpr
        (inCycle earlier time taken later split (none_atOrAfter.mp before))
    | arrive submission => exact Iff.rfl
    | idle => exact Iff.rfl

/-- A task delayed by 5 milliseconds, and a comparison on either side of its deadline. -/
theorem task_between_comparisons_on_time :
    ∃ tracked : Tracked (fun reading => .ofNat (1000 + 4 * reading))
      [.delay (.done 7) 5, .proceedTasks, .proceedTasks], tracked.OnTime := by
  have times {time : UInt64} {taken : List (UInt32 × DelayedTask Nat)}
      (member : .poll time taken ∈ ([.poll 1004 [], .poll 1008 [(1005, .done 7)]] : Log Nat)) :
      time = 1004 ∨ time = 1008 := by
    simp only [List.mem_cons, Event.poll.injEq, List.not_mem_nil, or_false] at member
    exact member.imp And.left And.left
  refine ⟨{
    final := _
    logs := _
    ran := by rfl
    earlier := []
    submission := ⟨1000, .done 7, 5⟩
    later := [.poll 1004 [], .poll 1008 [(1005, .done 7)]]
    split := by rfl
    named := by simp }, ?_⟩
  apply (delayed_task_on_time_iff _ _ _ _).mpr
  · intro earlier time taken later split before
    rcases times (split ▸ List.mem_append_right _ List.mem_cons_self) with rfl | rfl
    · rfl
    · rfl
  · refine ⟨by decide, by decide, ?_⟩
    intro time taken member
    rcases times member with rfl | rfl
    · exact ⟨by decide, by decide⟩
    · exact ⟨by decide, by decide⟩

/-- Delayed by 100 milliseconds across a multiple of 2^32, a task runs at once. -/
theorem task_across_cycles_runs_early :
    ∃ tracked : Tracked (fun reading => .ofNat (4294967286 + 4 * reading)) [.delay (.done 7) 100, .proceedTasks],
      tracked.InRange ∧ ¬ tracked.OnTime := by
  refine ⟨{
    final := _
    logs := _
    ran := by rfl
    earlier := []
    submission := ⟨4294967286, .done 7, 100⟩
    later := [.poll 4294967290 [(90, .done 7)]]
    split := by rfl
    named := by simp }, ⟨by decide, by decide, ?_⟩, ?_⟩
  · intro time taken member
    simp only [List.mem_cons, Event.poll.injEq, List.not_mem_nil, or_false] at member
    obtain ⟨rfl, rfl⟩ := member
    exact ⟨by decide, by decide⟩
  · intro onTime
    have early := (onTime.polls [] 4294967290 [(90, .done 7)] [] rfl).mp ⟨_, List.mem_cons_self, rfl⟩
    exact absurd early.1 (by decide)

end ShipNet.EventLoop
