import ShipNet.TaskOrder
import ShipNet.Worklist

/-! Tasks that may submit each other, and themselves, again and again. `ProceedTasks`
does not come back if one of them has no end, and then no delayed task is run. -/
namespace ShipNet.EventLoop
open Fallible Worklist

variable {ν δ : Type} {graph : TaskGraph ν δ} {clock : Nat → UInt64}

/-- The loop over the immediate tasks works off the queue. -/
theorem proceedFront_works (graph : TaskGraph ν δ) (clock : Nat → UInt64) :
    Works immediateTasks graph.executes (fun l : EventLoop ν δ => !l.immediateTasks.isEmpty)
      (proceedFront graph clock) := by
  refine ⟨fun l empty => by simp [empty], ?_⟩
  intro l front later waiting
  rw [proceedFront_eq waiting]
  exact ⟨by simp [waiting], (returns_ok _ _).mpr rfl⟩

theorem mem_executes {later earlier : ν} :
    later ∈ graph.executes earlier ↔ .execute later ∈ graph.calls earlier := by
  simp only [TaskGraph.executes, List.mem_filterMap]
  constructor
  · rintro ⟨made, there, same⟩
    cases made with
    | execute function =>
      cases same
      exact there
    | delay function millis => cases same
  · exact fun there => ⟨_, there, rfl⟩

end ShipNet.EventLoop
