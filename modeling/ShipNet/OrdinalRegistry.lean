import Mathlib.Algebra.Group.Nat.Defs
import Mathlib.Data.List.Nodup
import ShipNet.Mutex

/-! `OrdinalRegistry`: a counter under a mutex, from which every class gets an ordinal of
its own, whichever threads ask for them. -/
namespace ShipNet.OrdinalRegistry
open Mutex

variable {τ : Type} [DecidableEq τ]

/-- Where a thread is in `counter++`. -/
inductive Stage where
  | load
  | store (ordinal : UInt32)
  deriving DecidableEq

/-- `uint32_t ordinal = counter++`, which `RegisterOrdinal()` does between `mtx.lock()`
and `mtx.unlock()`. -/
def registerOrdinal : Section UInt32 Stage UInt32 where
  first := .load
  step counter
    | .load => (counter, .inl (.store counter))
    | .store ordinal => (ordinal + 1, .inr ordinal)

/-- A registry with its counter, in the program's threads. -/
abbrev Registry (τ : Type) := State τ UInt32 Stage UInt32

def create : Registry τ := { shared := 0 }

/-- `GetLastOrdinal()`, which does not take the lock. -/
def getLastOrdinal (registry : Registry τ) : UInt32 := registry.shared

theorem registerOrdinal_reaches {start final : UInt32} {after : Stage ⊕ UInt32}
    (reached : registerOrdinal.Reaches start final after) :
    (after = .inl .load ∧ final = start) ∨ (after = .inl (.store start) ∧ final = start) ∨
      (after = .inr start ∧ final = start + 1) := by
  induction reached with
  | first => exact .inl ⟨rfl, rfl⟩
  | @step mid stage reached ih =>
    rcases ih with ⟨same, rfl⟩ | ⟨same, rfl⟩ | ⟨impossible, -⟩
    · cases same
      exact .inr (.inl ⟨rfl, rfl⟩)
    · cases same
      exact .inr (.inr ⟨rfl, rfl⟩)
    · cases impossible

/-- One after another, the sections count. -/
theorem registerOrdinal_serial {results : List UInt32} {final : UInt32}
    (serial : registerOrdinal.Serial 0 results final) :
    results = (List.range results.length).map UInt32.ofNat ∧ final = UInt32.ofNat results.length := by
  induction serial with
  | none => exact ⟨rfl, rfl⟩
  | @next results mid final result before whole ih =>
    obtain ⟨counted, rfl⟩ := ih
    rcases registerOrdinal_reaches whole with ⟨impossible, -⟩ | ⟨impossible, -⟩ | ⟨same, rfl⟩
    · cases impossible
    · cases impossible
    · cases same
      constructor
      · rw [List.length_append, List.length_singleton, List.range_succ, List.map_append, ← counted]
        rfl
      · rw [List.length_append, List.length_singleton, UInt32.ofNat_add]
        rfl

/-- As long as the counter has not gone round, the ordinals are told apart. -/
theorem ordinals_nodup {count : Nat} (few : count ≤ 2 ^ 32) : ((List.range count).map UInt32.ofNat).Nodup := by
  refine (List.nodup_range).map_on ?_
  intro first firstIn second secondIn same
  have firstSmall := List.mem_range.mp firstIn
  have secondSmall := List.mem_range.mp secondIn
  have values := congrArg UInt32.toNat same
  rw [UInt32.toNat_ofNat', UInt32.toNat_ofNat', Nat.mod_eq_of_lt (by omega), Nat.mod_eq_of_lt (by omega)] at values
  exact values

/-- Whatever threads call `RegisterOrdinal()` and however their steps alternate, the
ordinals that they come back with are 0, 1, 2 and so on in that order, so that the first
2^32 are told apart. A thread that has called it can come back: some caller can always go
on. While no thread holds the lock, `GetLastOrdinal()` is the number of ordinals given
out, which is one more than the last of them. -/
theorem ordinals_counted_out (schedule : List τ) (registry : Registry τ)
    (ran : run registerOrdinal create schedule = some registry) :
    registry.returned.map Prod.snd = (List.range registry.returned.length).map UInt32.ofNat ∧
    (registry.returned.length ≤ 2 ^ 32 → (registry.returned.map Prod.snd).Nodup) ∧
    (∀ thread, registry.place thread ≠ .outside →
      ∃ able, registry.place able ≠ .outside ∧ (step registerOrdinal registry able).isSome) ∧
    (registry.owner = none → getLastOrdinal registry = UInt32.ofNat registry.returned.length) := by
  have guarded := (guarded_start registerOrdinal 0).run ran
  obtain ⟨left, serial, held⟩ := guarded.serial
  obtain ⟨counted, rfl⟩ := registerOrdinal_serial serial
  rw [List.length_map] at counted held
  refine ⟨counted, ?_, fun thread called => guarded.progress called, ?_⟩
  · intro few
    rw [counted]
    exact ordinals_nodup few
  · intro free
    rw [Held, free] at held
    exact held

/-- Two threads whose steps alternate: the second waits for the first to unlock. -/
theorem two_threads_counted_out :
    ∃ registry, run registerOrdinal create [false, true, false, false, false, false, true, true, true, true] =
        some registry ∧ registry.returned = [(false, 0), (true, 1)] ∧
      (registry.returned.map Prod.snd).Nodup := by
  obtain ⟨registry, ran, returned⟩ : ∃ registry, run registerOrdinal create
      [false, true, false, false, false, false, true, true, true, true] = some registry ∧
      registry.returned = [(false, 0), (true, 1)] := ⟨_, rfl, rfl⟩
  refine ⟨registry, ran, returned, ?_⟩
  exact (ordinals_counted_out _ registry ran).2.1 (by simp [returned])

end ShipNet.OrdinalRegistry
