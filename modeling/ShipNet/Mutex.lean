import Mathlib.Data.List.Basic
import Mathlib.Logic.Function.Basic

/-! Threads that work on a shared state under a lock, each step of one between steps of
others. What they do is what they would do one after another, in the order in which they
leave, and one of them can always go on. -/
namespace ShipNet.Mutex

/-- What a thread does between `lock` and `unlock`, step by step. -/
structure Section (σ ω ρ : Type) where
  first : ω
  step : σ → ω → σ × (ω ⊕ ρ)

/-- Where a thread is. -/
inductive Place (ω ρ : Type) where
  | outside
  /-- At the call of `lock`. -/
  | waiting
  /-- Before this step of the section. -/
  | inside (next : ω)
  /-- At the call of `unlock`. -/
  | leaving (result : ρ)

structure State (τ σ ω ρ : Type) where
  owner : Option τ := none
  shared : σ
  place : τ → Place ω ρ := fun _ => .outside
  /-- What the threads came back with, in that order. -/
  returned : List (τ × ρ) := []

variable {τ σ ω ρ : Type} [DecidableEq τ]

def State.move (s : State τ σ ω ρ) (thread : τ) (place : Place ω ρ) : State τ σ ω ρ :=
  { s with place := Function.update s.place thread place }

@[simp] theorem State.move_self (s : State τ σ ω ρ) (thread : τ) (place : Place ω ρ) :
    (s.move thread place).place thread = place := Function.update_self ..

@[simp] theorem State.move_other (s : State τ σ ω ρ) {thread other : τ} (place : Place ω ρ) (apart : other ≠ thread) :
    (s.move thread place).place other = s.place other := Function.update_of_ne apart ..

/-- The next step of a thread, if it does not have to wait. -/
def step (work : Section σ ω ρ) (s : State τ σ ω ρ) (thread : τ) : Option (State τ σ ω ρ) :=
  match s.place thread with
  | .outside => some (s.move thread .waiting)
  | .waiting => if s.owner.isNone then some { s.move thread (.inside work.first) with owner := some thread } else none
  | .inside next =>
    match work.step s.shared next with
    | (shared, .inl next) => some { s.move thread (.inside next) with shared := shared }
    | (shared, .inr result) => some { s.move thread (.leaving result) with shared := shared }
  | .leaving result =>
    some { s.move thread .outside with owner := none, returned := s.returned ++ [(thread, result)] }

/-- The steps of threads in the order of a schedule, if none of them has to wait. -/
def run (work : Section σ ω ρ) (s : State τ σ ω ρ) (schedule : List τ) : Option (State τ σ ω ρ) :=
  schedule.foldlM (step work) s

/-! ### Alone -/

variable {work : Section σ ω ρ} {initial start : σ}

/-- What the section comes to from `start`, when nobody else works on the state. -/
inductive Section.Reaches (work : Section σ ω ρ) (start : σ) : σ → ω ⊕ ρ → Prop where
  | first : Reaches work start start (.inl work.first)
  | step {mid : σ} {next : ω} (reached : Reaches work start mid (.inl next)) :
      Reaches work start (work.step mid next).1 (work.step mid next).2

/-- Whole sections one after another, with their results. -/
inductive Section.Serial (work : Section σ ω ρ) (start : σ) : List ρ → σ → Prop where
  | none : Serial work start [] start
  | next {results : List ρ} {mid final : σ} {result : ρ} (before : Serial work start results mid)
      (whole : work.Reaches mid final (.inr result)) : Serial work start (results ++ [result]) final

/-! ### Together -/

/-- The state is what those that came back left, and what the owner of the lock has done
with it since. -/
def Held (work : Section σ ω ρ) (left : σ) (s : State τ σ ω ρ) : Prop :=
  match s.owner with
  | none => s.shared = left
  | some thread => (∃ next, s.place thread = .inside next ∧ work.Reaches left s.shared (.inl next)) ∨
      ∃ result, s.place thread = .leaving result ∧ work.Reaches left s.shared (.inr result)

structure Guarded (work : Section σ ω ρ) (initial : σ) (s : State τ σ ω ρ) : Prop where
  /-- Only the owner is in the section. -/
  alone : ∀ thread, s.owner ≠ some thread → s.place thread = .outside ∨ s.place thread = .waiting
  serial : ∃ left, work.Serial initial (s.returned.map Prod.snd) left ∧ Held work left s

variable {s next : State τ σ ω ρ} {thread : τ}

omit [DecidableEq τ] in
theorem guarded_start (work : Section σ ω ρ) (initial : σ) :
    Guarded work initial ({ shared := initial } : State τ σ ω ρ) :=
  ⟨fun _ _ => .inl rfl, initial, .none, rfl⟩

theorem Guarded.owner_inside (guarded : Guarded work initial s) (place : s.place thread ≠ .outside)
    (place' : s.place thread ≠ .waiting) : s.owner = some thread := by
  by_contra other
  rcases guarded.alone thread other with outside | waiting
  · exact place outside
  · exact place' waiting

/-- A thread that only comes to the lock changes nothing for the others. -/
theorem Guarded.arrive (guarded : Guarded work initial s) (outside : s.place thread = .outside) :
    Guarded work initial (s.move thread .waiting) := by
  have notOwner : s.owner ≠ some thread := by
    obtain ⟨left, -, held⟩ := guarded.serial
    intro owner
    rw [Held, owner] at held
    rcases held with ⟨next, place, -⟩ | ⟨result, place, -⟩
    · rw [outside] at place
      cases place
    · rw [outside] at place
      cases place
  refine ⟨?_, ?_⟩
  · intro other apart
    by_cases same : other = thread
    · rw [same]
      exact .inr (s.move_self ..)
    · rw [s.move_other _ same]
      exact guarded.alone other apart
  · obtain ⟨left, serial, held⟩ := guarded.serial
    refine ⟨left, serial, ?_⟩
    unfold Held at held ⊢
    show match s.owner with | none => _ | some owner => _
    cases owner : s.owner with
    | none =>
      rw [owner] at held
      exact held
    | some other =>
      rw [owner] at held notOwner
      have apart : other ≠ thread := fun same => notOwner (congrArg some same)
      simp only [s.move_other _ apart]
      exact held

/-- What a thread's move leaves of the rule that only the owner is in the section. -/
theorem Guarded.alone_moved (guarded : Guarded work initial s) {owner : Option τ} {place : Place ω ρ}
    (only : ∀ other, other ≠ thread → s.owner ≠ some other)
    (mine : owner ≠ some thread → place = .outside ∨ place = .waiting) (other : τ) (apart : owner ≠ some other) :
    (s.move thread place).place other = .outside ∨ (s.move thread place).place other = .waiting := by
  by_cases same : other = thread
  · subst same
    rw [s.move_self]
    exact mine apart
  · rw [s.move_other _ same]
    exact guarded.alone other (only other same)

omit [DecidableEq τ] in
theorem only_owner (owner : s.owner = some thread) (other : τ) (apart : other ≠ thread) : s.owner ≠ some other := by
  intro owned
  exact apart (Option.some.inj (owned.symm.trans owner))

theorem Guarded.enter (guarded : Guarded work initial s) (free : s.owner = none) :
    Guarded work initial { s.move thread (.inside work.first) with owner := some thread } := by
  obtain ⟨left, serial, held⟩ := guarded.serial
  rw [Held, free] at held
  have only (other : τ) (_ : other ≠ thread) : s.owner ≠ some other := by simp [free]
  refine ⟨guarded.alone_moved only (fun impossible => absurd rfl impossible), left, serial, ?_⟩
  refine .inl ⟨work.first, s.move_self .., ?_⟩
  show work.Reaches left s.shared (.inl work.first)
  rw [held]
  exact .first

omit [DecidableEq τ] in
/-- What the owner has come to. -/
theorem Held.inside {left : σ} {stage : ω} (held : Held work left s) (owner : s.owner = some thread)
    (inside : s.place thread = .inside stage) : work.Reaches left s.shared (.inl stage) := by
  rw [Held, owner] at held
  rcases held with ⟨stage', place, reached⟩ | ⟨result, place, -⟩
  · cases inside.symm.trans place
    exact reached
  · cases inside.symm.trans place

omit [DecidableEq τ] in
theorem Held.leaving {left : σ} {result : ρ} (held : Held work left s) (owner : s.owner = some thread)
    (leaving : s.place thread = .leaving result) : work.Reaches left s.shared (.inr result) := by
  rw [Held, owner] at held
  rcases held with ⟨stage, place, -⟩ | ⟨result', place, reached⟩
  · cases leaving.symm.trans place
  · cases leaving.symm.trans place
    exact reached

/-- The owner's steps in the section. -/
theorem Guarded.advance (guarded : Guarded work initial s) {stage : ω} (inside : s.place thread = .inside stage)
    {shared : σ} {after : ω ⊕ ρ} (worked : work.step s.shared stage = (shared, after)) :
    Guarded work initial { s.move thread (after.elim .inside .leaving) with shared := shared } := by
  have owner : s.owner = some thread := guarded.owner_inside (by simp [inside]) (by simp [inside])
  obtain ⟨left, serial, held⟩ := guarded.serial
  have further := (held.inside owner inside).step
  rw [worked] at further
  refine ⟨guarded.alone_moved (only_owner owner) (fun impossible => absurd owner impossible), left, serial, ?_⟩
  rw [Held]
  show match s.owner with | none => _ | some owner => _
  rw [owner]
  cases after with
  | inl stage => exact .inl ⟨stage, s.move_self .., further⟩
  | inr result => exact .inr ⟨result, s.move_self .., further⟩

theorem Guarded.leave (guarded : Guarded work initial s) {result : ρ} (leaving : s.place thread = .leaving result) :
    Guarded work initial
      { s.move thread .outside with owner := none, returned := s.returned ++ [(thread, result)] } := by
  have owner : s.owner = some thread := guarded.owner_inside (by simp [leaving]) (by simp [leaving])
  obtain ⟨left, serial, held⟩ := guarded.serial
  refine ⟨guarded.alone_moved (only_owner owner) (fun _ => .inl rfl), s.shared, ?_, rfl⟩
  simp only [List.map_append, List.map_cons, List.map_nil]
  exact serial.next (held.leaving owner leaving)

theorem Guarded.step (guarded : Guarded work initial s) (stepped : step work s thread = some next) :
    Guarded work initial next := by
  unfold Mutex.step at stepped
  split at stepped
  · rename_i outside
    cases stepped
    exact guarded.arrive outside
  · split at stepped
    · rename_i free
      cases stepped
      exact guarded.enter (Option.isNone_iff_eq_none.mp free)
    · cases stepped
  · rename_i stage inside
    split at stepped
    · rename_i worked
      cases stepped
      exact guarded.advance inside worked
    · rename_i worked
      cases stepped
      exact guarded.advance inside worked
  · rename_i result leaving
    cases stepped
    exact guarded.leave leaving

/-- In every schedule, the state is that of the sections one after another. -/
theorem Guarded.run (guarded : Guarded work initial s) {schedule : List τ}
    (ran : Mutex.run work s schedule = some next) : Guarded work initial next := by
  induction schedule generalizing s with
  | nil =>
    cases ran
    exact guarded
  | cons thread schedule ih =>
    rw [Mutex.run, List.foldlM_cons] at ran
    obtain ⟨mid, stepped, rest⟩ := Option.bind_eq_some_iff.mp ran
    exact ih (guarded.step stepped) rest

/-- While a thread is in a call, some thread that is in a call can go on. -/
theorem Guarded.progress (guarded : Guarded work initial s) (called : s.place thread ≠ .outside) :
    ∃ able, s.place able ≠ .outside ∧ (Mutex.step work s able).isSome := by
  cases owner : s.owner with
  | none =>
    have waiting := (guarded.alone thread (by simp [owner])).resolve_left called
    exact ⟨thread, called, by simp [Mutex.step, waiting, owner]⟩
  | some holder =>
    obtain ⟨left, -, held⟩ := guarded.serial
    rw [Held, owner] at held
    refine ⟨holder, ?_⟩
    rcases held with ⟨stage, place, -⟩ | ⟨result, place, -⟩
    · refine ⟨by simp [place], ?_⟩
      simp only [Mutex.step, place]
      split <;> rfl
    · exact ⟨by simp [place], by simp [Mutex.step, place]⟩

end ShipNet.Mutex
