import ShipNet.PipelineEdits

/-! Insertions next to an ordinal. The iterator stays at the first element, so they
return only if that is the element they look for, or if there is none. -/
namespace ShipNet.Pipelines
open Fallible

variable {α β γ : Type} {ordinalOf : γ → UInt32} {list : List γ} {ordinal : UInt32}

/-- What an insertion should leave of a list: `put` in the place of the first element
with the ordinal, or the list itself if no element has it. -/
inductive Placed (ordinalOf : γ → UInt32) (ordinal : UInt32) (put : γ → List γ) : List γ → List γ → Prop where
  | found {before later : List γ} {element : γ} (first : ∀ earlier ∈ before, ordinalOf earlier ≠ ordinal)
      (same : ordinalOf element = ordinal) :
      Placed ordinalOf ordinal put (before ++ element :: later) (before ++ put element ++ later)
  | absent {list : List γ} (other : ∀ element ∈ list, ordinalOf element ≠ ordinal) :
      Placed ordinalOf ordinal put list list

/-- The loop over the list ends, and the call places its item in it. -/
def PutsInPlace (ordinalOf : γ → UInt32) (list : List γ) (ordinal : UInt32) (put : γ → List γ)
    (call : Exec (Pipelines α β)) (edited : List γ → Pipelines α β) : Prop :=
  Ends .endless (find ordinalOf list ordinal) 0 ∧
    Returns call fun after => ∃ placed, Placed ordinalOf ordinal put list placed ∧ after = edited placed

/-- The first element has the ordinal, if there is a first element. -/
def AtFront (ordinalOf : γ → UInt32) (list : List γ) (ordinal : UInt32) : Prop :=
  ∀ element ∈ list.head?, ordinalOf element = ordinal

/-! ### The loop -/

/-- At another first element every round leads to the same round. -/
theorem front_of_ends (ended : Ends .endless (find ordinalOf list ordinal) 0) : AtFront ordinalOf list ordinal := by
  cases list with
  | nil => exact fun element member => by cases member
  | cons head later =>
    rintro element ⟨⟩
    by_cases same : ordinalOf head = ordinal
    · exact same
    · have stays : find ordinalOf (head :: later) ordinal 0 = .ok (.again 0) := by simp [find, same]
      refine absurd ended (not_ends (fun position => position = 0) ?_ rfl)
      rintro position rfl
      exact ⟨0, stays, rfl⟩

theorem ends_at_front (front : AtFront ordinalOf list ordinal) : Ends .endless (find ordinalOf list ordinal) 0 := by
  cases list with
  | nil => exact ⟨1, none, rfl⟩
  | cons head later =>
    have same : ordinalOf head = ordinal := front head rfl
    exact ⟨1, some 0, by simp [loop, find, same]⟩

theorem findOrdinal_front {head : γ} {later : List γ} (same : ordinalOf head = ordinal) :
    findOrdinal ordinalOf (head :: later) ordinal = .ok (some 0) := by
  simp [findOrdinal, loop, find, same]

/-! ### The insertion -/

theorem insertAfter_places (item : γ) (front : AtFront ordinalOf list ordinal) :
    Returns (insertAfter ordinalOf list item ordinal)
      (Placed ordinalOf ordinal (fun element => [element, item]) list) := by
  cases list with
  | nil =>
    refine ⟨[], rfl, ?_⟩
    apply Placed.absent
    simp
  | cons head later =>
    have same : ordinalOf head = ordinal := front head rfl
    refine ⟨head :: item :: later, by simp [insertAfter, findOrdinal_front same], ?_⟩
    exact @Placed.found _ _ _ _ [] later head (by simp) same

theorem insertBefore_places (item : γ) (front : AtFront ordinalOf list ordinal) :
    Returns (insertBefore ordinalOf list item ordinal)
      (Placed ordinalOf ordinal (fun element => [item, element]) list) := by
  cases list with
  | nil =>
    refine ⟨[], rfl, ?_⟩
    apply Placed.absent
    simp
  | cons head later =>
    have same : ordinalOf head = ordinal := front head rfl
    refine ⟨item :: head :: later, by simp [insertBefore, findOrdinal_front same], ?_⟩
    exact @Placed.found _ _ _ _ [] later head (by simp) same

/-- A call that inserts in one list and puts the list back does what it should
exactly if the loop ends. -/
theorem putsInPlace_iff {put : γ → List γ} {insert : Exec (List γ)} {edited : List γ → Pipelines α β}
    (places : AtFront ordinalOf list ordinal → Returns insert (Placed ordinalOf ordinal put list)) :
    PutsInPlace ordinalOf list ordinal put (do let placed ← insert; pure (edited placed)) edited ↔
      AtFront ordinalOf list ordinal := by
  constructor
  · rintro ⟨ended, -⟩
    exact front_of_ends ended
  · intro front
    refine ⟨ends_at_front front, ?_⟩
    apply (places front).bind
    intro placed right
    exact (returns_ok _ _).mpr ⟨placed, right, rfl⟩

/-- The four insertions do what they should exactly where the first element of the
list, if it has one, is the one they look for. -/
theorem relative_insertion_iff (pipeOrdinal : α → UInt32) (handlerOrdinal : β → UInt32) (c : Pipelines α β) (pipe : α)
    (handler : β) (ordinal : UInt32) :
    (PutsInPlace pipeOrdinal c.pipeline ordinal (fun element => [element, pipe])
        (appendByteBytePipeAfter pipeOrdinal c pipe ordinal) (fun placed => { c with pipeline := placed }) ↔
      AtFront pipeOrdinal c.pipeline ordinal) ∧
    (PutsInPlace pipeOrdinal c.pipeline ordinal (fun element => [pipe, element])
        (prependByteBytePipeBefore pipeOrdinal c pipe ordinal) (fun placed => { c with pipeline := placed }) ↔
      AtFront pipeOrdinal c.pipeline ordinal) ∧
    (PutsInPlace handlerOrdinal c.packetHandlers ordinal (fun element => [element, handler])
        (appendPacketHandlerAfter handlerOrdinal c handler ordinal) (fun placed => { c with packetHandlers := placed }) ↔
      AtFront handlerOrdinal c.packetHandlers ordinal) ∧
    (PutsInPlace handlerOrdinal c.packetHandlers ordinal (fun element => [handler, element])
        (prependPacketHandlerBefore handlerOrdinal c handler ordinal)
        (fun placed => { c with packetHandlers := placed }) ↔
      AtFront handlerOrdinal c.packetHandlers ordinal) := by
  refine ⟨?_, ?_, ?_, ?_⟩
  · apply putsInPlace_iff
    exact insertAfter_places pipe
  · apply putsInPlace_iff
    exact insertBefore_places pipe
  · apply putsInPlace_iff
    exact insertAfter_places handler
  · apply putsInPlace_iff
    exact insertBefore_places handler

/-- Behind the second of two pipes, the loop never comes to it. -/
theorem append_after_second_never_ends :
    ¬ PutsInPlace id [0, 1] 1 (fun element => [element, 2])
      (appendByteBytePipeAfter id (⟨[0, 1], []⟩ : Pipelines UInt32 UInt32) 2 1)
      (fun placed => ⟨placed, []⟩) := by
  rintro ⟨ended, -⟩
  have front := front_of_ends ended 0 rfl
  cases front

end ShipNet.Pipelines
