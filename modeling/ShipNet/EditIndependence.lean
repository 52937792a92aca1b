import ShipNet.PipelineEdits

/-! Pipes and handlers are edited apart from each other, as long as no call of
`RemovePacketHandler` finds its ordinal at a pipe or at a handler: it removes the
pipe, and leaves the handler. -/
namespace ShipNet.Pipelines
open Fallible

variable {α β : Type} {pipeOrdinal : α → UInt32} {handlerOrdinal : β → UInt32}

/-- One edit after another. -/
def run (pipeOrdinal : α → UInt32) (handlerOrdinal : β → UInt32) (c : Pipelines α β) (edits : List (Edit α β)) :
    Exec (Pipelines α β) :=
  edits.foldlM (step pipeOrdinal handlerOrdinal) c

/-- The edit of a list by itself. -/
def ListEdit.apply (ordinalOf : α → UInt32) (list : List α) : ListEdit α → Exec (List α)
  | append item => pure (list ++ [item])
  | prepend item => pure (item :: list)
  | appendAfter item afterOrdinal => insertAfter ordinalOf list item afterOrdinal
  | prependBefore item beforeOrdinal => insertBefore ordinalOf list item beforeOrdinal
  | remove ordinal => pure (removeIf ordinalOf list ordinal)

def ListEdit.inserts : ListEdit α → Option α
  | append item | prepend item | appendAfter item _ | prependBefore item _ => some item
  | remove _ => none

def Edit.ofPipes : Edit α β → Option (ListEdit α)
  | pipe edit => some edit
  | handler _ => none

def Edit.ofHandlers : Edit α β → Option (ListEdit β)
  | handler edit => some edit
  | pipe _ => none

/-- No pipe and no handler has the ordinal that `RemovePacketHandler` is given. -/
def Edit.Harmless (pipeOrdinal : α → UInt32) (handlerOrdinal : β → UInt32) (c : Pipelines α β) : Edit α β → Prop
  | handler (.remove ordinal) =>
    (∀ pipe ∈ c.pipeline, pipeOrdinal pipe ≠ ordinal) ∧ ∀ handler ∈ c.packetHandlers, handlerOrdinal handler ≠ ordinal
  | handler (.append _) | handler (.prepend _) | handler (.appendAfter _ _) | handler (.prependBefore _ _) | pipe _ =>
    True

/-- Every edit of the run is harmless when its turn comes. -/
def Harmless (pipeOrdinal : α → UInt32) (handlerOrdinal : β → UInt32) : Pipelines α β → List (Edit α β) → Prop
  | _, [] => True
  | c, edit :: later => edit.Harmless pipeOrdinal handlerOrdinal c ∧
    ∀ next, step pipeOrdinal handlerOrdinal c edit = .ok next → Harmless pipeOrdinal handlerOrdinal next later

/-! ### One edit -/

theorem removeIf_absent {ordinalOf : α → UInt32} {list : List α} {ordinal : UInt32} :
    removeIf ordinalOf list ordinal = list ↔ ∀ item ∈ list, ordinalOf item ≠ ordinal := by
  rw [removeIf, List.filter_eq_self]
  simp [ne_comm]

/-- A removal of a handler is what it should be exactly if it is harmless. -/
theorem removePacketHandler_right_iff (c : Pipelines α β) (ordinal : UInt32) :
    removePacketHandler pipeOrdinal c ordinal =
      .ok { c with packetHandlers := removeIf handlerOrdinal c.packetHandlers ordinal } ↔
      (Edit.handler (.remove ordinal) : Edit α β).Harmless pipeOrdinal handlerOrdinal c := by
  obtain ⟨pipeline, packetHandlers⟩ := c
  simp only [removePacketHandler, Edit.Harmless, pure_is_ok, Except.ok.injEq, mk.injEq, removeIf_absent,
    eq_comm (a := packetHandlers)]

theorem step_pipe (c : Pipelines α β) (edit : ListEdit α) :
    step pipeOrdinal handlerOrdinal c (.pipe edit) = (do
      let pipeline ← edit.apply pipeOrdinal c.pipeline
      pure { c with pipeline := pipeline }) := by
  cases edit with
  | append item => rfl
  | prepend item => rfl
  | appendAfter item afterOrdinal => rfl
  | prependBefore item beforeOrdinal => rfl
  | remove ordinal => rfl

theorem step_handler (c : Pipelines α β) (edit : ListEdit β)
    (harmless : (Edit.handler edit : Edit α β).Harmless pipeOrdinal handlerOrdinal c) :
    step pipeOrdinal handlerOrdinal c (.handler edit) = (do
      let packetHandlers ← edit.apply handlerOrdinal c.packetHandlers
      pure { c with packetHandlers := packetHandlers }) := by
  cases edit with
  | append item => rfl
  | prepend item => rfl
  | appendAfter item afterOrdinal => rfl
  | prependBefore item beforeOrdinal => rfl
  | remove ordinal => exact (removePacketHandler_right_iff c ordinal).mpr harmless

/-- What is in a list after an edit was in it, or was inserted. -/
theorem mem_apply {ordinalOf : α → UInt32} {list after : List α} {edit : ListEdit α} {item : α}
    (applied : edit.apply ordinalOf list = .ok after) (member : item ∈ after) :
    item ∈ list ∨ edit.inserts = some item := by
  have inserted {position : Nat} {other : α} (found : item ∈ list.insertIdx position other) :
      item ∈ list ∨ some other = some item := by
    by_cases inside : position ≤ list.length
    · rcases (List.mem_insertIdx inside).mp found with rfl | old
      · exact .inr rfl
      · exact .inl old
    · rw [List.insertIdx_of_length_lt (Nat.lt_of_not_le inside)] at found
      exact .inl found
  cases edit with
  | append other =>
    cases applied
    rcases List.mem_append.mp member with old | new
    · exact .inl old
    · exact .inr (congrArg some (List.mem_singleton.mp new).symm)
  | prepend other =>
    cases applied
    rcases List.mem_cons.mp member with rfl | old
    · exact .inr rfl
    · exact .inl old
  | appendAfter other afterOrdinal =>
    obtain ⟨found, -, placed⟩ := returns_of_bind applied
    cases found with
    | none =>
      cases placed
      exact .inl member
    | some position =>
      cases placed
      exact inserted member
  | prependBefore other beforeOrdinal =>
    obtain ⟨found, -, placed⟩ := returns_of_bind applied
    cases found with
    | none =>
      cases placed
      exact .inl member
    | some position =>
      cases placed
      exact inserted member
  | remove ordinal =>
    cases applied
    exact .inl (List.mem_filter.mp member).1

/-! ### Runs -/

/-- A run does to each list what the edits of that list do by themselves. -/
theorem run_splits {c final : Pipelines α β} {edits : List (Edit α β)}
    (harmless : Harmless pipeOrdinal handlerOrdinal c edits) (ran : run pipeOrdinal handlerOrdinal c edits = .ok final) :
    (edits.filterMap Edit.ofPipes).foldlM (ListEdit.apply pipeOrdinal) c.pipeline = .ok final.pipeline ∧
      (edits.filterMap Edit.ofHandlers).foldlM (ListEdit.apply handlerOrdinal) c.packetHandlers =
        .ok final.packetHandlers := by
  induction edits generalizing c with
  | nil =>
    cases ran
    exact ⟨rfl, rfl⟩
  | cons edit later ih =>
    obtain ⟨first, others⟩ := harmless
    rw [run, List.foldlM_cons] at ran
    obtain ⟨next, stepped, ran⟩ := returns_of_bind ran
    obtain ⟨pipes, handlers⟩ := ih (others next stepped) ran
    cases edit with
    | pipe edit =>
      rw [step_pipe] at stepped
      obtain ⟨pipeline, applied, rfl⟩ := returns_of_map stepped
      refine ⟨?_, handlers⟩
      simp only [List.filterMap_cons, Edit.ofPipes, List.foldlM_cons, applied, ok_bind]
      exact pipes
    | handler edit =>
      rw [step_handler c edit first] at stepped
      obtain ⟨packetHandlers, applied, rfl⟩ := returns_of_map stepped
      refine ⟨pipes, ?_⟩
      simp only [List.filterMap_cons, Edit.ofHandlers, List.foldlM_cons, applied, ok_bind]
      exact handlers

theorem mem_edits {ordinalOf : α → UInt32} {list final : List α} {edits : List (ListEdit α)} {item : α}
    (applied : edits.foldlM (ListEdit.apply ordinalOf) list = .ok final) (member : item ∈ final) :
    item ∈ list ∨ ∃ edit ∈ edits, edit.inserts = some item := by
  induction edits generalizing list with
  | nil =>
    cases applied
    exact .inl member
  | cons edit later ih =>
    rw [List.foldlM_cons] at applied
    obtain ⟨next, first, applied⟩ := returns_of_bind applied
    rcases ih applied with old | ⟨other, known, inserts⟩
    · rcases mem_apply first old with before | inserts
      · exact .inl before
      · exact .inr ⟨edit, List.mem_cons_self, inserts⟩
    · exact .inr ⟨other, List.mem_cons_of_mem _ known, inserts⟩

/-- What has a removed ordinal in the end was inserted after the removal. -/
theorem removed_edits {ordinalOf : α → UInt32} {list final : List α} {earlier later : List (ListEdit α)}
    {ordinal : UInt32} {item : α}
    (applied : (earlier ++ .remove ordinal :: later).foldlM (ListEdit.apply ordinalOf) list = .ok final)
    (member : item ∈ final) (same : ordinalOf item = ordinal) : ∃ edit ∈ later, edit.inserts = some item := by
  rw [List.foldlM_append] at applied
  obtain ⟨current, -, applied⟩ := returns_of_bind applied
  rw [List.foldlM_cons] at applied
  have origin : item ∈ removeIf ordinalOf current ordinal ∨ ∃ edit ∈ later, edit.inserts = some item :=
    mem_edits applied member
  rcases origin with kept | inserted
  · have other := (List.mem_filter.mp kept).2
    simp [same] at other
  · exact inserted

/-- Runs from one connection, in which every removal of a handler is harmless: the
same edits of pipes lead to the same pipes, and the same edits of handlers to the same
handlers, none of which has been removed since it was inserted last. -/
theorem edits_independent (pipeOrdinal : α → UInt32) (handlerOrdinal : β → UInt32) (start first second : Pipelines α β)
    (edits others : List (Edit α β)) (ran : run pipeOrdinal handlerOrdinal start edits = .ok first)
    (ranOthers : run pipeOrdinal handlerOrdinal start others = .ok second)
    (harmless : Harmless pipeOrdinal handlerOrdinal start edits)
    (harmlessOthers : Harmless pipeOrdinal handlerOrdinal start others) :
    (edits.filterMap Edit.ofPipes = others.filterMap Edit.ofPipes → first.pipeline = second.pipeline) ∧
      (edits.filterMap Edit.ofHandlers = others.filterMap Edit.ofHandlers →
        first.packetHandlers = second.packetHandlers) ∧
      ∀ earlier ordinal later, edits.filterMap Edit.ofHandlers = earlier ++ .remove ordinal :: later →
        ∀ handler ∈ first.packetHandlers, handlerOrdinal handler = ordinal →
          ∃ edit ∈ later, edit.inserts = some handler := by
  obtain ⟨pipes, handlers⟩ := run_splits harmless ran
  obtain ⟨pipesOthers, handlersOthers⟩ := run_splits harmlessOthers ranOthers
  refine ⟨?_, ?_, ?_⟩
  · intro same
    rw [same, pipesOthers] at pipes
    exact (Except.ok.inj pipes).symm
  · intro same
    rw [same, handlersOthers] at handlers
    exact (Except.ok.inj handlers).symm
  · intro earlier ordinal later split handler member same
    rw [split] at handlers
    exact removed_edits handlers member same

/-- Pipes and handlers that are their own ordinals, and a removal that finds none. -/
theorem interleaved_edits_independent : ∃ first second : Pipelines UInt32 UInt32,
    run id id ⟨[], []⟩ [.pipe (.append 0), .handler (.append 4), .pipe (.prependBefore 2 0), .handler (.remove 7)] =
      .ok first ∧
    run id id ⟨[], []⟩ [.handler (.append 4), .handler (.remove 7), .pipe (.append 0), .pipe (.prependBefore 2 0)] =
      .ok second ∧
    first.pipeline = second.pipeline ∧ first.packetHandlers = second.packetHandlers := by
  have harmless : Harmless id id (⟨[], []⟩ : Pipelines UInt32 UInt32)
      [.pipe (.append 0), .handler (.append 4), .pipe (.prependBefore 2 0), .handler (.remove 7)] := by
    refine ⟨trivial, ?_⟩
    rintro _ ⟨⟩
    refine ⟨trivial, ?_⟩
    rintro _ ⟨⟩
    refine ⟨trivial, ?_⟩
    rintro _ ⟨⟩
    exact ⟨by simp [Edit.Harmless], fun _ _ => trivial⟩
  have harmlessOthers : Harmless id id (⟨[], []⟩ : Pipelines UInt32 UInt32)
      [.handler (.append 4), .handler (.remove 7), .pipe (.append 0), .pipe (.prependBefore 2 0)] := by
    refine ⟨trivial, ?_⟩
    rintro _ ⟨⟩
    refine ⟨by simp [Edit.Harmless], ?_⟩
    rintro _ ⟨⟩
    refine ⟨trivial, ?_⟩
    rintro _ ⟨⟩
    exact ⟨trivial, fun _ _ => trivial⟩
  refine ⟨⟨[2, 0], [4]⟩, ⟨[2, 0], [4]⟩, rfl, rfl, ?_⟩
  obtain ⟨pipes, handlers, -⟩ := edits_independent id id ⟨[], []⟩ ⟨[2, 0], [4]⟩ ⟨[2, 0], [4]⟩ _ _ rfl rfl harmless
    harmlessOthers
  exact ⟨pipes rfl, handlers rfl⟩

/-- The removal of a handler removes the pipe that has its ordinal, and the handler
stays. -/
theorem removal_of_handler_removes_pipe : ∃ first second : Pipelines UInt32 UInt32,
    run id id ⟨[], []⟩ [.pipe (.append 0), .handler (.append 0)] = .ok first ∧
    run id id ⟨[], []⟩ [.pipe (.append 0), .handler (.append 0), .handler (.remove 0)] = .ok second ∧
    first.pipeline ≠ second.pipeline ∧ 0 ∈ second.packetHandlers :=
  ⟨⟨[0], [0]⟩, ⟨[], [0]⟩, rfl, rfl, by decide, by decide⟩

end ShipNet.Pipelines
