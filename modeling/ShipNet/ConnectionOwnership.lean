import Mathlib.Data.List.Perm.Basic
import ShipNet.NetworkEventLoop
import ShipNet.RelativeInsertion

/-! What a `Connection` owns: its pipes, handlers, buffers and its descriptor, from the
call that hands them over to the destructor. -/
namespace ShipNet
open Fallible

/-- The objects of a connection, named by their pointers where a call brings them. -/
inductive Part (α β ρ : Type) where
  | bytePacketPipe (pipe : ρ)
  | byteBytePipe (pipe : α)
  | packetHandler (handler : β)
  | readerBuffer
  | writerBuffer
  | readWriteCloser
  deriving DecidableEq, Repr

/-- The fields of a `Connection` that edits change. -/
structure ConnectionParts (α β ρ : Type) extends Pipelines α β where
  bytePacketPipe : ρ
  mainPacketHandler : β
  /-- Whether `onClose` holds a function. -/
  hasOnClose : Bool
  deriving DecidableEq, Repr

namespace ConnectionParts

variable {α β ρ : Type}

def new (bytePacketPipe : ρ) (mainPacketHandler : β) : ConnectionParts α β ρ where
  pipeline := []
  packetHandlers := []
  bytePacketPipe := bytePacketPipe
  mainPacketHandler := mainPacketHandler
  hasOnClose := false

/-- `~Connection`: what it deletes, in that order. An empty `onClose` throws. -/
def destructor (c : ConnectionParts α β ρ) : Except Halt (List (Part α β ρ)) :=
  if c.hasOnClose then
    pure ([.bytePacketPipe c.bytePacketPipe, .readerBuffer, .writerBuffer, .packetHandler c.mainPacketHandler] ++
      c.packetHandlers.map .packetHandler ++ [.readWriteCloser])
  else throw .terminate

inductive Call (α β ρ : Type) where
  | setBytePacketPipe (newBytePacketPipe : ρ)
  | replaceMainPacketHandler (packetHandler : β)
  | edit (edit : Pipelines.Edit α β)
  /-- The function may be empty. -/
  | setOnClose (holdsFunction : Bool)

/-- What the call hands over for good. An insertion next to an ordinal leaves its handler
to the caller if there are no handlers. -/
def entrusts (c : ConnectionParts α β ρ) : Call α β ρ → List (Part α β ρ)
  | .setBytePacketPipe pipe => [.bytePacketPipe pipe]
  | .replaceMainPacketHandler handler => [.packetHandler handler]
  | .edit (.handler (.append handler)) | .edit (.handler (.prepend handler)) => [.packetHandler handler]
  | .edit (.handler (.appendAfter handler _)) | .edit (.handler (.prependBefore handler _)) =>
    if c.packetHandlers.isEmpty then [] else [.packetHandler handler]
  | .edit (.handler (.remove _)) | .edit (.pipe _) | .setOnClose _ => []

/-- What a call deletes and what it hands over. -/
structure Moved (α β ρ : Type) where
  deleted : List (Part α β ρ)
  entrusted : List (Part α β ρ)

variable (pipeOrdinal : α → UInt32) (handlerOrdinal : β → UInt32)

def perform (c : ConnectionParts α β ρ) : Call α β ρ → Exec (ConnectionParts α β ρ × List (Part α β ρ))
  | .setBytePacketPipe newBytePacketPipe =>
    pure ({ c with bytePacketPipe := newBytePacketPipe }, [.bytePacketPipe c.bytePacketPipe])
  | .replaceMainPacketHandler packetHandler =>
    pure ({ c with mainPacketHandler := packetHandler }, [.packetHandler c.mainPacketHandler])
  | .edit edit => do
    let pipelines ← Pipelines.step pipeOrdinal handlerOrdinal c.toPipelines edit
    pure ({ c with toPipelines := pipelines }, [])
  | .setOnClose holdsFunction => pure ({ c with hasOnClose := holdsFunction }, [])

def step (c : ConnectionParts α β ρ) (call : Call α β ρ) : Exec (ConnectionParts α β ρ × Moved α β ρ) := do
  let done ← c.perform pipeOrdinal handlerOrdinal call
  pure (done.1, ⟨done.2, c.entrusts call⟩)

/-- What the connection has to delete. -/
def owned (c : ConnectionParts α β ρ) : List (Part α β ρ) :=
  .bytePacketPipe c.bytePacketPipe :: .packetHandler c.mainPacketHandler :: c.packetHandlers.map .packetHandler

def deletedBy (moves : List (Moved α β ρ)) : List (Part α β ρ) := moves.flatMap Moved.deleted

def entrustedBy (moves : List (Moved α β ρ)) : List (Part α β ρ) := moves.flatMap Moved.entrusted

variable {pipeOrdinal handlerOrdinal} {c next final : ConnectionParts α β ρ}

/-! ### Insertions -/

/-- An insertion that returns has found its ordinal at the front, or nothing at all. -/
theorem findOrdinal_returned {γ : Type} {ordinalOf : γ → UInt32} {list : List γ} {ordinal : UInt32} {found : Option Nat}
    (returned : Pipelines.findOrdinal ordinalOf list ordinal = .ok found) :
    found = if list.isEmpty then none else some 0 := by
  have front := Pipelines.front_of_ends ⟨_, _, returned⟩
  cases list with
  | nil =>
    cases returned
    rfl
  | cons head later =>
    rw [Pipelines.findOrdinal_front (front head rfl)] at returned
    cases returned
    rfl

theorem insertAfter_perm {γ : Type} {ordinalOf : γ → UInt32} {list after : List γ} {item : γ} {ordinal : UInt32}
    (inserted : Pipelines.insertAfter ordinalOf list item ordinal = .ok after) :
    after.Perm (list ++ if list.isEmpty then [] else [item]) := by
  obtain ⟨found, returned, placed⟩ := returns_of_bind inserted
  obtain rfl := findOrdinal_returned returned
  cases list with
  | nil =>
    cases placed
    rfl
  | cons head later =>
    cases placed
    exact (List.perm_append_singleton item later).symm.cons head

theorem insertBefore_perm {γ : Type} {ordinalOf : γ → UInt32} {list after : List γ} {item : γ} {ordinal : UInt32}
    (inserted : Pipelines.insertBefore ordinalOf list item ordinal = .ok after) :
    after.Perm (list ++ if list.isEmpty then [] else [item]) := by
  obtain ⟨found, returned, placed⟩ := returns_of_bind inserted
  obtain rfl := findOrdinal_returned returned
  cases list with
  | nil =>
    cases placed
    rfl
  | cons head later =>
    cases placed
    exact (List.perm_append_singleton item (head :: later)).symm

/-! ### Calls -/

theorem map_entrusted (handlers : List β) (handler : β) :
    (handlers ++ if handlers.isEmpty then [] else [handler]).map Part.packetHandler =
      handlers.map Part.packetHandler ++
        (if handlers.isEmpty then [] else [.packetHandler handler] : List (Part α β ρ)) := by
  cases handlers with
  | nil => rfl
  | cons head later => simp

/-- An edit deletes nothing, and the handlers it puts in are the ones handed over. -/
theorem owned_edit {edit : Pipelines.Edit α β} {pipelines : Pipelines α β}
    (edited : Pipelines.step pipeOrdinal handlerOrdinal c.toPipelines edit = .ok pipelines) :
    (pipelines.packetHandlers.map Part.packetHandler).Perm
      (c.packetHandlers.map Part.packetHandler ++ c.entrusts (.edit edit)) := by
  cases edit with
  | pipe edit =>
    have kept : pipelines.packetHandlers = c.packetHandlers := by
      cases edit with
      | append item | prepend item | remove ordinal =>
        cases edited
        rfl
      | appendAfter item ordinal | prependBefore item ordinal =>
        obtain ⟨pipeline, -, same⟩ := returns_of_bind edited
        cases same
        rfl
    rw [kept, entrusts, List.append_nil]
  | handler edit =>
    cases edit with
    | append item =>
      cases edited
      rw [List.map_append]
      rfl
    | prepend item =>
      cases edited
      exact (List.perm_append_singleton _ _).symm
    | appendAfter item ordinal =>
      obtain ⟨handlers, inserted, same⟩ := returns_of_bind edited
      cases same
      rw [entrusts, ← map_entrusted]
      exact (insertAfter_perm inserted).map _
    | prependBefore item ordinal =>
      obtain ⟨handlers, inserted, same⟩ := returns_of_bind edited
      cases same
      rw [entrusts, ← map_entrusted]
      exact (insertBefore_perm inserted).map _
    | remove ordinal =>
      cases edited
      rw [entrusts, List.append_nil]

/-- What a call deletes and what the connection owns afterwards is what it owned and what
it was given. -/
theorem owned_step {call : Call α β ρ} {moved : Moved α β ρ}
    (stepped : step pipeOrdinal handlerOrdinal c call = .ok (next, moved)) :
    (moved.deleted ++ next.owned).Perm (c.owned ++ moved.entrusted) := by
  obtain ⟨⟨after, deleted⟩, performed, same⟩ := returns_of_bind stepped
  cases same
  cases call with
  | setBytePacketPipe pipe =>
    cases performed
    refine List.Perm.cons _ ?_
    exact (List.perm_append_singleton _ _).symm
  | replaceMainPacketHandler handler =>
    cases performed
    refine (List.Perm.swap (Part.bytePacketPipe c.bytePacketPipe) _ _).trans ((List.Perm.cons _ (List.Perm.cons _ ?_)))
    exact (List.perm_append_singleton _ _).symm
  | edit edit =>
    obtain ⟨pipelines, edited, same⟩ := returns_of_bind performed
    cases same
    exact ((owned_edit edited).cons _).cons _
  | setOnClose holdsFunction =>
    cases performed
    show c.owned.Perm (c.owned ++ [])
    rw [List.append_nil]

/-! ### Runs -/

theorem owned_run {calls : List (Call α β ρ)} {moves : List (Moved α β ρ)}
    (ran : Transition.run (step pipeOrdinal handlerOrdinal) c calls = .ok (final, moves)) :
    (deletedBy moves ++ final.owned).Perm (c.owned ++ entrustedBy moves) := by
  induction calls generalizing c moves with
  | nil =>
    cases ran
    show final.owned.Perm (final.owned ++ [])
    rw [List.append_nil]
  | cons call calls ih =>
    obtain ⟨⟨next, moved⟩, stepped, rest⟩ := returns_of_bind ran
    obtain ⟨⟨last, later⟩, further, same⟩ := returns_of_bind rest
    cases same
    have first := owned_step stepped
    have others := ih further
    calc moved.deleted ++ deletedBy later ++ final.owned
        = moved.deleted ++ (deletedBy later ++ final.owned) := List.append_assoc _ _ _
      List.Perm _ (moved.deleted ++ (next.owned ++ entrustedBy later)) := others.append_left _
      _ = moved.deleted ++ next.owned ++ entrustedBy later := (List.append_assoc _ _ _).symm
      List.Perm _ (c.owned ++ moved.entrusted ++ entrustedBy later) := first.append_right _
      _ = c.owned ++ (moved.entrusted ++ entrustedBy later) := List.append_assoc _ _ _

def Call.onClose : Call α β ρ → Option Bool
  | setOnClose holdsFunction => some holdsFunction
  | setBytePacketPipe _ | replaceMainPacketHandler _ | edit _ => none

/-- The last `SetOnClose` decides. -/
theorem hasOnClose_run {calls : List (Call α β ρ)} {moves : List (Moved α β ρ)}
    (ran : Transition.run (step pipeOrdinal handlerOrdinal) c calls = .ok (final, moves)) :
    final.hasOnClose = (calls.filterMap Call.onClose).getLastD c.hasOnClose := by
  induction calls generalizing c moves with
  | nil =>
    cases ran
    rfl
  | cons call calls ih =>
    obtain ⟨⟨next, moved⟩, stepped, rest⟩ := returns_of_bind ran
    obtain ⟨⟨last, later⟩, further, same⟩ := returns_of_bind rest
    cases same
    rw [ih further]
    obtain ⟨⟨after, deleted⟩, performed, same⟩ := returns_of_bind stepped
    cases same
    cases call with
    | setBytePacketPipe pipe =>
      cases performed
      rfl
    | replaceMainPacketHandler handler =>
      cases performed
      rfl
    | edit edit =>
      obtain ⟨pipelines, -, same⟩ := returns_of_bind performed
      cases same
      rfl
    | setOnClose holdsFunction =>
      cases performed
      rw [List.filterMap_cons]
      exact List.getLastD_cons.symm

theorem byteBytePipe_not_entrusted {calls : List (Call α β ρ)} {moves : List (Moved α β ρ)}
    (ran : Transition.run (step pipeOrdinal handlerOrdinal) c calls = .ok (final, moves)) (pipe : α) :
    .byteBytePipe pipe ∉ entrustedBy moves := by
  induction calls generalizing c moves with
  | nil =>
    cases ran
    exact List.not_mem_nil
  | cons call calls ih =>
    obtain ⟨⟨next, moved⟩, stepped, rest⟩ := returns_of_bind ran
    obtain ⟨⟨last, later⟩, further, same⟩ := returns_of_bind rest
    cases same
    obtain ⟨⟨after, deleted⟩, performed, same⟩ := returns_of_bind stepped
    cases same
    intro member
    rcases List.mem_append.mp member with first | others
    · unfold entrusts at first
      grind
    · exact ih further others

/-- The buffers and the descriptor, which a connection has from the beginning. -/
def fixed : List (Part α β ρ) := [.readerBuffer, .writerBuffer, .readWriteCloser]

theorem destructor_perm {last : List (Part α β ρ)} (destroyed : c.destructor = .ok last) :
    last.Perm (c.owned ++ fixed) := by
  unfold destructor at destroyed
  split at destroyed
  · cases destroyed
    classical
    refine List.perm_iff_count.mpr fun part => ?_
    simp only [owned, fixed, List.count_append, List.count_cons, List.count_nil]
    omega
  · cases destroyed

/-- What becomes of the parts of a connection over its calls and its destructor. -/
structure Settled (bytePacketPipe : ρ) (mainPacketHandler : β) (calls : List (Call α β ρ))
    (final : ConnectionParts α β ρ) (moves : List (Moved α β ρ)) : Prop where
  owned_alive : (.bytePacketPipe bytePacketPipe :: .packetHandler mainPacketHandler :: entrustedBy moves).Nodup →
    ∀ part ∈ final.owned, part ∉ deletedBy moves
  destroyed_iff : Returns final.destructor (fun _ => True) ↔ (calls.filterMap Call.onClose).getLast? = some true
  deleted_once : ∀ last, final.destructor = .ok last → (deletedBy moves ++ last).Perm
    (.bytePacketPipe bytePacketPipe :: .packetHandler mainPacketHandler :: entrustedBy moves ++ fixed)
  byteBytePipes_kept : ∀ last pipe, final.destructor = .ok last → .byteBytePipe pipe ∉ deletedBy moves ++ last

/-- Whatever calls are made of a connection, it does not go on with a part that it has
deleted, if none was handed over twice. The destructor returns exactly if `SetOnClose` was
given a function the last time. Then each packet pipe and each handler has been deleted as
often as it was handed over, removed or not, and no byte pipe has been deleted. -/
theorem parts_settled (pipeOrdinal : α → UInt32) (handlerOrdinal : β → UInt32) (bytePacketPipe : ρ)
    (mainPacketHandler : β) (calls : List (Call α β ρ)) (final : ConnectionParts α β ρ) (moves : List (Moved α β ρ))
    (ran : Transition.run (step pipeOrdinal handlerOrdinal) (new bytePacketPipe mainPacketHandler) calls =
      .ok (final, moves)) : Settled bytePacketPipe mainPacketHandler calls final moves := by
  have once (last : List (Part α β ρ)) (destroyed : final.destructor = .ok last) : (deletedBy moves ++ last).Perm
      (.bytePacketPipe bytePacketPipe :: .packetHandler mainPacketHandler :: entrustedBy moves ++ fixed) := by
    calc (deletedBy moves ++ last)
      List.Perm _ (deletedBy moves ++ (final.owned ++ fixed)) := (destructor_perm destroyed).append_left _
      _ = deletedBy moves ++ final.owned ++ fixed := (List.append_assoc _ _ _).symm
      List.Perm _ (_ ++ fixed) := (owned_run ran).append_right _
  refine ⟨?_, ?_, once, ?_⟩
  · intro distinct part member deleted
    have apart := (owned_run ran).nodup_iff.mpr distinct
    exact (List.nodup_append.mp apart).2.2 part deleted part member rfl
  · have decides : final.hasOnClose = (calls.filterMap Call.onClose).getLastD false := hasOnClose_run ran
    rw [List.getLastD_eq_getLast?] at decides
    cases same : (calls.filterMap Call.onClose).getLast? with
    | none => simp [destructor, decides, same, Returns]
    | some holdsFunction => cases holdsFunction <;> simp [destructor, decides, same, Returns]
  · intro last pipe destroyed deleted
    have among := (once last destroyed).mem_iff.mp deleted
    have entrusted : .byteBytePipe pipe ∈ entrustedBy moves := by simpa [fixed] using among
    exact byteBytePipe_not_entrusted ran pipe entrusted

/-- A handler goes into the list, one behind it by its ordinal, and one is lost before; the
pipe that a removal of a handler takes out is not deleted. -/
theorem replaced_parts_settled : ∃ final : ConnectionParts UInt32 UInt32 UInt32, ∃ moves,
    Transition.run (step id id) (new 0 1) [.edit (.handler (.prependBefore 2 9)), .edit (.handler (.append 3)),
        .edit (.handler (.appendAfter 4 3)), .edit (.pipe (.append 5)), .edit (.handler (.remove 5)),
        .replaceMainPacketHandler 6, .setBytePacketPipe 7, .setOnClose true] = .ok (final, moves) ∧
      final.destructor = .ok [.bytePacketPipe 7, .readerBuffer, .writerBuffer, .packetHandler 6, .packetHandler 3,
        .packetHandler 4, .readWriteCloser] ∧ deletedBy moves = [.packetHandler 1, .bytePacketPipe 0] ∧
      Settled 0 1 [.edit (.handler (.prependBefore 2 9)), .edit (.handler (.append 3)),
        .edit (.handler (.appendAfter 4 3)), .edit (.pipe (.append 5)), .edit (.handler (.remove 5)),
        .replaceMainPacketHandler 6, .setBytePacketPipe 7, .setOnClose true] final moves :=
  ⟨_, _, rfl, rfl, rfl, parts_settled id id 0 1 _ _ _ rfl⟩

end ConnectionParts

end ShipNet
