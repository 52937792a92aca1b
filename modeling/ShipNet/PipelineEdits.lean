import ShipNet.Errorable
import ShipNet.Transition

/-! The calls of `Connection` that edit its two lists: the byte pipes and the packet
handlers. The positions are found by a loop whose iterator is never advanced. -/
namespace ShipNet
open Fallible

/-- The lists of a `Connection`, of pipes `α` and handlers `β`. -/
structure Pipelines (α β : Type) where
  pipeline : List α
  packetHandlers : List β
  deriving DecidableEq, Repr

namespace Pipelines

/-! ### Edits of one list -/

section
variable {α : Type} (ordinalOf : α → UInt32)

/-- `while (iterator != list.end())`, from this position on: the position of the
ordinal, or none at the end. -/
def find (list : List α) (ordinal : UInt32) (position : Nat) : Exec (Round Nat (Option Nat)) :=
  match list[position]? with
  | none => pure (.leave none)
  | some item => if ordinalOf item = ordinal then pure (.leave (some position)) else pure (.again position)

/-- An iterator that was advanced would reach the end within these rounds. -/
def findOrdinal (list : List α) (ordinal : UInt32) : Exec (Option Nat) :=
  loop .endless (find ordinalOf list ordinal) (list.length + 1) 0

def insertAfter (list : List α) (item : α) (afterOrdinal : UInt32) : Exec (List α) := do
  match ← findOrdinal ordinalOf list afterOrdinal with
  | some position => pure (list.insertIdx (position + 1) item)
  | none => pure list

def insertBefore (list : List α) (item : α) (beforeOrdinal : UInt32) : Exec (List α) := do
  match ← findOrdinal ordinalOf list beforeOrdinal with
  | some position => pure (list.insertIdx position item)
  | none => pure list

def removeIf (list : List α) (ordinal : UInt32) : List α := list.filter fun item => ordinal ≠ ordinalOf item

end

/-! ### Edits of a connection -/

variable {α β : Type} (pipeOrdinal : α → UInt32) (handlerOrdinal : β → UInt32)

def appendByteBytePipe (c : Pipelines α β) (pipe : α) : Exec (Pipelines α β) :=
  pure { c with pipeline := c.pipeline ++ [pipe] }

def prependByteBytePipe (c : Pipelines α β) (pipe : α) : Exec (Pipelines α β) :=
  pure { c with pipeline := pipe :: c.pipeline }

def appendByteBytePipeAfter (c : Pipelines α β) (pipe : α) (afterOrdinal : UInt32) : Exec (Pipelines α β) := do
  let pipeline ← insertAfter pipeOrdinal c.pipeline pipe afterOrdinal
  pure { c with pipeline := pipeline }

def prependByteBytePipeBefore (c : Pipelines α β) (pipe : α) (beforeOrdinal : UInt32) : Exec (Pipelines α β) := do
  let pipeline ← insertBefore pipeOrdinal c.pipeline pipe beforeOrdinal
  pure { c with pipeline := pipeline }

def removeByteBytePipe (c : Pipelines α β) (ordinal : UInt32) : Exec (Pipelines α β) :=
  pure { c with pipeline := removeIf pipeOrdinal c.pipeline ordinal }

def appendPacketHandler (c : Pipelines α β) (handler : β) : Exec (Pipelines α β) :=
  pure { c with packetHandlers := c.packetHandlers ++ [handler] }

def prependPacketHandler (c : Pipelines α β) (handler : β) : Exec (Pipelines α β) :=
  pure { c with packetHandlers := handler :: c.packetHandlers }

def appendPacketHandlerAfter (c : Pipelines α β) (handler : β) (afterOrdinal : UInt32) : Exec (Pipelines α β) := do
  let packetHandlers ← insertAfter handlerOrdinal c.packetHandlers handler afterOrdinal
  pure { c with packetHandlers := packetHandlers }

def prependPacketHandlerBefore (c : Pipelines α β) (handler : β) (beforeOrdinal : UInt32) : Exec (Pipelines α β) := do
  let packetHandlers ← insertBefore handlerOrdinal c.packetHandlers handler beforeOrdinal
  pure { c with packetHandlers := packetHandlers }

/-- `RemovePacketHandler`, which removes from the pipes. -/
def removePacketHandler (c : Pipelines α β) (ordinal : UInt32) : Exec (Pipelines α β) :=
  pure { c with pipeline := removeIf pipeOrdinal c.pipeline ordinal }

/-- The edits of a list of this kind. -/
inductive ListEdit (α : Type) where
  | append (item : α)
  | prepend (item : α)
  | appendAfter (item : α) (afterOrdinal : UInt32)
  | prependBefore (item : α) (beforeOrdinal : UInt32)
  | remove (ordinal : UInt32)
  deriving DecidableEq, Repr

/-- A call of one of the methods for pipes, or for handlers. -/
inductive Edit (α β : Type) where
  | pipe (edit : ListEdit α)
  | handler (edit : ListEdit β)
  deriving DecidableEq, Repr

def step (c : Pipelines α β) : Edit α β → Exec (Pipelines α β)
  | .pipe (.append item) => appendByteBytePipe c item
  | .pipe (.prepend item) => prependByteBytePipe c item
  | .pipe (.appendAfter item afterOrdinal) => appendByteBytePipeAfter pipeOrdinal c item afterOrdinal
  | .pipe (.prependBefore item beforeOrdinal) => prependByteBytePipeBefore pipeOrdinal c item beforeOrdinal
  | .pipe (.remove ordinal) => removeByteBytePipe pipeOrdinal c ordinal
  | .handler (.append item) => appendPacketHandler c item
  | .handler (.prepend item) => prependPacketHandler c item
  | .handler (.appendAfter item afterOrdinal) => appendPacketHandlerAfter handlerOrdinal c item afterOrdinal
  | .handler (.prependBefore item beforeOrdinal) => prependPacketHandlerBefore handlerOrdinal c item beforeOrdinal
  | .handler (.remove ordinal) => removePacketHandler pipeOrdinal c ordinal

end Pipelines

end ShipNet
