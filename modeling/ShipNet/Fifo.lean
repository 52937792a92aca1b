import Mathlib.Data.List.Basic
import ShipNet.Transition

/-! The first-in first-out queue, over any items: what a buffer between a
writer and a reader is for. -/
namespace ShipNet.Fifo
open Transition

variable {α : Type}

inductive Request (α : Type) where
  | push (items : List α)
  /-- A pull of exactly this many items, or of none. -/
  | pull (count : Nat)

inductive Reply (α : Type) where
  | pushed
  | pulled (items : List α)
  | refused
  deriving DecidableEq

def Request.pushes : Request α → List α
  | push items => items
  | pull _ => []

def Reply.pulls : Reply α → List α
  | pulled items => items
  | pushed | refused => []

def serve (queue : List α) : Request α → List α × Reply α
  | .push items => (queue ++ items, .pushed)
  | .pull count =>
    if count ≤ queue.length then (queue.drop count, .pulled (queue.take count)) else (queue, .refused)

/-- What a request takes out and leaves behind is what was there and was put in. -/
theorem serve_conserves (queue : List α) (request : Request α) :
    (serve queue request).2.pulls ++ (serve queue request).1 = queue ++ request.pushes := by
  cases request with
  | push items => rfl
  | pull count =>
    by_cases enough : count ≤ queue.length
    · simp [serve, enough, Reply.pulls, Request.pushes]
    · simp [serve, enough, Reply.pulls, Request.pushes]

/-- Over any run, the items pulled followed by those still queued are the
items pushed, in order: none is lost, repeated or moved. -/
theorem run_conserves (queue : List α) (requests : List (Request α)) :
    (runSpec serve queue requests).2.flatMap Reply.pulls ++ (runSpec serve queue requests).1 =
      queue ++ requests.flatMap Request.pushes := by
  induction requests generalizing queue with
  | nil => simp [runSpec]
  | cons request requests ih =>
    have first := serve_conserves queue request
    simp only [runSpec, List.flatMap_cons, List.append_assoc]
    rw [ih, ← List.append_assoc, first, List.append_assoc]

/-- Where the items that are kept are the last of all, they are the last of those
consumed and then those that are unread. -/
theorem kept_eq_last_consumed {kept consumed unread : List α} (suffix : kept <:+ consumed ++ unread)
    (longer : unread.length ≤ kept.length) :
    kept.length - unread.length ≤ consumed.length ∧
      kept = consumed.drop (consumed.length - (kept.length - unread.length)) ++ unread := by
  obtain ⟨front, split⟩ := suffix
  have lengths := congrArg List.length split
  simp only [List.length_append] at lengths
  have behind : consumed.length - (kept.length - unread.length) = front.length := by omega
  have rest : kept = (consumed ++ unread).drop front.length := by rw [← split, List.drop_left]
  refine ⟨by omega, ?_⟩
  rw [behind, ← List.drop_append_of_le_length (by omega), ← rest]

end ShipNet.Fifo
