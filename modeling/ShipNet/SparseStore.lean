import ShipNet.OrdinalVector

/-! `ResizeVectorAndSet` as a sparse store. The vector is resized in place before
`at` checks the index, so a size that wraps around to a small one throws away
entries (or adds some) of a vector in which nothing is stored. -/
namespace ShipNet.OrdinalVector
open Fallible GrowingTable

variable {T : Type} [Inhabited T]

/-- `ResizeVectorAndSet` in place: the vector that it leaves, also when `at` throws. -/
def resizeVectorAndSetInPlace (vector : List T) (ordinal : UInt32) (value : T) : List T × Exec Unit :=
  let vector := if ordinal.toNat ≥ vector.length then resize vector (ordinal + 8).toNat else vector
  match setAt vector ordinal.toNat value with
  | .ok stored => (stored, .ok ())
  | .error fault => (vector, .error fault)

/-- Apart from what a failed call leaves, it is `resizeVectorAndSet`. -/
theorem resizeVectorAndSet_in_place (vector : List T) (ordinal : UInt32) (value : T) :
    resizeVectorAndSet vector ordinal value =
      (resizeVectorAndSetInPlace vector ordinal value).2.map
        fun _ => (resizeVectorAndSetInPlace vector ordinal value).1 := by
  unfold resizeVectorAndSet resizeVectorAndSetInPlace
  dsimp only
  generalize (if ordinal.toNat ≥ vector.length then resize vector (ordinal + 8).toNat else vector) = resized
  cases setAt resized ordinal.toNat value with
  | ok stored => rfl
  | error fault => rfl

/-- A call stores its value, or it leaves the vector unchanged. -/
def StoresOrKeeps (vector : List T) (ordinal : UInt32) (value : T) : Prop :=
  match resizeVectorAndSetInPlace vector ordinal value with
  | (after, .ok _) => Stored vector ordinal.toNat value after
  | (after, .error _) => after = vector

/-- What a call leaves that does not wrap around. -/
theorem in_place_eq {ordinal : UInt32} {vector : List T}
    (fits : ordinal.toNat < vector.length ∨ ordinal.toNat < 2 ^ 32 - 8) (value : T) :
    resizeVectorAndSetInPlace vector ordinal value = (place slack vector ordinal.toNat value, .ok ()) := by
  have returns : Returns (resizeVectorAndSet vector ordinal value) fun after =>
      after = place slack vector ordinal.toNat value := by
    rcases fits with inside | bounded
    · have ran : resizeVectorAndSet vector ordinal value = .ok (vector.set ordinal.toNat value) := by
        rw [resizeVectorAndSet, if_neg (Nat.not_le.mpr inside), setAt, if_pos inside, pure_is_ok]
      exact ⟨_, ran, resizeVectorAndSet_ok ran⟩
    · exact ⟨_, resizeVectorAndSet_eq bounded vector value, rfl⟩
  obtain ⟨_, ran, rfl⟩ := returns
  rw [resizeVectorAndSet_in_place] at ran
  obtain ⟨done, passed, after⟩ := returns_of_map ran
  exact Prod.ext after passed

/-- What a call leaves that does: a vector of the size that the sum wrapped to. -/
theorem in_place_wrapped {ordinal : UInt32} {vector : List T} (outside : vector.length ≤ ordinal.toNat)
    (wraps : 2 ^ 32 - 8 ≤ ordinal.toNat) (value : T) :
    resizeVectorAndSetInPlace vector ordinal value = (resize vector (ordinal + 8).toNat, .error .outOfBounds) := by
  have short : ¬ ordinal.toNat < (resize vector (ordinal + 8).toNat).length := by
    have sum : (ordinal + 8).toNat = (ordinal.toNat + 8) % 2 ^ 32 := UInt32.toNat_add ordinal 8
    have top := ordinal.toNat_lt
    rw [length_resize]
    omega
  simp only [resizeVectorAndSetInPlace, if_pos (show ordinal.toNat ≥ vector.length from outside), setAt, if_neg short,
    throw_is_error]

/-- Only the last eight indices can wrap around, and then the vector must have just
the size that they wrap to. -/
theorem stores_or_keeps_iff (vector : List T) (ordinal : UInt32) (value : T) :
    StoresOrKeeps vector ordinal value ↔
      ordinal.toNat < vector.length ∨ ordinal.toNat < 2 ^ 32 - 8 ∨ vector.length = (ordinal + 8).toNat := by
  by_cases fits : ordinal.toNat < vector.length ∨ ordinal.toNat < 2 ^ 32 - 8
  · have stored := stored_place slack_pos vector ordinal.toNat value
    rw [StoresOrKeeps, in_place_eq fits]
    exact ⟨fun _ => fits.imp_right .inl, fun _ => stored⟩
  · obtain ⟨outside, wraps⟩ := not_or.mp fits
    rw [StoresOrKeeps, in_place_wrapped (Nat.le_of_not_lt outside) (Nat.le_of_not_lt wraps)]
    constructor
    · intro same
      have length := congrArg List.length same
      rw [length_resize] at length
      exact .inr (.inr length.symm)
    · rintro (inside | bounded | same)
      · exact absurd inside outside
      · exact absurd bounded wraps
      · show resize vector (ordinal + 8).toNat = vector
        rw [← same, resize, List.take_length, Nat.sub_self, List.replicate_zero, List.append_nil]

/-- The size for the eighth index from the top is 0, so the old entries are lost. -/
theorem entries_lost : ¬ StoresOrKeeps [1, 2, 3] 0xFFFFFFF8 4 := by
  intro stored
  cases stored

end ShipNet.OrdinalVector
