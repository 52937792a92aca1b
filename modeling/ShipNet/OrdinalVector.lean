import Mathlib.Tactic.Ring
import ShipNet.Errorable
import ShipNet.GrowingTable

/-! `OrdinalVector`: a vector with an entry for each ordinal that was set, and
the `resize` and `at` of a `std::vector`. -/
namespace ShipNet.OrdinalVector
open Fallible GrowingTable

variable {T : Type} [Inhabited T]

/-- `vector.resize(size)`. -/
def resize (vector : List T) (size : Nat) : List T :=
  vector.take size ++ List.replicate (size - vector.length) default

/-- `vector.at(index) = value`, which checks the index. -/
def setAt (vector : List T) (index : Nat) (value : T) : Exec (List T) :=
  if index < vector.length then pure (vector.set index value) else throw .outOfBounds

/-- `ResizeVectorAndSet(vector, at, value)`. The new size is a `uint32_t` sum. -/
def resizeVectorAndSet (vector : List T) (ordinal : UInt32) (value : T) : Exec (List T) :=
  let vector := if ordinal.toNat ≥ vector.length then resize vector (ordinal + 8).toNat else vector
  setAt vector ordinal.toNat value

theorem length_resize (vector : List T) (size : Nat) :
    (resize vector size).length = size := by
  rw [resize, List.length_append, List.length_take, List.length_replicate]
  omega

theorem getD_resize (vector : List T) (size position : Nat) :
    (resize vector size).getD position default = if position < size then vector.getD position default else default := by
  rw [resize, getD_append_replicate, List.getD_eq_getElem?_getD, List.getElem?_take]
  split
  · rw [List.getD_eq_getElem?_getD]
  · rfl

/-- The entries behind the one that is set, that one included. -/
def slack : Nat := 8

theorem slack_pos : 0 < slack := by decide

theorem toNat_add_eight {ordinal : UInt32} (bounded : ordinal.toNat < 2 ^ 32 - 8) :
    (ordinal + 8).toNat = ordinal.toNat + slack := by
  rw [UInt32.toNat_add]
  exact Nat.mod_eq_of_lt (by
    show ordinal.toNat + 8 < 2 ^ 32
    omega)

/-- As long as the size does not wrap around, the vector is a growing table. -/
theorem resizeVectorAndSet_eq {ordinal : UInt32} (bounded : ordinal.toNat < 2 ^ 32 - 8) (vector : List T)
    (value : T) :
    resizeVectorAndSet vector ordinal value = .ok (place slack vector ordinal.toNat value) := by
  have positive := slack_pos
  have resized : (if ordinal.toNat ≥ vector.length then resize vector (ordinal + 8).toNat else vector) =
      vector ++ List.replicate (grow slack vector.length ordinal.toNat - vector.length) default := by
    by_cases outside : ordinal.toNat ≥ vector.length
    · rw [if_pos outside, resize, toNat_add_eight bounded, List.take_of_length_le (by omega), grow,
        if_neg (Nat.not_lt.mpr outside)]
    · rw [if_neg outside, grow, if_pos (Nat.lt_of_not_ge outside), Nat.sub_self, List.replicate_zero,
        List.append_nil]
  have inside := lt_grow positive vector.length ordinal.toNat
  have longer := le_grow slack vector.length ordinal.toNat
  rw [resizeVectorAndSet, resized, setAt, if_pos ?_, place, pure_is_ok]
  rw [List.length_append, List.length_replicate]
  omega

/-- If the entry is set, the size did not wrap around. -/
theorem resizeVectorAndSet_ok {ordinal : UInt32} {vector after : List T} {value : T}
    (ran : resizeVectorAndSet vector ordinal value = .ok after) :
    after = place slack vector ordinal.toNat value := by
  by_cases bounded : ordinal.toNat < 2 ^ 32 - 8
  · rw [resizeVectorAndSet_eq bounded] at ran
    exact (Except.ok.inj ran).symm
  · unfold resizeVectorAndSet setAt at ran
    by_cases inside : ordinal.toNat < vector.length
    · rw [if_neg (Nat.not_le.mpr inside), if_pos inside] at ran
      rw [place, grow, if_pos inside, Nat.sub_self, List.replicate_zero, List.append_nil]
      exact (Except.ok.inj ran).symm
    · have wrapped : (ordinal + 8).toNat ≤ ordinal.toNat := by
        have sum : (ordinal + 8).toNat = (ordinal.toNat + 8) % 2 ^ 32 := UInt32.toNat_add ordinal 8
        have top := ordinal.toNat_lt
        omega
      have short : ¬ ordinal.toNat < (resize vector (ordinal + 8).toNat).length := by
        simp only [resize, List.length_append, List.length_take, List.length_replicate]
        omega
      rw [if_pos (Nat.le_of_not_lt inside), if_neg short] at ran
      cases ran

end ShipNet.OrdinalVector
