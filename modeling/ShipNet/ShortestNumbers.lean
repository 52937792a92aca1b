import ShipNet.SizePrediction
import ShipNet.VariableNumbers

/-! `WriteVarInt` and `WriteVarLong` write a number as short as it can be: in as many
bytes as `VarIntBytes` and `VarLongBytes` predict, and the reads need as many for it. -/
namespace ShipNet.ByteBufferImpl
open Fallible ByteBuffer

variable {s : ByteBufferImpl} {cap width number : Nat} {content : List UInt8} {T : Type} {toNat : T → Nat}

/-- A write that ends, and adds `count` bytes, all but the last with bit 7 set. -/
def AddsGroups (count : Nat) (content : List UInt8) (write : Exec ByteBufferImpl) : Prop :=
  Returns write fun after => ∃ groups last, after.content = content ++ (groups ++ [last]) ∧
    groups.length + 1 = count ∧ (∀ byte ∈ groups, byte &&& 0x80 ≠ 0) ∧ last &&& 0x80 = 0

/-- A read that gives this value only for `count` bytes or more. -/
def NeedsBytes (count : Nat) (value : T) (read : ByteBufferImpl → Exec (Errorable T × ByteBufferImpl)) : Prop :=
  ∀ cap s result after, 0 < cap → Reachable cap s → read s = .ok (result, after) → result.isSuccess = true →
    result.value = value → ∃ used, s.content = used ++ after.content ∧ count ≤ used.length

/-- The shortest form of a number is such a sequence of groups. -/
theorem addsGroups_of_represents {write : Exec ByteBufferImpl}
    (returns : Returns write (Represents cap (content ++ Base128.encode number))) :
    AddsGroups (Base128.encode number).length content write := by
  refine returns.mono ?_
  intro after held
  obtain ⟨groups, last, same, continued, ends⟩ := (Base128.encode_terminated number).split
  refine ⟨groups, last, ?_, ?_, (continued_iff groups).mp continued, (top_bit_clear last).mpr ends⟩
  · rw [held.content, same]
  · rw [same, List.length_append, List.length_singleton]

/-- What the grammar makes of a number that does not fit is smaller than the number, so
leaving out digits gives no shorter form of the rest. -/
theorem FollowsGrammar.needs {limit : Nat} {bytes : List UInt8} {incomplete invalid : ErrorableType}
    {out : Errorable T × ByteBufferImpl}
    (follows : FollowsGrammar limit width toNat incomplete invalid cap bytes out)
    (invalidFails : invalid ≠ .success) (incompleteFails : incomplete ≠ .success) (success : out.1.isSuccess = true) :
    ∃ used, bytes = used ++ out.2.content ∧ (Base128.encode (toNat out.1.value)).length ≤ used.length := by
  obtain ⟨groups, last, rest, rfl, -, -, -, value, left⟩ := follows.split invalidFails incompleteFails success
  refine ⟨groups ++ [last], ?_, ?_⟩
  · rw [left.content, List.append_assoc, List.singleton_append]
  · apply Base128.length_encode_le_of_le_value
    · simp
    · rw [value, Base128.digitSum_eq_value]
      exact Nat.mod_le _ _

theorem readVarInt_needs (value : UInt32) : NeedsBytes (varIntBytes value).toNat value readVarInt := by
  rintro cap s result after positive reachable ran success rfl
  obtain ⟨out, same, follows⟩ := (reads_follow_grammar positive reachable).1
  cases ran.symm.trans same
  rw [varIntBytes_eq]
  exact follows.needs nofun nofun success

theorem readVarLong_needs (value : UInt64) : NeedsBytes (varLongBytes value).toNat value readVarLong := by
  rintro cap s result after positive reachable ran success rfl
  obtain ⟨out, same, follows⟩ := (reads_follow_grammar positive reachable).2
  cases ran.symm.trans same
  rw [varLongBytes_eq]
  exact follows.needs nofun nofun success

/-- A number is written in the bytes that are predicted for it, and is not read from
fewer. -/
theorem variable_numbers_are_shortest (positive : 0 < cap) (reachable : Reachable cap s) :
    (∀ value : UInt32, AddsGroups (varIntBytes value).toNat s.content (s.writeVarInt value) ∧
      NeedsBytes (varIntBytes value).toNat value readVarInt) ∧
    ∀ value : UInt64, AddsGroups (varLongBytes value).toNat s.content (s.writeVarLong value) ∧
      NeedsBytes (varLongBytes value).toNat value readVarLong := by
  have held := reachable.represents positive
  constructor
  · intro value
    refine ⟨?_, readVarInt_needs value⟩
    rw [varIntBytes_eq]
    exact addsGroups_of_represents (writeVarInt_represents held value)
  · intro value
    refine ⟨?_, readVarLong_needs value⟩
    rw [varLongBytes_eq]
    exact addsGroups_of_represents (writeVarLong_represents held value)

/-- The greatest numbers, in a buffer of one-byte segments. -/
theorem greatest_numbers_are_shortest :
    AddsGroups 5 [] (writeVarInt (new (fun _ _ => 0) 1) 0xFFFFFFFF) ∧
      NeedsBytes 10 (0xFFFFFFFFFFFFFFFF : UInt64) readVarLong := by
  have shortest := variable_numbers_are_shortest (show 0 < 1 from Nat.one_pos) (.new fun _ _ => 0)
  exact ⟨(shortest.1 0xFFFFFFFF).1, (shortest.2 0xFFFFFFFFFFFFFFFF).2⟩

end ShipNet.ByteBufferImpl
