import ShipNet.CodecProofs
import ShipNet.ReachableBuffer

/-! `ReadVarInt` and `ReadVarLong` against the grammar of their numbers, over any content
and any segments. The last group of a number of maximal length has more digits than fit,
and what does not fit is lost without an error. -/
namespace ShipNet.ByteBufferImpl
open Fallible

variable {s : ByteBufferImpl} {cap limit width : Nat} {bytes : List UInt8} {T : Type} {toNat : T → Nat}
  {incomplete invalid : ErrorableType}

/-- What a read of a number of at most `limit` bytes makes of the content: the sum of the
digits modulo 2^width, up to the first byte with bit 7 clear; an error behind `limit`
bytes with bit 7 set; an error at the end of fewer such bytes. -/
inductive FollowsGrammar (limit width : Nat) (toNat : T → Nat) (incomplete invalid : ErrorableType) (cap : Nat) :
    List UInt8 → Errorable T × ByteBufferImpl → Prop
  | decoded {groups rest : List UInt8} {last : UInt8} {out : Errorable T × ByteBufferImpl}
      (set : ∀ byte ∈ groups, byte &&& 0x80 ≠ 0) (clear : last &&& 0x80 = 0) (within : groups.length + 1 ≤ limit)
      (success : out.1.isSuccess = true)
      (value : toNat out.1.value = Base128.digitSum (groups ++ [last]) % 2 ^ width)
      (left : Represents cap rest out.2) :
      FollowsGrammar limit width toNat incomplete invalid cap (groups ++ last :: rest) out
  | overlong {groups rest : List UInt8} {out : Errorable T × ByteBufferImpl}
      (set : ∀ byte ∈ groups, byte &&& 0x80 ≠ 0) (full : groups.length = limit)
      (failure : out.1.typeOrdinal = invalid) (left : Represents cap rest out.2) :
      FollowsGrammar limit width toNat incomplete invalid cap (groups ++ rest) out
  | cut {groups : List UInt8} {out : Errorable T × ByteBufferImpl}
      (set : ∀ byte ∈ groups, byte &&& 0x80 ≠ 0) (short : groups.length < limit)
      (failure : out.1.typeOrdinal = incomplete) (left : Represents cap [] out.2) :
      FollowsGrammar limit width toNat incomplete invalid cap groups out

theorem top_bit_set (byte : UInt8) : byte &&& 0x80 ≠ 0 ↔ 128 ≤ byte.toNat := by
  rw [Ne, top_bit_clear, Nat.not_lt]

theorem continued_iff (groups : List UInt8) :
    Base128.Continued groups ↔ ∀ byte ∈ groups, byte &&& 0x80 ≠ 0 :=
  forall₂_congr fun byte _ => (top_bit_set byte).symm

/-- What a reader of so many bytes makes of the content follows the grammar. -/
private theorem followsGrammar_of_decode {out : Errorable T × ByteBufferImpl}
    (left : Represents cap (Base128.decode limit bytes).rest out.2)
    (decoded : ∀ number rest, Base128.decode limit bytes = .complete number rest →
      out.1.isSuccess = true ∧ toNat out.1.value = number % 2 ^ width)
    (overlong : ∀ number rest, Base128.decode limit bytes = .overlong number rest → out.1.typeOrdinal = invalid)
    (cut : Base128.decode limit bytes = .incomplete → out.1.typeOrdinal = incomplete) :
    FollowsGrammar limit width toNat incomplete invalid cap bytes out := by
  have reading := Base128.decode_reading limit bytes
  generalize Base128.decode limit bytes = outcome at *
  cases reading with
  | complete continued ends within =>
    obtain ⟨success, value⟩ := decoded _ _ rfl
    refine .decoded ((continued_iff _).mp continued) ((top_bit_clear _).mpr ends) within success ?_ left
    rw [value, Base128.digitSum_eq_value]
  | incomplete continued short => exact .cut ((continued_iff _).mp continued) short (cut rfl) left
  | overlong continued full => exact .overlong ((continued_iff _).mp continued) full (overlong _ _ rfl) left

theorem readVarInt_grammar (held : Represents cap bytes s) :
    Returns s.readVarInt (FollowsGrammar 5 32 UInt32.toNat .incompleteVarInt .invalidVarInt cap bytes) := by
  refine (readVarInt_represents held).mono ?_
  rintro ⟨result, after⟩ ⟨answer, left⟩
  simp only at answer left
  refine followsGrammar_of_decode left ?_ ?_ ?_
  · intro number rest found
    rw [answer, found]
    exact ⟨rfl, UInt32.toNat_ofNat'⟩
  · intro number rest found
    rw [answer, found]
    rfl
  · intro found
    rw [answer, found]
    rfl

theorem readVarLong_grammar (held : Represents cap bytes s) :
    Returns s.readVarLong (FollowsGrammar 10 64 UInt64.toNat .incompleteVarLong .invalidVarLong cap bytes) := by
  refine (readVarLong_represents held).mono ?_
  rintro ⟨result, after⟩ ⟨answer, left⟩
  simp only at answer left
  refine followsGrammar_of_decode left ?_ ?_ ?_
  · intro number rest found
    rw [answer, found]
    exact ⟨rfl, UInt64.toNat_ofNat'⟩
  · intro number rest found
    rw [answer, found]
    rfl
  · intro found
    rw [answer, found]
    rfl

/-- Both reads follow their grammar on whatever is readable. -/
theorem reads_follow_grammar (positive : 0 < cap) (reachable : Reachable cap s) :
    Returns s.readVarInt (FollowsGrammar 5 32 UInt32.toNat .incompleteVarInt .invalidVarInt cap s.content) ∧
      Returns s.readVarLong
        (FollowsGrammar 10 64 UInt64.toNat .incompleteVarLong .invalidVarLong cap s.content) := by
  have held := reachable.represents positive
  exact ⟨readVarInt_grammar held, readVarLong_grammar held⟩

/-- A number whose bytes are in three segments. -/
theorem number_over_segments_follows_grammar : ∃ s reply,
    (new (fun _ _ => 0) 1).step (.writeBytes [0x83, 0x80, 1]) = .ok (s, reply) ∧
      Returns s.readVarInt (FollowsGrammar 5 32 UInt32.toNat .incompleteVarInt .invalidVarInt 1 s.content) := by
  obtain ⟨⟨s, reply⟩, ran, -⟩ := step_holds (represents_new (fun _ _ => 0) (show 0 < 1 by decide))
    (show Operation.Proper (.writeBytes [0x83, 0x80, 1]) from trivial)
  have reachable : Reachable 1 s := .called (.new _) (by trivial) ran
  exact ⟨s, reply, ran, (reads_follow_grammar (by decide) reachable).1⟩

/-! ### Numbers that do not fit -/

/-- A number that is read is the sum of its digits, each of them inside of the width,
and one that exceeds the width is refused. -/
def NotTruncated (width : Nat) (toNat : T → Nat) (content : List UInt8)
    (read : Exec (Errorable T × ByteBufferImpl)) : Prop :=
  Returns read fun out =>
    (out.1.isSuccess = true → ∀ used, content = used ++ out.2.content →
      toNat out.1.value = Base128.digitSum used ∧
        ∀ place byte, used[place]? = some byte → byte.toNat % 128 * 128 ^ place < 2 ^ width) ∧
    ∀ groups last rest, content = groups ++ last :: rest → (∀ byte ∈ groups, byte &&& 0x80 ≠ 0) →
      last &&& 0x80 = 0 → 2 ^ width ≤ Base128.digitSum (groups ++ [last]) → out.1.isSuccess = false

/-- A number of `limit` groups ends in one below `bound`. -/
def LastGroupBelow (limit bound : Nat) (content : List UInt8) : Prop :=
  ∀ groups last rest, content = groups ++ last :: rest → (∀ byte ∈ groups, byte &&& 0x80 ≠ 0) →
    last &&& 0x80 = 0 → groups.length + 1 = limit → last.toNat < bound

/-- A read that succeeds has read a number. -/
theorem FollowsGrammar.split {out : Errorable T × ByteBufferImpl}
    (follows : FollowsGrammar limit width toNat incomplete invalid cap bytes out) (invalidFails : invalid ≠ .success)
    (incompleteFails : incomplete ≠ .success) (success : out.1.isSuccess = true) :
    ∃ groups last rest, bytes = groups ++ last :: rest ∧ (∀ byte ∈ groups, byte &&& 0x80 ≠ 0) ∧ last &&& 0x80 = 0 ∧
      groups.length + 1 ≤ limit ∧ toNat out.1.value = Base128.digitSum (groups ++ [last]) % 2 ^ width ∧
      Represents cap rest out.2 := by
  cases follows with
  | decoded set clear within _ value left => exact ⟨_, _, _, rfl, set, clear, within, value, left⟩
  | overlong _ _ failure _ => exact absurd (failure ▸ of_decide_eq_true success) invalidFails
  | cut _ _ failure _ => exact absurd (failure ▸ of_decide_eq_true success) incompleteFails

/-- Where the content begins with such a number, the read succeeds. -/
private theorem FollowsGrammar.success {out : Errorable T × ByteBufferImpl}
    (follows : FollowsGrammar limit width toNat incomplete invalid cap bytes out) {groups rest : List UInt8}
    {last : UInt8} (split : bytes = groups ++ last :: rest) (clear : last &&& 0x80 = 0)
    (within : groups.length + 1 ≤ limit) : out.1.isSuccess = true := by
  cases follows with
  | decoded _ _ _ success _ _ => exact success
  | @overlong others tail _ othersSet full _ _ =>
    have inside : groups.length < others.length := by omega
    have here := congrArg (·[groups.length]?) split
    simp only [List.getElem?_append_left inside, List.getElem?_append_right (Nat.le_refl _), Nat.sub_self,
      List.getElem?_cons_zero] at here
    exact absurd clear (othersSet last (List.mem_of_getElem? here))
  | cut bytesSet _ _ _ =>
    exact absurd clear (bytesSet last (split ▸ List.mem_append_right _ List.mem_cons_self))

/-- Where it begins with a number of more groups than are read, the read fails. -/
private theorem FollowsGrammar.refuses {out : Errorable T × ByteBufferImpl}
    (follows : FollowsGrammar limit width toNat incomplete invalid cap bytes out) {groups rest : List UInt8}
    {last : UInt8} (split : bytes = groups ++ last :: rest) (set : ∀ byte ∈ groups, byte &&& 0x80 ≠ 0)
    (clear : last &&& 0x80 = 0) (longer : limit ≤ groups.length) (invalidFails : invalid ≠ .success)
    (incompleteFails : incomplete ≠ .success) : out.1.isSuccess = false := by
  cases follows with
  | decoded setToo clearToo within _ _ _ =>
    obtain ⟨rfl, -⟩ := Base128.split_unique ((continued_iff _).mpr setToo) ((continued_iff _).mpr set)
      ((top_bit_clear _).mp clearToo) ((top_bit_clear _).mp clear) split
    omega
  | overlong _ _ failure _ => exact decide_eq_false (failure ▸ invalidFails)
  | cut _ _ failure _ => exact decide_eq_false (failure ▸ incompleteFails)

/-- The room of a last group, as the width leaves it. -/
private theorem digitSum_lt_iff {count bound : Nat} {groups : List UInt8} {last : UInt8}
    (room : 2 ^ width = bound * 128 ^ count) (clear : last &&& 0x80 = 0) (within : groups.length ≤ count) :
    Base128.digitSum (groups ++ [last]) < 2 ^ width ↔ (groups.length = count → last.toNat < bound) := by
  have positive : 0 < bound := by
    apply Nat.pos_of_mul_pos_right (b := 128 ^ count)
    exact room ▸ Nat.two_pow_pos width
  rw [Base128.digitSum_eq_value, room, Base128.value_lt_iff ((top_bit_clear last).mp clear) within positive]

/-- A read that follows its grammar truncates nothing exactly if the last group has room
for its digits. -/
private theorem notTruncated_iff {read : Exec (Errorable T × ByteBufferImpl)} {count bound : Nat}
    (returns : Returns read (FollowsGrammar (count + 1) width toNat incomplete invalid cap bytes))
    (room : 2 ^ width = bound * 128 ^ count) (invalidFails : invalid ≠ .success)
    (incompleteFails : incomplete ≠ .success) :
    NotTruncated width toNat bytes read ↔ LastGroupBelow (count + 1) bound bytes := by
  obtain ⟨out, ran, follows⟩ := returns
  constructor
  · rintro ⟨same, ran', -, refused⟩ groups last rest split set clear full
    cases ran.symm.trans ran'
    have success := follows.success split clear (Nat.le_of_eq full)
    have fits : Base128.digitSum (groups ++ [last]) < 2 ^ width := by
      by_contra large
      rw [refused groups last rest split set clear (Nat.le_of_not_lt large)] at success
      cases success
    exact (digitSum_lt_iff room clear (by omega)).mp fits (by omega)
  · intro below
    refine ⟨out, ran, ?_, ?_⟩
    · intro success used split
      obtain ⟨groups, last, rest, rfl, set, clear, within, value, left⟩ :=
        follows.split invalidFails incompleteFails success
      rw [left.content] at split
      have taken : groups ++ [last] = used := by
        rw [← List.singleton_append, ← List.append_assoc] at split
        exact List.append_cancel_right split
      subst taken
      have fits := (digitSum_lt_iff room clear (Nat.le_of_succ_le_succ within)).mpr fun full =>
        below groups last rest rfl set clear (congrArg Nat.succ full)
      refine ⟨value.trans (Nat.mod_eq_of_lt fits), ?_⟩
      intro place byte there
      exact Nat.lt_of_le_of_lt (Base128.digit_le_digitSum there) fits
    · intro groups last rest split set clear large
      have longer : count < groups.length := by
        by_contra within
        refine absurd ((digitSum_lt_iff room clear (Nat.le_of_not_lt within)).mpr ?_) (Nat.not_lt.mpr large)
        exact fun full => below groups last rest split set clear (congrArg Nat.succ full)
      exact follows.refuses split set clear longer invalidFails incompleteFails

/-- No number is truncated exactly if the fifth group of a `VarInt` of five is below 16,
and the tenth of a `VarLong` of ten below 2. -/
theorem no_number_truncated_iff (positive : 0 < cap) (reachable : Reachable cap s) :
    (NotTruncated 32 UInt32.toNat s.content s.readVarInt ↔ LastGroupBelow 5 16 s.content) ∧
      (NotTruncated 64 UInt64.toNat s.content s.readVarLong ↔ LastGroupBelow 10 2 s.content) := by
  have held := reachable.represents positive
  exact ⟨notTruncated_iff (readVarInt_grammar held) (by decide) (by decide) (by decide),
    notTruncated_iff (readVarLong_grammar held) (by decide) (by decide) (by decide)⟩

/-- The greatest number of 32 bits. -/
theorem greatest_number_not_truncated : ∃ s reply,
    (new (fun _ _ => 0) 4).step (.writeBytes [0xFF, 0xFF, 0xFF, 0xFF, 0x0F]) = .ok (s, reply) ∧
      NotTruncated 32 UInt32.toNat s.content s.readVarInt := by
  obtain ⟨⟨s, reply⟩, ran, held⟩ := step_holds (represents_new (fun _ _ => 0) (show 0 < 4 by decide))
    (show Operation.Proper (.writeBytes [0xFF, 0xFF, 0xFF, 0xFF, 0x0F]) from trivial)
  have reachable : Reachable 4 s := .called (.new _) (by trivial) ran
  refine ⟨s, reply, ran, (no_number_truncated_iff (by decide) reachable).1.mpr ?_⟩
  intro groups last rest split set clear full
  have content : s.content = [0xFF, 0xFF, 0xFF, 0xFF] ++ [0x0F] := held.content
  have continued : Base128.Continued [0xFF, 0xFF, 0xFF, 0xFF] := by simp [Base128.Continued]
  obtain ⟨-, rfl, -⟩ := Base128.split_unique continued ((continued_iff _).mpr set) (by decide)
    ((top_bit_clear _).mp clear) (content.symm.trans split)
  decide

/-- A number of 35 bits. -/
theorem number_of_35_bits_is_truncated : ∃ s reply,
    (new (fun _ _ => 0) 4).step (.writeBytes [0xFF, 0xFF, 0xFF, 0xFF, 0x7F]) = .ok (s, reply) ∧
      s.readVarInt.map (fun out => (out.1, out.2.content)) = .ok (successErrorable 0xFFFFFFFF, []) ∧
      ¬ NotTruncated 32 UInt32.toNat s.content s.readVarInt := by
  have seen : (do
      let out ← (new (fun _ _ => 0) 4).step (.writeBytes [0xFF, 0xFF, 0xFF, 0xFF, 0x7F])
      let read ← out.1.readVarInt
      pure (out.1.content, read.1, read.2.content)) =
      .ok ([0xFF, 0xFF, 0xFF, 0xFF, 0x7F], successErrorable 0xFFFFFFFF, []) := rfl
  obtain ⟨⟨s, reply⟩, ran, seen⟩ := returns_of_bind seen
  obtain ⟨⟨result, after⟩, read, seen⟩ := returns_of_bind seen
  simp only [pure_is_ok, Except.ok.injEq, Prod.mk.injEq] at seen
  obtain ⟨content, rfl, empty⟩ := seen
  refine ⟨s, reply, ran, by rw [read, ← empty]; rfl, ?_⟩
  rintro ⟨out, same, value, -⟩
  cases read.symm.trans same
  obtain ⟨sum, -⟩ := value rfl s.content (by rw [empty, List.append_nil])
  rw [content] at sum
  have wrong : (0xFFFFFFFF : Nat) = Base128.digitSum [0xFF, 0xFF, 0xFF, 0xFF, 0x7F] := sum
  exact absurd wrong (by decide)

end ShipNet.ByteBufferImpl
