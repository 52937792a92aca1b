import Mathlib.Algebra.Order.BigOperators.Group.List
import Mathlib.Data.List.Basic
import Mathlib.Tactic.Ring

/-! Numbers as bytes of seven bits each, the least significant first, in which
every byte but the last has its top bit set. -/
namespace ShipNet.Base128

/-- The shortest form of a number. -/
def encode (value : Nat) : List UInt8 :=
  if value < 128 then [UInt8.ofNat value] else UInt8.ofNat (value % 128 + 128) :: encode (value / 128)
termination_by value
decreasing_by omega

/-- The sum of the digits, whatever their top bits. -/
def value : List UInt8 → Nat
  | [] => 0
  | byte :: bytes => byte.toNat % 128 + 128 * value bytes

/-- A last byte after bytes that announce another one. -/
def Terminated : List UInt8 → Prop
  | [] => False
  | [byte] => byte.toNat < 128
  | byte :: next :: bytes => 128 ≤ byte.toNat ∧ Terminated (next :: bytes)

/-- What a reader of at most `limit` bytes makes of a byte sequence, with the
bytes it leaves. -/
inductive Outcome where
  | complete (value : Nat) (rest : List UInt8)
  /-- The bytes end before the number does. -/
  | incomplete
  /-- The number goes on after `limit` bytes, of this value. -/
  | overlong (value : Nat) (rest : List UInt8)

def Outcome.rest : Outcome → List UInt8
  | complete _ rest => rest
  | incomplete => []
  | overlong _ rest => rest

/-- The same with one more digit before. -/
def Outcome.shift (digit : Nat) : Outcome → Outcome
  | complete value rest => complete (digit + 128 * value) rest
  | incomplete => incomplete
  | overlong value rest => overlong (digit + 128 * value) rest

@[simp] theorem Outcome.rest_shift (outcome : Outcome) (digit : Nat) :
    (outcome.shift digit).rest = outcome.rest := by
  cases outcome <;> rfl

def decode : (limit : Nat) → List UInt8 → Outcome
  | 0, bytes => .overlong 0 bytes
  | _ + 1, [] => .incomplete
  | limit + 1, byte :: bytes =>
    if byte.toNat < 128 then .complete byte.toNat bytes
    else (decode limit bytes).shift (byte.toNat % 128)

theorem encode_small {number : Nat} (small : number < 128) : encode number = [UInt8.ofNat number] := by
  rw [encode, if_pos small]

theorem encode_large {number : Nat} (large : ¬ number < 128) :
    encode number = UInt8.ofNat (number % 128 + 128) :: encode (number / 128) := by
  rw [encode, if_neg large]

theorem Terminated.ne_nil {bytes : List UInt8} (terminated : Terminated bytes) : bytes ≠ [] := by
  rintro rfl
  exact terminated

theorem terminated_cons {byte : UInt8} {bytes : List UInt8} (more : 128 ≤ byte.toNat)
    (terminated : Terminated bytes) : Terminated (byte :: bytes) := by
  cases bytes with
  | nil => cases terminated
  | cons next bytes => exact ⟨more, terminated⟩

theorem encode_terminated (number : Nat) : Terminated (encode number) := by
  induction number using Nat.strongRecOn with
  | ind number ih =>
    by_cases small : number < 128
    · rw [encode_small small]
      simp only [Terminated, UInt8.toNat_ofNat']
      omega
    · rw [encode_large small]
      refine terminated_cons ?_ (ih (number / 128) (by omega))
      rw [UInt8.toNat_ofNat']
      omega

theorem value_encode (number : Nat) : value (encode number) = number := by
  induction number using Nat.strongRecOn with
  | ind number ih =>
    by_cases small : number < 128
    · rw [encode_small small]
      simp only [value, UInt8.toNat_ofNat']
      omega
    · rw [encode_large small, value, ih (number / 128) (by omega), UInt8.toNat_ofNat']
      omega

theorem length_encode_le (count number : Nat) (bound : number < 128 ^ (count + 1)) :
    (encode number).length ≤ count + 1 := by
  induction count generalizing number with
  | zero => rw [encode_small (by omega)]; exact Nat.le_refl _
  | succ count ih =>
    by_cases small : number < 128
    · rw [encode_small small]
      simp
    · rw [encode_large small, List.length_cons]
      have shorter := ih (number / 128) (by
        rw [Nat.div_lt_iff_lt_mul (by decide), ← Nat.pow_succ]
        exact bound)
      omega

theorem lt_length_encode (count number : Nat) (bound : 128 ^ (count + 1) ≤ number) :
    count + 1 < (encode number).length := by
  induction count generalizing number with
  | zero =>
    have more : 128 ≤ number := by simpa using bound
    have rest := List.length_pos_iff.mpr (encode_terminated (number / 128)).ne_nil
    rw [encode_large (Nat.not_lt.mpr more), List.length_cons]
    omega
  | succ count ih =>
    have more : 128 ≤ number := Nat.le_trans (Nat.le_self_pow (by omega) 128) bound
    have further := ih (number / 128) ((Nat.le_div_iff_mul_le (by decide)).mpr (by rwa [← Nat.pow_succ]))
    rw [encode_large (Nat.not_lt.mpr more), List.length_cons]
    omega

/-- A terminated sequence is read to its last byte, and no further. -/
theorem decode_terminated {limit : Nat} {bytes : List UInt8} (terminated : Terminated bytes)
    (within : bytes.length ≤ limit) (rest : List UInt8) :
    decode limit (bytes ++ rest) = .complete (value bytes) rest := by
  induction bytes generalizing limit with
  | nil => cases terminated
  | cons byte bytes ih =>
    obtain ⟨limit, rfl⟩ : ∃ fewer, limit = fewer + 1 := ⟨limit - 1, by simp at within; omega⟩
    cases bytes with
    | nil =>
      have last : byte.toNat < 128 := terminated
      simp [decode, last, value, Nat.mod_eq_of_lt last]
    | cons next bytes =>
      have more : ¬ byte.toNat < 128 := Nat.not_lt.mpr terminated.1
      have further := ih terminated.2 (by simpa using within)
      rw [List.cons_append, decode, if_neg more, further, Outcome.shift]
      rfl

theorem decode_encode {limit number : Nat} (within : (encode number).length ≤ limit)
    (rest : List UInt8) : decode limit (encode number ++ rest) = .complete number rest := by
  rw [decode_terminated (encode_terminated number) within, value_encode]

/-- Cut short, it is incomplete, and read to its end all the same. -/
theorem decode_cut {limit : Nat} {first second : List UInt8} (terminated : Terminated (first ++ second))
    (cut : second ≠ []) (within : first.length < limit) : decode limit first = .incomplete := by
  induction first generalizing limit with
  | nil =>
    obtain ⟨limit, rfl⟩ : ∃ fewer, limit = fewer + 1 := ⟨limit - 1, by simp at within; omega⟩
    rfl
  | cons byte first ih =>
    obtain ⟨limit, rfl⟩ : ∃ fewer, limit = fewer + 1 := ⟨limit - 1, by simp at within; omega⟩
    have inner : 128 ≤ byte.toNat ∧ Terminated (first ++ second) := by
      cases joined : first ++ second with
      | nil => exact absurd (List.append_eq_nil_iff.mp joined).2 cut
      | cons next bytes => simpa only [List.cons_append, joined, Terminated] using terminated
    rw [decode, if_neg (Nat.not_lt.mpr inner.1), ih inner.2 (by simpa using within), Outcome.shift]

/-- What follows a cut is terminated as the whole is. -/
theorem Terminated.of_append {first second : List UInt8} (terminated : Terminated (first ++ second))
    (cut : second ≠ []) : Terminated second := by
  induction first with
  | nil => exact terminated
  | cons byte first ih =>
    cases joined : first ++ second with
    | nil => exact absurd (List.append_eq_nil_iff.mp joined).2 cut
    | cons next bytes =>
      rw [List.cons_append, joined] at terminated
      exact ih (joined ▸ terminated.2)

theorem value_append (first second : List UInt8) :
    value (first ++ second) = value first + 128 ^ first.length * value second := by
  induction first with
  | nil => simp [value]
  | cons byte first ih =>
    rw [List.cons_append, value, value, ih, List.length_cons]
    ring

theorem value_lt (bytes : List UInt8) : value bytes < 128 ^ bytes.length := by
  induction bytes with
  | nil => exact Nat.one_pos
  | cons byte bytes ih =>
    have digit : byte.toNat % 128 < 128 := Nat.mod_lt _ (by decide)
    rw [value, List.length_cons, Nat.pow_succ']
    omega

/-- Every digit times the power of 128 of its place, summed up. -/
def digitSum (bytes : List UInt8) : Nat :=
  (bytes.mapIdx fun place byte => byte.toNat % 128 * 128 ^ place).sum

theorem digitSum_eq_value (bytes : List UInt8) : digitSum bytes = value bytes := by
  have shifted (bytes : List UInt8) (start : Nat) :
      (bytes.mapIdx fun place byte => byte.toNat % 128 * 128 ^ (place + start)).sum = 128 ^ start * value bytes := by
    induction bytes generalizing start with
    | nil => simp [value]
    | cons byte bytes ih =>
      simp only [List.mapIdx_cons, List.sum_cons, Nat.zero_add, Nat.add_assoc, Nat.add_comm 1 start]
      rw [ih (start + 1), value]
      ring
  simpa [digitSum] using shifted bytes 0

theorem digit_le_digitSum {bytes : List UInt8} {place : Nat} {byte : UInt8} (there : bytes[place]? = some byte) :
    byte.toNat % 128 * 128 ^ place ≤ digitSum bytes := by
  obtain ⟨inside, rfl⟩ := List.getElem?_eq_some_iff.mp there
  exact List.le_sum_of_mem (List.mem_mapIdx.mpr ⟨place, inside, rfl⟩)

/-- Every byte announces another one. -/
def Continued (bytes : List UInt8) : Prop := ∀ byte ∈ bytes, 128 ≤ byte.toNat

theorem Continued.cons {byte : UInt8} {bytes : List UInt8} (more : 128 ≤ byte.toNat) (continued : Continued bytes) :
    Continued (byte :: bytes) :=
  List.forall_mem_cons.mpr ⟨more, continued⟩

theorem Continued.terminated {groups : List UInt8} {last : UInt8} (continued : Continued groups)
    (ends : last.toNat < 128) : Terminated (groups ++ [last]) := by
  induction groups with
  | nil => exact ends
  | cons byte groups ih =>
    obtain ⟨more, others⟩ := List.forall_mem_cons.mp continued
    exact terminated_cons more (ih others)

theorem Terminated.split {bytes : List UInt8} (terminated : Terminated bytes) :
    ∃ groups last, bytes = groups ++ [last] ∧ Continued groups ∧ last.toNat < 128 := by
  induction bytes with
  | nil => cases terminated
  | cons byte bytes ih =>
    cases bytes with
    | nil => exact ⟨[], byte, rfl, List.forall_mem_nil _, terminated⟩
    | cons next bytes =>
      obtain ⟨groups, last, same, continued, ends⟩ := ih terminated.2
      exact ⟨byte :: groups, last, congrArg (byte :: ·) same, continued.cons terminated.1, ends⟩

/-- No fewer bytes, terminated or not, have a value as great. -/
theorem length_encode_le_of_le_value {number : Nat} {bytes : List UInt8} (nonempty : bytes ≠ [])
    (bound : number ≤ value bytes) : (encode number).length ≤ bytes.length := by
  obtain ⟨byte, others, rfl⟩ := List.exists_cons_of_ne_nil nonempty
  apply length_encode_le others.length number
  exact Nat.lt_of_le_of_lt bound (value_lt (byte :: others))

/-- The ways in which a reader of at most `limit` bytes ends: behind the first byte
that announces no other one, behind `limit` bytes, or where there are no more bytes. -/
inductive Reading (limit : Nat) : List UInt8 → Outcome → Prop
  | complete {groups rest : List UInt8} {last : UInt8} (continued : Continued groups) (ends : last.toNat < 128)
      (within : groups.length + 1 ≤ limit) :
      Reading limit (groups ++ last :: rest) (.complete (value (groups ++ [last])) rest)
  | incomplete {groups : List UInt8} (continued : Continued groups) (short : groups.length < limit) :
      Reading limit groups .incomplete
  | overlong {groups rest : List UInt8} (continued : Continued groups) (full : groups.length = limit) :
      Reading limit (groups ++ rest) (.overlong (value groups) rest)

theorem Reading.shift {limit : Nat} {byte : UInt8} {bytes : List UInt8} {outcome : Outcome}
    (reading : Reading limit bytes outcome) (more : 128 ≤ byte.toNat) :
    Reading (limit + 1) (byte :: bytes) (outcome.shift (byte.toNat % 128)) := by
  cases reading with
  | complete continued ends within => exact .complete (continued.cons more) ends (Nat.succ_le_succ within)
  | incomplete continued short => exact .incomplete (continued.cons more) (Nat.succ_lt_succ short)
  | overlong continued full => exact .overlong (continued.cons more) (congrArg Nat.succ full)

theorem decode_reading (limit : Nat) (bytes : List UInt8) : Reading limit bytes (decode limit bytes) := by
  induction limit generalizing bytes with
  | zero => exact @Reading.overlong 0 [] bytes (List.forall_mem_nil _) rfl
  | succ limit ih =>
    cases bytes with
    | nil => exact .incomplete (List.forall_mem_nil _) (Nat.succ_pos limit)
    | cons byte bytes =>
      rw [decode]
      split
      · rename_i last
        have alone : Reading (limit + 1) ([] ++ byte :: bytes) (.complete (value ([] ++ [byte])) bytes) :=
          .complete (List.forall_mem_nil _) last (Nat.le_add_left 1 limit)
        simpa [value, Nat.mod_eq_of_lt last] using alone
      · rename_i more
        exact (ih bytes).shift (Nat.le_of_not_lt more)

/-- The first byte that announces no other one is the only first one. -/
theorem split_unique {groups others rest tail : List UInt8} {last final : UInt8} (continued : Continued groups)
    (continuedToo : Continued others) (ends : last.toNat < 128) (endsToo : final.toNat < 128)
    (same : groups ++ last :: rest = others ++ final :: tail) : groups = others ∧ last = final ∧ rest = tail := by
  induction groups generalizing others with
  | nil =>
    cases others with
    | nil =>
      cases same
      exact ⟨rfl, rfl, rfl⟩
    | cons byte others =>
      cases same
      exact absurd ends (Nat.not_lt.mpr (continuedToo _ List.mem_cons_self))
  | cons byte groups ih =>
    cases others with
    | nil =>
      cases same
      exact absurd endsToo (Nat.not_lt.mpr (continued _ List.mem_cons_self))
    | cons other others =>
      obtain ⟨rfl, further⟩ := List.cons.inj same
      obtain ⟨rfl, sameLast, sameRest⟩ := ih (fun byte member => continued byte (List.mem_cons_of_mem _ member))
        (fun byte member => continuedToo byte (List.mem_cons_of_mem _ member)) further
      exact ⟨rfl, sameLast, sameRest⟩

/-- What has room for `count` groups and a last one below `bound`. -/
theorem value_lt_iff {count bound : Nat} {groups : List UInt8} {last : UInt8} (ends : last.toNat < 128)
    (within : groups.length ≤ count) (positive : 0 < bound) :
    value (groups ++ [last]) < bound * 128 ^ count ↔ (groups.length = count → last.toNat < bound) := by
  have below := value_lt groups
  have sum : value (groups ++ [last]) = value groups + 128 ^ groups.length * last.toNat := by
    rw [value_append, value, value, Nat.mul_zero, Nat.add_zero, Nat.mod_eq_of_lt ends]
  rcases Nat.lt_or_eq_of_le within with fewer | full
  · refine iff_of_true ?_ fun full => absurd full (Nat.ne_of_lt fewer)
    calc value (groups ++ [last]) < 128 ^ (groups.length + 1) := by simpa using value_lt (groups ++ [last])
      _ ≤ 128 ^ count := Nat.pow_le_pow_right (by decide) fewer
      _ ≤ bound * 128 ^ count := Nat.le_mul_of_pos_left _ positive
  · rw [sum, ← full, forall_prop_of_true rfl]
    constructor
    · intro fits
      by_contra large
      have more := Nat.mul_le_mul_right (128 ^ groups.length) (Nat.le_of_not_lt large)
      rw [Nat.mul_comm last.toNat] at more
      omega
    · intro small
      calc value groups + 128 ^ groups.length * last.toNat
          < 128 ^ groups.length * (last.toNat + 1) := by rw [Nat.mul_succ]; omega
        _ ≤ 128 ^ groups.length * bound := Nat.mul_le_mul_left _ small
        _ = bound * 128 ^ groups.length := Nat.mul_comm _ _

/-- A reader that reports a number or gives up has used at least one byte. -/
theorem decode_rest_lt {limit : Nat} {bytes : List UInt8} (positive : 0 < limit) (nonempty : bytes ≠ []) :
    (decode limit bytes).rest.length < bytes.length := by
  induction limit generalizing bytes with
  | zero => omega
  | succ limit ih =>
    cases bytes with
    | nil => contradiction
    | cons byte bytes =>
      rw [decode]
      split
      · simp [Outcome.rest]
      · rw [Outcome.rest_shift]
        by_cases last : limit = 0
        · simp [last, decode, Outcome.rest]
        · by_cases empty : bytes = []
          · obtain ⟨fewer, rfl⟩ : ∃ fewer, limit = fewer + 1 := ⟨limit - 1, by omega⟩
            simp [empty, decode, Outcome.rest]
          · exact Nat.lt_succ_of_lt (ih (by omega) empty)

/-- The same for an outcome already found. -/
theorem decode_rest_lt_of_ne {limit : Nat} {bytes : List UInt8} {outcome : Outcome} (positive : 0 < limit)
    (found : decode limit bytes = outcome) (reported : outcome ≠ .incomplete) :
    outcome.rest.length < bytes.length := by
  subst found
  by_cases empty : bytes = []
  · obtain ⟨fewer, rfl⟩ : ∃ fewer, limit = fewer + 1 := ⟨limit - 1, by omega⟩
    exact absurd (by rw [empty]; rfl) reported
  · exact decode_rest_lt positive empty

end ShipNet.Base128
