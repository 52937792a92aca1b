import Mathlib.Data.List.Basic
import Mathlib.Tactic.Ring

/-! Numbers as a fixed count of bytes, the most significant first. -/
namespace ShipNet.BigEndian

def encode (value : Nat) : Nat → List UInt8
  | 0 => []
  | count + 1 => UInt8.ofNat (value / 256 ^ count) :: encode value count

/-- The number of which `bytes` are further digits after `high`. -/
def decode (high : Nat) : List UInt8 → Nat
  | [] => high
  | byte :: bytes => decode (high * 256 + byte.toNat) bytes

@[simp] theorem length_encode (value count : Nat) : (encode value count).length = count := by
  induction count with
  | zero => rfl
  | succ count ih => simp [encode, ih]

theorem decode_eq (high : Nat) (bytes : List UInt8) :
    decode high bytes = high * 256 ^ bytes.length + decode 0 bytes := by
  induction bytes generalizing high with
  | nil => simp [decode]
  | cons byte bytes ih =>
    rw [decode, ih, decode, ih (0 * 256 + byte.toNat), List.length_cons]
    ring

theorem decode_append (first second : List UInt8) :
    decode 0 (first ++ second) = decode 0 first * 256 ^ second.length + decode 0 second := by
  have digits (high : Nat) : decode high (first ++ second) = decode (decode high first) second := by
    induction first generalizing high with
    | nil => rfl
    | cons byte first ih => exact ih _
  rw [digits, decode_eq]

theorem decode_lt (bytes : List UInt8) : decode 0 bytes < 256 ^ bytes.length := by
  induction bytes with
  | nil => simp [decode]
  | cons byte bytes ih =>
    have bound : byte.toNat < 256 := byte.toNat_lt
    rw [decode, decode_eq, Nat.zero_mul, Nat.zero_add, List.length_cons, Nat.pow_succ]
    calc byte.toNat * 256 ^ bytes.length + decode 0 bytes
        < byte.toNat * 256 ^ bytes.length + 256 ^ bytes.length := by omega
      _ = (byte.toNat + 1) * 256 ^ bytes.length := by ring
      _ ≤ 256 * 256 ^ bytes.length := Nat.mul_le_mul_right _ bound
      _ = 256 ^ bytes.length * 256 := Nat.mul_comm _ _

theorem decode_encode (value count : Nat) : decode 0 (encode value count) = value % 256 ^ count := by
  induction count with
  | zero => simp [encode, decode, Nat.mod_one]
  | succ count ih =>
    rw [encode, decode, decode_eq, ih, length_encode, Nat.zero_mul, Nat.zero_add, UInt8.toNat_ofNat']
    have split := Nat.mod_mul (a := 256 ^ count) (b := 256) (x := value)
    rw [Nat.pow_succ 256, split]
    ring

theorem encode_mod (value count : Nat) {wider : Nat} (within : count ≤ wider) :
    encode (value % 256 ^ wider) count = encode value count := by
  induction count with
  | zero => rfl
  | succ count ih =>
    have split : 256 ^ wider = 256 ^ count * (256 * 256 ^ (wider - (count + 1))) := by
      rw [← Nat.pow_succ', ← Nat.pow_add]
      congr 1
      omega
    have same : value % 256 ^ wider / 256 ^ count % 256 = value / 256 ^ count % 256 := by
      rw [split, Nat.mod_mul_right_div_self, Nat.mod_mul_right_mod]
    rw [encode, encode, ih (by omega)]
    congr 1
    apply UInt8.toNat_inj.mp
    simpa only [UInt8.toNat_ofNat'] using same

theorem encode_add (value high low : Nat) :
    encode value (high + low) = encode (value / 256 ^ low) high ++ encode value low := by
  induction high with
  | zero => rw [Nat.zero_add, encode, List.nil_append]
  | succ high ih =>
    have place : value / 256 ^ low / 256 ^ high = value / 256 ^ (high + low) := by
      rw [Nat.div_div_eq_div_mul, ← Nat.pow_add, Nat.add_comm low high]
    rw [Nat.succ_add, encode, encode, place, ih, List.cons_append]

theorem encode_decode (bytes : List UInt8) : encode (decode 0 bytes) bytes.length = bytes := by
  induction bytes with
  | nil => rfl
  | cons byte bytes ih =>
    have positive : 0 < 256 ^ bytes.length := Nat.pow_pos (by decide)
    have low := decode_lt bytes
    have whole : decode 0 (byte :: bytes) = byte.toNat * 256 ^ bytes.length + decode 0 bytes := by
      rw [decode, decode_eq, Nat.zero_mul, Nat.zero_add]
    have high : decode 0 (byte :: bytes) / 256 ^ bytes.length = byte.toNat := by
      rw [whole, Nat.add_comm, Nat.add_mul_div_right _ _ positive, Nat.div_eq_of_lt low, Nat.zero_add]
    have rest : decode 0 (byte :: bytes) % 256 ^ bytes.length = decode 0 bytes := by
      rw [whole, Nat.add_comm, Nat.add_mul_mod_self_right, Nat.mod_eq_of_lt low]
    rw [List.length_cons, encode, high, ← encode_mod _ _ (Nat.le_refl _), rest, ih]
    simp

end ShipNet.BigEndian
