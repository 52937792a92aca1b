import Mathlib.Data.List.TakeWhile
import Mathlib.Data.Nat.Digits.Lemmas

/-! Unsigned integers as text, of characters that are given by their ASCII codes: what the
C library makes of a text, and the decimal text of a number. -/
namespace ShipNet.IntegerText

/-- `isspace` in the "C" locale. -/
def isSpace (character : UInt8) : Bool :=
  character = 32 ∨ 9 ≤ character.toNat ∧ character.toNat ≤ 13

/-- What a digit or a letter stands for. Other characters are a digit in no base. -/
def digitValue (character : UInt8) : Nat :=
  if 48 ≤ character.toNat ∧ character.toNat ≤ 57 then character.toNat - 48
  else if 97 ≤ character.toNat ∧ character.toNat ≤ 122 then character.toNat - 97 + 10
  else if 65 ≤ character.toNat ∧ character.toNat ≤ 90 then character.toNat - 65 + 10
  else 36

def isDigit (base : Nat) (character : UInt8) : Bool :=
  digitValue character < base

/-- The number that these digits stand for, the most significant first. -/
def magnitude (base : Nat) (digits : List UInt8) : Nat :=
  Nat.ofDigits base (digits.reverse.map digitValue)

/-- Whether there is a minus sign, and what is behind the sign. -/
def takeSign : List UInt8 → Bool × List UInt8
  | [] => (false, [])
  | character :: text =>
    if character = 45 then (true, text) else if character = 43 then (false, text) else (false, character :: text)

/-- What is behind an `0x` or `0X` that a digit follows, in base 16. -/
def dropPrefix (base : Nat) : List UInt8 → List UInt8
  | zero :: mark :: digit :: text =>
    if base = 16 ∧ zero = 48 ∧ (mark = 120 ∨ mark = 88) ∧ isDigit base digit then digit :: text
    else zero :: mark :: digit :: text
  | text => text

/-- The greatest number of 64 bits stands for all that do not fit. -/
def saturate (number : Nat) : UInt64 :=
  if number < 2 ^ 64 then .ofNat number else 0xFFFFFFFFFFFFFFFF

/-- `strtoull(text, &end, base)` for a base of 2 to 36: the number, and the text from `end`
on. A minus sign negates a number that fits. Without digits nothing is taken. -/
def strtoull (base : Nat) (text : List UInt8) : UInt64 × List UInt8 :=
  let (negative, unsigned) := takeSign (text.dropWhile isSpace)
  let digits := dropPrefix base unsigned
  let subject := digits.takeWhile (isDigit base)
  if subject = [] then (0, text)
  else
    let number := magnitude base subject
    (if negative ∧ number < 2 ^ 64 then -.ofNat number else saturate number, digits.dropWhile (isDigit base))

/-- `std::to_string` of an unsigned number. -/
def decimal (number : Nat) : List UInt8 :=
  if number = 0 then [48] else (Nat.digits 10 number).reverse.map fun digit => 48 + .ofNat digit

/-! ### Digits -/

variable {base : Nat} {character : UInt8} {digits others : List UInt8}

/-- All of these characters are digits. -/
def Digits (base : Nat) (text : List UInt8) : Prop := ∀ character ∈ text, isDigit base character = true

theorem isDigit_iff : isDigit base character = true ↔ digitValue character < base := decide_eq_true_iff

theorem Digits.mono {greater : Nat} (all : Digits base digits) (more : base ≤ greater) : Digits greater digits :=
  fun character member => isDigit_iff.mpr (Nat.lt_of_lt_of_le (isDigit_iff.mp (all character member)) more)

theorem Digits.append (first : Digits base digits) (second : Digits base others) : Digits base (digits ++ others) :=
  fun character member => (List.mem_append.mp member).elim (first character) (second character)

theorem Digits.take (all : Digits base digits) (count : Nat) : Digits base (digits.take count) :=
  fun character member => all character (List.mem_of_mem_take member)

theorem Digits.drop (all : Digits base digits) (count : Nat) : Digits base (digits.drop count) :=
  fun character member => all character (List.mem_of_mem_drop member)

theorem Digits.values (all : Digits base digits) : ∀ value ∈ digits.reverse.map digitValue, value < base := by
  intro value member
  obtain ⟨character, present, rfl⟩ := List.mem_map.mp member
  exact isDigit_iff.mp (all character (List.mem_reverse.mp present))

theorem magnitude_append (base : Nat) (first second : List UInt8) :
    magnitude base (first ++ second) = magnitude base first * base ^ second.length + magnitude base second := by
  rw [magnitude, List.reverse_append, List.map_append, Nat.ofDigits_append, List.length_map, List.length_reverse,
    ← magnitude, ← magnitude]
  ring

theorem magnitude_singleton (base : Nat) (character : UInt8) : magnitude base [character] = digitValue character :=
  Nat.ofDigits_singleton

theorem magnitude_lt (more : 1 < base) (all : Digits base digits) : magnitude base digits < base ^ digits.length := by
  have bound := Nat.ofDigits_lt_base_pow_length more all.values
  rwa [List.length_map, List.length_reverse] at bound

/-- A number with a first digit that is not zero. -/
theorem le_magnitude (first : digitValue character ≠ 0) (digits : List UInt8) :
    base ^ digits.length ≤ magnitude base (character :: digits) := by
  rw [← List.singleton_append, magnitude_append, magnitude_singleton]
  exact Nat.le_trans (Nat.le_mul_of_pos_left _ (Nat.pos_of_ne_zero first)) (Nat.le_add_right _ _)

/-- As many digits for the same number are the same digits, up to their case. -/
theorem magnitude_inj (more : 1 < base) (all : Digits base digits) (too : Digits base others)
    (length : digits.length = others.length) (same : magnitude base digits = magnitude base others) :
    digits.map digitValue = others.map digitValue := by
  have reversed := Nat.ofDigits_inj_of_len_eq more (by simp [length]) all.values too.values same
  rwa [List.map_reverse, List.map_reverse, List.reverse_inj] at reversed

theorem magnitude_eq_replicate_iff (more : 1 < base) (all : Digits base digits) (digit : isDigit base character = true) :
    magnitude base digits = magnitude base (List.replicate digits.length character) ↔
      ∀ other ∈ digits, digitValue other = digitValue character := by
  have repeated : Digits base (List.replicate digits.length character) := by
    intro other member
    rw [List.eq_of_mem_replicate member]
    exact digit
  constructor
  · intro same
    have values := magnitude_inj more all repeated List.length_replicate.symm same
    rw [List.map_replicate] at values
    intro other member
    exact List.eq_of_mem_replicate (values ▸ List.mem_map_of_mem member)
  · intro each
    have values : digits.map digitValue = List.replicate digits.length (digitValue character) :=
      List.eq_replicate_iff.mpr ⟨List.length_map _, by simpa using each⟩
    rw [magnitude, magnitude, List.map_reverse, List.map_reverse, values, List.map_replicate]

theorem digitValue_eq_zero : digitValue character = 0 ↔ character = 48 := by
  rw [← UInt8.toNat_inj]
  show digitValue character = 0 ↔ character.toNat = 48
  unfold digitValue
  split
  · omega
  · split
    · omega
    · split <;> omega

/-- The digit f, of either case. -/
theorem digitValue_eq_fifteen : digitValue character = 15 ↔ character = 102 ∨ character = 70 := by
  rw [← UInt8.toNat_inj, ← UInt8.toNat_inj]
  show digitValue character = 15 ↔ character.toNat = 102 ∨ character.toNat = 70
  unfold digitValue
  split
  · omega
  · split
    · omega
    · split <;> omega

/-- The digits of any base are the decimal ones and the letters. -/
theorem digit_code (value : digitValue character < 36) :
    48 ≤ character.toNat ∧ character.toNat ≤ 57 ∨ 97 ≤ character.toNat ∧ character.toNat ≤ 122 ∨
      65 ≤ character.toNat ∧ character.toNat ≤ 90 := by
  unfold digitValue at value
  split at value
  · rename_i decimal
    exact .inl decimal
  · split at value
    · rename_i small
      exact .inr (.inl small)
    · split at value
      · rename_i capital
        exact .inr (.inr capital)
      · exact absurd value (Nat.lt_irrefl 36)

/-! ### A text of digits alone -/

theorem digit_is_no_space (small : base ≤ 36) (digit : isDigit base character = true) : isSpace character = false := by
  have code := digit_code (Nat.lt_of_lt_of_le (isDigit_iff.mp digit) small)
  apply decide_eq_false
  rw [← UInt8.toNat_inj]
  show ¬ (character.toNat = 32 ∨ _)
  omega

theorem digit_is_no_sign (small : base ≤ 36) (digit : isDigit base character = true) :
    character ≠ 45 ∧ character ≠ 43 := by
  have code := digit_code (Nat.lt_of_lt_of_le (isDigit_iff.mp digit) small)
  constructor
  · rintro rfl
    exact absurd code (by decide)
  · rintro rfl
    exact absurd code (by decide)

/-- The mark of a prefix is no digit of base 16. -/
theorem dropPrefix_digits (all : Digits base digits) : dropPrefix base digits = digits := by
  unfold dropPrefix
  split
  · rename_i zero mark digit text
    rw [if_neg]
    rintro ⟨rfl, -, marked, -⟩
    have value := all mark (List.mem_cons_of_mem _ List.mem_cons_self)
    rcases marked with rfl | rfl
    · cases value
    · cases value
  · rfl

theorem strtoull_digits (small : base ≤ 36) (all : Digits base digits) (nonempty : digits ≠ []) :
    strtoull base digits = (saturate (magnitude base digits), []) := by
  obtain ⟨first, rest, rfl⟩ := List.exists_cons_of_ne_nil nonempty
  have digit := all first List.mem_cons_self
  have noSpace : (first :: rest).dropWhile isSpace = first :: rest := by
    rw [List.dropWhile_cons_of_neg]
    rw [digit_is_no_space small digit]
    exact Bool.false_ne_true
  have unsigned : takeSign (first :: rest) = (false, first :: rest) := by
    obtain ⟨minus, plus⟩ := digit_is_no_sign small digit
    rw [takeSign, if_neg minus, if_neg plus]
  have subject : (first :: rest).takeWhile (isDigit base) = first :: rest := List.takeWhile_eq_self_iff.mpr all
  have nothing : (first :: rest).dropWhile (isDigit base) = [] := List.dropWhile_eq_nil_iff.mpr all
  simp only [strtoull, noSpace, unsigned, dropPrefix_digits all, subject, nothing, if_neg nonempty,
    Bool.false_eq_true, false_and, if_false]

theorem strtoull_nothing (base : Nat) : strtoull base [] = (0, []) := rfl

theorem saturate_full {number : Nat} (large : 2 ^ 64 ≤ number) : saturate number = 0xFFFFFFFFFFFFFFFF :=
  if_neg (Nat.not_lt.mpr large)

/-! ### Decimal texts -/

theorem digitValue_decimal : ∀ digit < 10, digitValue (48 + .ofNat digit) = digit := by
  decide

theorem decimal_digits (number : Nat) : Digits 10 (decimal number) := by
  intro character member
  unfold decimal at member
  split at member
  · rw [List.mem_singleton.mp member]
    rfl
  · obtain ⟨digit, present, rfl⟩ := List.mem_map.mp member
    have small := Nat.digits_lt_base (by omega) (List.mem_reverse.mp present)
    rw [isDigit_iff, digitValue_decimal digit small]
    exact small

theorem length_decimal_le {number count : Nat} (bound : number < 10 ^ (count + 1)) :
    (decimal number).length ≤ count + 1 := by
  unfold decimal
  split
  · exact Nat.le_add_left 1 count
  · rw [List.length_map, List.length_reverse]
    exact (Nat.digits_length_le_iff (by omega) number).mpr bound

/-- A number that is not zero has no zeros in front. -/
theorem decimal_first {number : Nat} (positive : number ≠ 0) :
    ∃ first rest, decimal number = first :: rest ∧ digitValue first ≠ 0 := by
  have nonempty : Nat.digits 10 number ≠ [] := Nat.digits_ne_nil_iff_ne_zero.mpr positive
  have last := Nat.getLast_digit_ne_zero 10 positive
  have small := Nat.digits_lt_base (by omega) (List.getLast_mem nonempty)
  have reversed : (Nat.digits 10 number).reverse =
      (Nat.digits 10 number).getLast nonempty :: (Nat.digits 10 number).dropLast.reverse := by
    rw [← List.reverse_concat, List.dropLast_append_getLast nonempty]
  refine ⟨_, _, by rw [decimal, if_neg positive, reversed, List.map_cons], ?_⟩
  rw [digitValue_decimal _ small]
  exact last

end ShipNet.IntegerText
