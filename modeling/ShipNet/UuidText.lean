import ShipNet.Codec
import ShipNet.IntegerText

/-! UUIDs as text. `ToString` writes the two halves in decimal and does not pad them, and
`Instantiate` takes both halves out of one hexadecimal number. A text with dashes is copied
into a string that stays empty. -/
namespace ShipNet.UUID
open Fallible IntegerText

def invalidUUIDSizeErrorable (argument : UInt64) : Errorable UUID :=
  invalidArgumentErrorable .invalidUUIDSize argument

/-- `string[index] = character`. Behind the last character there is a zero, and nothing
else may be assigned there. -/
def assignCharacter (string : List UInt8) (index : Nat) (character : UInt8) : Exec (List UInt8) :=
  if index < string.length then pure (string.set index character)
  else if index = string.length ∧ character = 0 then pure string
  else throw .outOfBounds

/-- `for (int i = first; i < last; ++i) tempString[cnt++] = uuid[i]`. -/
def copyCharacters (uuid : List UInt8) (first last : Nat) (copied : List UInt8 × Nat) : Exec (List UInt8 × Nat) :=
  (List.range' first (last - first)).foldlM (fun (tempString, cnt) i => do
    let tempString ← assignCharacter tempString cnt (uuid.getD i 0)
    pure (tempString, cnt + 1)) copied

/-- The copy of a text with dashes. Space is reserved in `tempString`, which is no size. -/
def withoutDashes (uuid : List UInt8) : Exec (List UInt8) := do
  let copied ← copyCharacters uuid 0 8 ([], 0)
  let copied ← copyCharacters uuid 8 13 copied
  let copied ← copyCharacters uuid 13 18 copied
  let copied ← copyCharacters uuid 18 23 copied
  let (tempString, _) ← copyCharacters uuid 23 36 copied
  pure tempString

/-- `UUID::Instantiate`. -/
def instantiate (uuid : List UInt8) : Exec (Errorable UUID) := do
  let inputUUID ← if uuid.length = 36 then withoutDashes uuid else pure uuid
  if inputUUID.length = 32 then do
    let (mostSignificant, behind) := strtoull 16 inputUUID
    let (leastSignificant, _) := strtoull 16 behind
    pure (successErrorable ⟨mostSignificant, leastSignificant⟩)
  else pure (invalidUUIDSizeErrorable (.ofNat inputUUID.length))

def toUndashedString (uuid : UUID) : List UInt8 :=
  decimal uuid.mostSignificant.toNat ++ decimal uuid.leastSignificant.toNat

/-- `string.insert(position, text)`, which checks the position. -/
def insert (string : List UInt8) (position : Nat) (text : List UInt8) : Exec (List UInt8) :=
  if position ≤ string.length then pure (string.take position ++ text ++ string.drop position)
  else throw .outOfBounds

/-- `UUID::ToString`. -/
def toString (uuid : UUID) : Exec (List UInt8) := do
  let string ← insert uuid.toUndashedString 20 [45]
  let string ← insert string 16 [45]
  let string ← insert string 12 [45]
  insert string 8 [45]

/-- Both texts can be written, and are read as the UUID that they were written of. -/
def RoundTrips (uuid : UUID) : Prop :=
  instantiate uuid.toUndashedString = .ok (successErrorable uuid) ∧
    Returns uuid.toString fun text => instantiate text = .ok (successErrorable uuid)

/-- 32 hexadecimal digits. -/
def IsUndashed (text : List UInt8) : Prop := text.length = 32 ∧ Digits 16 text

/-- With dashes behind the digits 8, 12, 16 and 20. -/
def dashed (text : List UInt8) : List UInt8 :=
  text.take 8 ++ 45 :: (text.drop 8).take 4 ++ 45 :: (text.drop 12).take 4 ++ 45 :: (text.drop 16).take 4 ++
    45 :: text.drop 20

/-- 32 zeros, or 16 digits f, of either case, before 16 zeros. -/
def ZeroOrFull (text : List UInt8) : Prop :=
  text = List.replicate 32 48 ∨
    ∃ first, first.length = 16 ∧ (∀ digit ∈ first, digit = 102 ∨ digit = 70) ∧ text = first ++ List.replicate 16 48

/-- The text is read as the UUID that it stands for, and refused if it stands for none. -/
def ReadsAsUUID (text : List UInt8) : Prop :=
  (IsUndashed text → instantiate text =
    .ok (successErrorable ⟨.ofNat (magnitude 16 (text.take 16)), .ofNat (magnitude 16 (text.drop 16))⟩)) ∧
  (∀ digits, IsUndashed digits → text = dashed digits → instantiate text = instantiate digits) ∧
  (¬ IsUndashed text → (∀ digits, IsUndashed digits → text ≠ dashed digits) →
    Returns (instantiate text) fun result => result.isSuccess = false)

/-! ### By the length of the text -/

variable {text : List UInt8}

theorem assignCharacter_empty (index : Nat) (character : UInt8) :
    assignCharacter [] index character = if index = 0 ∧ character = 0 then .ok [] else .error .outOfBounds := by
  exact if_neg (Nat.not_lt_zero index)

/-- At the latest the second character has no place in the empty string. -/
theorem instantiate_dashed (length : text.length = 36) : instantiate text = .error .outOfBounds := by
  have stopped : copyCharacters text 0 8 ([], 0) = .error .outOfBounds := by
    show List.foldlM _ ([], 0) (0 :: 1 :: List.range' 2 6) = _
    simp only [List.foldlM_cons, assignCharacter_empty]
    by_cases zero : text.getD 0 0 = 0
    · have second : assignCharacter [] 1 (text.getD 1 0) = .error .outOfBounds := assignCharacter_empty _ _
      simp only [zero, and_self, if_true, ok_bind, pure_is_ok, Nat.zero_add, second, error_bind]
    · simp only [zero, and_false, if_false, error_bind]
  simp only [instantiate, if_pos length, withoutDashes, stopped, error_bind]

theorem instantiate_undashed (length : text.length = 32) :
    instantiate text =
      .ok (successErrorable ⟨(strtoull 16 text).1, (strtoull 16 (strtoull 16 text).2).1⟩) := by
  have noDashes : ¬ text.length = 36 := by omega
  simp only [instantiate, if_neg noDashes, pure_is_ok, ok_bind, if_pos length]

theorem instantiate_refuses (noDashes : text.length ≠ 36) (noDigits : text.length ≠ 32) :
    instantiate text = .ok (invalidUUIDSizeErrorable (.ofNat text.length)) := by
  simp only [instantiate, if_neg noDashes, pure_is_ok, ok_bind, if_neg noDigits]

/-- The first number takes all digits, and leaves none to the second. -/
theorem instantiate_digits (undashed : IsUndashed text) :
    instantiate text = .ok (successErrorable ⟨saturate (magnitude 16 text), 0⟩) := by
  have nonempty : text ≠ [] := by
    rintro rfl
    cases undashed.1
  rw [instantiate_undashed undashed.1, strtoull_digits (by omega) undashed.2 nonempty, strtoull_nothing]

/-! ### What is written -/

theorem length_half (half : UInt64) : (decimal half.toNat).length ≤ 20 := by
  have bound := half.toNat_lt
  exact length_decimal_le (by omega)

/-- A text of 32 characters has no zero in front, so as a hexadecimal number it does not fit. -/
theorem instantiate_written {uuid : UUID} (length : uuid.toUndashedString.length = 32) :
    instantiate uuid.toUndashedString = .ok (successErrorable ⟨0xFFFFFFFFFFFFFFFF, 0⟩) := by
  have undashed : IsUndashed uuid.toUndashedString :=
    ⟨length, ((decimal_digits _).append (decimal_digits _)).mono (by omega)⟩
  have longest := length_half uuid.leastSignificant
  rw [toUndashedString, List.length_append] at length
  have notZero : uuid.mostSignificant.toNat ≠ 0 := by
    intro zero
    rw [zero] at length
    have single : (decimal 0).length = 1 := rfl
    omega
  obtain ⟨first, rest, written, leading⟩ := decimal_first notZero
  have large : 2 ^ 64 ≤ magnitude 16 uuid.toUndashedString := by
    rw [toUndashedString, written, List.cons_append]
    refine Nat.le_trans ?_ (le_magnitude leading _)
    rw [written, List.length_cons] at length
    rw [List.length_append, show rest.length + (decimal uuid.leastSignificant.toNat).length = 31 by omega]
    norm_num
  rw [instantiate_digits undashed, saturate_full large]

theorem undashed_text_differs (uuid : UUID) : instantiate uuid.toUndashedString ≠ .ok (successErrorable uuid) := by
  intro read
  by_cases dashes : uuid.toUndashedString.length = 36
  · rw [instantiate_dashed dashes] at read
    cases read
  · by_cases length : uuid.toUndashedString.length = 32
    · rw [instantiate_written length] at read
      cases read
      have written : decimal 0xFFFFFFFFFFFFFFFF ++ decimal 0 = toUndashedString ⟨0xFFFFFFFFFFFFFFFF, 0⟩ := rfl
      have longest := length_half 0xFFFFFFFFFFFFFFFF
      have single : (decimal 0).length = 1 := rfl
      rw [← written, List.length_append, single] at length
      have same : (0xFFFFFFFFFFFFFFFF : UInt64).toNat = 0xFFFFFFFFFFFFFFFF := rfl
      rw [same] at longest
      omega
    · rw [instantiate_refuses dashes length] at read
      cases read

/-- No UUID is read from its own texts. -/
theorem never_round_trips (uuid : UUID) : ¬ RoundTrips uuid :=
  fun trips => undashed_text_differs uuid trips.1

/-- The text of the least UUID is `00`, which is no UUID, and too short for the dashes. -/
theorem nil_does_not_round_trip : ¬ RoundTrips ⟨0, 0⟩ := by
  rintro ⟨read, -⟩
  cases read

/-! ### What is read -/

theorem length_dashed {digits : List UInt8} (undashed : IsUndashed digits) : (dashed digits).length = 36 := by
  have length := undashed.1
  simp only [dashed, List.length_append, List.length_cons, List.length_take, List.length_drop]
  omega

/-- The digits are read rightly where the first half alone is the number that is read. -/
theorem instantiate_halves_iff (undashed : IsUndashed text) :
    instantiate text =
        .ok (successErrorable ⟨.ofNat (magnitude 16 (text.take 16)), .ofNat (magnitude 16 (text.drop 16))⟩) ↔
      magnitude 16 (text.drop 16) = 0 ∧
        (magnitude 16 (text.take 16) = 0 ∨ magnitude 16 (text.take 16) = 2 ^ 64 - 1) := by
  have whole := magnitude_append 16 (text.take 16) (text.drop 16)
  have lastLength : (text.drop 16).length = 16 := by rw [List.length_drop, undashed.1]
  have firstSmall := magnitude_lt (by omega) (undashed.2.take 16)
  have lastSmall := magnitude_lt (by omega) (undashed.2.drop 16)
  rw [List.length_take, undashed.1] at firstSmall
  rw [lastLength] at lastSmall
  rw [List.take_append_drop, lastLength] at whole
  rw [instantiate_digits undashed, whole]
  generalize magnitude 16 (text.take 16) = first at *
  generalize magnitude 16 (text.drop 16) = last at *
  have firstFits : first < 2 ^ 64 := firstSmall
  have lastFits : last < 2 ^ 64 := lastSmall
  have same : first * 16 ^ 16 + last = first * 2 ^ 64 + last := rfl
  rw [Except.ok.injEq, successErrorable, successErrorable, Errorable.mk.injEq, UUID.mk.injEq, ← UInt64.toNat_inj,
    ← UInt64.toNat_inj, UInt64.toNat_ofNat_of_lt' firstFits, UInt64.toNat_ofNat_of_lt' lastFits, same]
  constructor
  · rintro ⟨-, ⟨most, least⟩, -⟩
    have zero : last = 0 := least.symm
    refine ⟨zero, ?_⟩
    by_cases fits : first * 2 ^ 64 + last < 2 ^ 64
    · exact .inl (by omega)
    · rw [saturate_full (Nat.le_of_not_lt fits)] at most
      exact .inr most.symm
  · rintro ⟨rfl, rfl | rfl⟩
    · exact ⟨rfl, ⟨rfl, rfl⟩, rfl⟩
    · exact ⟨rfl, ⟨rfl, rfl⟩, rfl⟩

/-- The digits of the two numbers that can be read. -/
theorem magnitude_half {digits : List UInt8} (length : digits.length = 16) (all : Digits 16 digits) :
    (magnitude 16 digits = 0 ↔ digits = List.replicate 16 48) ∧
      (magnitude 16 digits = 2 ^ 64 - 1 ↔ ∀ digit ∈ digits, digit = 102 ∨ digit = 70) := by
  have zeros := magnitude_eq_replicate_iff (by omega) all (show isDigit 16 48 = true from rfl)
  have fs := magnitude_eq_replicate_iff (by omega) all (show isDigit 16 102 = true from rfl)
  rw [length] at zeros fs
  constructor
  · rw [List.eq_replicate_iff]
    refine zeros.trans ⟨fun each => ⟨length, ?_⟩, fun each => ?_⟩
    · exact fun digit member => digitValue_eq_zero.mp (each digit member)
    · exact fun digit member => digitValue_eq_zero.mpr (each.2 digit member)
  · exact fs.trans (forall₂_congr fun _ _ => digitValue_eq_fifteen)

/-- The condition on the two numbers, as one on the text. -/
theorem zeroOrFull_iff (undashed : IsUndashed text) :
    magnitude 16 (text.drop 16) = 0 ∧
        (magnitude 16 (text.take 16) = 0 ∨ magnitude 16 (text.take 16) = 2 ^ 64 - 1) ↔ ZeroOrFull text := by
  have firstLength : (text.take 16).length = 16 := by rw [List.length_take, undashed.1]; rfl
  have lastLength : (text.drop 16).length = 16 := by rw [List.length_drop, undashed.1]
  obtain ⟨firstZero, firstFull⟩ := magnitude_half firstLength (undashed.2.take 16)
  obtain ⟨lastZero, -⟩ := magnitude_half lastLength (undashed.2.drop 16)
  rw [firstZero, firstFull, lastZero]
  constructor
  · rintro ⟨last, first | first⟩
    · rw [← List.take_append_drop 16 text, first, last]
      exact .inl rfl
    · refine .inr ⟨text.take 16, firstLength, first, ?_⟩
      rw [← last, List.take_append_drop]
  · rintro (rfl | ⟨first, length, full, rfl⟩)
    · exact ⟨rfl, .inl rfl⟩
    · rw [List.take_left' length, List.drop_left' length]
      exact ⟨rfl, .inr full⟩

theorem ZeroOrFull.isUndashed (readable : ZeroOrFull text) : IsUndashed text := by
  have zeros (count : Nat) : Digits 16 (List.replicate count 48) := by
    intro digit member
    rw [List.eq_of_mem_replicate member]
    rfl
  rcases readable with rfl | ⟨first, length, full, rfl⟩
  · exact ⟨List.length_replicate, zeros 32⟩
  · have letters : Digits 16 first := by
      intro digit member
      rcases full digit member with rfl | rfl
      · rfl
      · rfl
    exact ⟨by rw [List.length_append, length, List.length_replicate], letters.append (zeros 16)⟩

/-- Of 32 digits only what they are read as counts. -/
theorem reads_digits_iff (undashed : IsUndashed text) : ReadsAsUUID text ↔ ZeroOrFull text := by
  have notDashed : ∀ digits, IsUndashed digits → text ≠ dashed digits := by
    rintro digits other rfl
    cases undashed.1.symm.trans (length_dashed other)
  rw [← zeroOrFull_iff undashed, ← instantiate_halves_iff undashed]
  constructor
  · exact fun reads => reads.1 undashed
  · intro read
    refine ⟨fun _ => read, ?_, ?_⟩
    · exact fun digits other same => absurd same (notDashed digits other)
    · exact fun other => absurd undashed other

/-- Other texts of 32 characters are accepted, and those of 36 are copied out of bounds. -/
theorem reads_others_iff (other : ¬ IsUndashed text) : ReadsAsUUID text ↔ text.length ≠ 32 ∧ text.length ≠ 36 := by
  constructor
  · rintro ⟨-, withDashes, refused⟩
    refine ⟨fun length => ?_, fun length => ?_⟩
    · obtain ⟨result, read, failed⟩ := refused other (by
        rintro digits undashed rfl
        cases length.symm.trans (length_dashed undashed))
      rw [instantiate_undashed length] at read
      cases read
      cases failed
    · by_cases isDashed : ∃ digits, IsUndashed digits ∧ text = dashed digits
      · obtain ⟨digits, undashed, same⟩ := isDashed
        have read := withDashes digits undashed same
        rw [instantiate_dashed length, instantiate_digits undashed] at read
        cases read
      · obtain ⟨result, read, -⟩ := refused other fun digits undashed same => isDashed ⟨digits, undashed, same⟩
        rw [instantiate_dashed length] at read
        cases read
  · rintro ⟨noDigits, noDashes⟩
    refine ⟨fun undashed => absurd undashed other, ?_, ?_⟩
    · rintro digits undashed rfl
      exact absurd (length_dashed undashed) noDashes
    · exact fun _ _ => ⟨_, instantiate_refuses noDashes noDigits, rfl⟩

/-- A text is read as it should be if its length is not looked at, or if it is one of
the few whose digits are all in one number. -/
theorem reads_as_uuid_iff (text : List UInt8) :
    ReadsAsUUID text ↔ text.length ≠ 32 ∧ text.length ≠ 36 ∨ ZeroOrFull text := by
  by_cases undashed : IsUndashed text
  · rw [reads_digits_iff undashed]
    constructor
    · exact .inr
    · rintro (⟨length, -⟩ | readable)
      · exact absurd undashed.1 length
      · exact readable
  · rw [reads_others_iff undashed]
    constructor
    · exact .inl
    · rintro (lengths | readable)
      · exact lengths
      · exact absurd readable.isUndashed undashed

/-- The digit 1 in all places is too much for one half, the letter g is no digit and yet
accepted, and zeros with dashes are copied out of bounds. -/
theorem texts_are_misread :
    ¬ ReadsAsUUID (List.replicate 32 49) ∧ ¬ ReadsAsUUID (List.replicate 32 103) ∧
      ¬ ReadsAsUUID (dashed (List.replicate 32 48)) := by
  refine ⟨?_, ?_, ?_⟩
  · intro reads
    have undashed : IsUndashed (List.replicate 32 49) := ⟨rfl, fun digit member => by
      rw [List.eq_of_mem_replicate member]
      rfl⟩
    exact absurd ((instantiate_halves_iff undashed).mp (reads.1 undashed)).1 (by decide)
  · rintro ⟨-, -, refused⟩
    have noDigit : ¬ IsUndashed (List.replicate 32 103) := fun undashed =>
      Bool.false_ne_true (undashed.2 103 (List.mem_replicate.mpr ⟨by omega, rfl⟩))
    obtain ⟨result, read, failed⟩ := refused noDigit fun digits undashed same =>
      absurd ((congrArg List.length same).trans (length_dashed undashed)) (by decide)
    rw [instantiate_undashed rfl] at read
    cases read
    cases failed
  · intro reads
    have undashed : IsUndashed (List.replicate 32 48) := ZeroOrFull.isUndashed (.inl rfl)
    have read := reads.2.1 _ undashed rfl
    rw [instantiate_dashed (length_dashed undashed), instantiate_digits undashed] at read
    cases read

end ShipNet.UUID
