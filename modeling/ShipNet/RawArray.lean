import Mathlib.Data.List.Induction
import ShipNet.Fallible

/-! Arrays as `new T[n]` gives them: of a length fixed once, with elements that may
not have been assigned yet, where an access outside the array or of an element
without a value is a failure. -/
namespace ShipNet
open Fallible

abbrev RawArray (α : Type) := List (Option α)

namespace RawArray

variable {ε α : Type} (outside unassigned : ε)

/-- `new T[length]`, without values. -/
def alloc (length : Nat) : RawArray α := List.replicate length none

/-- `array[index]`, read. -/
def load (array : RawArray α) (index : Nat) : Except ε α :=
  match array[index]? with
  | some (some value) => pure value
  | some none => throw unassigned
  | none => throw outside

/-- `array[index] = value`. -/
def store (array : RawArray α) (index : Nat) (value : α) : Except ε (RawArray α) :=
  if index < array.length then pure (array.set index (some value)) else throw outside

/-- `std::fill(array + first, array + last, value)`. -/
def fill (array : RawArray α) (first last : Nat) (value : α) : Except ε (RawArray α) :=
  if first ≤ last ∧ last ≤ array.length then
    pure (array.mapIdx fun index old => if first ≤ index ∧ index < last then some value else old)
  else throw outside

/-- Stores one after another. -/
def storeAll (array : RawArray α) (writes : List (Nat × α)) : Except ε (RawArray α) :=
  writes.foldlM (fun array write => store outside array write.1 write.2) array

/-- The value stored last at an index. -/
def lastAt (writes : List (Nat × α)) (index : Nat) : Option α :=
  (writes.reverse.find? fun write => write.1 = index).map Prod.snd

variable {array : RawArray α} {index first last : Nat} {value : α}

theorem load_eq_ok (stored : array[index]? = some (some value)) :
    load outside unassigned array index = .ok value := by
  simp only [load, stored, pure_is_ok]

/-- A new array has no values. -/
theorem alloc_entry {length : Nat} (position : Nat) (value : α) :
    (alloc length : RawArray α)[position]? ≠ some (some value) := by
  rw [alloc, List.getElem?_replicate]
  split <;> simp

theorem load_ok (ran : load outside unassigned array index = .ok value) : array[index]? = some (some value) := by
  unfold load at ran
  split at ran
  · rename_i stored
    cases ran
    exact stored
  · cases ran
  · cases ran

theorem store_ok {after : RawArray α} (ran : store outside array index value = .ok after) :
    after = array.set index (some value) := by
  unfold store at ran
  split at ran
  · cases ran
    rfl
  · cases ran

theorem store_returns (value : α) (inside : index < array.length) :
    Returns (store outside array index value) fun after =>
      after.length = array.length ∧
      ∀ position, after[position]? = if position = index then some (some value) else array[position]? := by
  rw [store, if_pos inside, pure_is_ok, returns_ok]
  refine ⟨List.length_set, ?_⟩
  intro position
  by_cases here : position = index
  · subst here
    rw [if_pos rfl, List.getElem?_set_self inside]
  · rw [if_neg here, List.getElem?_set_ne (Ne.symm here)]

theorem fill_returns (value : α) (ordered : first ≤ last) (inside : last ≤ array.length) :
    Returns (fill outside array first last value) fun after =>
      after.length = array.length ∧
      ∀ position, after[position]? =
        if first ≤ position ∧ position < last then some (some value) else array[position]? := by
  rw [fill, if_pos ⟨ordered, inside⟩, pure_is_ok, returns_ok]
  refine ⟨List.length_mapIdx, ?_⟩
  intro position
  rw [List.getElem?_mapIdx]
  by_cases within : first ≤ position ∧ position < last
  · have present : position < array.length := by omega
    simp [within, present]
  · simp [within]

/-- Every element that has a value after a fill had it before, or is in its range. -/
theorem fill_entry {after : RawArray α} {position : Nat} {seen : α}
    (ran : fill outside array first last value = .ok after) (entry : after[position]? = some (some seen)) :
    (first ≤ position ∧ position < last ∧ seen = value) ∨ array[position]? = some (some seen) := by
  by_cases valid : first ≤ last ∧ last ≤ array.length
  · obtain ⟨filled, same, -, contents⟩ := fill_returns outside value valid.1 valid.2
    cases same.symm.trans ran
    rw [contents] at entry
    by_cases within : first ≤ position ∧ position < last
    · rw [if_pos within] at entry
      exact .inl ⟨within.1, within.2, (Option.some.inj (Option.some.inj entry)).symm⟩
    · rw [if_neg within] at entry
      exact .inr entry
  · rw [fill, if_neg valid] at ran
    cases ran

theorem lastAt_concat (writes : List (Nat × α)) (write : Nat × α) :
    lastAt (writes ++ [write]) index = if write.1 = index then some write.2 else lastAt writes index := by
  by_cases here : write.1 = index
  · simp [lastAt, here]
  · simp [lastAt, here]

theorem lastAt_eq_none {writes : List (Nat × α)} (absent : index ∉ writes.map Prod.fst) :
    lastAt writes index = none := by
  induction writes using List.reverseRecOn with
  | nil => rfl
  | append_singleton writes write ih =>
    rw [List.map_append, List.mem_append, not_or] at absent
    have other : write.1 ≠ index := fun same => absent.2 (by simp [same])
    rw [lastAt_concat, if_neg other]
    exact ih absent.1

/-- Where no index is written twice, every write is the last one at its index. -/
theorem lastAt_eq_some {writes : List (Nat × α)} (distinct : (writes.map Prod.fst).Nodup)
    (member : (index, value) ∈ writes) : lastAt writes index = some value := by
  induction writes using List.reverseRecOn with
  | nil => cases member
  | append_singleton writes write ih =>
    rw [List.map_append] at distinct
    obtain ⟨before, -, apart⟩ := List.nodup_append.mp distinct
    rw [lastAt_concat]
    rcases List.mem_append.mp member with earlier | last
    · have other : write.1 ≠ index := by
        intro same
        exact apart index (List.mem_map.mpr ⟨_, earlier, rfl⟩) write.1 (by simp) same.symm
      rw [if_neg other]
      exact ih before earlier
    · obtain rfl := List.mem_singleton.mp last
      rw [if_pos rfl]

/-- After stores every element has the value stored there last. -/
theorem storeAll_returns {writes : List (Nat × α)} (inside : ∀ write ∈ writes, write.1 < array.length) :
    Returns (storeAll outside array writes) fun after =>
      after.length = array.length ∧
      ∀ position value, lastAt writes position = some value → after[position]? = some (some value) := by
  induction writes using List.reverseRecOn with
  | nil =>
    refine (returns_ok _ _).mpr ⟨rfl, ?_⟩
    intro position value found
    cases found
  | append_singleton writes write ih =>
    obtain ⟨before, ran, length, stored⟩ := ih fun other member => inside other (List.mem_append_left _ member)
    have here : write.1 < before.length := length ▸ inside write (by simp)
    obtain ⟨after, stepped, sameLength, contents⟩ := store_returns outside write.2 here
    refine ⟨after, ?_, sameLength.trans length, ?_⟩
    · rw [storeAll] at ran ⊢
      simp only [List.foldlM_append, ran, List.foldlM_cons, List.foldlM_nil, ok_bind, stepped, bind_pure]
    · intro position value found
      rw [lastAt_concat] at found
      rw [contents]
      by_cases same : position = write.1
      · rw [if_pos same.symm, Option.some.injEq] at found
        rw [if_pos same, found]
      · rw [if_neg (Ne.symm same)] at found
        rw [if_neg same]
        exact stored position value found

end RawArray

end ShipNet
