import Mathlib.Data.List.Range

/-! Blocks of memory cells. A block has contents at every offset from the
moment it exists; how far it may be used is its owner's business. -/
namespace ShipNet

variable {α : Type}

abbrev Block (α : Type) := Nat → α

namespace Block

/-- The `count` cells from `offset` on. -/
def read (block : Block α) (offset count : Nat) : List α :=
  (List.range count).map fun index => block (offset + index)

/-- The block with `cells` put at `offset`. -/
def write (block : Block α) (offset : Nat) (cells : List α) : Block α :=
  fun index => if offset ≤ index then cells[index - offset]?.getD (block index) else block index

variable (block : Block α)

@[simp] theorem length_read (offset count : Nat) : (block.read offset count).length = count := by
  simp [read]

@[simp] theorem read_zero (offset : Nat) : block.read offset 0 = [] := rfl

@[simp] theorem getElem_read (offset count index : Nat) (inside : index < (block.read offset count).length) :
    (block.read offset count)[index] = block (offset + index) := by
  simp [read]

theorem read_one (offset : Nat) : block.read offset 1 = [block offset] := rfl

theorem read_add (offset first second : Nat) :
    block.read offset (first + second) = block.read offset first ++ block.read (offset + first) second := by
  simp [read, List.range_add, Nat.add_assoc]

theorem take_read (offset count first : Nat) :
    (block.read offset count).take first = block.read offset (min first count) := by
  simp [read, ← List.map_take, List.take_range]

theorem drop_read (offset count first : Nat) :
    (block.read offset count).drop first = block.read (offset + first) (count - first) := by
  apply List.ext_getElem
  · simp
  · intro index _ _
    simp [Nat.add_assoc]

/-- Putting back what was read changes nothing. -/
theorem write_read (offset count : Nat) : block.write offset (block.read offset count) = block := by
  funext index
  unfold write
  split
  · rename_i behind
    by_cases inside : index - offset < count
    · have present : (block.read offset count)[index - offset]? = some (block index) := by
        rw [List.getElem?_eq_getElem (by simpa using inside), getElem_read, Nat.add_sub_of_le behind]
      rw [present, Option.getD_some]
    · have absent : (block.read offset count)[index - offset]? = none :=
        List.getElem?_eq_none (by simpa using inside)
      rw [absent, Option.getD_none]
  · rfl

theorem read_write_before {offset start count : Nat} (cells : List α) (before : start + count ≤ offset) :
    (block.write offset cells).read start count = block.read start count := by
  apply List.ext_getElem
  · simp
  · intro index inside _
    rw [length_read] at inside
    simp [write, show ¬ offset ≤ start + index by omega]

theorem read_write_self (offset : Nat) (cells : List α) :
    (block.write offset cells).read offset cells.length = cells := by
  apply List.ext_getElem
  · simp
  · intro index _ inside
    simp [write, List.getElem?_eq_getElem inside]

/-- What stands before a write and the write itself, read together. -/
theorem read_write_through (start before : Nat) (cells : List α) :
    (block.write (start + before) cells).read start (before + cells.length) =
      block.read start before ++ cells := by
  rw [read_add, read_write_before block cells (Nat.le_refl _), read_write_self]

@[simp] theorem write_nil (offset : Nat) : block.write offset [] = block := by
  funext index
  simp [write]

theorem write_past {offset index : Nat} {cells : List α} (past : offset + cells.length ≤ index) :
    block.write offset cells index = block index := by
  have outside : cells[index - offset]? = none := List.getElem?_eq_none (by omega)
  simp only [write, outside, Option.getD_none, ite_self]

/-- Two writes next to each other are one. -/
theorem write_append (offset : Nat) (first second : List α) :
    (block.write offset first).write (offset + first.length) second = block.write offset (first ++ second) := by
  funext index
  unfold write
  by_cases before : offset ≤ index
  · by_cases inFirst : index - offset < first.length
    · have notLater : ¬ offset + first.length ≤ index := by omega
      rw [if_neg notLater, if_pos before, if_pos before, List.getElem?_append_left inFirst]
    · have later : offset + first.length ≤ index := by omega
      have same : index - offset - first.length = index - (offset + first.length) := by omega
      rw [if_pos later, if_pos before, if_pos before, List.getElem?_append_right (Nat.le_of_not_lt inFirst), same,
        List.getElem?_eq_none (Nat.le_of_not_lt inFirst), Option.getD_none]
  · have notLater : ¬ offset + first.length ≤ index := by omega
    rw [if_neg notLater, if_neg before, if_neg before]

end Block

end ShipNet
