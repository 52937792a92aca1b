import Mathlib.Data.List.GetD
import Mathlib.Data.List.Nodup
import ShipNet.RawArray

/-! Tables that grow when an index past their end is written: by a fixed slack
behind that index, and with default entries in between. -/
namespace ShipNet.GrowingTable
open RawArray

variable {α : Type} [Inhabited α] {slack size index position : Nat} {table : List α}

/-- The end of a table of this size after a write at this index. -/
def grow (slack size index : Nat) : Nat := if index < size then size else index + slack

/-- The end of a table after writes at these indices. -/
def extent (slack size : Nat) (indices : List Nat) : Nat := indices.foldl (grow slack) size

def place (slack : Nat) (table : List α) (index : Nat) (value : α) : List α :=
  (table ++ List.replicate (grow slack table.length index - table.length) default).set index value

def placeAll (slack : Nat) (table : List α) (writes : List (Nat × α)) : List α :=
  writes.foldl (fun table write => place slack table write.1 write.2) table

theorem le_grow (slack size index : Nat) : size ≤ grow slack size index := by
  unfold grow
  split <;> omega

theorem lt_grow (positive : 0 < slack) (size index : Nat) : index < grow slack size index := by
  unfold grow
  split <;> omega

theorem le_extent (indices : List Nat) : size ≤ extent slack size indices := by
  induction indices generalizing size with
  | nil => exact Nat.le_refl _
  | cons first later ih => exact Nat.le_trans (le_grow slack size first) ih

/-- Every index that was written is inside. -/
theorem lt_extent (positive : 0 < slack) {indices : List Nat} (member : index ∈ indices) :
    index < extent slack size indices := by
  induction indices generalizing size with
  | nil => cases member
  | cons first later ih =>
    rcases List.mem_cons.mp member with rfl | further
    · exact Nat.lt_of_lt_of_le (lt_grow positive size index) (le_extent later)
    · exact ih further

theorem extent_le {bound : Nat} {indices : List Nat} (fits : size ≤ bound)
    (inRange : ∀ index ∈ indices, index + slack ≤ bound) : extent slack size indices ≤ bound := by
  induction indices generalizing size with
  | nil => exact fits
  | cons first later ih =>
    apply ih
    · have bounded := inRange first List.mem_cons_self
      unfold grow
      split <;> omega
    · exact fun index member => inRange index (List.mem_cons_of_mem _ member)

/-- A write at every entry of the table, and at every entry that it grew by. -/
def Filled (slack size : Nat) (indices : List Nat) : Prop :=
  ∀ position < extent slack size indices, position < size ∨ position ∈ indices

instance (slack size : Nat) (indices : List Nat) : Decidable (Filled slack size indices) :=
  inferInstanceAs (Decidable (∀ position < extent slack size indices, position < size ∨ position ∈ indices))

theorem length_place (slack : Nat) (table : List α) (index : Nat) (value : α) :
    (place slack table index value).length = grow slack table.length index := by
  have longer := le_grow slack table.length index
  rw [place, List.length_set, List.length_append, List.length_replicate]
  omega

/-- Past the end of a table nothing but defaults is added. -/
theorem getD_append_replicate (table : List α) (count position : Nat) :
    (table ++ List.replicate count default).getD position default = table.getD position default := by
  rw [List.getD_eq_getElem?_getD, List.getD_eq_getElem?_getD]
  by_cases old : position < table.length
  · rw [List.getElem?_append_left old]
  · rw [List.getElem?_append_right (Nat.le_of_not_lt old), List.getElem?_replicate,
      List.getElem?_eq_none (Nat.le_of_not_lt old)]
    split <;> rfl

theorem getD_place (positive : 0 < slack) (table : List α) (index : Nat) (value : α) (position : Nat) :
    (place slack table index value).getD position default =
      if position = index then value else table.getD position default := by
  have length := length_place slack table index value
  rw [place, List.length_set] at length
  by_cases here : position = index
  · subst here
    have inside := lt_grow positive table.length position
    rw [if_pos rfl, place, List.getD_eq_getElem?_getD, List.getElem?_set_self (by rw [length]; exact inside)]
    rfl
  · rw [if_neg here, ← getD_append_replicate table (grow slack table.length index - table.length), place,
      List.getD_eq_getElem?_getD, List.getElem?_set_ne (Ne.symm here), List.getD_eq_getElem?_getD]

/-- The table holds the value, and otherwise what it held before, and defaults. -/
structure Stored (table : List α) (index : Nat) (value : α) (after : List α) : Prop where
  set : after[index]? = some value
  kept : ∀ position < table.length, position ≠ index → after[position]? = table[position]?
  longer : table.length ≤ after.length
  fresh : ∀ position < after.length, table.length ≤ position → position ≠ index → after[position]? = some default

/-- A write stores its value. -/
theorem stored_place (positive : 0 < slack) (table : List α) (index : Nat) (value : α) :
    Stored table index value (place slack table index value) := by
  have length := length_place slack table index value
  have entry : ∀ position < (place slack table index value).length,
      (place slack table index value)[position]? =
        some (if position = index then value else table.getD position default) := by
    intro position inside
    have found := getD_place positive table index value position
    rw [List.getD_eq_getElem?_getD, List.getElem?_eq_getElem inside, Option.getD_some] at found
    rw [List.getElem?_eq_getElem inside, found]
  have longer : table.length ≤ (place slack table index value).length := by
    rw [length]
    exact le_grow slack table.length index
  refine ⟨?_, ?_, longer, ?_⟩
  · have inside := lt_grow positive table.length index
    rw [entry index (length ▸ inside), if_pos rfl]
  · intro position old other
    rw [entry position (Nat.lt_of_lt_of_le old longer), if_neg other, List.getD_eq_getElem?_getD,
      List.getElem?_eq_getElem old, Option.getD_some]
  · intro position inside new other
    rw [entry position inside, if_neg other, List.getD_eq_default _ _ new]

theorem length_placeAll (slack : Nat) (table : List α) (writes : List (Nat × α)) :
    (placeAll slack table writes).length = extent slack table.length (writes.map Prod.fst) := by
  induction writes generalizing table with
  | nil => rfl
  | cons first later ih =>
    rw [placeAll, List.foldl_cons, ← placeAll, ih, length_place]
    rfl

/-- After writes an entry is the value written there last, or what it was. -/
theorem getD_placeAll (positive : 0 < slack) (table : List α) (writes : List (Nat × α)) (position : Nat) :
    (placeAll slack table writes).getD position default =
      (lastAt writes position).getD (table.getD position default) := by
  induction writes using List.reverseRecOn with
  | nil => rfl
  | append_singleton writes last ih =>
    have placed : placeAll slack table (writes ++ [last]) =
        place slack (placeAll slack table writes) last.1 last.2 := by
      simp [placeAll]
    rw [placed, getD_place positive, lastAt_concat, ih]
    by_cases here : position = last.1
    · rw [if_pos here, if_pos here.symm]
      rfl
    · rw [if_neg here, if_neg (Ne.symm here)]

end ShipNet.GrowingTable
