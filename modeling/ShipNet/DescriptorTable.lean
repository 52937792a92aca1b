import Mathlib.Logic.Function.Basic

/-! The open descriptors of a process. A number is used again after it was closed, a file
never comes back. -/
namespace ShipNet

/-- The file that each number stands for. The files have names in the order in which they
were opened, and no file has two numbers. -/
structure DescriptorTable where
  files : Int → Option Nat
  opened : Nat
  named : ∀ number file, files number = some file → file < opened
  single : ∀ number other file, files number = some file → files other = some file → number = other

/-- Before anything was opened. -/
def noFiles : DescriptorTable where
  files _ := none
  opened := 0
  named _ _ impossible := nomatch impossible
  single _ _ _ impossible := nomatch impossible

namespace DescriptorTable

variable {table : DescriptorTable} {number other : Int} {file : Nat}

/-! ### Opening and closing -/

theorem update_some {files : Int → Option Nat} {new : Option Nat}
    (there : Function.update files number new other = some file) :
    (other = number ∧ new = some file) ∨ (other ≠ number ∧ files other = some file) := by
  by_cases same : other = number
  · subst same
    rw [Function.update_self] at there
    exact .inl ⟨rfl, there⟩
  · rw [Function.update_of_ne same] at there
    exact .inr ⟨same, there⟩

theorem install_named (table : DescriptorTable) (number other : Int) (file : Nat)
    (there : Function.update table.files number (some table.opened) other = some file) : file < table.opened + 1 := by
  rcases update_some there with ⟨-, same⟩ | ⟨-, before⟩
  · cases same
    exact Nat.lt_succ_self _
  · exact Nat.lt_succ_of_lt (table.named _ _ before)

theorem install_single (table : DescriptorTable) (number first second : Int) (file : Nat)
    (one : Function.update table.files number (some table.opened) first = some file)
    (two : Function.update table.files number (some table.opened) second = some file) : first = second := by
  rcases update_some one with ⟨first_, same⟩ | ⟨-, before⟩
  · cases same
    rcases update_some two with ⟨second_, -⟩ | ⟨-, before⟩
    · exact first_.trans second_.symm
    · exact absurd (table.named _ _ before) (Nat.lt_irrefl _)
  · rcases update_some two with ⟨-, same⟩ | ⟨-, other⟩
    · cases same
      exact absurd (table.named _ _ before) (Nat.lt_irrefl _)
    · exact table.single _ _ _ before other

/-- A call that opens a file and returns this number. -/
def install (table : DescriptorTable) (number : Int) : DescriptorTable where
  files := Function.update table.files number (some table.opened)
  opened := table.opened + 1
  named := install_named table number
  single := install_single table number

theorem close_kept (table : DescriptorTable) (number other : Int) (file : Nat)
    (there : Function.update table.files number none other = some file) : table.files other = some file := by
  rcases update_some there with ⟨-, impossible⟩ | ⟨-, before⟩
  · cases impossible
  · exact before

/-- `close(number)`. -/
def close (table : DescriptorTable) (number : Int) : DescriptorTable where
  files := Function.update table.files number none
  opened := table.opened
  named := fun other file there => table.named other file (close_kept table number other file there)
  single := fun first second file one two => table.single first second file
    (close_kept table number first file one) (close_kept table number second file two)

def closeAll (table : DescriptorTable) (numbers : List Int) : DescriptorTable := numbers.foldl close table

theorem closeAll_files (table : DescriptorTable) (numbers : List Int) (number : Int) :
    (table.closeAll numbers).files number = if number ∈ numbers then none else table.files number := by
  induction numbers generalizing table with
  | nil => simp [closeAll]
  | cons first later ih =>
    have rest := ih (table.close first)
    rw [closeAll] at rest
    rw [closeAll, List.foldl_cons, rest]
    by_cases same : number = first
    · subst same
      simp [close]
    · simp [close, same]

theorem closeAll_opened (table : DescriptorTable) (numbers : List Int) :
    (table.closeAll numbers).opened = table.opened := by
  induction numbers generalizing table with
  | nil => rfl
  | cons first later ih => exact ih (table.close first)

/-! ### What a number stands for -/

/-- The number stands for the file. -/
def Holds (table : DescriptorTable) (number : Int) (file : Nat) : Prop := table.files number = some file

instance : Decidable (table.Holds number file) := inferInstanceAs (Decidable (_ = _))

/-- The file was opened, and has no number any more. -/
def Gone (table : DescriptorTable) (file : Nat) : Prop :=
  file < table.opened ∧ ∀ number, table.files number ≠ some file

theorem install_holds (table : DescriptorTable) (number : Int) : (table.install number).Holds number table.opened :=
  Function.update_self ..

theorem Holds.install (holds : table.Holds number file) (free : table.files other = none) :
    (table.install other).Holds number file := by
  have apart : number ≠ other := by
    rintro rfl
    have impossible := free.symm.trans holds
    cases impossible
  exact (Function.update_of_ne apart ..).trans holds

theorem Holds.close (holds : table.Holds number file) (apart : number ≠ other) : (table.close other).Holds number file :=
  (Function.update_of_ne apart ..).trans holds

theorem Holds.gone (holds : table.Holds number file) : (table.close number).Gone file := by
  refine ⟨table.named _ _ holds, ?_⟩
  intro other there
  have before := close_kept table number other file there
  rw [table.single _ _ _ before holds] at there
  have impossible := (Function.update_self ..).symm.trans there
  cases impossible

theorem Gone.install (gone : table.Gone file) (number : Int) : (table.install number).Gone file := by
  refine ⟨Nat.lt_succ_of_lt gone.1, ?_⟩
  intro other there
  rcases update_some there with ⟨-, same⟩ | ⟨-, before⟩
  · cases same
    exact Nat.lt_irrefl _ gone.1
  · exact gone.2 other before

theorem Gone.close (gone : table.Gone file) (number : Int) : (table.close number).Gone file :=
  ⟨gone.1, fun other there => gone.2 other (close_kept table number other file there)⟩

/-- What was open stays open, and all else is new. -/
structure Extends (before after : DescriptorTable) : Prop where
  opened : before.opened ≤ after.opened
  kept : ∀ number file, before.Holds number file → after.Holds number file
  old : ∀ number file, after.Holds number file → file < before.opened → before.Holds number file

theorem Extends.refl (table : DescriptorTable) : Extends table table :=
  ⟨Nat.le_refl _, fun _ _ => id, fun _ _ holds _ => holds⟩

theorem Extends.install {before : DescriptorTable} (grown : Extends before table) (free : table.files number = none) :
    Extends before (table.install number) := by
  refine ⟨Nat.le_succ_of_le grown.opened, fun other file holds => (grown.kept other file holds).install free, ?_⟩
  intro other file holds earlier
  rcases update_some holds with ⟨-, same⟩ | ⟨-, there⟩
  · cases same
    exact absurd earlier (Nat.not_lt.mpr grown.opened)
  · exact grown.old other file there earlier

end DescriptorTable

end ShipNet
