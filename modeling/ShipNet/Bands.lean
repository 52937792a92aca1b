import Mathlib.Order.Defs.LinearOrder
import Mathlib.Data.List.Sort

/-! Bands of a linear order between borders: the band of a point is the number of
borders that are not above it. -/
namespace ShipNet.Bands

variable {α : Type} [LinearOrder α]

def band (borders : List α) (point : α) : Nat := borders.countP fun border => border ≤ point

variable {borders : List α} {point lower upper border : α}

theorem band_cons (border : α) (borders : List α) (point : α) :
    band (border :: borders) point = band borders point + if border ≤ point then 1 else 0 := by
  simp [band, List.countP_cons]

theorem band_le_length : band borders point ≤ borders.length := List.countP_le_length

theorem band_mono (borders : List α) (ordered : lower ≤ upper) : band borders lower ≤ band borders upper := by
  apply List.countP_mono_left
  intro border _ below
  simp only [decide_eq_true_eq] at below ⊢
  exact below.trans ordered

/-- Below all borders is the first band. -/
theorem band_eq_zero (above : ∀ border ∈ borders, point < border) : band borders point = 0 := by
  apply List.countP_eq_zero.mpr
  intro border member
  simpa using above border member

/-- Above all borders is the last band. -/
theorem band_eq_length (below : ∀ border ∈ borders, border ≤ point) : band borders point = borders.length := by
  apply List.countP_eq_length.mpr
  intro border member
  simpa using below border member

/-- Two points are in one band exactly if no border lies between them. -/
theorem band_eq_iff (ordered : lower ≤ upper) :
    band borders lower = band borders upper ↔ ∀ border ∈ borders, ¬ (lower < border ∧ border ≤ upper) := by
  induction borders with
  | nil => simp [band]
  | cons border borders ih =>
    have less := band_mono borders ordered
    rw [band_cons, band_cons, List.forall_mem_cons, ← ih]
    by_cases low : border ≤ lower
    · have high : border ≤ upper := low.trans ordered
      simp [low, high]
    · by_cases high : border ≤ upper
      · have between : lower < border := lt_of_not_ge low
        simp only [low, high, between, if_true, if_false, and_self, not_true, false_and, iff_false]
        omega
      · simp [low, high]

end ShipNet.Bands
