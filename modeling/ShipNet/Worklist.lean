import Mathlib.Logic.Hydra
import Mathlib.Order.WellFounded
import ShipNet.Fallible

/-! A queue that is worked off from its front, where an item brings others to its end:
the work ends exactly if no item at the start has an infinite line of descent. -/
namespace ShipNet.Worklist
open Fallible Relation

variable {ε σ α : Type} {brings : α → List α}

/-- `later` is one of those that `earlier` brings. -/
def Descends (brings : α → List α) (later earlier : α) : Prop := later ∈ brings earlier

/-- The items worked off from `items` on come to an end. -/
inductive Drains (brings : α → List α) : List α → Prop where
  | empty : Drains brings []
  | item {item : α} {later : List α} (rest : Drains brings (later ++ brings item)) : Drains brings (item :: later)

theorem Drains.acc {items : List α} (drains : Drains brings items) : ∀ item ∈ items, Acc (Descends brings) item := by
  induction drains with
  | empty => exact fun item member => absurd member List.not_mem_nil
  | @item item later rest ih =>
    intro other member
    rcases List.mem_cons.mp member with rfl | waits
    · exact .intro other fun next brought => ih next (List.mem_append_right _ brought)
    · exact ih other (List.mem_append_left _ waits)

/-- Descent from an item all of whose lines end. Nothing descends from itself in this way. -/
def EndingDescent (brings : α → List α) (later earlier : α) : Prop :=
  Descends brings later earlier ∧ Acc (Descends brings) earlier

theorem acc_irrefl {r : α → α → Prop} {item : α} (acc : Acc r item) : ¬ r item item := by
  induction acc with
  | intro item _ ih => exact fun self => ih item self self

instance : Std.Irrefl (EndingDescent brings) :=
  ⟨fun _ descent => acc_irrefl descent.2 descent.1⟩

theorem acc_endingDescent {item : α} (acc : Acc (Descends brings) item) : Acc (EndingDescent brings) item :=
  Subrelation.accessible (fun descent => descent.1) acc

/-- Replacing an item by those that it brings goes down in the order of multisets. -/
theorem drains_of_acc {items : List α} (acc : ∀ item ∈ items, Acc (Descends brings) item) : Drains brings items := by
  have start : Acc (CutExpand (EndingDescent brings)) (items : Multiset α) :=
    acc_of_singleton fun item member => (acc_endingDescent (acc item member)).cutExpand
  generalize same : (items : Multiset α) = multiset at start
  induction start generalizing items with
  | intro multiset _ ih =>
    subst same
    cases items with
    | nil => exact .empty
    | cons item later =>
      have ends : Acc (Descends brings) item := acc item List.mem_cons_self
      refine .item (ih _ ?_ ?_ rfl)
      · have cut : CutExpand (EndingDescent brings) (brings item : Multiset α) {item} :=
          cutExpand_singleton fun next brought => ⟨brought, ends⟩
        have whole := (cutExpand_add_left (later : Multiset α)).mpr cut
        rwa [Multiset.coe_add, Multiset.add_comm _ {item}, Multiset.singleton_add, Multiset.cons_coe] at whole
      · intro next member
        rcases List.mem_append.mp member with waits | brought
        · exact acc next (List.mem_cons_of_mem _ waits)
        · exact ends.inv brought

theorem drains_iff_acc {items : List α} : Drains brings items ↔ ∀ item ∈ items, Acc (Descends brings) item :=
  ⟨Drains.acc, drains_of_acc⟩

/-- Each item of the line brings the next one, forever. -/
def Endless (brings : α → List α) (line : Nat → α) : Prop := ∀ n, line (n + 1) ∈ brings (line n)

theorem drains_iff {items : List α} : Drains brings items ↔ ∀ line, Endless brings line → line 0 ∉ items := by
  rw [drains_iff_acc]
  constructor
  · intro acc line endless member
    exact not_acc_iff_exists_descending_chain (r := Descends brings) |>.mpr ⟨line, rfl, endless⟩ (acc _ member)
  · intro none item member
    by_contra notAcc
    obtain ⟨line, rfl, endless⟩ := not_acc_iff_exists_descending_chain.mp notAcc
    exact none line endless member

/-! ### Loops -/

variable {endless : ε} {queue : σ → List α} {guard : σ → Bool} {body : σ → Except ε σ} {state : σ}

/-- A `while` loop over states with a queue, which takes the item at the front and leaves
those that it brings at the end. -/
structure Works (queue : σ → List α) (brings : α → List α) (guard : σ → Bool) (body : σ → Except ε σ) : Prop where
  stops : ∀ state, queue state = [] → guard state = false
  goesOn : ∀ state item later, queue state = item :: later → guard state = true ∧
    Returns (body state) fun next => queue next = later ++ brings item

theorem Works.round (works : Works queue brings guard body) {item : α} {later : List α}
    (waiting : queue state = item :: later) : ∃ next, whileRound guard body state = .ok (.again next) ∧
      queue next = later ++ brings item := by
  obtain ⟨passed, next, stepped, left⟩ := works.goesOn state item later waiting
  refine ⟨next, ?_, left⟩
  rw [whileRound, passed, if_pos rfl, stepped]
  rfl

theorem Works.drains (works : Works queue brings guard body)
    (ends : Ends endless (whileRound guard body) state) : Drains brings (queue state) := by
  obtain ⟨fuel, result, ended⟩ := ends
  induction fuel generalizing state with
  | zero => cases ended
  | succ fuel ih =>
    cases waiting : queue state with
    | nil => exact .empty
    | cons item later =>
      obtain ⟨next, stepped, left⟩ := works.round waiting
      rw [loop_again stepped] at ended
      have rest := ih ended
      rw [left] at rest
      exact .item rest

/-- Such a loop ends exactly if its queue drains. -/
theorem Works.ends_iff (works : Works queue brings guard body) :
    Ends endless (whileRound guard body) state ↔ Drains brings (queue state) := by
  refine ⟨works.drains, ?_⟩
  intro drains
  generalize waiting : queue state = items at drains
  induction drains generalizing state with
  | empty =>
    have stopped := works.stops state waiting
    exact ⟨1, state, by simp [loop, whileRound, stopped]⟩
  | item rest ih =>
    obtain ⟨next, stepped, left⟩ := works.round waiting
    exact (ends_again_iff stepped).mpr (ih left)

end ShipNet.Worklist
