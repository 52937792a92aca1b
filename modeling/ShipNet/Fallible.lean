import Mathlib.Logic.Basic

/-! Total correctness for code that can fail, and loops as code runs them.
A loop is iterated under a bound that stands for "runs forever", so that
ending and not ending are both statements about it. -/
namespace ShipNet.Fallible

variable {ε σ ρ α β : Type}

/-- `code` ends normally, in a result satisfying `post`. -/
def Returns (code : Except ε α) (post : α → Prop) : Prop :=
  ∃ result, code = .ok result ∧ post result

@[simp] theorem ok_bind (result : α) (next : α → Except ε β) :
    (Except.ok result >>= next) = next result := rfl

@[simp] theorem error_bind (failure : ε) (next : α → Except ε β) :
    (Except.error failure >>= next : Except ε β) = .error failure := rfl

@[simp] theorem pure_is_ok (result : α) : (pure result : Except ε α) = .ok result := rfl

@[simp] theorem throw_is_error (failure : ε) : (throw failure : Except ε α) = .error failure := rfl

@[simp] theorem returns_ok (result : α) (post : α → Prop) :
    Returns (.ok result : Except ε α) post ↔ post result := by
  constructor
  · rintro ⟨_, ⟨⟩, held⟩
    exact held
  · exact fun held => ⟨result, rfl, held⟩

@[simp] theorem returns_error (failure : ε) (post : α → Prop) :
    ¬ Returns (.error failure : Except ε α) post := by
  rintro ⟨_, impossible, _⟩
  cases impossible

/-- Code in sequence: what the first part establishes is what the second starts from. -/
theorem Returns.bind {code : Except ε α} {next : α → Except ε β} {mid : α → Prop} {post : β → Prop}
    (first : Returns code mid) (second : ∀ result, mid result → Returns (next result) post) :
    Returns (code >>= next) post := by
  obtain ⟨result, rfl, held⟩ := first
  exact second result held

theorem Returns.mono {code : Except ε α} {strong weak : α → Prop}
    (held : Returns code strong) (weaken : ∀ result, strong result → weak result) :
    Returns code weak := by
  obtain ⟨result, same, stronger⟩ := held
  exact ⟨result, same, weaken result stronger⟩

theorem returns_of_bind {code : Except ε α} {next : α → Except ε β} {final : β} (ran : code >>= next = .ok final) :
    Returns code fun result => next result = .ok final := by
  cases code with
  | error failure => cases ran
  | ok result => exact ⟨result, rfl, ran⟩

theorem returns_of_map {code : Except ε α} {observe : α → β} {seen : β} (mapped : code.map observe = .ok seen) :
    Returns code fun result => observe result = seen := by
  cases code with
  | error failure => cases mapped
  | ok result => exact ⟨result, rfl, Except.ok.inj mapped⟩

/-- One round of a loop: another round from a new state, or the end. -/
inductive Round (σ ρ : Type) where
  | again (state : σ)
  | leave (result : ρ)

/-- The loop with this round, given up as `endless` after `fuel` rounds. -/
def loop (endless : ε) (round : σ → Except ε (Round σ ρ)) : Nat → σ → Except ε ρ
  | 0, _ => .error endless
  | fuel + 1, state => do
    match ← round state with
    | .again next => loop endless round fuel next
    | .leave result => pure result

/-- The round of `while (guard) body`. -/
def whileRound (guard : σ → Bool) (body : σ → Except ε σ) (state : σ) :
    Except ε (Round σ σ) :=
  if guard state then return .again (← body state) else return .leave state

variable {endless : ε} {round : σ → Except ε (Round σ ρ)} {fuel : Nat} {state : σ}

/-- The loop ends: some number of rounds brings it to a result. -/
def Ends (endless : ε) (round : σ → Except ε (Round σ ρ)) (state : σ) : Prop :=
  ∃ fuel result, loop endless round fuel state = .ok result

/-- The states in which a loop begins a round. -/
inductive Visits (round : σ → Except ε (Round σ ρ)) (start : σ) : σ → Prop where
  | start : Visits round start start
  | next {state next : σ} (visited : Visits round start state) (stepped : round state = .ok (.again next)) :
      Visits round start next

/-- What holds at the start and is kept by the rounds holds in every round. -/
theorem Visits.holds (inv : σ → Prop) {start : σ} (visits : Visits round start state) (first : inv start)
    (step : ∀ state next, inv state → round state = .ok (.again next) → inv next) : inv state := by
  induction visits with
  | start => exact first
  | next visited stepped ih => exact step _ _ ih stepped

/-- A loop that keeps `inv` and uses up `left` ends, and ends as its last round says. -/
theorem loop_returns (inv : σ → Prop) (left : σ → Nat) {post : ρ → Prop}
    (step : ∀ state, inv state → Returns (round state) fun
      | .again next => inv next ∧ left next < left state
      | .leave result => post result)
    (start : inv state) (enough : left state < fuel) :
    Returns (loop endless round fuel state) post := by
  induction fuel generalizing state with
  | zero => omega
  | succ fuel ih =>
    refine (step state start).bind ?_
    rintro (next | result) held
    · exact ih held.1 (by omega)
    · exact (returns_ok _ _).mpr held

/-- The same of a loop that is known to end. -/
theorem loop_ok (inv : σ → Prop) {post : ρ → Prop}
    (again : ∀ state next, inv state → round state = .ok (.again next) → inv next)
    (leave : ∀ state result, inv state → round state = .ok (.leave result) → post result)
    (start : inv state) {result : ρ} (ran : loop endless round fuel state = .ok result) : post result := by
  induction fuel generalizing state with
  | zero => cases ran
  | succ fuel ih =>
    obtain ⟨next | left, stepped, rest⟩ := returns_of_bind ran
    · exact ih (again state next start stepped) rest
    · cases rest
      exact leave state result start stepped

/-- The rule for `while`: the invariant holds at the end, and the guard does not. -/
theorem while_returns {guard : σ → Bool} {body : σ → Except ε σ}
    (inv : σ → Prop) (left : σ → Nat)
    (step : ∀ state, inv state → guard state = true →
      Returns (body state) fun next => inv next ∧ left next < left state)
    (start : inv state) (enough : left state < fuel) :
    Returns (loop endless (whileRound guard body) fuel state)
      (fun final => inv final ∧ guard final = false) := by
  refine loop_returns inv left ?_ start enough
  intro state held
  unfold whileRound
  cases passed : guard state with
  | true => exact (step state held passed).bind fun next done => by simpa using done
  | false => simpa using ⟨held, passed⟩

/-- The same of a `while` that is known to end. -/
theorem while_ok {guard : σ → Bool} {body : σ → Except ε σ} {final : σ} (inv : σ → Prop)
    (step : ∀ state next, inv state → guard state = true → body state = .ok next → inv next) (start : inv state)
    (ran : loop endless (whileRound guard body) fuel state = .ok final) : inv final ∧ guard final = false := by
  let left (final : σ) : Prop := inv final ∧ guard final = false
  show left final
  refine loop_ok inv ?_ ?_ start ran
  · intro state next held stepped
    unfold whileRound at stepped
    cases passed : guard state with
    | true =>
      rw [passed, if_pos rfl] at stepped
      obtain ⟨after, bodied, same⟩ := returns_of_bind stepped
      cases same
      exact step state next held passed bodied
    | false =>
      rw [passed] at stepped
      cases stepped
  · intro state final held stepped
    unfold whileRound at stepped
    cases passed : guard state with
    | true =>
      rw [passed, if_pos rfl] at stepped
      obtain ⟨after, -, same⟩ := returns_of_bind stepped
      cases same
    | false =>
      rw [passed] at stepped
      cases stepped
      exact ⟨held, passed⟩

/-- A loop and the code after it come to `meaning`, if every round leaves it as it
is and the code after the loop computes it in the end. -/
theorem while_bind {guard : σ → Bool} {body : σ → Except ε σ} {finish meaning : σ → Except ε β}
    (inv : σ → Prop) (left : σ → Nat)
    (step : ∀ state, inv state → guard state = true → (body state >>= meaning) = meaning state ∧
      ∀ next, body state = .ok next → inv next ∧ left next < left state)
    (done : ∀ state, inv state → guard state = false → finish state = meaning state)
    (start : inv state) (enough : left state < fuel) :
    (loop endless (whileRound guard body) fuel state >>= finish) = meaning state := by
  induction fuel generalizing state with
  | zero => omega
  | succ fuel ih =>
    unfold loop whileRound
    cases passed : guard state with
    | false => exact done state start passed
    | true =>
      obtain ⟨same, next⟩ := step state start passed
      rw [← same]
      cases ran : body state with
      | error failure => rfl
      | ok after =>
        obtain ⟨kept, fewer⟩ := next after ran
        exact ih kept (by omega)

theorem loop_again {next : σ} (stepped : round state = .ok (.again next)) :
    loop endless round (fuel + 1) state = loop endless round fuel next := by
  simp only [loop, stepped, ok_bind]

theorem ends_again_iff {next : σ} (stepped : round state = .ok (.again next)) :
    Ends endless round state ↔ Ends endless round next := by
  constructor
  · rintro ⟨fuel, result, ended⟩
    cases fuel with
    | zero => cases ended
    | succ fuel => exact ⟨fuel, result, (loop_again stepped).symm.trans ended⟩
  · rintro ⟨fuel, result, ended⟩
    exact ⟨fuel + 1, result, (loop_again stepped).trans ended⟩

/-- A loop in which every round leads to another one never ends. -/
theorem loop_endless (inv : σ → Prop)
    (step : ∀ state, inv state → ∃ next, round state = .ok (.again next) ∧ inv next)
    (start : inv state) : loop endless round fuel state = .error endless := by
  induction fuel generalizing state with
  | zero => rfl
  | succ fuel ih =>
    obtain ⟨next, same, held⟩ := step state start
    simp only [loop, same, ok_bind]
    exact ih held

theorem not_ends (inv : σ → Prop)
    (step : ∀ state, inv state → ∃ next, round state = .ok (.again next) ∧ inv next)
    (start : inv state) : ¬ Ends endless round state := by
  rintro ⟨fuel, result, ended⟩
  rw [loop_endless inv step start] at ended
  cases ended

end ShipNet.Fallible
