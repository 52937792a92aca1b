import ShipNet.Transition

/-! Partial correctness of code that can fail: it does not fail in one certain way, and
where it ends normally its result satisfies a condition. Nothing is said of its other
failures, nor whether it ends. -/
namespace ShipNet.Fallible

variable {ε σ ρ ι ο α β : Type} {bad : ε}

/-- `code` does not fail as `bad`, and a result satisfies `post`. -/
def Avoids (bad : ε) (code : Except ε α) (post : α → Prop) : Prop :=
  match code with
  | .ok result => post result
  | .error failure => failure ≠ bad

@[simp] theorem avoids_ok (result : α) (post : α → Prop) :
    Avoids bad (.ok result : Except ε α) post ↔ post result := Iff.rfl

@[simp] theorem avoids_error (failure : ε) (post : α → Prop) :
    Avoids bad (.error failure : Except ε α) post ↔ failure ≠ bad := Iff.rfl

theorem Avoids.bind {code : Except ε α} {next : α → Except ε β} {mid : α → Prop} {post : β → Prop}
    (first : Avoids bad code mid) (second : ∀ result, mid result → Avoids bad (next result) post) :
    Avoids bad (code >>= next) post := by
  cases code with
  | error failure => exact first
  | ok result => exact second result first

theorem Avoids.mono {code : Except ε α} {strong weak : α → Prop} (held : Avoids bad code strong)
    (weaken : ∀ result, strong result → weak result) : Avoids bad code weak := by
  cases code with
  | error failure => exact held
  | ok result => exact weaken result held

/-- What is known of a run that ended normally. -/
theorem Avoids.of_ok {code : Except ε α} {post : α → Prop} {result : α} (held : Avoids bad code post)
    (ran : code = .ok result) : post result := by
  rw [ran] at held
  exact held

/-- The rule for loops. Running forever is another failure than `bad`. -/
theorem avoids_loop {endless : ε} {round : σ → Except ε (Round σ ρ)} {post : ρ → Prop} (inv : σ → Prop)
    (other : endless ≠ bad)
    (step : ∀ state, inv state → Avoids bad (round state) fun
      | .again next => inv next
      | .leave result => post result)
    {fuel : Nat} {state : σ} (start : inv state) : Avoids bad (loop endless round fuel state) post := by
  induction fuel generalizing state with
  | zero => exact other
  | succ fuel ih =>
    refine (step state start).bind ?_
    rintro (next | result) held
    · exact ih held
    · exact held

theorem avoids_while {endless : ε} {guard : σ → Bool} {body : σ → Except ε σ} (inv : σ → Prop)
    (other : endless ≠ bad) (step : ∀ state, inv state → guard state = true → Avoids bad (body state) inv)
    {fuel : Nat} {state : σ} (start : inv state) :
    Avoids bad (loop endless (whileRound guard body) fuel state)
      (fun final => inv final ∧ guard final = false) := by
  refine avoids_loop inv other ?_ start
  intro state held
  unfold whileRound
  cases passed : guard state with
  | true => exact (step state held passed).bind fun next kept => kept
  | false => exact ⟨held, passed⟩

/-- What every step keeps of the state and all outputs so far holds at the end of a run. -/
theorem avoids_run {step : σ → ι → Except ε (σ × ο)} (inv : σ → List ο → Prop)
    (keeps : ∀ state past input, inv state past →
      Avoids bad (step state input) fun out => inv out.1 (past ++ [out.2]))
    {inputs : List ι} {state : σ} {past : List ο} (start : inv state past) :
    Avoids bad (Transition.run step state inputs) fun out => inv out.1 (past ++ out.2) := by
  induction inputs generalizing state past with
  | nil =>
    show inv state (past ++ [])
    rwa [List.append_nil]
  | cons input inputs ih =>
    refine (keeps state past input start).bind ?_
    rintro ⟨next, output⟩ held
    refine (ih held).bind ?_
    rintro ⟨final, outputs⟩ kept
    show inv final (past ++ output :: outputs)
    rwa [List.append_assoc] at kept

/-- The same under a condition on the inputs, without their outputs. -/
theorem avoids_meets {step : σ → ι → Except ε (σ × ο)} {condition : σ → ι → Prop} (inv : σ → Prop)
    (keeps : ∀ state input, inv state → condition state input →
      Avoids bad (step state input) fun out => inv out.1)
    {inputs : List ι} {state : σ} (start : inv state) (meets : Transition.Meets step condition state inputs) :
    Avoids bad (Transition.run step state inputs) fun out => inv out.1 := by
  induction inputs generalizing state with
  | nil => exact start
  | cons input inputs ih =>
    have first := keeps state input start meets.1
    have stepped : Avoids bad (step state input) fun out =>
        inv out.1 ∧ Transition.Meets step condition out.1 inputs := by
      cases taken : step state input with
      | error failure =>
        rw [taken] at first
        exact first
      | ok out => exact ⟨first.of_ok taken, meets.2 _ _ taken⟩
    refine stepped.bind ?_
    rintro ⟨next, output⟩ ⟨held, further⟩
    exact (ih held further).bind fun out kept => kept

/-- A condition on states that a step keeps exactly if its input is good holds in all
states of a run exactly if all its inputs are good. -/
theorem holds_throughout_iff {step : σ → ι → Except ε (σ × ο)} {condition good : σ → ι → Prop} (inv holds : σ → Prop)
    (keeps : ∀ state input next output, inv state → condition state input → step state input = .ok (next, output) →
      inv next ∧ (holds state → (holds next ↔ good state input)))
    {inputs : List ι} {state : σ} {final : σ × List ο} (start : inv state) (first : holds state)
    (meets : Transition.Meets step condition state inputs) (ran : Transition.run step state inputs = .ok final) :
    (∀ earlier later reached, inputs = earlier ++ later → Transition.run step state earlier = .ok reached →
      holds reached.1) ↔ Transition.Meets step good state inputs := by
  induction inputs generalizing state final with
  | nil =>
    refine ⟨fun _ => trivial, ?_⟩
    rintro - earlier later reached split ran
    obtain ⟨rfl, -⟩ := List.append_eq_nil_iff.mp split.symm
    cases ran
    exact first
  | cons input inputs ih =>
    obtain ⟨⟨next, output⟩, stepped, rest⟩ := returns_of_bind ran
    obtain ⟨⟨last, outputs⟩, further, -⟩ := returns_of_bind rest
    obtain ⟨kept, exact_⟩ := keeps state input next output start meets.1 stepped
    have below := meets.2 next output stepped
    constructor
    · intro throughout
      have after : holds next := by
        refine throughout [input] inputs (next, [output]) rfl ?_
        simp only [Transition.run, stepped, ok_bind, pure_is_ok]
      refine Transition.meets_cons ((exact_ first).mp after) stepped ((ih kept after below further).mp ?_)
      rintro earlier later reached split run
      refine throughout (input :: earlier) later (reached.1, output :: reached.2) (by rw [split]; rfl) ?_
      simp only [Transition.run, stepped, run, ok_bind, pure_is_ok]
    · intro all earlier later reached split run
      have after : holds next := (exact_ first).mpr all.1
      cases earlier with
      | nil =>
        cases run
        exact first
      | cons same earlier =>
        cases split
        obtain ⟨⟨next', output'⟩, stepped', rest'⟩ := returns_of_bind run
        cases stepped.symm.trans stepped'
        obtain ⟨⟨last', outputs'⟩, further', same⟩ := returns_of_bind rest'
        cases same
        exact (ih kept after below further).mpr (all.2 next output stepped) earlier later (last', outputs')
          rfl further'

end ShipNet.Fallible
