import ShipNet.Fallible

/-! Runs of a step function that may fail, under a condition on each step
before it is taken, and their simulation by a specification that cannot. -/
namespace ShipNet.Transition
open Fallible

variable {ε σ ι ο α : Type}

/-- One input after another; the outputs in order. -/
def run (step : σ → ι → Except ε (σ × ο)) : σ → List ι → Except ε (σ × List ο)
  | state, [] => pure (state, [])
  | state, input :: inputs => do
    let (state, output) ← step state input
    let (state, outputs) ← run step state inputs
    pure (state, output :: outputs)

/-- The outputs of a run are those of its first step and of the run from there. -/
theorem run_cons_outputs {step : σ → ι → Except ε (σ × ο)} {state next : σ} {input : ι} {output : ο}
    (stepped : step state input = .ok (next, output)) (inputs : List ι) :
    (run step state (input :: inputs)).map Prod.snd =
      ((run step next inputs).map Prod.snd).map (output :: ·) := by
  simp only [run, stepped, ok_bind]
  cases run step next inputs with
  | error failure => rfl
  | ok out => rfl

/-- Where an output shows its input, those of a run show its inputs. -/
theorem run_shows {state final : σ} {step : σ → ι → Except ε (σ × ο)} (view : ο → ι)
    (shows : ∀ state input next output, step state input = .ok (next, output) → view output = input)
    {inputs : List ι} {outputs : List ο} (ran : run step state inputs = .ok (final, outputs)) :
    outputs.map view = inputs := by
  induction inputs generalizing state outputs with
  | nil =>
    cases ran
    rfl
  | cons input inputs ih =>
    obtain ⟨⟨next, output⟩, stepped, rest⟩ := returns_of_bind ran
    obtain ⟨⟨last, later⟩, further, same⟩ := returns_of_bind rest
    cases same
    exact congrArg₂ List.cons (shows state input next output stepped) (ih further)

theorem run_append {state mid final : σ} {step : σ → ι → Except ε (σ × ο)} {first later : List ι}
    {outputs further : List ο} (ran : run step state first = .ok (mid, outputs))
    (rest : run step mid later = .ok (final, further)) :
    run step state (first ++ later) = .ok (final, outputs ++ further) := by
  induction first generalizing state outputs with
  | nil =>
    cases ran
    exact rest
  | cons input first ih =>
    obtain ⟨⟨next, output⟩, stepped, behind⟩ := returns_of_bind ran
    obtain ⟨⟨last, answers⟩, reached, same⟩ := returns_of_bind behind
    cases same
    simp only [List.cons_append, run, stepped, ih reached, ok_bind, pure_is_ok]

/-- The specification's run. -/
def runSpec (spec : α → ι → α × ο) : α → List ι → α × List ο
  | abstract, [] => (abstract, [])
  | abstract, input :: inputs =>
    ((runSpec spec (spec abstract input).1 inputs).1,
      (spec abstract input).2 :: (runSpec spec (spec abstract input).1 inputs).2)

/-- Every input of the run meets `condition` in the state in which it arrives. -/
def Meets (step : σ → ι → Except ε (σ × ο)) (condition : σ → ι → Prop) : σ → List ι → Prop
  | _, [] => True
  | state, input :: inputs => condition state input ∧
    ∀ next output, step state input = .ok (next, output) → Meets step condition next inputs

variable {step : σ → ι → Except ε (σ × ο)} {spec : α → ι → α × ο}
  {condition weaker : σ → ι → Prop} {related : σ → α → Prop} {state : σ} {abstract : α}

theorem meets_cons {input : ι} {inputs : List ι} {next : σ} {output : ο}
    (held : condition state input) (stepped : step state input = .ok (next, output))
    (rest : Meets step condition next inputs) : Meets step condition state (input :: inputs) := by
  refine ⟨held, ?_⟩
  intro next' output' stepped'
  rw [stepped] at stepped'
  cases stepped'
  exact rest

theorem Meets.mono {inputs : List ι} (meets : Meets step condition state inputs)
    (weaken : ∀ state input, condition state input → weaker state input) :
    Meets step weaker state inputs := by
  induction inputs generalizing state with
  | nil => trivial
  | cons input inputs ih =>
    exact ⟨weaken _ _ meets.1, fun next output stepped => ih (meets.2 next output stepped)⟩

/-- A condition on the inputs alone is met by a run of such inputs. -/
theorem meets_of_forall {inputs : List ι} (held : ∀ input ∈ inputs, ∀ state, condition state input) :
    Meets step condition state inputs := by
  induction inputs generalizing state with
  | nil => trivial
  | cons input inputs ih =>
    exact ⟨held input (by simp) state, fun _ _ _ => ih fun later member => held later (by simp [member])⟩

theorem Meets.and {inputs : List ι} (first : Meets step condition state inputs)
    (second : Meets step weaker state inputs) :
    Meets step (fun state input => condition state input ∧ weaker state input) state inputs := by
  induction inputs generalizing state with
  | nil => trivial
  | cons input inputs ih =>
    exact ⟨⟨first.1, second.1⟩, fun next output stepped =>
      ih (first.2 next output stepped) (second.2 next output stepped)⟩

theorem Meets.and_forall {always : ι → Prop} {inputs : List ι} (held : ∀ input ∈ inputs, always input)
    (meets : Meets step condition state inputs) :
    Meets step (fun state input => always input ∧ condition state input) state inputs := by
  have alone : Meets step (fun _ input => always input) state inputs :=
    meets_of_forall fun input member _ => held input member
  exact alone.and meets

theorem runSpec_map {κ : Type} (rename : κ → ι) (inputs : List κ) :
    runSpec spec abstract (inputs.map rename) =
      runSpec (fun abstract input => spec abstract (rename input)) abstract inputs := by
  induction inputs generalizing abstract with
  | nil => rfl
  | cons input inputs ih => simp only [List.map_cons, runSpec, ih]

/-- Forward simulation. A step that never fails and answers as the
specification does makes a run that never fails and answers the same. -/
theorem run_refines (spec : α → ι → α × ο) (related : σ → α → Prop)
    (simulates : ∀ state abstract input, related state abstract → condition state input →
      Returns (step state input) fun out =>
        related out.1 (spec abstract input).1 ∧ out.2 = (spec abstract input).2)
    {inputs : List ι} (start : related state abstract) (meets : Meets step condition state inputs) :
    Returns (run step state inputs) fun out =>
      related out.1 (runSpec spec abstract inputs).1 ∧ out.2 = (runSpec spec abstract inputs).2 := by
  induction inputs generalizing state abstract with
  | nil => exact (returns_ok _ _).mpr ⟨start, rfl⟩
  | cons input inputs ih =>
    obtain ⟨⟨next, output⟩, stepped, held, same⟩ := simulates state abstract input start meets.1
    obtain ⟨⟨final, outputs⟩, ran, heldFinal, sameRest⟩ := ih held (meets.2 next output stepped)
    refine ⟨(final, output :: outputs), ?_, heldFinal, ?_⟩
    · simp only [run, stepped, ran, ok_bind, pure_is_ok]
    · exact congrArg₂ List.cons same sameRest

/-- A run does to an abstract state what its inputs do one after another. -/
theorem run_follows (next : α → ι → α) (related : σ → α → Prop) (abstract : α)
    (follows : ∀ state abstract input, related state abstract → condition state input →
      Returns (step state input) fun out => related out.1 (next abstract input))
    {inputs : List ι} (start : related state abstract) (meets : Meets step condition state inputs) :
    Returns (run step state inputs) fun out => related out.1 (inputs.foldl next abstract) := by
  induction inputs generalizing state abstract with
  | nil => exact (returns_ok _ _).mpr start
  | cons input inputs ih =>
    obtain ⟨⟨after, output⟩, stepped, held⟩ := follows state abstract input start meets.1
    obtain ⟨⟨final, outputs⟩, ran, heldFinal⟩ := ih _ held (meets.2 after output stepped)
    refine ⟨(final, output :: outputs), ?_, heldFinal⟩
    simp only [run, stepped, ran, ok_bind, pure_is_ok]

/-- What every step keeps holds at the end of a run. -/
theorem run_keeps (inv : σ → Prop)
    (keeps : ∀ state input, inv state → condition state input → Returns (step state input) fun out => inv out.1)
    {inputs : List ι} (start : inv state) (meets : Meets step condition state inputs) :
    Returns (run step state inputs) fun out => inv out.1 :=
  run_follows (fun (_ : Unit) _ => ()) (fun state _ => inv state) () (fun state _ input => keeps state input)
    start meets

/-- What every step keeps of the state and all outputs so far holds at the end of a run. -/
theorem run_records (inv : σ → List ο → Prop)
    (keeps : ∀ state past input, inv state past → condition state input →
      Returns (step state input) fun out => inv out.1 (past ++ [out.2]))
    {inputs : List ι} {past : List ο} (start : inv state past) (meets : Meets step condition state inputs) :
    Returns (run step state inputs) fun out => inv out.1 (past ++ out.2) := by
  induction inputs generalizing state past with
  | nil => exact (returns_ok _ _).mpr (by rwa [List.append_nil])
  | cons input inputs ih =>
    obtain ⟨⟨after, output⟩, stepped, held⟩ := keeps state past input start meets.1
    obtain ⟨⟨final, outputs⟩, ran, heldFinal⟩ := ih held (meets.2 after output stepped)
    refine ⟨(final, output :: outputs), ?_, ?_⟩
    · simp only [run, stepped, ran, ok_bind, pure_is_ok]
    · simpa using heldFinal

/-- What every step that ends normally keeps holds where a run has ended normally. -/
theorem run_ok_meets (inv : σ → Prop)
    (keeps : ∀ state input next output, inv state → condition state input → step state input = .ok (next, output) →
      inv next)
    {inputs : List ι} {final : σ × List ο} (start : inv state) (meets : Meets step condition state inputs)
    (ran : run step state inputs = .ok final) : inv final.1 := by
  induction inputs generalizing state final with
  | nil =>
    cases ran
    exact start
  | cons input inputs ih =>
    obtain ⟨⟨next, output⟩, stepped, rest⟩ := returns_of_bind ran
    obtain ⟨⟨last, later⟩, further, same⟩ := returns_of_bind rest
    cases same
    have kept := keeps state input next output start meets.1 stepped
    have ended := ih kept (meets.2 next output stepped) further
    exact ended

/-- The same under a condition on the inputs alone. -/
theorem run_ok_keeps {always : ι → Prop} {inputs : List ι} {final : σ} {outputs : List ο} (inv : σ → Prop)
    (keeps : ∀ state input next output, inv state → always input → step state input = .ok (next, output) → inv next)
    (start : inv state) (held : ∀ input ∈ inputs, always input) (ran : run step state inputs = .ok (final, outputs)) :
    inv final := by
  have meets : Meets step (fun _ input => always input) state inputs :=
    meets_of_forall fun input member _ => held input member
  exact run_ok_meets inv keeps start meets ran

end ShipNet.Transition
