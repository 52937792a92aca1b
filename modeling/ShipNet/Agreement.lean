import ShipNet.Transition

/-! Two runs side by side: codes that fail alike or return related results, with
the rules for sequences, loops and runs of a step function. -/
namespace ShipNet.Fallible

variable {ε σ τ ρ α β γ δ ι ο : Type}

/-- Both end in results that are related, or both fail in the same way. -/
def Agree (related : α → β → Prop) : Except ε α → Except ε β → Prop
  | .ok result, .ok other => related result other
  | .error failure, .error other => failure = other
  | .ok _, .error _ => False
  | .error _, .ok _ => False

variable {code : Except ε α} {other : Except ε β}

theorem Agree.mono {strong weak : α → β → Prop} (agree : Agree strong code other)
    (weaken : ∀ result partner, strong result partner → weak result partner) : Agree weak code other := by
  cases code with
  | error failure => cases other with
    | error failure' => exact agree
    | ok result => exact agree
  | ok result => cases other with
    | error failure => exact agree
    | ok result' => exact weaken _ _ agree

theorem Agree.bind {mid : α → β → Prop} {post : γ → δ → Prop} {next : α → Except ε γ}
    {nextOther : β → Except ε δ} (first : Agree mid code other)
    (second : ∀ result partner, mid result partner → Agree post (next result) (nextOther partner)) :
    Agree post (code >>= next) (other >>= nextOther) := by
  cases code with
  | error failure => cases other with
    | error failure' => exact first
    | ok result => exact first.elim
  | ok result => cases other with
    | error failure => exact first.elim
    | ok result' => exact second _ _ first

/-- One side goes on to look at its result. -/
theorem Agree.bind_pure {mid : α → β → Prop} {post : γ → β → Prop} {view : α → γ} (agree : Agree mid code other)
    (seen : ∀ result partner, mid result partner → post (view result) partner) :
    Agree post (code >>= fun result => pure (view result)) other := by
  cases code with
  | error failure => cases other with
    | error failure' => exact agree
    | ok result => exact agree.elim
  | ok result => cases other with
    | error failure => exact agree.elim
    | ok result' => exact seen _ _ agree

theorem Agree.refl (code : Except ε α) : Agree Eq code code := by
  cases code with
  | error failure => rfl
  | ok result => rfl

/-- Rounds that lead to related states, or leave with related results. -/
def RoundsAgree (related : σ → τ → Prop) (post : ρ → γ → Prop) : Round σ ρ → Round τ γ → Prop
  | .again next, .again other => related next other
  | .leave result, .leave other => post result other
  | .again _, .leave _ => False
  | .leave _, .again _ => False

theorem loop_agree {endless : ε} {round : σ → Except ε (Round σ ρ)} {roundOther : τ → Except ε (Round τ γ)}
    {related : σ → τ → Prop} {post : ρ → γ → Prop}
    (step : ∀ state other, related state other →
      Agree (RoundsAgree related post) (round state) (roundOther other))
    {state : σ} {other : τ} (start : related state other) (fuel : Nat) :
    Agree post (loop endless round fuel state) (loop endless roundOther fuel other) := by
  induction fuel generalizing state other with
  | zero => rfl
  | succ fuel ih =>
    refine (step state other start).bind ?_
    rintro (next | result) (nextOther | resultOther) held
    · exact ih held
    · exact held.elim
    · exact held.elim
    · exact held

theorem while_agree {endless : ε} {guard : σ → Bool} {guardOther : τ → Bool} {body : σ → Except ε σ}
    {bodyOther : τ → Except ε τ} {related : σ → τ → Prop}
    (guards : ∀ state other, related state other → guard state = guardOther other)
    (step : ∀ state other, related state other → Agree related (body state) (bodyOther other))
    {state : σ} {other : τ} (start : related state other) (fuel : Nat) :
    Agree related (loop endless (whileRound guard body) fuel state)
      (loop endless (whileRound guardOther bodyOther) fuel other) := by
  refine loop_agree (fun state other held => ?_) start fuel
  unfold whileRound
  rw [← guards state other held]
  cases passed : guard state with
  | false => exact held
  | true => exact (step state other held).bind fun next nextOther kept => kept

/-- A bisimulation: related states answer every run alike. -/
theorem run_agree {step : σ → ι → Except ε (σ × ο)} {stepOther : τ → ι → Except ε (τ × ο)}
    {related : σ → τ → Prop}
    (steps : ∀ state other input, related state other →
      Agree (fun out outOther => related out.1 outOther.1 ∧ out.2 = outOther.2)
        (step state input) (stepOther other input))
    {state : σ} {other : τ} (start : related state other) (inputs : List ι) :
    Agree (fun out outOther => related out.1 outOther.1 ∧ out.2 = outOther.2)
      (Transition.run step state inputs) (Transition.run stepOther other inputs) := by
  induction inputs generalizing state other with
  | nil => exact ⟨start, rfl⟩
  | cons input inputs ih =>
    refine (steps state other input start).bind ?_
    rintro ⟨next, output⟩ ⟨nextOther, outputOther⟩ ⟨kept, same⟩
    refine (ih kept).bind ?_
    rintro ⟨final, outputs⟩ ⟨finalOther, outputsOther⟩ ⟨keptFinal, sameRest⟩
    exact ⟨keptFinal, congrArg₂ List.cons same sameRest⟩

/-- Results that are related by a function of theirs are the same under it. -/
theorem Agree.map_eq {view : α → γ} {viewOther : β → γ}
    (agree : Agree (fun result partner => view result = viewOther partner) code other) :
    code.map view = other.map viewOther := by
  cases code with
  | error failure => cases other with
    | error failure' => exact congrArg Except.error agree
    | ok result => exact agree.elim
  | ok result => cases other with
    | error failure => exact agree.elim
    | ok result' => exact congrArg Except.ok agree

end ShipNet.Fallible
