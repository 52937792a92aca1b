import Mathlib.Data.List.Induction

/-! A list of entries that wait until a poll finds them due. Every poll takes all that
are due at its time, so an entry leaves with the first poll at which it is due. -/
namespace ShipNet.Polling

variable {α β τ : Type}

/-! ### The first of a list -/

/-- `element` has the property, and nothing in front of it has. -/
def First (property : α → Prop) (earlier : List α) (element : α) : Prop :=
  property element ∧ ∀ other ∈ earlier, ¬ property other

theorem exists_first {property : α → Prop} {list : List α} (some_ : ∃ element ∈ list, property element) :
    ∃ earlier element later, list = earlier ++ element :: later ∧ First property earlier element := by
  induction list with
  | nil =>
    obtain ⟨element, member, -⟩ := some_
    cases member
  | cons head tail ih =>
    by_cases here : property head
    · exact ⟨[], head, tail, rfl, here, by simp⟩
    · obtain ⟨element, member, held⟩ := some_
      have further : element ∈ tail := by
        rcases List.mem_cons.mp member with rfl | further
        · exact absurd held here
        · exact further
      obtain ⟨earlier, found, later, rfl, first, none⟩ := ih ⟨element, further, held⟩
      exact ⟨head :: earlier, found, later, rfl, first, List.forall_mem_cons.mpr ⟨here, none⟩⟩

/-- Two properties have the same first element exactly if they agree up to the first
element of one of them. -/
theorem first_agree_iff {property other : α → Prop} {list : List α} :
    (∀ earlier element later, list = earlier ++ element :: later →
      (First property earlier element ↔ First other earlier element)) ↔
    ∀ earlier element later, list = earlier ++ element :: later → (∀ before ∈ earlier, ¬ other before) →
      (property element ↔ other element) := by
  constructor
  · intro agree
    have none (earlier : List α) : ∀ later, list = earlier ++ later → (∀ before ∈ earlier, ¬ other before) →
        ∀ before ∈ earlier, ¬ property before := by
      induction earlier using List.reverseRecOn with
      | nil => simp
      | append_singleton earlier last ih =>
        intro later split without
        obtain ⟨withoutEarlier, withoutLast⟩ := List.forall_mem_append.mp without
        rw [List.append_assoc] at split
        have first := ih _ split withoutEarlier
        refine List.forall_mem_append.mpr ⟨first, ?_⟩
        rintro before member held
        obtain rfl := List.mem_singleton.mp member
        have both := (agree earlier before later split).mp ⟨held, first⟩
        exact withoutLast before member both.1
    intro earlier element later split without
    have first := none earlier _ split without
    constructor
    · exact fun held => ((agree earlier element later split).mp ⟨held, first⟩).1
    · exact fun held => ((agree earlier element later split).mpr ⟨held, without⟩).1
  · intro agree earlier element later split
    by_cases some_ : ∃ before ∈ earlier, other before
    · obtain ⟨front, first, rest, rfl, held, without⟩ := exists_first some_
      have too : property first := (agree front first (rest ++ element :: later) (by simp [split]) without).mpr held
      constructor
      · exact fun both => absurd too (both.2 first (by simp))
      · exact fun both => absurd held (both.2 first (by simp))
    · have without : ∀ before ∈ earlier, ¬ other before := fun before member held => some_ ⟨before, member, held⟩
      have first : ∀ before ∈ earlier, ¬ property before := by
        intro before member held
        obtain ⟨front, rest, rfl⟩ := List.append_of_mem member
        have early := agree front before (rest ++ element :: later) (by simp [split])
          fun other member => without other (by simp [member])
        exact without before member (early.mp held)
      constructor
      · exact fun both => ⟨(agree earlier element later split without).mp both.1, without⟩
      · exact fun both => ⟨(agree earlier element later split without).mpr both.1, first⟩

/-! ### Entries and polls -/

/-- What happens to the list. An idle poll finds it empty. -/
inductive Event (α β τ : Type) where
  | arrive (entry : α)
  | poll (time : τ) (taken : List β)
  | idle

/-- The entries that wait before and after these events, as the polls see them. -/
inductive Follows (view : α → β) (due : τ → α → Bool) : List α → List (Event α β τ) → List α → Prop where
  | nil (waiting : List α) : Follows view due waiting [] waiting
  | arrive {waiting final : List α} {entry : α} {events : List (Event α β τ)}
      (rest : Follows view due (waiting ++ [entry]) events final) :
      Follows view due waiting (.arrive entry :: events) final
  | poll {waiting final : List α} {time : τ} {events : List (Event α β τ)}
      (rest : Follows view due (waiting.filter fun entry => !due time entry) events final) :
      Follows view due waiting (.poll time ((waiting.filter (due time)).map view) :: events) final
  | idle {final : List α} {events : List (Event α β τ)} (rest : Follows view due [] events final) :
      Follows view due [] (.idle :: events) final

variable {view : α → β} {due : τ → α → Bool} {waiting mid final : List α} {events others : List (Event α β τ)}
  {mark : β → Prop} {entry : α}

theorem Follows.append (first : Follows view due waiting events mid) (second : Follows view due mid others final) :
    Follows view due waiting (events ++ others) final := by
  induction first with
  | nil waiting => exact second
  | arrive rest ih => exact .arrive (ih second)
  | poll rest ih => exact .poll (ih second)
  | idle rest ih => exact .idle (ih second)

theorem follows_arrivals (waiting entries : List α) :
    Follows view due waiting (entries.map .arrive) (waiting ++ entries) := by
  induction entries generalizing waiting with
  | nil =>
    rw [List.append_nil]
    exact .nil waiting
  | cons entry entries ih =>
    rw [List.append_cons]
    exact .arrive (ih _)

/-- What waits has waited before, or has come in. -/
theorem Follows.arrived (follows : Follows view due waiting events final) (there : entry ∈ final) :
    entry ∈ waiting ∨ .arrive entry ∈ events := by
  induction follows with
  | nil waiting => exact .inl there
  | arrive rest ih =>
    rcases ih there with known | arrived
    · rcases List.mem_append.mp known with before | now
      · exact .inl before
      · rw [List.mem_singleton.mp now]
        exact .inr List.mem_cons_self
    · exact .inr (List.mem_cons_of_mem _ arrived)
  | poll rest ih =>
    rcases ih there with known | arrived
    · exact .inl (List.mem_filter.mp known).1
    · exact .inr (List.mem_cons_of_mem _ arrived)
  | idle rest ih =>
    rcases ih there with known | arrived
    · exact .inl known
    · exact .inr (List.mem_cons_of_mem _ arrived)

theorem Follows.split (follows : Follows view due waiting (events ++ others) final) :
    ∃ mid, Follows view due waiting events mid ∧ Follows view due mid others final := by
  induction events generalizing waiting with
  | nil => exact ⟨waiting, .nil waiting, follows⟩
  | cons event events ih =>
    cases follows with
    | arrive rest =>
      obtain ⟨mid, first, second⟩ := ih rest
      exact ⟨mid, .arrive first, second⟩
    | poll rest =>
      obtain ⟨mid, first, second⟩ := ih rest
      exact ⟨mid, .poll first, second⟩
    | idle rest =>
      obtain ⟨mid, first, second⟩ := ih rest
      exact ⟨mid, .idle first, second⟩

/-! ### One entry -/

/-- No entry that is marked waits. -/
def Absent (view : α → β) (mark : β → Prop) (waiting : List α) : Prop := ∀ other ∈ waiting, ¬ mark (view other)

/-- This one waits, and it is the only one that is marked. -/
structure Alone (view : α → β) (mark : β → Prop) (entry : α) (waiting : List α) : Prop where
  there : entry ∈ waiting
  only : ∀ other ∈ waiting, mark (view other) → other = entry

/-- No entry that is marked comes in. -/
def NoArrival (view : α → β) (mark : β → Prop) (events : List (Event α β τ)) : Prop :=
  ∀ other, .arrive other ∈ events → ¬ mark (view other)

theorem Alone.arrive {other : α} (alone : Alone view mark entry waiting) (unmarked : ¬ mark (view other)) :
    Alone view mark entry (waiting ++ [other]) := by
  refine ⟨List.mem_append_left _ alone.there, ?_⟩
  intro another member marked
  rcases List.mem_append.mp member with old | new
  · exact alone.only another old marked
  · rw [List.mem_singleton.mp new] at marked
    exact absurd marked unmarked

theorem Alone.stays {time : τ} (alone : Alone view mark entry waiting) (later : due time entry = false) :
    Alone view mark entry (waiting.filter fun entry => !due time entry) := by
  refine ⟨List.mem_filter.mpr ⟨alone.there, by simp [later]⟩, ?_⟩
  intro other member
  exact alone.only other (List.mem_filter.mp member).1

theorem Alone.leaves {time : τ} (alone : Alone view mark entry waiting) (now : due time entry = true) :
    Absent view mark (waiting.filter fun entry => !due time entry) := by
  intro other member marked
  obtain ⟨there, stays⟩ := List.mem_filter.mp member
  rw [alone.only other there marked, now] at stays
  cases stays

theorem Alone.taken_iff {time : τ} (alone : Alone view mark entry waiting) (marked : mark (view entry)) :
    (∃ seen ∈ (waiting.filter (due time)).map view, mark seen) ↔ due time entry = true := by
  constructor
  · rintro ⟨seen, member, held⟩
    obtain ⟨other, there, rfl⟩ := List.mem_map.mp member
    obtain ⟨waits, now⟩ := List.mem_filter.mp there
    rwa [alone.only other waits held] at now
  · intro now
    exact ⟨view entry, List.mem_map.mpr ⟨entry, List.mem_filter.mpr ⟨alone.there, now⟩, rfl⟩, marked⟩

theorem NoArrival.tail {event : Event α β τ} (noArrival : NoArrival view mark (event :: events)) :
    NoArrival view mark events :=
  fun other known => noArrival other (List.mem_cons_of_mem _ known)

/-- Nothing that is marked is taken if nothing that is marked waits. -/
theorem Follows.absent (follows : Follows view due waiting events final) (absent : Absent view mark waiting)
    (noArrival : NoArrival view mark events) {time : τ} {taken : List β} (member : .poll time taken ∈ events) :
    ∀ seen ∈ taken, ¬ mark seen := by
  induction follows with
  | nil waiting => cases member
  | arrive rest ih =>
    have unmarked := noArrival _ List.mem_cons_self
    apply ih _ noArrival.tail
    · rcases List.mem_cons.mp member with same | later
      · cases same
      · exact later
    · exact List.forall_mem_append.mpr ⟨absent, List.forall_mem_singleton.mpr unmarked⟩
  | poll rest ih =>
    rcases List.mem_cons.mp member with same | later
    · cases same
      intro seen there
      obtain ⟨other, kept, rfl⟩ := List.mem_map.mp there
      exact absent other (List.mem_filter.mp kept).1
    · exact ih (fun other kept => absent other (List.mem_filter.mp kept).1) noArrival.tail later
  | idle rest ih =>
    apply ih absent noArrival.tail
    rcases List.mem_cons.mp member with same | later
    · cases same
    · exact later

/-- A poll at which the entry is due. -/
def Event.Finds (due : τ → α → Bool) (entry : α) : Event α β τ → Prop
  | .poll time _ => due time entry = true
  | .arrive _ | .idle => False

/-- The entry is taken by the first poll that finds it due, and by no other. -/
theorem Follows.taken_iff {earlier later : List (Event α β τ)} {time : τ} {taken : List β}
    (follows : Follows view due waiting (earlier ++ .poll time taken :: later) final)
    (alone : Alone view mark entry waiting) (marked : mark (view entry))
    (noArrival : NoArrival view mark (earlier ++ .poll time taken :: later)) :
    (∃ seen ∈ taken, mark seen) ↔ First (Event.Finds due entry) earlier (.poll time taken) := by
  induction earlier generalizing waiting with
  | nil =>
    cases follows with
    | poll rest =>
      rw [alone.taken_iff marked]
      exact ⟨fun now => ⟨now, by simp⟩, fun first => first.1⟩
  | cons event earlier ih =>
    have step (kept : ¬ Event.Finds due entry event) {next : List α}
        (rest : Follows view due next (earlier ++ .poll time taken :: later) final)
        (still : Alone view mark entry next) :
        (∃ seen ∈ taken, mark seen) ↔ First (Event.Finds due entry) (event :: earlier) (.poll time taken) := by
      rw [ih rest still noArrival.tail, First, First, List.forall_mem_cons]
      exact and_congr_right fun _ => (and_iff_right kept).symm
    cases follows with
    | arrive rest => exact step id rest (alone.arrive (noArrival _ List.mem_cons_self))
    | @poll _ _ earlierTime _ rest =>
      cases now : due earlierTime entry with
      | false => exact step (by simp [Event.Finds, now]) rest (alone.stays now)
      | true =>
        have gone := rest.absent (alone.leaves now) noArrival.tail (List.mem_append_right _ List.mem_cons_self)
        constructor
        · rintro ⟨seen, member, held⟩
          exact absurd held (gone seen member)
        · intro first
          exact absurd now (first.2 _ List.mem_cons_self)
    | idle rest => cases alone.there

/-- A poll that finds nothing to wait comes after the one that took the entry. -/
theorem Follows.taken_before_idle {earlier later : List (Event α β τ)}
    (follows : Follows view due waiting (earlier ++ .idle :: later) final) (alone : Alone view mark entry waiting)
    (marked : mark (view entry)) (noArrival : NoArrival view mark (earlier ++ .idle :: later)) :
    ∃ time taken, .poll time taken ∈ earlier ∧ ∃ seen ∈ taken, mark seen := by
  induction earlier generalizing waiting with
  | nil =>
    cases follows with
    | idle rest => cases alone.there
  | cons event earlier ih =>
    have step {next : List α} (rest : Follows view due next (earlier ++ .idle :: later) final)
        (still : Alone view mark entry next) :
        ∃ time taken, .poll time taken ∈ event :: earlier ∧ ∃ seen ∈ taken, mark seen := by
      obtain ⟨time, taken, member, found⟩ := ih rest still noArrival.tail
      exact ⟨time, taken, List.mem_cons_of_mem _ member, found⟩
    cases follows with
    | arrive rest => exact step rest (alone.arrive (noArrival _ List.mem_cons_self))
    | @poll _ _ time _ rest =>
      cases now : due time entry with
      | false => exact step rest (alone.stays now)
      | true => exact ⟨time, _, List.mem_cons_self, (alone.taken_iff marked).mpr now⟩
    | idle rest => cases alone.there

end ShipNet.Polling
