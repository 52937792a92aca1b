import ShipNet.RegistrationLookup
import ShipNet.Transition

/-! The ids that `Register(ordinal)` assigns by itself. Its counter starts at 0 for
every registry and is moved by nothing else, so an id is new only if neither the
constructor nor a call of `Register(ordinal, id)` was there before it. -/
namespace ShipNet.VersionRegistry
open Fallible OrdinalVector GrowingTable

variable {T : Type} {toOrdinal : T → UInt32} {registry before after : VersionRegistry} {calls : List Registration}

/-! ### Ids as they are assigned -/

/-- The elements of the vector, numbered by its positions. -/
def Construction.size : Construction T → Nat
  | default => 0
  | ofOrdinals ordinals => ordinals.length
  | ofValues ordinals => ordinals.length

def Construction.ids (construction : Construction T) : List UInt32 := (List.range construction.size).map UInt32.ofNat

/-- The id of a call, seen in the registry that it leaves. -/
def Registration.idIn (after : VersionRegistry) : Registration → UInt32
  | next _ => .ofNat after.latestRegisteredID.toNat
  | pair _ id => id

/-- A call, with the id that it assigns. -/
def Registration.assign (registry : VersionRegistry) (call : Registration) : Exec (VersionRegistry × UInt32) := do
  let after ← call.run registry
  pure (after, call.idIn after)

/-- A call of `Register(ordinal)` that a run of calls comes to. -/
structure Automatic (toOrdinal : T → UInt32) (construction : Construction T) (calls : List Registration) where
  start : VersionRegistry
  constructed : construction.run toOrdinal = .ok start
  earlier : List Registration
  ordinal : UInt32
  later : List Registration
  split : calls = earlier ++ .next ordinal :: later
  before : VersionRegistry
  ids : List UInt32
  ran : Transition.run Registration.assign start earlier = .ok (before, ids)
  after : VersionRegistry
  assigned : UInt32
  stepped : Registration.assign before (.next ordinal) = .ok (after, assigned)

/-- The id is none of those in use, and they refer to what they did. -/
structure Fresh (used : List UInt32) (before after : VersionRegistry) (assigned : UInt32) : Prop where
  unused : assigned ∉ used
  kept : ∀ id ∈ used, after.getOrdinalByID id = before.getOrdinalByID id

def AssignsFresh (toOrdinal : T → UInt32) (construction : Construction T) (calls : List Registration) : Prop :=
  ∀ call : Automatic toOrdinal construction calls,
    Fresh (construction.ids ++ call.ids) call.before call.after call.assigned

/-- No more elements than calls of `Register(ordinal)` before this one, and no id that
is their number. -/
def CounterAhead (size : Nat) (earlier : List Registration) : Prop :=
  size ≤ nextCount earlier ∧ ∀ ordinal id, .pair ordinal id ∈ earlier → id.toNat ≠ nextCount earlier

/-! ### Constructors -/

theorem new_leaves (ordinals : List UInt32) (built : new ordinals = .ok registry) :
    registry.latestRegisteredID = -1 ∧ registry.idToOrdinalMap = ordinals := by
  obtain ⟨state, -, same⟩ := returns_of_bind built
  cases same
  exact ⟨rfl, rfl⟩

theorem construction_leaves {construction : Construction T} (built : construction.run toOrdinal = .ok registry) :
    registry.latestRegisteredID = -1 ∧ registry.idToOrdinalMap.length = construction.size := by
  cases construction with
  | default =>
    cases built
    exact ⟨rfl, rfl⟩
  | ofOrdinals ordinals =>
    obtain ⟨latest, same⟩ := new_leaves ordinals built
    exact ⟨latest, congrArg List.length same⟩
  | ofValues ordinals =>
    rw [Construction.run, newOf_eq] at built
    obtain ⟨latest, same⟩ := new_leaves _ built
    exact ⟨latest, (congrArg List.length same).trans (List.length_map _)⟩

/-! ### Calls -/

theorem register_leaves {ordinal id : UInt32} (ran : registry.register ordinal id = .ok after) :
    after.latestRegisteredID = registry.latestRegisteredID ∧
      after.idToOrdinalMap = place slack registry.idToOrdinalMap id.toNat ordinal := by
  obtain ⟨ordinalToIDMap, -, ran⟩ := returns_of_bind ran
  obtain ⟨idToOrdinalMap, set, ran⟩ := returns_of_bind ran
  cases ran
  exact ⟨rfl, resizeVectorAndSet_ok set⟩

/-- What a call leaves, after `count` calls of `Register(ordinal)`. -/
structure Assigned (count : Nat) (registry after : VersionRegistry) (ordinal id : UInt32) : Prop where
  latest : after.latestRegisteredID = (count : Int) - 1
  idToOrdinalMap : after.idToOrdinalMap = place slack registry.idToOrdinalMap id.toNat ordinal

theorem assign_next {count : Nat} {ordinal assigned : UInt32}
    (latest : registry.latestRegisteredID = (count : Int) - 1)
    (stepped : Registration.assign registry (.next ordinal) = .ok (after, assigned)) :
    count < 2 ^ 31 ∧ assigned = .ofNat count ∧ Assigned (count + 1) registry after ordinal assigned := by
  obtain ⟨final, called, same⟩ := returns_of_bind stepped
  obtain ⟨rfl, number⟩ := Prod.mk.inj (Except.ok.inj same)
  obtain ⟨increased, counted, ran⟩ := returns_of_bind called
  have few : count < 2 ^ 31 := by
    by_cases few : count < 2 ^ 31
    · exact few
    · rw [latest, incrementLatest, if_neg (by omega)] at counted
      cases counted
  rw [latest, incrementLatest_eq few] at counted
  cases counted
  obtain ⟨kept, placed⟩ := register_leaves ran
  have counter : final.latestRegisteredID = (count : Int) := kept
  have assigned_eq : assigned = .ofNat count := by
    rw [← number, Registration.idIn, counter, Int.toNat_natCast]
  rw [assigned_eq]
  exact ⟨few, rfl, by omega, placed⟩

theorem assign_pair {count : Nat} {ordinal id assigned : UInt32}
    (latest : registry.latestRegisteredID = (count : Int) - 1)
    (stepped : Registration.assign registry (.pair ordinal id) = .ok (after, assigned)) :
    assigned = id ∧ Assigned count registry after ordinal id := by
  obtain ⟨final, called, same⟩ := returns_of_bind stepped
  obtain ⟨rfl, number⟩ := Prod.mk.inj (Except.ok.inj same)
  obtain ⟨kept, placed⟩ := register_leaves called
  exact ⟨number.symm, kept.trans latest, placed⟩

/-- What calls leave, after `count` calls of `Register(ordinal)`: a table with room for
their ids. -/
structure Ran (count : Nat) (registry before : VersionRegistry) (earlier : List Registration)
    (ids : List UInt32) : Prop where
  latest : before.latestRegisteredID = ((count + nextCount earlier : Nat) : Int) - 1
  numbers : ids = (registered count earlier).map Prod.snd
  longer : registry.idToOrdinalMap.length ≤ before.idToOrdinalMap.length
  room : ∀ id ∈ ids, id.toNat < before.idToOrdinalMap.length

/-- A call in front of others. -/
theorem Ran.cons {count next : Nat} {call : Registration} {earlier : List Registration} {ids : List UInt32}
    {ordinal id : UInt32} (first : Assigned next registry after ordinal id) (others : Ran next after before earlier ids)
    (counted : next + nextCount earlier = count + nextCount (call :: earlier))
    (introduces : registered count (call :: earlier) = (ordinal, id) :: registered next earlier) :
    Ran count registry before (call :: earlier) (id :: ids) := by
  have grown : after.idToOrdinalMap.length = grow slack registry.idToOrdinalMap.length id.toNat := by
    rw [first.idToOrdinalMap, length_place]
  have longer := others.longer
  rw [grown] at longer
  refine ⟨?_, ?_, ?_, ?_⟩
  · rw [others.latest, counted]
  · rw [introduces, List.map_cons, others.numbers]
  · exact Nat.le_trans (le_grow _ _ _) longer
  · intro used member
    rcases List.mem_cons.mp member with rfl | later
    · exact Nat.lt_of_lt_of_le (lt_grow slack_pos _ _) longer
    · exact others.room used later

theorem run_leaves {count : Nat} {earlier : List Registration} {ids : List UInt32}
    (latest : registry.latestRegisteredID = (count : Int) - 1)
    (ran : Transition.run Registration.assign registry earlier = .ok (before, ids)) :
    Ran count registry before earlier ids := by
  induction earlier generalizing registry count ids with
  | nil =>
    cases ran
    exact ⟨latest, rfl, Nat.le_refl _, by simp⟩
  | cons call earlier ih =>
    obtain ⟨⟨next, assigned⟩, stepped, rest⟩ := returns_of_bind ran
    obtain ⟨⟨final, others⟩, further, same⟩ := returns_of_bind rest
    cases same
    cases call with
    | next ordinal =>
      obtain ⟨-, rfl, left⟩ := assign_next latest stepped
      apply Ran.cons left (ih left.latest further)
      · rw [nextCount_next]
        omega
      · rfl
    | pair ordinal id =>
      obtain ⟨rfl, left⟩ := assign_pair latest stepped
      apply Ran.cons left (ih left.latest further)
      · rw [nextCount_pair]
      · rfl

/-! ### Freshness -/

theorem mem_registered_ids {count : Nat} {earlier : List Registration} {id : UInt32}
    (member : id ∈ (registered count earlier).map Prod.snd) :
    (∃ number < count + nextCount earlier, id = .ofNat number) ∨ ∃ ordinal, .pair ordinal id ∈ earlier := by
  induction earlier generalizing count with
  | nil => cases member
  | cons call earlier ih =>
    cases call with
    | next ordinal =>
      rw [nextCount_next]
      rcases List.mem_cons.mp member with rfl | further
      · exact .inl ⟨count, by omega, rfl⟩
      · rcases ih further with ⟨number, below, same⟩ | ⟨other, known⟩
        · exact .inl ⟨number, by omega, same⟩
        · exact .inr ⟨other, List.mem_cons_of_mem _ known⟩
    | pair ordinal other =>
      rw [nextCount_pair]
      rcases List.mem_cons.mp member with rfl | further
      · exact .inr ⟨ordinal, List.mem_cons_self⟩
      · rcases ih further with numbered | ⟨other, known⟩
        · exact .inl numbered
        · exact .inr ⟨other, List.mem_cons_of_mem _ known⟩

theorem pair_registered {count : Nat} {earlier : List Registration} {ordinal id : UInt32}
    (member : .pair ordinal id ∈ earlier) : id ∈ (registered count earlier).map Prod.snd := by
  induction earlier generalizing count with
  | nil => cases member
  | cons call earlier ih =>
    rcases List.mem_cons.mp member with rfl | further
    · exact List.mem_cons_self
    · cases call with
      | next other => exact List.mem_cons_of_mem _ (ih further)
      | pair other taken => exact List.mem_cons_of_mem _ (ih further)

theorem mem_construction_ids {construction : Construction T} {id : UInt32} :
    id ∈ construction.ids ↔ ∃ position < construction.size, UInt32.ofNat position = id := by
  simp [Construction.ids]

theorem toNat_ofNat_small {number : Nat} (small : number < 2 ^ 31) : (UInt32.ofNat number).toNat = number := by
  apply UInt32.toNat_ofNat_of_lt'
  show number < 2 ^ 32
  omega

/-- The number of earlier calls is new as an id exactly if the counter is ahead. -/
theorem unused_iff {construction : Construction T} {earlier : List Registration}
    (few : nextCount earlier < 2 ^ 31) :
    UInt32.ofNat (nextCount earlier) ∉ construction.ids ++ (registered 0 earlier).map Prod.snd ↔
      CounterAhead construction.size earlier := by
  rw [List.mem_append, not_or, mem_construction_ids]
  constructor
  · rintro ⟨noElement, noCall⟩
    constructor
    · apply Nat.le_of_not_lt
      intro inside
      exact noElement ⟨_, inside, rfl⟩
    · intro ordinal id known same
      rw [← same, UInt32.ofNat_toNat] at noCall
      exact noCall (pair_registered known)
  · rintro ⟨short, noPair⟩
    constructor
    · rintro ⟨position, inside, same⟩
      have numbers := congrArg UInt32.toNat same
      rw [toNat_ofNat_small few, toNat_ofNat_small (by omega)] at numbers
      omega
    · intro used
      rcases mem_registered_ids used with ⟨number, below, same⟩ | ⟨ordinal, known⟩
      · have numbers := congrArg UInt32.toNat same
        rw [toNat_ofNat_small few, toNat_ofNat_small (by omega)] at numbers
        omega
      · exact noPair ordinal _ known (toNat_ofNat_small few)

/-- Another id than the one that is set refers to what it did, if there was room for
it. -/
theorem lookup_kept {count : Nat} {ordinal id assigned : UInt32} (left : Assigned count registry after ordinal assigned)
    (other : id ≠ assigned) (room : id.toNat < registry.idToOrdinalMap.length) :
    after.getOrdinalByID id = registry.getOrdinalByID id := by
  have entry : after.idToOrdinalMap.getD id.toNat 0 = registry.idToOrdinalMap.getD id.toNat 0 := by
    rw [left.idToOrdinalMap]
    refine (getD_place slack_pos _ _ _ _).trans (if_neg ?_)
    exact fun same => other (UInt32.toNat_inj.mp same)
  have still : id.toNat < after.idToOrdinalMap.length := by
    rw [left.idToOrdinalMap, length_place]
    exact Nat.lt_of_lt_of_le room (le_grow _ _ _)
  simp only [getOrdinalByID, entry, ge_iff_le, Nat.not_le.mpr still, Nat.not_le.mpr room, if_false]

/-- What a call of `Register(ordinal)` that a run comes to finds, and assigns. -/
theorem Automatic.leaves {construction : Construction T} (call : Automatic toOrdinal construction calls) :
    Ran 0 call.start call.before call.earlier call.ids ∧ nextCount call.earlier < 2 ^ 31 ∧
      call.assigned = .ofNat (nextCount call.earlier) ∧
      Assigned (nextCount call.earlier + 1) call.before call.after call.ordinal call.assigned := by
  obtain ⟨latest, -⟩ := construction_leaves call.constructed
  have earlier : Ran 0 call.start call.before call.earlier call.ids := run_leaves latest call.ran
  have counter := earlier.latest
  rw [Nat.zero_add] at counter
  exact ⟨earlier, assign_next counter call.stepped⟩

theorem Automatic.fresh_iff {construction : Construction T} (call : Automatic toOrdinal construction calls) :
    Fresh (construction.ids ++ call.ids) call.before call.after call.assigned ↔
      CounterAhead construction.size call.earlier := by
  obtain ⟨earlier, few, number, left⟩ := call.leaves
  have unused : .ofNat (nextCount call.earlier) ∉ construction.ids ++ (registered 0 call.earlier).map Prod.snd ↔
      CounterAhead construction.size call.earlier := unused_iff few
  rw [← number, ← earlier.numbers] at unused
  constructor
  · intro fresh
    exact unused.mp fresh.unused
  · intro ahead
    refine ⟨unused.mpr ahead, ?_⟩
    intro id used
    apply lookup_kept left
    · rintro rfl
      exact unused.mpr ahead used
    · rcases List.mem_append.mp used with fromVector | fromCall
      · obtain ⟨position, inside, rfl⟩ := mem_construction_ids.mp fromVector
        obtain ⟨-, size⟩ := construction_leaves call.constructed
        have exactly : (UInt32.ofNat position).toNat ≤ position := by
          rw [UInt32.toNat_ofNat']
          exact Nat.mod_le _ _
        have longer := earlier.longer
        omega
      · exact earlier.room id fromCall

/-- Every id that a registry assigns by itself is new exactly if its counter is ahead
of the constructor and of the calls that bring their own id, whenever it is used. -/
theorem automatic_ids_fresh_iff (toOrdinal : T → UInt32) (construction : Construction T)
    (calls : List Registration) :
    AssignsFresh toOrdinal construction calls ↔
      ∀ call : Automatic toOrdinal construction calls, CounterAhead construction.size call.earlier := by
  constructor
  · intro fresh call
    exact call.fresh_iff.mp (fresh call)
  · intro ahead call
    exact call.fresh_iff.mpr (ahead call)

/-- The id of the only element of the vector is assigned once more, and refers to
another ordinal from then on. -/
theorem first_automatic_id_repeats : ¬ AssignsFresh id (.ofOrdinals [5] : Construction UInt32) [.next 7] := by
  intro fresh
  have repeated := fresh {
    start := { ordinalToIDMap := List.replicate 13 0, idToOrdinalMap := [5] }
    constructed := by rfl
    earlier := []
    ordinal := 7
    later := []
    split := rfl
    before := { ordinalToIDMap := List.replicate 13 0, idToOrdinalMap := [5] }
    ids := []
    ran := rfl
    after := { ordinalToIDMap := List.replicate 13 0, idToOrdinalMap := [7], latestRegisteredID := 0 }
    assigned := 0
    stepped := by rfl }
  have redirected := repeated.kept 0 (by decide)
  cases redirected

end ShipNet.VersionRegistry
