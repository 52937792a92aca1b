import ShipNet.VersionBands

/-! What `~VersionedRegistry()` deletes. The bands are numbered from 1 on, because the
loop of the constructor starts at the first entry, and the destructor starts at slot 0,
which no registry was ever assigned to. -/
namespace ShipNet.VersionedRegistry
open Fallible

variable {versions : List ProtocolVersion} {protocolVersions : ProtocolVersions} {versionMap : VersionSet}
  {versioned registry : VersionedRegistry}

/-- The ways to assign the slots. -/
inductive Population where
  | fill (registry : Nat)
  | register (calls : List (ProtocolVersion.Pointer × Nat))

def Population.run (versioned : VersionedRegistry) : Population → Exec VersionedRegistry
  | fill registry => versioned.fillVersionRegistry registry
  | register calls => versioned.registerVersions calls

/-- The constructors, and then the assignments. -/
def populated (versions : List ProtocolVersion) (versionMap : VersionSet) (population : Population) :
    Exec VersionedRegistry := do
  let protocolVersions ← ProtocolVersions.new versions
  let versioned ← new protocolVersions versionMap
  population.run versioned

/-- Every slot that the destructor deletes was assigned, and none shares its registry
with another one. -/
def OwnsSlots (registry : VersionedRegistry) : Prop := Returns registry.deleteSlots List.Nodup

/-- Populations of the whole of `versionMap`: every entry has a call, and no registry is
registered twice. -/
structure Covers (versions : List ProtocolVersion) (versionMap : VersionSet) (population : Population) : Prop where
  ascending : Ascending versions
  drawn : ∀ entry ∈ versionMap.entries, entry ∈ versions
  fromOldest : ∃ oldest ∈ versionMap.entries, versions.head? = some oldest
  distinct : ∀ calls, population = .register calls → (calls.map Prod.snd).Nodup
  covered : ∀ calls, population = .register calls → ∀ entry ∈ versionMap.entries, .at entry ∈ calls.map Prod.fst

/-! ### Bands -/

/-- The bands of a table, none of which is 0. -/
def Positive (versionToOrdinalMap : RawArray UInt32) : Prop :=
  ∀ (position : Nat) (band : UInt32), versionToOrdinalMap[position]? = some (some band) →
    0 < band.toNat ∧ band.toNat < 2 ^ 31

theorem Positive.fill {table after : RawArray UInt32} {first last band : Nat} (positive : Positive table)
    (numbered : first = last ∨ 0 < band ∧ band < 2 ^ 31)
    (ran : RawArray.fill .outOfBounds table first last (.ofNat band) = (.ok after : Exec (RawArray UInt32))) :
    Positive after := by
  intro position seen entry
  rcases RawArray.fill_entry _ ran entry with ⟨from_, below, rfl⟩ | before
  · rcases numbered with rfl | bounds
    · omega
    · have same : (UInt32.ofNat band).toNat = band := UInt32.toNat_ofNat_of_lt' (by
        show band < 2 ^ 32
        omega)
      rw [same]
      exact bounds
  · exact positive position seen before

theorem increment_ok {ordinal next : Nat} (ran : increment ordinal = .ok next) :
    next = ordinal + 1 ∧ next < 2 ^ 31 := by
  unfold increment at ran
  by_cases room : ordinal < 2 ^ 31 - 1
  · rw [if_pos room] at ran
    cases ran
    exact ⟨rfl, by omega⟩
  · rw [if_neg room] at ran
    cases ran

/-- From band 1 on, or with a first round that fills nothing. -/
theorem fillBands_positive {entries : List ProtocolVersion} {previousIt last : ProtocolVersion} {ordinal count : Nat}
    {table filled : RawArray UInt32} (positive : Positive table)
    (started : entries.head? = some previousIt ∨ 0 < ordinal) (few : ordinal < 2 ^ 31)
    (ran : fillBands previousIt ordinal table entries = .ok (last, count, filled)) :
    0 < count ∧ count < 2 ^ 31 ∧ Positive filled := by
  induction entries generalizing previousIt ordinal table with
  | nil =>
    cases ran
    rcases started with none | numbered
    · cases none
    · exact ⟨numbered, few, positive⟩
  | cons it later ih =>
    obtain ⟨next, counted, ran⟩ := returns_of_bind ran
    obtain ⟨rfl, bounded⟩ := increment_ok counted
    obtain ⟨after, fills, ran⟩ := returns_of_bind ran
    apply ih _ (.inr (Nat.succ_pos ordinal)) bounded ran
    apply positive.fill _ fills
    rcases started with first | numbered
    · exact .inl (congrArg (fun version => version.ordinal.toNat) (Option.some.inj first).symm)
    · exact .inr ⟨numbered, few⟩

/-- Slot 0 was never assigned, and no version leads to it. -/
structure Unowned (versioned : VersionedRegistry) : Prop where
  bands : Positive versioned.versionToOrdinalMap
  unassigned : ∀ registry, versioned.versionRegistry[0]? ≠ some (some registry)

theorem new_unowned (built : new protocolVersions versionMap = .ok versioned) : Unowned versioned := by
  unfold new at built
  generalize versionMap.entries = entries at built
  cases entries with
  | nil => cases built
  | cons first later =>
    obtain ⟨⟨last, count, filled⟩, ranBands, built⟩ := returns_of_bind built
    have empty : Positive (RawArray.alloc (protocolVersions.maximumVersion.ordinal + 1).toNat) := by
      intro position band entry
      exact absurd entry (RawArray.alloc_entry position band)
    obtain ⟨counted, few, bands⟩ := fillBands_positive empty (.inl rfl) (by decide) ranBands
    obtain ⟨table, fills, built⟩ := returns_of_bind built
    obtain ⟨maximumOrdinal, -, built⟩ := returns_of_bind built
    cases built
    exact ⟨bands.fill (.inr ⟨counted, few⟩) fills, RawArray.alloc_entry 0⟩

/-! ### Assignments -/

theorem Unowned.versionToOrdinal (unowned : Unowned versioned) {version : ProtocolVersion.Pointer} {slot : UInt32}
    (found : versioned.versionToOrdinal version = .ok slot) : 0 < slot.toNat ∧ slot.toNat < 2 ^ 31 :=
  unowned.bands _ _ (RawArray.load_ok _ _ found)

/-- A store in another slot. -/
theorem Unowned.store (unowned : Unowned versioned) {slot : UInt32} {address : Nat} {versionRegistry : RawArray Nat}
    (other : 0 < slot.toNat)
    (stored : RawArray.store Fault.outOfBounds versioned.versionRegistry slot.toNat address = .ok versionRegistry) :
    Unowned { versioned with versionRegistry := versionRegistry } := by
  refine ⟨unowned.bands, ?_⟩
  intro registry
  rw [RawArray.store_ok _ stored, List.getElem?_set_ne (Nat.ne_of_gt other)]
  exact unowned.unassigned registry

theorem Unowned.registerVersions {calls : List (ProtocolVersion.Pointer × Nat)} (unowned : Unowned versioned)
    (ran : versioned.registerVersions calls = .ok registry) : Unowned registry := by
  induction calls generalizing versioned with
  | nil =>
    cases ran
    exact unowned
  | cons call later ih =>
    obtain ⟨after, registers, ran⟩ := returns_of_bind ran
    refine ih ?_ ran
    obtain ⟨slot, found, registers⟩ := returns_of_bind registers
    obtain ⟨versionRegistry, stored, registers⟩ := returns_of_bind registers
    cases registers
    exact unowned.store (unowned.versionToOrdinal found).1 stored

/-- The rounds of `FillVersionRegistry` go up from a band, and end before a `uint32_t`
does. -/
theorem Unowned.fillVersionRegistry {address : Nat} (unowned : Unowned versioned)
    (ran : versioned.fillVersionRegistry address = .ok registry) : Unowned registry := by
  obtain ⟨first, found, ran⟩ := returns_of_bind ran
  have band := unowned.versionToOrdinal found
  refine loop_ok (fun state => Unowned state.1 ∧ 0 < state.2.toNat) ?_ ?_ ⟨unowned, band.1⟩ ran
  · rintro ⟨current, slot⟩ ⟨next, nextSlot⟩ ⟨kept, positive⟩ stepped
    obtain ⟨maximumOrdinal, maximum, stepped⟩ := returns_of_bind stepped
    have last := kept.versionToOrdinal maximum
    by_cases reached : slot ≤ maximumOrdinal
    · simp only [if_pos reached] at stepped
      obtain ⟨versionRegistry, stored, stepped⟩ := returns_of_bind stepped
      cases stepped
      refine ⟨kept.store positive stored, ?_⟩
      have small : slot.toNat ≤ maximumOrdinal.toNat := reached
      have sum : (slot + 1).toNat = (slot.toNat + 1) % 2 ^ 32 := UInt32.toNat_add slot 1
      show 0 < (slot + 1).toNat
      omega
    · simp only [if_neg reached] at stepped
      cases stepped
  · rintro ⟨current, slot⟩ final ⟨kept, positive⟩ stepped
    obtain ⟨maximumOrdinal, -, stepped⟩ := returns_of_bind stepped
    by_cases reached : slot ≤ maximumOrdinal
    · simp only [if_pos reached] at stepped
      obtain ⟨versionRegistry, -, stepped⟩ := returns_of_bind stepped
      cases stepped
    · simp only [if_neg reached] at stepped
      cases stepped
      exact kept

theorem populated_unowned {population : Population}
    (ran : populated versions versionMap population = .ok registry) : Unowned registry := by
  obtain ⟨protocolVersions, -, ran⟩ := returns_of_bind ran
  obtain ⟨versioned, built, ran⟩ := returns_of_bind ran
  have unowned := new_unowned built
  cases population with
  | fill address => exact unowned.fillVersionRegistry ran
  | register calls => exact unowned.registerVersions ran

/-- The destructor reads slot 0 first. -/
theorem Unowned.not_owns (unowned : Unowned registry) : ¬ OwnsSlots registry := by
  rintro ⟨addresses, ran, -⟩
  obtain ⟨maximumOrdinal, maximum, ran⟩ := returns_of_bind ran
  have bounds := unowned.versionToOrdinal maximum
  have some_ : (maximumOrdinal + 1).toNat = maximumOrdinal.toNat + 1 := by
    rw [UInt32.toNat_add]
    exact Nat.mod_eq_of_lt (by
      show maximumOrdinal.toNat + 1 < 2 ^ 32
      omega)
  rw [some_, List.range_succ_eq_map, List.mapM_cons] at ran
  obtain ⟨address, loaded, -⟩ := returns_of_bind ran
  exact unowned.unassigned address (RawArray.load_ok _ _ loaded)

/-- No way of populating a registry, of whatever versions, makes its destructor delete
only slots that were assigned. -/
theorem slots_never_owned (versions : List ProtocolVersion) (versionMap : VersionSet) (population : Population) :
    ¬ Returns (populated versions versionMap population) OwnsSlots := by
  rintro ⟨registry, ran, owns⟩
  exact (populated_unowned ran).not_owns owns

/-- A population of the whole of a single version, after which the destructor reads slot 0
without a value. -/
private def LeavesSlotZero (population : Population) : Prop :=
  Covers [⟨0, 0⟩] ⟨[⟨0, 0⟩], List.pairwise_singleton _ _⟩ population ∧
    ∃ registry, populated [⟨0, 0⟩] ⟨[⟨0, 0⟩], List.pairwise_singleton _ _⟩ population = .ok registry ∧
      registry.deleteSlots = .error .uninitialised ∧ ¬ OwnsSlots registry

/-- A single version, populated in either way. -/
theorem slot_zero_deleted_unassigned :
    LeavesSlotZero (.fill 7) ∧ LeavesSlotZero (.register [(.at ⟨0, 0⟩, 7)]) := by
  have unowned {registry : VersionedRegistry} (deleted : registry.deleteSlots = .error .uninitialised) :
      ¬ OwnsSlots registry := by
    rw [OwnsSlots, deleted]
    exact returns_error _ _
  constructor
  · refine ⟨⟨List.pairwise_singleton _ _, by simp, ⟨⟨0, 0⟩, by simp, rfl⟩, ?_, ?_⟩, _, rfl, rfl, unowned rfl⟩
    · intro calls same
      cases same
    · intro calls same
      cases same
  · refine ⟨⟨List.pairwise_singleton _ _, by simp, ⟨⟨0, 0⟩, by simp, rfl⟩, ?_, ?_⟩, _, rfl, rfl, unowned rfl⟩
    · rintro calls ⟨⟩
      simp
    · rintro calls ⟨⟩
      simp

end ShipNet.VersionedRegistry
