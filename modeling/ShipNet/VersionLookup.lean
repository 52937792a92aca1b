import ShipNet.ProtocolLookup

/-! `FromProtocolID` and `FromOrdinal` find exactly the listed versions, each in its
own table, and the two tables agree. -/
namespace ShipNet.VersionedRegistry
open Fallible

variable {versions : List ProtocolVersion} {oldest newest version : ProtocolVersion}
  {protocolVersions : ProtocolVersions} {number : ProtocolVersion → UInt32}

/-- A lookup answers a listed version to its number, and to any other number one that
equals `UNKNOWN`. -/
structure Exact (number : ProtocolVersion → UInt32) (versions : List ProtocolVersion)
    (lookup : UInt32 → Exec ProtocolVersion.Pointer) : Prop where
  listed : ∀ version ∈ versions, (lookup (number version)).map ProtocolVersion.Pointer.value = .ok version
  unlisted : ∀ key, (∀ version ∈ versions, number version ≠ key) →
    (lookup key).map ProtocolVersion.Pointer.value = .ok .new

/-- What both lookups do, with the table and the bounds of one of them. -/
def lookUp (least greatest : UInt32) (table : RawArray ProtocolVersion) (key : UInt32) :
    Exec ProtocolVersion.Pointer :=
  if key < least ∨ key > greatest then pure .unknown
  else do
    let version ← RawArray.load .outOfBounds .uninitialised table key.toNat
    pure (.at version)

theorem lookUp_inside {least greatest key : UInt32} {table : RawArray ProtocolVersion}
    (inside : ¬ (key < least ∨ key > greatest)) (stored : table[key.toNat]? = some (some version)) :
    lookUp least greatest table key = .ok (.at version) := by
  rw [lookUp, if_neg inside, RawArray.load_eq_ok _ _ stored, ok_bind, pure_is_ok]

/-- A filled table is exact, where no two versions share a number and the bounds are the
least and the greatest number. -/
theorem Tabled.lookUp_exact {least greatest : UInt32} {table : RawArray ProtocolVersion}
    (tabled : Tabled number versions (ProtocolVersions.allocVersions (greatest + 1)) table)
    (bounds : ∀ version ∈ versions, least ≤ number version ∧ number version ≤ greatest)
    (below : greatest < ProtocolVersion.new.ordinal)
    (distinct : ∀ version ∈ versions, ∀ other ∈ versions, number version = number other → version = other) :
    Exact number versions (lookUp least greatest table) := by
  constructor
  · intro version member
    have inside : ¬ (number version < least ∨ number version > greatest) := by
      rintro (before | behind)
      · exact UInt32.not_lt.mpr (bounds version member).1 before
      · exact UInt32.not_lt.mpr (bounds version member).2 behind
    rcases tabled (number version).toNat with ⟨other, listed, same, stored⟩ | ⟨absent, -⟩
    · have here : other = version := distinct other listed version member (UInt32.toNat_inj.mp same)
      rw [lookUp_inside inside stored, here]
      rfl
    · exact absurd rfl (absent version member)
  · intro key unlisted
    by_cases outside : key < least ∨ key > greatest
    · rw [lookUp, if_pos outside]
      rfl
    · have reached : key.toNat ≤ greatest.toNat := UInt32.not_lt.mp fun behind => outside (.inr behind)
      rcases tabled key.toNat with ⟨other, listed, same, -⟩ | ⟨-, kept⟩
      · exact absurd (UInt32.toNat_inj.mp same) (unlisted other listed)
      · rw [lookUp_inside outside (kept.trans (allocVersions_entry below reached))]
        rfl

theorem Ascending.first_ordinal_le (ascending : Ascending versions) (head : versions.head? = some oldest)
    (listed : version ∈ versions) : oldest.ordinal ≤ version.ordinal :=
  (ascending.le_iff (List.mem_of_mem_head? head) listed).mp (ascending.first_le head listed)

/-- Neither ids nor ordinals repeat. -/
theorem Ascending.distinct (ascending : Ascending versions) {other : ProtocolVersion} (listed : version ∈ versions)
    (listedOther : other ∈ versions)
    (same : version.protocolID = other.protocolID ∨ version.ordinal = other.ordinal) : version = other := by
  rcases ascending.related listed listedOther with equal | ⟨less, lessId⟩ | ⟨less, lessId⟩
  · exact equal
  · rcases same with same | same
    · exact absurd lessId (same ▸ UInt32.lt_irrefl _)
    · exact absurd less (same ▸ UInt32.lt_irrefl _)
  · rcases same with same | same
    · exact absurd lessId (same ▸ UInt32.lt_irrefl _)
    · exact absurd less (same ▸ UInt32.lt_irrefl _)

theorem Tables.fromProtocolID_exact (tables : Tables versions oldest newest protocolVersions)
    (ascending : Ascending versions) (below : BelowUnknown versions) (head : versions.head? = some oldest)
    (last : versions.getLast? = some newest) :
    Exact ProtocolVersion.protocolID versions protocolVersions.fromProtocolID := by
  have same : protocolVersions.fromProtocolID =
      lookUp oldest.protocolID newest.protocolID protocolVersions.idToVersionMap := by
    funext protocolID
    rw [ProtocolVersions.fromProtocolID, tables.minimumID, tables.maximumID, lookUp]
  rw [same]
  apply tables.ids.lookUp_exact
  · intro version listed
    exact ⟨ascending.first_le head listed, (ascending.le_last last listed).2⟩
  · exact (below newest (List.mem_of_getLast? last)).2
  · intro version listed other listedOther equal
    exact ascending.distinct listed listedOther (.inl equal)

theorem Tables.fromOrdinal_exact (tables : Tables versions oldest newest protocolVersions)
    (ascending : Ascending versions) (below : BelowUnknown versions) (head : versions.head? = some oldest)
    (last : versions.getLast? = some newest) :
    Exact ProtocolVersion.ordinal versions protocolVersions.fromOrdinal := by
  have same : protocolVersions.fromOrdinal =
      lookUp oldest.ordinal newest.ordinal protocolVersions.ordinalToVersionMap := by
    funext ordinal
    rw [ProtocolVersions.fromOrdinal, tables.minimumOrdinal, tables.maximumOrdinal, lookUp]
  rw [same]
  apply tables.ordinals.lookUp_exact
  · intro version listed
    exact ⟨ascending.first_ordinal_le head listed, (ascending.le_last last listed).1⟩
  · exact (below newest (List.mem_of_getLast? last)).1
  · intro version listed other listedOther equal
    exact ascending.distinct listed listedOther (.inr equal)

/-- The version of a listed id leads to itself through its ordinal. -/
def Agree (versions : List ProtocolVersion) (protocolVersions : ProtocolVersions) : Prop :=
  ∀ version ∈ versions, Returns (protocolVersions.fromProtocolID version.protocolID) fun byId =>
    Returns (protocolVersions.fromOrdinal byId.value.ordinal) fun byOrdinal => byOrdinal.value = byId.value

theorem agree_of_exact (ids : Exact ProtocolVersion.protocolID versions protocolVersions.fromProtocolID)
    (ordinals : Exact ProtocolVersion.ordinal versions protocolVersions.fromOrdinal) :
    Agree versions protocolVersions := by
  intro version listed
  obtain ⟨byId, foundById, value⟩ := returns_of_map (ids.listed version listed)
  obtain ⟨byOrdinal, foundByOrdinal, same⟩ := returns_of_map (ordinals.listed version listed)
  refine ⟨byId, foundById, byOrdinal, ?_, same.trans value.symm⟩
  rw [value]
  exact foundByOrdinal

/-- The tables are written where they have entries, both lookups are exact, and they
agree. -/
theorem version_lookups_exact (versions : List ProtocolVersion) (nonempty : versions ≠ [])
    (ascending : Ascending versions) (below : BelowUnknown versions) :
    Returns (ProtocolVersions.new versions) fun protocolVersions =>
      Exact ProtocolVersion.protocolID versions protocolVersions.fromProtocolID ∧
        Exact ProtocolVersion.ordinal versions protocolVersions.fromOrdinal ∧ Agree versions protocolVersions := by
  have head : versions.head? = some (versions.head nonempty) := List.head?_eq_some_head nonempty
  have last : versions.getLast? = some (versions.getLast nonempty) := List.getLast?_eq_some_getLast nonempty
  apply (protocolVersions_tables ascending below head last).mono
  intro protocolVersions tables
  have ids := tables.fromProtocolID_exact ascending below head last
  have ordinals := tables.fromOrdinal_exact ascending below head last
  exact ⟨ids, ordinals, agree_of_exact ids ordinals⟩

/-- Three versions with gaps in both tables. -/
theorem sparse_version_lookups_exact :
    Returns (ProtocolVersions.new [⟨1, 4⟩, ⟨2, 47⟩, ⟨5, 110⟩]) fun protocolVersions =>
      Exact ProtocolVersion.protocolID [⟨1, 4⟩, ⟨2, 47⟩, ⟨5, 110⟩] protocolVersions.fromProtocolID ∧
        Exact ProtocolVersion.ordinal [⟨1, 4⟩, ⟨2, 47⟩, ⟨5, 110⟩] protocolVersions.fromOrdinal ∧
        Agree [⟨1, 4⟩, ⟨2, 47⟩, ⟨5, 110⟩] protocolVersions := by
  apply version_lookups_exact
  · simp
  · simp [Ascending]
  · simp [BelowUnknown, ProtocolVersion.new]

end ShipNet.VersionedRegistry
