import ShipNet.Bands
import ShipNet.VersionedRegistry

/-! The table of `VersionedRegistry` numbers the bands between the versions that
it is given, and every version is answered from the registry that was registered
last for a version of its band. -/
namespace ShipNet.VersionedRegistry
open Fallible

/-- Versions as an application lists them. -/
def Ascending (versions : List ProtocolVersion) : Prop :=
  versions.Pairwise fun version later => version.ordinal < later.ordinal ∧ version.protocolID < later.protocolID

/-- The number of entries that are not newer than a version. -/
def bandOf (entries : List ProtocolVersion) (version : ProtocolVersion) : Nat :=
  entries.countP fun entry => entry ≤ version

def borders (entries : List ProtocolVersion) : List Nat := entries.map fun entry => entry.ordinal.toNat

variable {versions entries : List ProtocolVersion} {version other first : ProtocolVersion}

/-! ### Ids and ordinals -/

theorem Ascending.related (ascending : Ascending versions) (listed : version ∈ versions)
    (listedOther : other ∈ versions) :
    version = other ∨ (version.ordinal < other.ordinal ∧ version.protocolID < other.protocolID) ∨
      (other.ordinal < version.ordinal ∧ other.protocolID < version.protocolID) := by
  obtain ⟨position, inside, rfl⟩ := List.getElem_of_mem listed
  obtain ⟨otherPosition, otherInside, rfl⟩ := List.getElem_of_mem listedOther
  have ordered := List.pairwise_iff_getElem.mp ascending
  rcases Nat.lt_trichotomy position otherPosition with before | same | behind
  · exact .inr (.inl (ordered position otherPosition inside otherInside before))
  · subst same
    exact .inl rfl
  · exact .inr (.inr (ordered otherPosition position otherInside inside behind))

/-- Listed versions are in the order of their ordinals. -/
theorem Ascending.le_iff (ascending : Ascending versions) (listed : version ∈ versions)
    (listedOther : other ∈ versions) :
    version ≤ other ↔ version.ordinal.toNat ≤ other.ordinal.toNat := by
  show version.protocolID.toNat ≤ other.protocolID.toNat ↔ version.ordinal.toNat ≤ other.ordinal.toNat
  rcases ascending.related listed listedOther with same | ⟨less, lessId⟩ | ⟨less, lessId⟩
  · simp [same]
  · have less : version.ordinal.toNat < other.ordinal.toNat := less
    have lessId : version.protocolID.toNat < other.protocolID.toNat := lessId
    omega
  · have less : other.ordinal.toNat < version.ordinal.toNat := less
    have lessId : other.protocolID.toNat < version.protocolID.toNat := lessId
    omega

theorem Ascending.lt_iff (ascending : Ascending versions) (listed : version ∈ versions)
    (listedOther : other ∈ versions) :
    version < other ↔ version.ordinal.toNat < other.ordinal.toNat := by
  have swapped := ascending.le_iff listedOther listed
  have negated : version < other ↔ ¬ other ≤ version := UInt32.not_le.symm
  rw [negated, swapped, Nat.not_le]

/-- The last of the listed versions is the newest. -/
theorem Ascending.le_last (ascending : Ascending versions) (last : versions.getLast? = some other)
    (listed : version ∈ versions) :
    version.ordinal.toNat ≤ other.ordinal.toNat ∧ version.protocolID.toNat ≤ other.protocolID.toNat := by
  obtain ⟨before, split⟩ := List.getLast?_eq_some_iff.mp last
  subst split
  rcases List.mem_append.mp listed with earlier | here
  · have less := (List.pairwise_append.mp ascending).2.2 version earlier other (by simp)
    exact ⟨Nat.le_of_lt less.1, Nat.le_of_lt less.2⟩
  · rw [List.mem_singleton.mp here]
    exact ⟨Nat.le_refl _, Nat.le_refl _⟩

theorem Ascending.bandOf_eq (ascending : Ascending versions) (drawn : ∀ entry ∈ entries, entry ∈ versions)
    (listed : version ∈ versions) :
    bandOf entries version = Bands.band (borders entries) version.ordinal.toNat := by
  rw [bandOf, Bands.band, borders, List.countP_map]
  apply List.countP_congr
  intro entry member
  simpa using ascending.le_iff (drawn entry member) listed

theorem Ascending.entries_ascending (ascending : Ascending versions) (drawn : ∀ entry ∈ entries, entry ∈ versions)
    (sorted : entries.Pairwise (· < ·)) :
    entries.Pairwise fun entry later => entry.ordinal.toNat < later.ordinal.toNat :=
  sorted.imp_of_mem fun member memberLater less =>
    (ascending.lt_iff (drawn _ member) (drawn _ memberLater)).mp less

/-! ### The listed versions -/

/-- No ordinal and no id is that of `ProtocolVersion::UNKNOWN`. -/
def BelowUnknown (versions : List ProtocolVersion) : Prop :=
  ∀ version ∈ versions, version.ordinal < ProtocolVersion.new.ordinal ∧
    version.protocolID < ProtocolVersion.new.protocolID

theorem toNat_succ {number : UInt32} (below : number < ProtocolVersion.new.ordinal) :
    (number + 1).toNat = number.toNat + 1 := by
  have below : number.toNat < 2 ^ 32 - 1 := below
  rw [UInt32.toNat_add]
  exact Nat.mod_eq_of_lt (by
    show number.toNat + 1 < 2 ^ 32
    omega)

/-- What `ProtocolVersions` keeps of a list between these two versions: an entry for
every id up to the newest, which is that of a listed version or unset. -/
structure Listed (versions : List ProtocolVersion) (oldest newest : ProtocolVersion)
    (protocolVersions : ProtocolVersions) : Prop where
  maximumVersion : protocolVersions.maximumVersion = newest
  minimumID : protocolVersions.minimumProtocolVersion = oldest.protocolID
  maximumID : protocolVersions.maximumProtocolVersion = newest.protocolID
  entry : ∀ position ≤ newest.protocolID.toNat,
    (∃ version ∈ versions, version.protocolID.toNat = position ∧
      protocolVersions.idToVersionMap[position]? = some (some version)) ∨
    (∀ version ∈ versions, version.protocolID.toNat ≠ position) ∧
      protocolVersions.idToVersionMap[position]? = some (some .new)

/-- The loop of `ProtocolVersions` over a table: an entry is the listed version with its
number, or what it was before. -/
def Tabled (number : ProtocolVersion → UInt32) (versions : List ProtocolVersion)
    (before after : RawArray ProtocolVersion) : Prop :=
  ∀ position, (∃ version ∈ versions, (number version).toNat = position ∧ after[position]? = some (some version)) ∨
    (∀ version ∈ versions, (number version).toNat ≠ position) ∧ after[position]? = before[position]?

/-- A store in front of those of the rest of the loop. -/
theorem Tabled.cons {number : ProtocolVersion → UInt32} {before stored after : RawArray ProtocolVersion}
    {later : List ProtocolVersion} (rest : Tabled number later stored after)
    (contents : ∀ position, stored[position]? =
      if position = (number version).toNat then some (some version) else before[position]?) :
    Tabled number (version :: later) before after := by
  intro position
  rcases rest position with ⟨other, member, same, found⟩ | ⟨absent, kept⟩
  · exact .inl ⟨other, List.mem_cons_of_mem _ member, same, found⟩
  · by_cases same : (number version).toNat = position
    · refine .inl ⟨version, List.mem_cons_self, same, ?_⟩
      rw [kept, contents, if_pos same.symm]
    · refine .inr ⟨List.forall_mem_cons.mpr ⟨same, absent⟩, ?_⟩
      rw [kept, contents, if_neg (Ne.symm same)]

theorem addVersions_tabled {byId byOrdinal : RawArray ProtocolVersion}
    (inside : ∀ version ∈ versions,
      version.protocolID.toNat < byId.length ∧ version.ordinal.toNat < byOrdinal.length) :
    Returns (versions.foldlM ProtocolVersions.addVersion (byId, byOrdinal)) fun after =>
      Tabled ProtocolVersion.protocolID versions byId after.1 ∧
        Tabled ProtocolVersion.ordinal versions byOrdinal after.2 := by
  induction versions generalizing byId byOrdinal with
  | nil => exact (returns_ok _ _).mpr ⟨fun position => .inr ⟨by simp, rfl⟩, fun position => .inr ⟨by simp, rfl⟩⟩
  | cons version later ih =>
    obtain ⟨here, hereToo⟩ := inside version List.mem_cons_self
    obtain ⟨first, ranFirst, lengthFirst, contents⟩ := RawArray.store_returns Fault.outOfBounds version here
    obtain ⟨second, ranSecond, lengthSecond, contentsToo⟩ := RawArray.store_returns Fault.outOfBounds version hereToo
    obtain ⟨after, ran, ids, ordinals⟩ := ih fun other member =>
      lengthFirst ▸ lengthSecond ▸ inside other (List.mem_cons_of_mem _ member)
    refine ⟨after, ?_, ids.cons contents, ordinals.cons contentsToo⟩
    rw [List.foldlM_cons, ProtocolVersions.addVersion, ranFirst, ok_bind, ranSecond]
    exact ran

/-- `ProtocolVersions` of a list between these two versions. -/
structure Tables (versions : List ProtocolVersion) (oldest newest : ProtocolVersion)
    (protocolVersions : ProtocolVersions) : Prop where
  maximumVersion : protocolVersions.maximumVersion = newest
  minimumID : protocolVersions.minimumProtocolVersion = oldest.protocolID
  maximumID : protocolVersions.maximumProtocolVersion = newest.protocolID
  minimumOrdinal : protocolVersions.minimumOrdinal = oldest.ordinal
  maximumOrdinal : protocolVersions.maximumOrdinal = newest.ordinal
  ids : Tabled ProtocolVersion.protocolID versions (ProtocolVersions.allocVersions (newest.protocolID + 1))
    protocolVersions.idToVersionMap
  ordinals : Tabled ProtocolVersion.ordinal versions (ProtocolVersions.allocVersions (newest.ordinal + 1))
    protocolVersions.ordinalToVersionMap

/-- Up to the greatest number a table is allocated, with the values of `UNKNOWN`. -/
theorem allocVersions_entry {greatest : UInt32} (below : greatest < ProtocolVersion.new.ordinal) {position : Nat}
    (reached : position ≤ greatest.toNat) :
    (ProtocolVersions.allocVersions (greatest + 1))[position]? = some (some .new) := by
  rw [ProtocolVersions.allocVersions, List.getElem?_replicate, if_pos]
  rw [toNat_succ below]
  exact Nat.lt_succ_of_le reached

theorem protocolVersions_tables (ascending : Ascending versions) (below : BelowUnknown versions)
    (head : versions.head? = some first) (last : versions.getLast? = some other) :
    Returns (ProtocolVersions.new versions) (Tables versions first other) := by
  have listed : other ∈ versions := List.mem_of_getLast? last
  have inside : ∀ version ∈ versions,
      version.protocolID.toNat < (ProtocolVersions.allocVersions (other.protocolID + 1)).length ∧
      version.ordinal.toNat < (ProtocolVersions.allocVersions (other.ordinal + 1)).length := by
    intro version member
    obtain ⟨ordinals, ids⟩ := ascending.le_last last member
    rw [ProtocolVersions.allocVersions, ProtocolVersions.allocVersions, List.length_replicate,
      List.length_replicate, toNat_succ (below other listed).1, toNat_succ (below other listed).2]
    omega
  obtain ⟨⟨idToVersionMap, ordinalToVersionMap⟩, ran, ids, ordinals⟩ := addVersions_tabled inside
  simp only [ProtocolVersions.new, head, last, ran, ok_bind, pure_is_ok, returns_ok]
  exact ⟨rfl, rfl, rfl, rfl, rfl, ids, ordinals⟩

theorem protocolVersions_listed (ascending : Ascending versions) (below : BelowUnknown versions)
    (head : versions.head? = some first) (last : versions.getLast? = some other) :
    Returns (ProtocolVersions.new versions) (Listed versions first other) := by
  have belowLast := (below other (List.mem_of_getLast? last)).2
  apply (protocolVersions_tables ascending below head last).mono
  intro protocolVersions tables
  refine ⟨tables.maximumVersion, tables.minimumID, tables.maximumID, ?_⟩
  intro position reached
  rw [← allocVersions_entry belowLast reached]
  exact tables.ids position

theorem protocolVersions_new (ascending : Ascending versions) (below : BelowUnknown versions)
    (last : versions.getLast? = some other) :
    Returns (ProtocolVersions.new versions) fun protocolVersions => protocolVersions.maximumVersion = other := by
  obtain ⟨first, head⟩ : ∃ first, versions.head? = some first := by
    cases versions with
    | nil => cases last
    | cons first later => exact ⟨first, rfl⟩
  exact (protocolVersions_listed ascending below head last).mono fun _ listed => listed.maximumVersion

/-! ### The table -/

variable {previousIt : ProtocolVersion} {ordinal : Nat} {versionToOrdinalMap : RawArray UInt32}

/-- What the loop of the constructor makes of the table: below the entry it starts
from nothing, and from there on the bands up to the last entry. -/
structure Filled (previousIt : ProtocolVersion) (ordinal : Nat) (versionToOrdinalMap : RawArray UInt32)
    (entries : List ProtocolVersion) (out : ProtocolVersion × Nat × RawArray UInt32) : Prop where
  last : out.1 ∈ previousIt :: entries
  highest : ∀ entry ∈ previousIt :: entries, entry.ordinal.toNat ≤ out.1.ordinal.toNat
  count : out.2.1 = ordinal + entries.length
  length : out.2.2.length = versionToOrdinalMap.length
  below : ∀ position < previousIt.ordinal.toNat, out.2.2[position]? = versionToOrdinalMap[position]?
  bands : ∀ position, previousIt.ordinal.toNat ≤ position → position < out.1.ordinal.toNat →
    out.2.2[position]? = some (some (.ofNat (ordinal + Bands.band (borders entries) position)))

theorem fillBands_returns (from_ : ∀ entry ∈ entries, previousIt.ordinal.toNat ≤ entry.ordinal.toNat)
    (sorted : entries.Pairwise fun entry later => entry.ordinal.toNat < later.ordinal.toNat)
    (inside : ∀ entry ∈ entries, entry.ordinal.toNat ≤ versionToOrdinalMap.length)
    (few : ordinal + entries.length < 2 ^ 31) :
    Returns (fillBands previousIt ordinal versionToOrdinalMap entries)
      (Filled previousIt ordinal versionToOrdinalMap entries) := by
  induction entries generalizing previousIt ordinal versionToOrdinalMap with
  | nil =>
    refine (returns_ok _ _).mpr ⟨List.mem_singleton_self _, by simp, rfl, rfl, fun _ _ => rfl, ?_⟩
    intro position above below
    exact absurd below (Nat.not_lt.mpr above)
  | cons it later ih =>
    rw [List.length_cons] at few
    have counted : increment ordinal = .ok (ordinal + 1) := by
      rw [increment, if_pos (by omega), pure_is_ok]
    have first := from_ it List.mem_cons_self
    obtain ⟨filled, ranFill, lengthFill, contents⟩ := RawArray.fill_returns Fault.outOfBounds
      (UInt32.ofNat ordinal) first (inside it List.mem_cons_self)
    obtain ⟨less, sortedLater⟩ := List.pairwise_cons.mp sorted
    obtain ⟨out, ran, rest⟩ := ih (fun entry member => Nat.le_of_lt (less entry member)) sortedLater
      (fun entry member => lengthFill ▸ inside entry (List.mem_cons_of_mem _ member))
      (show ordinal + 1 + later.length < 2 ^ 31 by omega)
    refine ⟨out, ?_, ?_⟩
    · simp only [fillBands, counted, ranFill, ok_bind, ran]
    · refine ⟨List.mem_cons_of_mem _ rest.last, ?_, ?_, rest.length.trans lengthFill, ?_, ?_⟩
      · intro entry member
        rcases List.mem_cons.mp member with rfl | member
        · exact Nat.le_trans first (rest.highest it List.mem_cons_self)
        · exact rest.highest entry member
      · rw [rest.count, List.length_cons]
        omega
      · intro position below
        rw [rest.below position (by omega), contents, if_neg (by omega)]
      · intro position above below
        have step : Bands.band (borders (it :: later)) position =
            Bands.band (borders later) position + if it.ordinal.toNat ≤ position then 1 else 0 :=
          Bands.band_cons _ _ _
        by_cases reached : it.ordinal.toNat ≤ position
        · rw [rest.bands position reached below, step, if_pos reached, Nat.add_assoc, Nat.add_comm 1]
        · have none : Bands.band (borders later) position = 0 := by
            apply Bands.band_eq_zero
            intro border member
            obtain ⟨entry, inLater, rfl⟩ := List.mem_map.mp member
            have := less entry inLater
            omega
          rw [rest.below position (by omega), contents, if_pos (by omega), step, if_neg reached, none,
            Nat.add_zero]

/-- A registry whose table has the band of every position from the first entry to
the newest version, and a slot for each band. -/
structure Banded (entries : List ProtocolVersion) (maximum : ProtocolVersion) (registry : VersionedRegistry) :
    Prop where
  newest : registry.versions.maximumVersion = maximum
  table : ∀ position, (∃ border ∈ borders entries, border ≤ position) → position ≤ maximum.ordinal.toNat →
    registry.versionToOrdinalMap[position]? = some (some (.ofNat (Bands.band (borders entries) position)))
  slots : ∀ position, Bands.band (borders entries) position < registry.versionRegistry.length

variable {maximum : ProtocolVersion} {protocolVersions : ProtocolVersions}

theorem band_le_entries (position : Nat) : Bands.band (borders entries) position ≤ entries.length := by
  have count : Bands.band (borders entries) position ≤ (borders entries).length := Bands.band_le_length
  rwa [borders, List.length_map] at count

theorem band_eq_entries {position : Nat} (reached : ∀ entry ∈ entries, entry.ordinal.toNat ≤ position) :
    Bands.band (borders entries) position = entries.length := by
  have all : Bands.band (borders entries) position = (borders entries).length := by
    apply Bands.band_eq_length
    intro border member
    obtain ⟨entry, inside, rfl⟩ := List.mem_map.mp member
    exact reached entry inside
  rw [all, borders, List.length_map]

/-- The number of a band as a slot index. -/
theorem ofNat_band (few : entries.length < 2 ^ 31) (position : Nat) :
    (UInt32.ofNat (Bands.band (borders entries) position)).toNat = Bands.band (borders entries) position := by
  have count : Bands.band (borders entries) position ≤ entries.length := band_le_entries position
  apply UInt32.toNat_ofNat_of_lt'
  show _ < 2 ^ 32
  omega

variable {later : List ProtocolVersion} {last : ProtocolVersion} {count : Nat} {filled : RawArray UInt32}

/-- With the second fill every position from the first entry on has its band. -/
private theorem table_complete
    (bands : Filled first 0 versionToOrdinalMap (first :: later) (last, count, filled))
    (sorted : (first :: later).Pairwise fun entry later => entry.ordinal.toNat < later.ordinal.toNat)
    {newest : Nat} {table : RawArray UInt32}
    (contents : ∀ position, table[position]? =
      if last.ordinal.toNat ≤ position ∧ position < newest + 1 then some (some (UInt32.ofNat count))
      else filled[position]?) (position : Nat)
    (above : ∃ border ∈ borders (first :: later), border ≤ position) (inside : position ≤ newest) :
    table[position]? = some (some (.ofNat (Bands.band (borders (first :: later)) position))) := by
  have counted : count = (first :: later).length := bands.count.trans (Nat.zero_add _)
  rw [contents]
  by_cases afterLast : last.ordinal.toNat ≤ position
  · have all : Bands.band (borders (first :: later)) position = (first :: later).length :=
      band_eq_entries fun entry member =>
        Nat.le_trans (bands.highest entry (List.mem_cons_of_mem _ member)) afterLast
    rw [if_pos ⟨afterLast, Nat.lt_succ_of_le inside⟩, all, counted]
  · obtain ⟨border, member, below⟩ := above
    obtain ⟨entry, known, rfl⟩ := List.mem_map.mp member
    have fromFirst : first.ordinal.toNat ≤ position := by
      rcases List.mem_cons.mp known with rfl | laterOn
      · exact below
      · have less := (List.pairwise_cons.mp sorted).1 entry laterOn
        omega
    rw [if_neg (fun both => afterLast both.1), bands.bands position fromFirst (Nat.lt_of_not_le afterLast),
      Nat.zero_add]

private theorem fillLast_banded
    (bands : Filled first 0 versionToOrdinalMap (first :: later) (last, count, filled))
    (sorted : (first :: later).Pairwise fun entry later => entry.ordinal.toNat < later.ordinal.toNat)
    (few : (first :: later).length < 2 ^ 31)
    (size : versionToOrdinalMap.length = protocolVersions.maximumVersion.ordinal.toNat + 1)
    (reached : ∀ entry ∈ first :: later, entry.ordinal.toNat ≤ protocolVersions.maximumVersion.ordinal.toNat) :
    Returns (fillLast protocolVersions last count filled)
      (Banded (first :: later) protocolVersions.maximumVersion) := by
  have within : filled.length = protocolVersions.maximumVersion.ordinal.toNat + 1 :=
    (bands.length : filled.length = _).trans size
  have known : last ∈ first :: later := by
    rcases List.mem_cons.mp bands.last with same | member
    · exact same ▸ List.mem_cons_self
    · exact member
  have lastReached := reached last known
  obtain ⟨table, ranFill, -, contents⟩ := RawArray.fill_returns Fault.outOfBounds
    (UInt32.ofNat count) (show last.ordinal.toNat ≤ protocolVersions.maximumVersion.ordinal.toNat + 1 by omega)
    (Nat.le_of_eq within.symm)
  have complete := table_complete bands sorted contents
  have newestBand := complete protocolVersions.maximumVersion.ordinal.toNat
    ⟨last.ordinal.toNat, List.mem_map.mpr ⟨last, known, rfl⟩, lastReached⟩ (Nat.le_refl _)
  have loaded := RawArray.load_eq_ok Fault.outOfBounds Fault.uninitialised newestBand
  simp only [fillLast, ranFill, ok_bind, versionToOrdinal, loaded, pure_is_ok, returns_ok]
  refine ⟨rfl, complete, ?_⟩
  intro position
  have all : Bands.band (borders (first :: later)) protocolVersions.maximumVersion.ordinal.toNat =
      (first :: later).length := band_eq_entries reached
  have allocated : (UInt32.ofNat (Bands.band (borders (first :: later))
      protocolVersions.maximumVersion.ordinal.toNat) + 1).toNat = (first :: later).length + 1 := by
    rw [toNat_succ, ofNat_band few, all]
    show (UInt32.ofNat _).toNat < 2 ^ 32 - 1
    rw [ofNat_band few, all]
    omega
  rw [allocated, RawArray.alloc, List.length_replicate]
  exact Nat.lt_succ_of_le (band_le_entries position)

theorem new_banded {versionMap : VersionSet} (nonempty : versionMap.entries ≠ [])
    (sorted : versionMap.entries.Pairwise fun entry later => entry.ordinal.toNat < later.ordinal.toNat)
    (few : versionMap.entries.length < 2 ^ 31)
    (below : protocolVersions.maximumVersion.ordinal < ProtocolVersion.new.ordinal)
    (reached : ∀ entry ∈ versionMap.entries,
      entry.ordinal.toNat ≤ protocolVersions.maximumVersion.ordinal.toNat) :
    Returns (new protocolVersions versionMap) (Banded versionMap.entries protocolVersions.maximumVersion) := by
  unfold new
  generalize versionMap.entries = entries at *
  cases entries with
  | nil => exact absurd rfl nonempty
  | cons first later =>
    have size : (RawArray.alloc (protocolVersions.maximumVersion.ordinal + 1).toNat : RawArray UInt32).length =
        protocolVersions.maximumVersion.ordinal.toNat + 1 := by
      rw [RawArray.alloc, List.length_replicate, toNat_succ below]
    have lowest : ∀ entry ∈ first :: later, first.ordinal.toNat ≤ entry.ordinal.toNat := by
      intro entry member
      rcases List.mem_cons.mp member with rfl | member
      · exact Nat.le_refl _
      · exact Nat.le_of_lt ((List.pairwise_cons.mp sorted).1 entry member)
    have inside : ∀ entry ∈ first :: later, entry.ordinal.toNat ≤
        (RawArray.alloc (protocolVersions.maximumVersion.ordinal + 1).toNat : RawArray UInt32).length := by
      intro entry member
      have := reached entry member
      omega
    obtain ⟨⟨last, count, filled⟩, ranBands, bands⟩ :=
      fillBands_returns lowest sorted inside (show 0 + (first :: later).length < 2 ^ 31 by omega)
    obtain ⟨registry, ran, banded⟩ := fillLast_banded bands sorted few size reached
    refine ⟨registry, ?_, banded⟩
    simp only [ranBands, ok_bind]
    exact ran

/-! ### Registered versions -/

/-- The version at the end of a pointer, as `VersionToOrdinal` takes it. -/
def resolve (maximum : ProtocolVersion) : ProtocolVersion.Pointer → ProtocolVersion
  | .unknown => maximum
  | .at version => version

/-- Not older than the first entry. -/
def FromFirst (entries : List ProtocolVersion) (version : ProtocolVersion) : Prop :=
  ∃ first, entries.head? = some first ∧ first ≤ version

/-- The registry of the last call for a version of this band. -/
def lastInBand (entries : List ProtocolVersion) (maximum : ProtocolVersion)
    (calls : List (ProtocolVersion.Pointer × Nat)) (version : ProtocolVersion) : Option Nat :=
  RawArray.lastAt (calls.map fun call => (bandOf entries (resolve maximum call.1), call.2)) (bandOf entries version)

/-- Calls of `RegisterVersion`. -/
def registerVersions (registry : VersionedRegistry) (calls : List (ProtocolVersion.Pointer × Nat)) :
    Exec VersionedRegistry :=
  calls.foldlM (fun registry call => registry.registerVersion call.1 call.2) registry

variable {registry : VersionedRegistry} {pointer : ProtocolVersion.Pointer}
  {calls : List (ProtocolVersion.Pointer × Nat)}

/-- The table holds the band of every version that is listed and not too old. -/
theorem Banded.versionToOrdinal_eq (banded : Banded entries maximum registry) (ascending : Ascending versions)
    (last : versions.getLast? = some maximum) (drawn : ∀ entry ∈ entries, entry ∈ versions)
    (listed : resolve maximum pointer ∈ versions) (covered : FromFirst entries (resolve maximum pointer)) :
    registry.versionToOrdinal pointer = .ok (.ofNat (bandOf entries (resolve maximum pointer))) := by
  obtain ⟨first, head, notOlder⟩ := covered
  have inEntries : first ∈ entries := List.mem_of_head? head
  have above := (ascending.le_iff (drawn first inEntries) listed).mp notOlder
  have stored := banded.table (resolve maximum pointer).ordinal.toNat
    ⟨first.ordinal.toNat, List.mem_map.mpr ⟨first, inEntries, rfl⟩, above⟩ (ascending.le_last last listed).1
  have loaded := RawArray.load_eq_ok Fault.outOfBounds Fault.uninitialised stored
  rw [ascending.bandOf_eq drawn listed, ← loaded]
  cases pointer with
  | unknown => rw [versionToOrdinal, banded.newest, resolve]
  | «at» version => rw [versionToOrdinal, resolve]

/-- Calls of `RegisterVersion` are stores into the slots. -/
theorem registerVersions_eq (slotOf : ProtocolVersion.Pointer → UInt32)
    (slots : ∀ call ∈ calls, registry.versionToOrdinal call.1 = .ok (slotOf call.1)) :
    registerVersions registry calls = (do
      let versionRegistry ← RawArray.storeAll Fault.outOfBounds registry.versionRegistry
        (calls.map fun call => ((slotOf call.1).toNat, call.2))
      pure { registry with versionRegistry := versionRegistry }) := by
  induction calls generalizing registry with
  | nil => rfl
  | cons call later ih =>
    have slot := slots call List.mem_cons_self
    simp only [registerVersions, RawArray.storeAll, List.foldlM_cons, List.map_cons, registerVersion, slot,
      ok_bind] at ih ⊢
    cases stored : RawArray.store Fault.outOfBounds registry.versionRegistry (slotOf call.1).toNat call.2 with
    | error fault => rfl
    | ok versionRegistry =>
      simp only [ok_bind, pure_is_ok] at ih ⊢
      exact ih fun other member => slots other (List.mem_cons_of_mem _ member)

/-! ### Dispatch by bands -/

/-- The registry numbers the bands, and answers every version from the registry
that was registered last for its band. -/
structure Dispatches (versions entries : List ProtocolVersion) (maximum : ProtocolVersion)
    (calls : List (ProtocolVersion.Pointer × Nat)) (registry : VersionedRegistry) : Prop where
  slot : ∀ version ∈ versions, FromFirst entries version →
    ∃ slot, registry.versionToOrdinal (.at version) = .ok slot ∧ slot.toNat = bandOf entries version ∧
      slot.toNat < registry.versionRegistry.length
  shared : ∀ version ∈ versions, ∀ newer ∈ versions, FromFirst entries version → version ≤ newer →
    (registry.versionToOrdinal (.at version) = registry.versionToOrdinal (.at newer) ↔
      ∀ entry ∈ entries, ¬ (version < entry ∧ entry ≤ newer))
  answers : ∀ version ∈ versions, FromFirst entries version → ∀ address,
    lastInBand entries maximum calls version = some address → ∀ registries,
    (∀ id, registry.getOrdinalByID registries (.at version) id = .ok ((registries address).getOrdinalByID id)) ∧
    (∀ ordinal, registry.getIDByOrdinal registries (.at version) ordinal =
      .ok ((registries address).getIDByOrdinal ordinal))
  unknown : registry.versionToOrdinal .unknown = registry.versionToOrdinal (.at maximum) ∧ ∀ registries,
    (∀ id, registry.getOrdinalByID registries .unknown id =
      registry.getOrdinalByID registries (.at maximum) id) ∧
    (∀ ordinal, registry.getIDByOrdinal registries .unknown ordinal =
      registry.getIDByOrdinal registries (.at maximum) ordinal)

/-- What the constructors and `RegisterVersion` are called with. -/
structure Registrable (versions : List ProtocolVersion) (versionMap : VersionSet)
    (calls : List (ProtocolVersion.Pointer × Nat)) : Prop where
  ascending : Ascending versions
  nonempty : versionMap.entries ≠ []
  drawn : ∀ entry ∈ versionMap.entries, entry ∈ versions
  known : ∀ call ∈ calls, call.1 = .unknown ∨
    ∃ version ∈ versions, call.1 = .at version ∧ FromFirst versionMap.entries version

/-- The constructors and the calls of `RegisterVersion`. -/
def build (versions : List ProtocolVersion) (versionMap : VersionSet)
    (calls : List (ProtocolVersion.Pointer × Nat)) : Exec VersionedRegistry := do
  let protocolVersions ← ProtocolVersions.new versions
  let registry ← new protocolVersions versionMap
  registerVersions registry calls

/-- They return, and what they built dispatches. -/
def DispatchesAll (versions : List ProtocolVersion) (versionMap : VersionSet)
    (calls : List (ProtocolVersion.Pointer × Nat)) : Prop :=
  ∃ maximum, versions.getLast? = some maximum ∧
    Returns (build versions versionMap calls) (Dispatches versions versionMap.entries maximum calls)

/-- A banded registry whose slots hold what was stored last dispatches. -/
theorem Banded.dispatches (banded : Banded entries maximum registry) (few : entries.length < 2 ^ 31)
    (ascending : Ascending versions) (last : versions.getLast? = some maximum)
    (drawn : ∀ entry ∈ entries, entry ∈ versions)
    (stored : ∀ position address,
      RawArray.lastAt (calls.map fun call => (bandOf entries (resolve maximum call.1), call.2)) position =
        some address → registry.versionRegistry[position]? = some (some address)) :
    Dispatches versions entries maximum calls registry := by
  have number {version : ProtocolVersion} (listed : version ∈ versions) :
      (UInt32.ofNat (bandOf entries version)).toNat = bandOf entries version := by
    rw [ascending.bandOf_eq drawn listed]
    exact ofNat_band few _
  have slot {version : ProtocolVersion} (listed : version ∈ versions) (covered : FromFirst entries version) :
      registry.versionToOrdinal (.at version) = .ok (.ofNat (bandOf entries version)) :=
    banded.versionToOrdinal_eq ascending last drawn listed covered
  have same : registry.versionToOrdinal .unknown = registry.versionToOrdinal (.at maximum) := by
    rw [versionToOrdinal, versionToOrdinal, banded.newest]
  refine ⟨?_, ?_, ?_, ?_⟩
  · intro version listed covered
    refine ⟨_, slot listed covered, number listed, ?_⟩
    rw [number listed, ascending.bandOf_eq drawn listed]
    exact banded.slots _
  · intro version listed newer listedNewer covered ordered
    obtain ⟨first, head, notOlder⟩ := covered
    have coveredNewer : FromFirst entries newer := ⟨first, head, UInt32.le_trans notOlder ordered⟩
    rw [slot listed ⟨first, head, notOlder⟩, slot listedNewer coveredNewer, Except.ok.injEq, ← UInt32.toNat_inj,
      number listed, number listedNewer, ascending.bandOf_eq drawn listed,
      ascending.bandOf_eq drawn listedNewer,
      Bands.band_eq_iff ((ascending.le_iff listed listedNewer).mp ordered)]
    rw [borders, List.forall_mem_map]
    apply forall₂_congr
    intro entry member
    rw [ascending.lt_iff listed (drawn entry member), ascending.le_iff (drawn entry member) listedNewer]
  · intro version listed covered address found registries
    have loaded : registry.registryOf (.at version) = .ok address := by
      rw [registryOf, slot listed covered, ok_bind, number listed]
      exact RawArray.load_eq_ok _ _ (stored _ _ found)
    refine ⟨?_, ?_⟩
    · intro id
      rw [getOrdinalByID, loaded, ok_bind, pure_is_ok]
    · intro ordinal
      rw [getIDByOrdinal, loaded, ok_bind, pure_is_ok]
  · have sameRegistry : registry.registryOf .unknown = registry.registryOf (.at maximum) := by
      rw [registryOf, registryOf, same]
    refine ⟨same, ?_⟩
    intro registries
    refine ⟨?_, ?_⟩
    · intro id
      rw [getOrdinalByID, getOrdinalByID, sameRegistry]
    · intro ordinal
      rw [getIDByOrdinal, getIDByOrdinal, sameRegistry]

/-- Calls with such versions store into the slots of their bands. -/
theorem Banded.registerVersions_returns (banded : Banded entries maximum registry)
    (few : entries.length < 2 ^ 31) (ascending : Ascending versions) (last : versions.getLast? = some maximum)
    (drawn : ∀ entry ∈ entries, entry ∈ versions)
    (known : ∀ call ∈ calls, resolve maximum call.1 ∈ versions ∧ FromFirst entries (resolve maximum call.1)) :
    Returns (registerVersions registry calls) fun after => Banded entries maximum after ∧
      ∀ position address,
        RawArray.lastAt (calls.map fun call => (bandOf entries (resolve maximum call.1), call.2)) position =
          some address → after.versionRegistry[position]? = some (some address) := by
  have slots : ∀ call ∈ calls,
      registry.versionToOrdinal call.1 = .ok (.ofNat (bandOf entries (resolve maximum call.1))) :=
    fun call member => banded.versionToOrdinal_eq ascending last drawn (known call member).1 (known call member).2
  have writes : (calls.map fun call =>
        ((UInt32.ofNat (bandOf entries (resolve maximum call.1))).toNat, call.2)) =
      calls.map fun call => (bandOf entries (resolve maximum call.1), call.2) := by
    apply List.map_congr_left
    intro call member
    rw [ascending.bandOf_eq drawn (known call member).1, ofNat_band few]
  have inside : ∀ write ∈ calls.map fun call => (bandOf entries (resolve maximum call.1), call.2),
      write.1 < registry.versionRegistry.length := by
    intro write member
    obtain ⟨call, inCalls, rfl⟩ := List.mem_map.mp member
    show bandOf entries (resolve maximum call.1) < _
    rw [ascending.bandOf_eq drawn (known call inCalls).1]
    exact banded.slots _
  obtain ⟨versionRegistry, ran, length, stored⟩ := RawArray.storeAll_returns Fault.outOfBounds inside
  rw [registerVersions_eq (fun pointer => .ofNat (bandOf entries (resolve maximum pointer))) slots, writes,
    ran, ok_bind, pure_is_ok, returns_ok]
  exact ⟨⟨banded.newest, banded.table, fun position => length ▸ banded.slots position⟩, stored⟩

/-- Versions dispatch by the bands between the entries of `versionMap`, where no
listed version has the ordinal or the id of `UNKNOWN` and an `int` counts the entries. -/
theorem versions_dispatch_by_band (versions : List ProtocolVersion) (versionMap : VersionSet)
    (calls : List (ProtocolVersion.Pointer × Nat)) (registrable : Registrable versions versionMap calls)
    (below : BelowUnknown versions) (few : versionMap.entries.length < 2 ^ 31) :
    DispatchesAll versions versionMap calls := by
  obtain ⟨ascending, nonempty, drawn, known⟩ := registrable
  obtain ⟨first, head⟩ : ∃ first, versionMap.entries.head? = some first := by
    cases same : versionMap.entries with
    | nil => exact absurd same nonempty
    | cons first later => exact ⟨first, rfl⟩
  have listedFirst := drawn first (List.mem_of_head? head)
  obtain ⟨maximum, last⟩ : ∃ maximum, versions.getLast? = some maximum :=
    ⟨_, List.getLast?_eq_some_getLast (List.ne_nil_of_mem listedFirst)⟩
  have listedMaximum := List.mem_of_getLast? last
  have coveredMaximum : FromFirst versionMap.entries maximum :=
    ⟨first, head, (ascending.le_iff listedFirst listedMaximum).mpr (ascending.le_last last listedFirst).1⟩
  obtain ⟨protocolVersions, ranVersions, rfl⟩ := protocolVersions_new ascending below last
  obtain ⟨registry, ranNew, banded⟩ := new_banded nonempty
    (ascending.entries_ascending drawn versionMap.ascending) few (below _ listedMaximum).1
    (fun entry member => (ascending.le_last last (drawn entry member)).1)
  have resolved : ∀ call ∈ calls, resolve protocolVersions.maximumVersion call.1 ∈ versions ∧
      FromFirst versionMap.entries (resolve protocolVersions.maximumVersion call.1) := by
    intro call member
    rcases known call member with unknown | ⟨version, listed, same, covered⟩
    · rw [unknown]
      exact ⟨listedMaximum, coveredMaximum⟩
    · rw [same]
      exact ⟨listed, covered⟩
  obtain ⟨after, ranCalls, bandedAfter, stored⟩ :=
    banded.registerVersions_returns few ascending last drawn resolved
  refine ⟨_, last, after, ?_, bandedAfter.dispatches few ascending last drawn stored⟩
  simp only [build, ranVersions, ranNew, ranCalls, ok_bind]

/-- Four versions in two bands, with a registry replaced in the lower one. -/
theorem four_versions_dispatch_by_band :
    DispatchesAll [⟨1, 100⟩, ⟨3, 110⟩, ⟨4, 120⟩, ⟨7, 130⟩] ⟨[⟨3, 110⟩, ⟨7, 130⟩], by decide⟩
      [(.at ⟨3, 110⟩, 10), (.at ⟨4, 120⟩, 11), (.unknown, 12)] := by
  have registrable : Registrable [⟨1, 100⟩, ⟨3, 110⟩, ⟨4, 120⟩, ⟨7, 130⟩] ⟨[⟨3, 110⟩, ⟨7, 130⟩], by decide⟩
      [(.at ⟨3, 110⟩, 10), (.at ⟨4, 120⟩, 11), (.unknown, 12)] := by
    refine ⟨by simp [Ascending], by simp, by simp, ?_⟩
    intro call member
    simp only [List.mem_cons, List.not_mem_nil, or_false] at member
    rcases member with rfl | rfl | rfl
    · exact .inr ⟨⟨3, 110⟩, by simp, rfl, ⟨3, 110⟩, rfl, by decide⟩
    · exact .inr ⟨⟨4, 120⟩, by simp, rfl, ⟨3, 110⟩, rfl, by decide⟩
    · exact .inl rfl
  exact versions_dispatch_by_band _ _ _ registrable (by simp [BelowUnknown, ProtocolVersion.new]) (by simp)

/-- More entries than an `int` counts. -/
theorem fillBands_overflows (started : ordinal < 2 ^ 31) (many : 2 ^ 31 ≤ ordinal + entries.length)
    (out : ProtocolVersion × Nat × RawArray UInt32) :
    fillBands previousIt ordinal versionToOrdinalMap entries ≠ .ok out := by
  induction entries generalizing previousIt ordinal versionToOrdinalMap with
  | nil =>
    rw [List.length_nil] at many
    omega
  | cons it later ih =>
    rw [List.length_cons] at many
    intro ran
    by_cases room : ordinal < 2 ^ 31 - 1
    · simp only [fillBands, increment, if_pos room, pure_is_ok, ok_bind] at ran
      obtain ⟨table, -, rest⟩ := returns_of_bind ran
      exact ih (by omega) (by omega) rest
    · simp only [fillBands, increment, if_neg room, throw_is_error, error_bind] at ran
      cases ran

theorem new_overflows {versionMap : VersionSet} (many : 2 ^ 31 ≤ versionMap.entries.length)
    (registry : VersionedRegistry) : new protocolVersions versionMap ≠ .ok registry := by
  intro built
  unfold new at built
  generalize versionMap.entries = entries at many built
  cases entries with
  | nil => cases built
  | cons first later =>
    obtain ⟨out, bands, -⟩ := returns_of_bind built
    exact fillBands_overflows (by decide) (by omega) out bands

theorem too_many_entries {versionMap : VersionSet} (many : 2 ^ 31 ≤ versionMap.entries.length) :
    ¬ DispatchesAll versions versionMap calls := by
  rintro ⟨maximum, -, final, ran, -⟩
  rw [build] at ran
  obtain ⟨protocolVersions, -, rest⟩ := returns_of_bind ran
  obtain ⟨registry, built, -⟩ := returns_of_bind rest
  exact new_overflows many registry built

/-- As many versions, numbered from zero. -/
def numbered (count : Nat) : List ProtocolVersion :=
  (List.range count).map fun index => ⟨.ofNat index, .ofNat index⟩

private theorem length_numbered (count : Nat) : (numbered count).length = count := by
  rw [numbered, List.length_map, List.length_range]

private theorem numbered_ordered {count : Nat} (bound : count < 2 ^ 32) :
    Ascending (numbered count) ∧ BelowUnknown (numbered count) := by
  refine ⟨?_, ?_⟩
  · apply List.pairwise_map.mpr
    apply List.pairwise_lt_range.imp_of_mem
    intro index later member memberLater less
    rw [List.mem_range] at member memberLater
    have small : (UInt32.ofNat index).toNat < (UInt32.ofNat later).toNat := by
      rw [UInt32.toNat_ofNat_of_lt' (Nat.lt_trans member bound),
        UInt32.toNat_ofNat_of_lt' (Nat.lt_trans memberLater bound)]
      exact less
    exact ⟨small, small⟩
  · intro version member
    obtain ⟨index, inRange, rfl⟩ := List.mem_map.mp member
    rw [List.mem_range] at inRange
    have small : (UInt32.ofNat index).toNat < 2 ^ 32 - 1 := by
      rw [UInt32.toNat_ofNat_of_lt' (Nat.lt_trans inRange bound)]
      omega
    exact ⟨small, small⟩

private theorem numbered_registrable {count : Nat} (positive : 0 < count) (bound : count < 2 ^ 32) :
    Registrable (numbered count) ⟨numbered count, (numbered_ordered bound).1.imp fun less => less.2⟩ [] where
  ascending := (numbered_ordered bound).1
  nonempty := by
    intro empty
    have length := length_numbered count
    rw [show numbered count = [] from empty, List.length_nil] at length
    omega
  drawn := fun _ member => member
  known := by simp

/-- More than an `int` counts, and registrable all the same. -/
private theorem numbered_do_not_dispatch (count : Nat) (many : 2 ^ 31 ≤ count) (bound : count < 2 ^ 32) :
    ¬ ∀ versions versionMap calls, Registrable versions versionMap calls →
      BelowUnknown versions → DispatchesAll versions versionMap calls := by
  intro always
  have entries : 2 ^ 31 ≤ (numbered count).length := by
    rw [length_numbered]
    exact many
  have positive : 0 < count := by omega
  exact too_many_entries entries
    (always _ ⟨numbered count, _⟩ [] (numbered_registrable positive bound) (numbered_ordered bound).2)

private theorem single_registrable (version : ProtocolVersion) :
    Registrable [version] ⟨[version], List.pairwise_singleton _ _⟩ [] :=
  ⟨List.pairwise_singleton _ _, by simp, by simp, by simp⟩

private theorem single_overflows {version : ProtocolVersion}
    (ran : ProtocolVersions.new [version] = .error .outOfBounds) :
    ¬ DispatchesAll [version] ⟨[version], List.pairwise_singleton _ _⟩ [] := by
  rintro ⟨maximum, -, final, built, -⟩
  simp [build, ran] at built

/-- A listed version with the ordinal of `UNKNOWN` does not fit the tables. Nor do, where
each bound alone is left out, that ordinal, the id of `UNKNOWN`, and 2^31 entries. -/
theorem unknown_numbers_do_not_dispatch :
    (¬ ∀ versions versionMap calls, Registrable versions versionMap calls →
      DispatchesAll versions versionMap calls) ∧
    (¬ ∀ versions versionMap calls, Registrable versions versionMap calls →
      (∀ version ∈ versions, version.protocolID < ProtocolVersion.new.protocolID) →
      versionMap.entries.length < 2 ^ 31 → DispatchesAll versions versionMap calls) ∧
    (¬ ∀ versions versionMap calls, Registrable versions versionMap calls →
      (∀ version ∈ versions, version.ordinal < ProtocolVersion.new.ordinal) →
      versionMap.entries.length < 2 ^ 31 → DispatchesAll versions versionMap calls) ∧
    (¬ ∀ versions versionMap calls, Registrable versions versionMap calls →
      BelowUnknown versions → DispatchesAll versions versionMap calls) := by
  have ordinal : ¬ DispatchesAll [⟨0xFFFFFFFF, 0⟩] ⟨[⟨0xFFFFFFFF, 0⟩], List.pairwise_singleton _ _⟩ [] :=
    single_overflows rfl
  have id : ¬ DispatchesAll [⟨0, 0xFFFFFFFF⟩] ⟨[⟨0, 0xFFFFFFFF⟩], List.pairwise_singleton _ _⟩ [] :=
    single_overflows rfl
  refine ⟨?_, ?_, ?_, ?_⟩
  · intro always
    exact ordinal (always _ _ _ (single_registrable _))
  · intro always
    exact ordinal (always _ _ _ (single_registrable _) (by simp [ProtocolVersion.new]) (by simp))
  · intro always
    exact id (always _ _ _ (single_registrable _) (by simp [ProtocolVersion.new]) (by simp))
  · exact numbered_do_not_dispatch (2 ^ 31) (Nat.le_refl _) (by decide)

end ShipNet.VersionedRegistry
