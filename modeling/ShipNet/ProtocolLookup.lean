import ShipNet.VersionBands

/-! From a protocol id, as a peer sends it, to the slot of a registry. Only the
pointer `&ProtocolVersion::UNKNOWN` is taken for an unknown version: the entry of an
id between two listed versions has the values of `UNKNOWN` at another address. -/
namespace ShipNet.VersionedRegistry
open Fallible

variable {versions entries : List ProtocolVersion} {oldest newest : ProtocolVersion}
  {protocolVersions : ProtocolVersions} {registry : VersionedRegistry} {protocolID : UInt32}

/-- The registry is built, and for this id its table is read where it has entries
and gives a slot that there is. -/
def IndexedSafely (versions : List ProtocolVersion) (versionMap : VersionSet) (protocolID : UInt32) : Prop :=
  ∃ protocolVersions registry pointer slot, ProtocolVersions.new versions = .ok protocolVersions ∧
    new protocolVersions versionMap = .ok registry ∧
    protocolVersions.fromProtocolID protocolID = .ok pointer ∧
    registry.versionToOrdinal pointer = .ok slot ∧
    (resolve protocolVersions.maximumVersion pointer).ordinal ≤ protocolVersions.maximumVersion.ordinal ∧
    slot.toNat < registry.versionRegistry.length

/-- An id in front of the listed versions, behind them, or of one of them. -/
def NotBetween (versions : List ProtocolVersion) (protocolID : UInt32) : Prop :=
  (∀ version ∈ versions, protocolID < version.protocolID) ∨
    (∀ version ∈ versions, version.protocolID < protocolID) ∨
    ∃ version ∈ versions, version.protocolID = protocolID

/-- The first of the listed versions is the oldest. -/
theorem Ascending.first_le (ascending : Ascending versions) (head : versions.head? = some oldest)
    {version : ProtocolVersion} (listed : version ∈ versions) : oldest ≤ version := by
  obtain ⟨later, rfl⟩ := List.head?_eq_some_iff.mp head
  rcases List.mem_cons.mp listed with rfl | further
  · exact UInt32.le_refl _
  · exact UInt32.le_of_lt ((List.pairwise_cons.mp ascending).1 version further).2

theorem notBetween_iff (ascending : Ascending versions) (head : versions.head? = some oldest)
    (last : versions.getLast? = some newest) :
    NotBetween versions protocolID ↔ protocolID < oldest.protocolID ∨ newest.protocolID < protocolID ∨
      ∃ version ∈ versions, version.protocolID = protocolID := by
  have listedOldest := List.mem_of_mem_head? (Option.mem_def.mpr head)
  have listedNewest := List.mem_of_getLast? last
  refine or_congr ⟨fun before => before oldest listedOldest, ?_⟩
    (or_congr ⟨fun behind => behind newest listedNewest, ?_⟩ Iff.rfl)
  · intro before version listed
    exact UInt32.lt_of_lt_of_le before (ascending.first_le head listed)
  · intro behind version listed
    have upTo : version.protocolID ≤ newest.protocolID := (ascending.le_last last listed).2
    exact UInt32.lt_of_le_of_lt upTo behind

/-- What `FromProtocolID` answers: a version by its id, `UNKNOWN` outside the listed
ones, and an unset entry between them. -/
theorem Listed.fromProtocolID_cases (listed : Listed versions oldest newest protocolVersions)
    (ascending : Ascending versions) (head : versions.head? = some oldest)
    (last : versions.getLast? = some newest) (protocolID : UInt32) :
    (NotBetween versions protocolID ∧
      ∃ pointer, protocolVersions.fromProtocolID protocolID = .ok pointer ∧ resolve newest pointer ∈ versions) ∨
    (¬ NotBetween versions protocolID ∧ protocolVersions.fromProtocolID protocolID = .ok (.at .new)) := by
  rw [notBetween_iff ascending head last]
  by_cases outside : protocolID < oldest.protocolID ∨ protocolID > newest.protocolID
  · have answer : protocolVersions.fromProtocolID protocolID = .ok .unknown := by
      rw [ProtocolVersions.fromProtocolID, listed.minimumID, listed.maximumID, if_pos outside, pure_is_ok]
    refine .inl ⟨?_, .unknown, answer, List.mem_of_getLast? last⟩
    rcases outside with before | behind
    · exact .inl before
    · exact .inr (.inl behind)
  · have reached : protocolID.toNat ≤ newest.protocolID.toNat :=
      UInt32.not_lt.mp fun behind => outside (.inr behind)
    have answer {version : ProtocolVersion}
        (stored : protocolVersions.idToVersionMap[protocolID.toNat]? = some (some version)) :
        protocolVersions.fromProtocolID protocolID = .ok (.at version) := by
      rw [ProtocolVersions.fromProtocolID, listed.minimumID, listed.maximumID, if_neg outside,
        RawArray.load_eq_ok _ _ stored, ok_bind, pure_is_ok]
    rcases listed.entry protocolID.toNat reached with ⟨version, member, number, stored⟩ | ⟨absent, unset⟩
    · exact .inl ⟨.inr (.inr ⟨version, member, UInt32.toNat_inj.mp number⟩), .at version, answer stored, member⟩
    · refine .inr ⟨?_, answer unset⟩
      rintro (before | behind | ⟨version, member, number⟩)
      · exact outside (.inl before)
      · exact outside (.inr behind)
      · exact absent version member (congrArg UInt32.toNat number)

/-- A version map with the oldest version covers all of them. -/
theorem Ascending.covered (ascending : Ascending versions) (head : versions.head? = some oldest)
    {versionMap : VersionSet} (contains : oldest ∈ versionMap.entries) {version : ProtocolVersion}
    (listed : version ∈ versions) : FromFirst versionMap.entries version := by
  have sorted := versionMap.ascending
  unfold FromFirst
  generalize versionMap.entries = entries at contains sorted
  cases entries with
  | nil => cases contains
  | cons first later =>
    refine ⟨first, rfl, ?_⟩
    have upToOldest : first ≤ oldest := by
      rcases List.mem_cons.mp contains with rfl | further
      · exact UInt32.le_refl _
      · exact UInt32.le_of_lt ((List.pairwise_cons.mp sorted).1 oldest further)
    exact UInt32.le_trans upToOldest (ascending.first_le head listed)

/-- An id leads to a slot exactly if it is not between the listed ones, and an `int`
counts the entries of the version map. -/
theorem protocol_id_indexes_safely_iff (versions : List ProtocolVersion) (versionMap : VersionSet)
    (protocolID : UInt32) (ascending : Ascending versions) (below : BelowUnknown versions)
    (drawn : ∀ entry ∈ versionMap.entries, entry ∈ versions)
    (fromOldest : ∃ oldest ∈ versionMap.entries, versions.head? = some oldest) :
    IndexedSafely versions versionMap protocolID ↔
      versionMap.entries.length < 2 ^ 31 ∧ NotBetween versions protocolID := by
  by_cases few : versionMap.entries.length < 2 ^ 31
  · obtain ⟨oldest, contains, head⟩ := fromOldest
    have listedOldest := drawn oldest contains
    obtain ⟨newest, last⟩ : ∃ newest, versions.getLast? = some newest :=
      ⟨_, List.getLast?_eq_some_getLast (List.ne_nil_of_mem listedOldest)⟩
    have listedNewest := List.mem_of_getLast? last
    obtain ⟨protocolVersions, ranVersions, listed⟩ := protocolVersions_listed ascending below head last
    obtain rfl := listed.maximumVersion
    obtain ⟨registry, ranNew, banded⟩ := new_banded (List.ne_nil_of_mem contains)
      (ascending.entries_ascending drawn versionMap.ascending) few (below _ listedNewest).1
      (fun entry member => (ascending.le_last last (drawn entry member)).1)
    rcases listed.fromProtocolID_cases ascending head last protocolID with
      ⟨apart, pointer, answer, known⟩ | ⟨between, answer⟩
    · refine ⟨fun _ => ⟨few, apart⟩, fun _ => ?_⟩
      have slot := banded.versionToOrdinal_eq ascending last drawn known (ascending.covered head contains known)
      refine ⟨_, _, pointer, _, ranVersions, ranNew, answer, slot, (ascending.le_last last known).1, ?_⟩
      rw [ascending.bandOf_eq drawn known, ofNat_band few]
      exact banded.slots _
    · constructor
      · rintro ⟨_, _, pointer, slot, again, -, given, -, within, -⟩
        obtain rfl := Except.ok.inj (ranVersions.symm.trans again)
        obtain rfl := Except.ok.inj (answer.symm.trans given)
        exact absurd (below _ listedNewest).1 (UInt32.not_lt.mpr within)
      · rintro ⟨-, apart⟩
        exact absurd apart between
  · constructor
    · rintro ⟨protocolVersions, registry, pointer, slot, -, ranNew, -⟩
      exact absurd ranNew (new_overflows (Nat.le_of_not_lt few) registry)
    · rintro ⟨fits, -⟩
      exact absurd fits few

/-- A listed id, between two others. -/
theorem listed_id_indexes_safely :
    IndexedSafely [⟨1, 100⟩, ⟨3, 110⟩, ⟨7, 130⟩] ⟨[⟨1, 100⟩, ⟨7, 130⟩], by decide⟩ 110 := by
  refine (protocol_id_indexes_safely_iff _ _ _ ?_ ?_ ?_ ?_).mpr ⟨?_, ?_⟩
  · simp [Ascending]
  · simp [BelowUnknown, ProtocolVersion.new]
  · simp
  · exact ⟨⟨1, 100⟩, by simp, rfl⟩
  · simp
  · exact .inr (.inr ⟨⟨3, 110⟩, by simp, rfl⟩)

/-- An id that no version has, between two listed ones: the table is read at 2^32 - 1. -/
theorem gap_indexes_outside :
    ¬ IndexedSafely [⟨0, 0⟩, ⟨1, 2⟩] ⟨[⟨0, 0⟩, ⟨1, 2⟩], by decide⟩ 1 := by
  rintro ⟨protocolVersions, registry, pointer, slot, ranVersions, -, answer, -, within, -⟩
  cases ranVersions
  cases answer
  exact absurd within (by decide)

end ShipNet.VersionedRegistry
