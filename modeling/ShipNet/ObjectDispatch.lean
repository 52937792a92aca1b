import ShipNet.RegistrationLookup
import ShipNet.VersionBands

/-! Packets from the wire: an id leads through the version's band, the registry of the
band and the table of constructors to the object, and back from the ordinal to the id. -/
namespace ShipNet.ConstructorRegistry
open Fallible OrdinalVector GrowingTable VersionedRegistry

variable {τ : Type}

/-! ### The table of constructors -/

/-- `ConstructorRegistry(versions, versionMap)`. -/
def new (versions : ProtocolVersions) (versionMap : VersionSet) : Exec (ConstructorRegistry τ) := do
  let registry ← VersionedRegistry.new versions versionMap
  pure { registry with ordinalToObjectMap := [] }

/-- A call of `RegisterConstructor`. -/
abbrev Supply (τ : Type) := UInt32 × Option (Constructor τ)

def registerConstructors (registry : ConstructorRegistry τ) (supplies : List (Supply τ)) :
    Exec (ConstructorRegistry τ) :=
  supplies.foldlM (fun registry supply => registry.registerConstructor supply.1 supply.2) registry

/-- The constructor that an ordinal was given last. -/
def constructorOf (supplies : List (Supply τ)) (ordinal : UInt32) : Option (Constructor τ) :=
  (RawArray.lastAt (supplies.map fun supply => (supply.1.toNat, supply.2)) ordinal.toNat).getD none

/-- What an object of this ordinal is: what its constructor, called once, makes of the
buffer, or the error that there is none. -/
def objectOf (constructor : Option (Constructor τ)) (version : ProtocolVersion.Pointer) (ordinal : UInt32)
    (buffer : ByteBufferImpl) : Exec (Errorable (Option τ) × ByteBufferImpl × List UInt32) :=
  match constructor with
  | some constructor => (constructor version buffer).map fun out => (out.1, out.2, [ordinal])
  | none => .ok (noConstructorExistErrorable ordinal, buffer, [])

theorem registerConstructors_eq {supplies : List (Supply τ)}
    (inRange : ∀ supply ∈ supplies, supply.1.toNat < 2 ^ 32 - 8) (registry : ConstructorRegistry τ) :
    registry.registerConstructors supplies = .ok { registry with
      ordinalToObjectMap := placeAll slack registry.ordinalToObjectMap
        (supplies.map fun supply => (supply.1.toNat, supply.2)) } := by
  induction supplies generalizing registry with
  | nil => rfl
  | cons supply later ih =>
    obtain ⟨first, others⟩ := List.forall_mem_cons.mp inRange
    rw [registerConstructors, List.foldlM_cons, registerConstructor, resizeVectorAndSet_eq first]
    exact ih others _

variable {registries : Nat → VersionRegistry} {registry : ConstructorRegistry τ} {version : ProtocolVersion.Pointer}
  {address : Nat} {id : UInt32}

/-- An id with an ordinal leads to the constructor of that ordinal. -/
theorem getObjectByID_found (reached : registry.registryOf version = .ok address) {ordinal : UInt32}
    (found : (registries address).getOrdinalByID id = successErrorable ordinal) {supplies : List (Supply τ)}
    (table : registry.ordinalToObjectMap = placeAll slack [] (supplies.map fun supply => (supply.1.toNat, supply.2)))
    (buffer : ByteBufferImpl) :
    registry.getObjectByID registries version id buffer =
      objectOf (constructorOf supplies ordinal) version ordinal buffer := by
  have entry : registry.ordinalToObjectMap.getD ordinal.toNat none = constructorOf supplies ordinal := by
    rw [table]
    exact getD_placeAll slack_pos [] _ _
  have looked : registry.toVersionedRegistry.getOrdinalByID registries version id = .ok (successErrorable ordinal) := by
    rw [VersionedRegistry.getOrdinalByID, reached, ok_bind, pure_is_ok, found]
  rw [getObjectByID, looked, ok_bind, if_neg (by simp)]
  show (if ordinal.toNat ≥ registry.ordinalToObjectMap.length then _ else _) = _
  by_cases beyond : ordinal.toNat ≥ registry.ordinalToObjectMap.length
  · rw [if_pos beyond, ← entry, List.getD_eq_default _ _ beyond]
    rfl
  · rw [if_neg beyond, success_value, entry]
    cases constructorOf supplies ordinal with
    | none => rfl
    | some constructor =>
      unfold objectOf
      cases constructor version buffer with
      | error fault => rfl
      | ok out => rfl

/-! ### Whole registries -/

/-- What a program sets up: versions and the bands between them, what the registry at each
address holds, which version gets which of them, and the constructors. -/
structure Setup (τ : Type) where
  versions : List ProtocolVersion
  versionMap : VersionSet
  ordinals : Nat → List UInt32
  pairs : Nat → List (UInt32 × UInt32)
  calls : List (ProtocolVersion.Pointer × Nat)
  supplies : List (Supply τ)

namespace Setup

variable (setup : Setup τ)

/-- The packets of the registry at an address. -/
def packets (address : Nat) : List (UInt32 × UInt32) :=
  VersionRegistry.numbered (setup.ordinals address) 0 ++ setup.pairs address

/-- `VersionRegistry(ordinals)` and calls of `Register(ordinal, id)`. -/
def registryAt (address : Nat) : Exec VersionRegistry :=
  VersionRegistry.build (setup.ordinals address) (VersionRegistry.pairCalls (setup.pairs address))

/-- The constructors, the calls of `RegisterVersion` and those of `RegisterConstructor`. -/
def run : Exec (ConstructorRegistry τ) := do
  let protocolVersions ← ProtocolVersions.new setup.versions
  let registry ← new protocolVersions setup.versionMap
  let versioned ← registerVersions registry.toVersionedRegistry setup.calls
  registerConstructors { registry with toVersionedRegistry := versioned } setup.supplies

structure Proper : Prop where
  registrable : Registrable setup.versions setup.versionMap setup.calls
  below : BelowUnknown setup.versions
  few : setup.versionMap.entries.length < 2 ^ 31
  inRange : ∀ address, VersionRegistry.InRange (setup.packets address)
  distinctOrdinals : ∀ address, ((setup.packets address).map Prod.fst).Nodup
  distinctIDs : ∀ address, ((setup.packets address).map Prod.snd).Nodup
  supplied : ∀ supply ∈ setup.supplies, supply.1.toNat < 2 ^ 32 - 8

variable {setup}

theorem Proper.registries_built (proper : setup.Proper) : ∃ registries : Nat → VersionRegistry, ∀ address,
    setup.registryAt address = .ok (registries address) ∧
      VersionRegistry.Holds (setup.ordinals address) (VersionRegistry.pairCalls (setup.pairs address))
        (registries address) := by
  have each (address : Nat) : ∃ registry, setup.registryAt address = .ok registry ∧
      VersionRegistry.Holds (setup.ordinals address) (VersionRegistry.pairCalls (setup.pairs address)) registry := by
    refine VersionRegistry.build_holds ?_ ?_
    · rw [VersionRegistry.introduced, VersionRegistry.registered_pairCalls]
      exact proper.inRange address
    · rw [VersionRegistry.nextCount_pairCalls]
      exact Nat.zero_le _
  exact ⟨fun address => (each address).choose, fun address => (each address).choose_spec⟩

/-- The version that a pointer stands for is a listed one, and not older than the first
band. -/
def Covers (setup : Setup τ) (newest : ProtocolVersion) (version : ProtocolVersion.Pointer) : Prop :=
  resolve newest version ∈ setup.versions ∧ FromFirst setup.versionMap.entries (resolve newest version)

/-- Every packet of the registry that was given last to the band of a version has under
this version its own id, and that id leads to the constructor that its ordinal was given
last, which is called once; an id behind the table is refused. -/
structure Dispatched (setup : Setup τ) (newest : ProtocolVersion) (registries : Nat → VersionRegistry)
    (registry : ConstructorRegistry τ) : Prop where
  packets : ∀ version address, setup.Covers newest version →
    lastInBand setup.versionMap.entries newest setup.calls (resolve newest version) = some address →
    ∀ ordinal id, (ordinal, id) ∈ setup.packets address →
      registry.getIDByOrdinal registries version ordinal = .ok (successErrorable id) ∧
      ∀ buffer, registry.getObjectByID registries version id buffer =
        objectOf (constructorOf setup.supplies ordinal) version ordinal buffer
  refused : ∀ version address, setup.Covers newest version →
    lastInBand setup.versionMap.entries newest setup.calls (resolve newest version) = some address →
    ∀ id, (registries address).idToOrdinalMap.length ≤ id.toNat → ∀ buffer,
      registry.getObjectByID registries version id buffer = .ok (noConstructorOrdinalExistErrorable id, buffer, [])

theorem Proper.covers_newest (proper : setup.Proper) {newest : ProtocolVersion}
    (last : setup.versions.getLast? = some newest) : newest ∈ setup.versions ∧
      FromFirst setup.versionMap.entries newest := by
  obtain ⟨ascending, nonempty, drawn, -⟩ := proper.registrable
  have listed := List.mem_of_getLast? last
  cases same : setup.versionMap.entries with
  | nil => exact absurd same nonempty
  | cons first later =>
    have listedFirst := drawn first (same ▸ List.mem_cons_self)
    exact ⟨listed, first, rfl, (ascending.le_iff listedFirst listed).mpr (ascending.le_last last listedFirst).1⟩

/-- A version whose band was given a registry leads to it. -/
theorem Covers.registryOf {versioned : VersionedRegistry} {newest : ProtocolVersion}
    (covers : setup.Covers newest version)
    (banded : Banded setup.versionMap.entries newest versioned) (proper : setup.Proper)
    (last : setup.versions.getLast? = some newest)
    (stored : ∀ position address, RawArray.lastAt (setup.calls.map fun call =>
      (bandOf setup.versionMap.entries (resolve newest call.1), call.2)) position = some address →
        versioned.versionRegistry[position]? = some (some address))
    (given : lastInBand setup.versionMap.entries newest setup.calls (resolve newest version) = some address) :
    versioned.registryOf version = .ok address := by
  have slot := banded.versionToOrdinal_eq proper.registrable.ascending last proper.registrable.drawn covers.1 covers.2
  have number : (UInt32.ofNat (bandOf setup.versionMap.entries (resolve newest version))).toNat =
      bandOf setup.versionMap.entries (resolve newest version) := by
    rw [proper.registrable.ascending.bandOf_eq proper.registrable.drawn covers.1]
    exact ofNat_band proper.few _
  rw [VersionedRegistry.registryOf, slot, ok_bind, number]
  exact RawArray.load_eq_ok _ _ (stored _ _ given)

theorem Proper.run_returns (proper : setup.Proper) {newest : ProtocolVersion}
    (last : setup.versions.getLast? = some newest) : Returns setup.run fun registry =>
      Banded setup.versionMap.entries newest registry.toVersionedRegistry ∧
      (∀ position address, RawArray.lastAt (setup.calls.map fun call =>
        (bandOf setup.versionMap.entries (resolve newest call.1), call.2)) position = some address →
          registry.versionRegistry[position]? = some (some address)) ∧
      registry.ordinalToObjectMap =
        placeAll slack [] (setup.supplies.map fun supply => (supply.1.toNat, supply.2)) := by
  obtain ⟨ascending, nonempty, drawn, known⟩ := proper.registrable
  obtain ⟨listedNewest, coveredNewest⟩ := proper.covers_newest last
  obtain ⟨protocolVersions, ranVersions, rfl⟩ := protocolVersions_new ascending proper.below last
  obtain ⟨versioned, ranNew, banded⟩ := new_banded nonempty
    (ascending.entries_ascending drawn setup.versionMap.ascending) proper.few (proper.below _ listedNewest).1
    (fun entry member => (ascending.le_last last (drawn entry member)).1)
  have resolved : ∀ call ∈ setup.calls, resolve protocolVersions.maximumVersion call.1 ∈ setup.versions ∧
      FromFirst setup.versionMap.entries (resolve protocolVersions.maximumVersion call.1) := by
    intro call member
    rcases known call member with unknown | ⟨version, listed, same, covered⟩
    · rw [unknown]
      exact ⟨listedNewest, coveredNewest⟩
    · rw [same]
      exact ⟨listed, covered⟩
  obtain ⟨after, ranCalls, bandedAfter, stored⟩ :=
    banded.registerVersions_returns proper.few ascending last drawn resolved
  refine ⟨{ after with ordinalToObjectMap := placeAll slack [] _ }, ?_, bandedAfter, stored, rfl⟩
  simp only [run, new, ranVersions, ranNew, ranCalls, ok_bind, pure_is_ok]
  exact registerConstructors_eq proper.supplied _

theorem bands_ascending : [(⟨1, 100⟩ : ProtocolVersion), ⟨7, 130⟩].Pairwise (· < ·) := by decide

/-- Three versions in two bands. The registry of the newer band has one packet more, and
one of the packets has no constructor. -/
def twoBands : Setup Unit where
  versions := [⟨1, 100⟩, ⟨3, 110⟩, ⟨7, 130⟩]
  versionMap := ⟨[⟨1, 100⟩, ⟨7, 130⟩], bands_ascending⟩
  ordinals _ := [20, 3]
  pairs address := if address = 2 then [(100, 50)] else []
  calls := [(.at ⟨1, 100⟩, 1), (.unknown, 2)]
  supplies := [(20, some fun _ buffer => .ok (successErrorable (some ()), buffer)), (3, none)]

theorem twoBands_packets (address : Nat) : twoBands.packets address = [(20, 0), (3, 1)] ∨
    twoBands.packets address = [(20, 0), (3, 1), (100, 50)] := by
  by_cases newer : address = 2
  · have pairs : twoBands.pairs address = [(100, 50)] := if_pos newer
    rw [packets, pairs]
    exact .inr rfl
  · have pairs : twoBands.pairs address = [] := if_neg newer
    rw [packets, pairs]
    exact .inl rfl

end Setup

end ShipNet.ConstructorRegistry
