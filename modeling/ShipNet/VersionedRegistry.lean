import Mathlib.Tactic.Ring
import ShipNet.ProtocolVersion

/-! `VersionRegistry`, the packets of one version, and `VersionedRegistry`, which
keeps one of them for each band of versions. -/
namespace ShipNet
open Fallible

def invalidPacketByOrdinal (argument : UInt64) : Errorable UInt32 :=
  invalidArgumentErrorable .invalidPacketByOrdinal argument

def invalidPacketById (argument : UInt64) : Errorable UInt32 :=
  invalidArgumentErrorable .invalidPacketById argument

structure VersionRegistry where
  ordinalToIDMap : List UInt32 := []
  idToOrdinalMap : List UInt32 := []
  latestRegisteredID : Int := -1

namespace VersionRegistry

def getOrdinalByID (registry : VersionRegistry) (id : UInt32) : Errorable UInt32 :=
  if id.toNat ≥ registry.idToOrdinalMap.length then invalidPacketById id.toUInt64
  else successErrorable (registry.idToOrdinalMap.getD id.toNat 0)

def getIDByOrdinal (registry : VersionRegistry) (ordinal : UInt32) : Errorable UInt32 :=
  if ordinal.toNat ≥ registry.ordinalToIDMap.length then invalidPacketByOrdinal ordinal.toUInt64
  else successErrorable (registry.ordinalToIDMap.getD ordinal.toNat 0)

end VersionRegistry

/-- The registries of the slots are kept by address. -/
structure VersionedRegistry where
  versions : ProtocolVersions
  versionToOrdinalMap : RawArray UInt32
  versionRegistry : RawArray Nat

namespace VersionedRegistry

/-- `ordinal++` on an `int` that is not negative. -/
def increment (ordinal : Nat) : Exec Nat :=
  if ordinal < 2 ^ 31 - 1 then pure (ordinal + 1) else throw .signedOverflow

/-- The loop of the constructor, from the round of the first of these entries on. -/
def fillBands (previousIt : ProtocolVersion) (ordinal : Nat) (versionToOrdinalMap : RawArray UInt32) :
    List ProtocolVersion → Exec (ProtocolVersion × Nat × RawArray UInt32)
  | [] => pure (previousIt, ordinal, versionToOrdinalMap)
  | it :: later => do
    let nextOrdinal ← increment ordinal
    let versionToOrdinalMap ← RawArray.fill .outOfBounds versionToOrdinalMap previousIt.ordinal.toNat
      it.ordinal.toNat (.ofNat ordinal)
    fillBands it nextOrdinal versionToOrdinalMap later

def versionToOrdinal (registry : VersionedRegistry) (version : ProtocolVersion.Pointer) : Exec UInt32 :=
  let version := match version with
    | .unknown => registry.versions.maximumVersion
    | .at version => version
  RawArray.load .outOfBounds .uninitialised registry.versionToOrdinalMap version.ordinal.toNat

/-- The constructor from its second `std::fill` on. -/
def fillLast (versions : ProtocolVersions) (previousIt : ProtocolVersion) (ordinal : Nat)
    (versionToOrdinalMap : RawArray UInt32) : Exec VersionedRegistry := do
  let versionToOrdinalMap ← RawArray.fill .outOfBounds versionToOrdinalMap previousIt.ordinal.toNat
    (versions.maximumVersion.ordinal.toNat + 1) (.ofNat ordinal)
  let registry : VersionedRegistry := {
    versions := versions
    versionToOrdinalMap := versionToOrdinalMap
    versionRegistry := [] }
  let maximumOrdinal ← registry.versionToOrdinal (.at versions.maximumVersion)
  pure { registry with versionRegistry := RawArray.alloc (maximumOrdinal + 1).toNat }

/-- `VersionedRegistry(versions, versionMap)`. The loop starts at the first entry:
`versionMap.begin()++` is `versionMap.begin()`. -/
def new (versions : ProtocolVersions) (versionMap : VersionSet) : Exec VersionedRegistry :=
  match versionMap.entries with
  | [] => throw .outOfBounds
  | first :: later => do
    let (previousIt, ordinal, versionToOrdinalMap) ←
      fillBands first 0 (RawArray.alloc (versions.maximumVersion.ordinal + 1).toNat) (first :: later)
    fillLast versions previousIt ordinal versionToOrdinalMap

/-- `RegisterVersion(version, registry)`. -/
def registerVersion (versioned : VersionedRegistry) (version : ProtocolVersion.Pointer) (registry : Nat) :
    Exec VersionedRegistry := do
  let slot ← versioned.versionToOrdinal version
  let versionRegistry ← RawArray.store .outOfBounds versioned.versionRegistry slot.toNat registry
  pure { versioned with versionRegistry := versionRegistry }

/-- The round of the loop in `FillVersionRegistry`. -/
def fillSlot (registry : Nat) (state : VersionedRegistry × UInt32) :
    Exec (Round (VersionedRegistry × UInt32) VersionedRegistry) := do
  let maximumOrdinal ← state.1.versionToOrdinal (.at state.1.versions.maximumVersion)
  if state.2 ≤ maximumOrdinal then
    let versionRegistry ← RawArray.store .outOfBounds state.1.versionRegistry state.2.toNat registry
    pure (.again ({ state.1 with versionRegistry := versionRegistry }, state.2 + 1))
  else pure (.leave state.1)

/-- `FillVersionRegistry(registry)`. Every round but the last stores in another slot. -/
def fillVersionRegistry (versioned : VersionedRegistry) (registry : Nat) : Exec VersionedRegistry := do
  let first ← versioned.versionToOrdinal (.at versioned.versions.minimumVersion)
  loop .endless (fillSlot registry) (versioned.versionRegistry.length + 1) (versioned, first)

/-- The addresses that `~VersionedRegistry()` deletes, one slot after another. -/
def deleteSlots (versioned : VersionedRegistry) : Exec (List Nat) := do
  let maximumOrdinal ← versioned.versionToOrdinal (.at versioned.versions.maximumVersion)
  (List.range (maximumOrdinal + 1).toNat).mapM fun slot =>
    RawArray.load .outOfBounds .uninitialised versioned.versionRegistry slot

/-- The registry that a version leads to. -/
def registryOf (versioned : VersionedRegistry) (version : ProtocolVersion.Pointer) : Exec Nat := do
  let slot ← versioned.versionToOrdinal version
  RawArray.load .outOfBounds .uninitialised versioned.versionRegistry slot.toNat

/-- `GetOrdinalByID(version, id)`, with the registries at their addresses. -/
def getOrdinalByID (registries : Nat → VersionRegistry) (versioned : VersionedRegistry)
    (version : ProtocolVersion.Pointer) (id : UInt32) : Exec (Errorable UInt32) := do
  let address ← versioned.registryOf version
  pure ((registries address).getOrdinalByID id)

/-- `GetIDByOrdinal(version, ordinal)`. -/
def getIDByOrdinal (registries : Nat → VersionRegistry) (versioned : VersionedRegistry)
    (version : ProtocolVersion.Pointer) (ordinal : UInt32) : Exec (Errorable UInt32) := do
  let address ← versioned.registryOf version
  pure ((registries address).getIDByOrdinal ordinal)

end VersionedRegistry

end ShipNet
