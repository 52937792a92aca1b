import ShipNet.Errorable
import ShipNet.RawArray

/-! `ProtocolVersion` and `ProtocolVersions`: the versions an application lists,
and the arrays that find them by id and by ordinal. -/
namespace ShipNet
open Fallible

structure ProtocolVersion where
  ordinal : UInt32
  protocolID : UInt32
  deriving DecidableEq, Repr

namespace ProtocolVersion

/-- `ProtocolVersion()`, and with that the value of `ProtocolVersion::UNKNOWN`. -/
def new : ProtocolVersion := ⟨0xFFFFFFFF, 0xFFFFFFFF⟩

/-- `operator<` and `operator<=`. -/
instance : LT ProtocolVersion := ⟨fun version other => version.protocolID < other.protocolID⟩
instance : LE ProtocolVersion := ⟨fun version other => version.protocolID ≤ other.protocolID⟩

instance (version other : ProtocolVersion) : Decidable (version < other) :=
  inferInstanceAs (Decidable (version.protocolID < other.protocolID))

instance (version other : ProtocolVersion) : Decidable (version ≤ other) :=
  inferInstanceAs (Decidable (version.protocolID ≤ other.protocolID))

/-- A `const ProtocolVersion*`: `&ProtocolVersion::UNKNOWN`, or the address of
this version anywhere else. -/
inductive Pointer where
  | unknown
  | at (version : ProtocolVersion)

/-- `*version`. -/
def Pointer.value : Pointer → ProtocolVersion
  | unknown => new
  | .at version => version

end ProtocolVersion

/-- A `std::set<ProtocolVersion>`, in the order of its iterators. -/
structure VersionSet where
  entries : List ProtocolVersion
  ascending : entries.Pairwise (· < ·)

structure ProtocolVersions where
  minimumVersion : ProtocolVersion
  maximumVersion : ProtocolVersion
  minimumProtocolVersion : UInt32
  maximumProtocolVersion : UInt32
  minimumOrdinal : UInt32
  maximumOrdinal : UInt32
  idToVersionMap : RawArray ProtocolVersion
  ordinalToVersionMap : RawArray ProtocolVersion

namespace ProtocolVersions

/-- `new ProtocolVersion[length]`. -/
def allocVersions (length : UInt32) : RawArray ProtocolVersion :=
  List.replicate length.toNat (some .new)

/-- The round of the loop in `ProtocolVersions(versions)`. -/
def addVersion (maps : RawArray ProtocolVersion × RawArray ProtocolVersion) (version : ProtocolVersion) :
    Exec (RawArray ProtocolVersion × RawArray ProtocolVersion) := do
  let idToVersionMap ← RawArray.store .outOfBounds maps.1 version.protocolID.toNat version
  let ordinalToVersionMap ← RawArray.store .outOfBounds maps.2 version.ordinal.toNat version
  pure (idToVersionMap, ordinalToVersionMap)

/-- `ProtocolVersions(versions)`. The lengths of the arrays are `uint32_t` sums. -/
def new (versions : List ProtocolVersion) : Exec ProtocolVersions :=
  match versions.head?, versions.getLast? with
  | some minimumVersion, some maximumVersion => do
    let (idToVersionMap, ordinalToVersionMap) ← versions.foldlM addVersion
      (allocVersions (maximumVersion.protocolID + 1), allocVersions (maximumVersion.ordinal + 1))
    pure {
      minimumVersion := minimumVersion
      maximumVersion := maximumVersion
      minimumProtocolVersion := minimumVersion.protocolID
      maximumProtocolVersion := maximumVersion.protocolID
      minimumOrdinal := minimumVersion.ordinal
      maximumOrdinal := maximumVersion.ordinal
      idToVersionMap := idToVersionMap
      ordinalToVersionMap := ordinalToVersionMap }
  | _, _ => throw .emptyDeque

/-- `FromProtocolID(protocol_id)`. An address inside the array is never that of
`UNKNOWN`, whatever the array holds there. -/
def fromProtocolID (versions : ProtocolVersions) (protocolID : UInt32) : Exec ProtocolVersion.Pointer :=
  if protocolID < versions.minimumProtocolVersion ∨ protocolID > versions.maximumProtocolVersion then pure .unknown
  else do
    let version ← RawArray.load .outOfBounds .uninitialised versions.idToVersionMap protocolID.toNat
    pure (.at version)

/-- `FromOrdinal(ordinal)`. -/
def fromOrdinal (versions : ProtocolVersions) (ordinal : UInt32) : Exec ProtocolVersion.Pointer :=
  if ordinal < versions.minimumOrdinal ∨ ordinal > versions.maximumOrdinal then pure .unknown
  else do
    let version ← RawArray.load .outOfBounds .uninitialised versions.ordinalToVersionMap ordinal.toNat
    pure (.at version)

end ProtocolVersions

end ShipNet
