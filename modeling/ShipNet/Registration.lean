import ShipNet.ByteBuffer
import ShipNet.OrdinalVector
import ShipNet.VersionedRegistry

/-! How a `VersionRegistry` is filled, and the registries that look up their
values and constructors through it: `EnumRegistry` and `ConstructorRegistry`. -/
namespace ShipNet
open Fallible OrdinalVector

namespace VersionRegistry

/-- The round of the loop in `VersionRegistry(ordinals)`. -/
def addOrdinal (state : List UInt32 × UInt32) (ordinal : UInt32) : Exec (List UInt32 × UInt32) := do
  let ordinalToIDMap ← resizeVectorAndSet state.1 ordinal state.2
  pure (ordinalToIDMap, state.2 + 1)

/-- `VersionRegistry(ordinals)`. -/
def new (ordinals : List UInt32) : Exec VersionRegistry := do
  let (ordinalToIDMap, _) ← ordinals.foldlM addOrdinal ([], 0)
  pure { ordinalToIDMap := ordinalToIDMap, idToOrdinalMap := ordinals }

variable {T : Type} (toOrdinal : T → UInt32)

/-- The round of the loop in the constructor template, which casts the ordinals. -/
def addValue (state : VersionRegistry × UInt32) (ordinal : T) : Exec (VersionRegistry × UInt32) := do
  let idToOrdinalMap := state.1.idToOrdinalMap ++ [toOrdinal ordinal]
  let ordinalToIDMap ← resizeVectorAndSet state.1.ordinalToIDMap (toOrdinal ordinal) state.2
  pure ({ state.1 with ordinalToIDMap := ordinalToIDMap, idToOrdinalMap := idToOrdinalMap }, state.2 + 1)

/-- `VersionRegistry<T>(ordinals)`. -/
def newOf (ordinals : List T) : Exec VersionRegistry := do
  let (registry, _) ← ordinals.foldlM (addValue toOrdinal) ({}, 0)
  pure registry

/-- A call of one of the constructors. -/
inductive Construction (T : Type) where
  | default
  | ofOrdinals (ordinals : List UInt32)
  | ofValues (ordinals : List T)

def Construction.run : Construction T → Exec VersionRegistry
  | .default => pure {}
  | .ofOrdinals ordinals => new ordinals
  | .ofValues ordinals => newOf toOrdinal ordinals

/-- `Register(ordinal, id)`. -/
def register (registry : VersionRegistry) (ordinal id : UInt32) : Exec VersionRegistry := do
  let ordinalToIDMap ← resizeVectorAndSet registry.ordinalToIDMap ordinal id
  let idToOrdinalMap ← resizeVectorAndSet registry.idToOrdinalMap id ordinal
  pure { registry with ordinalToIDMap := ordinalToIDMap, idToOrdinalMap := idToOrdinalMap }

/-- `++latestRegisteredID`, on an `int`. -/
def incrementLatest (latestRegisteredID : Int) : Exec Int :=
  if latestRegisteredID < 2 ^ 31 - 1 then pure (latestRegisteredID + 1) else throw .signedOverflow

/-- `Register(ordinal)`. -/
def registerNext (registry : VersionRegistry) (ordinal : UInt32) : Exec VersionRegistry := do
  let latestRegisteredID ← incrementLatest registry.latestRegisteredID
  register { registry with latestRegisteredID := latestRegisteredID } ordinal (.ofNat latestRegisteredID.toNat)

/-- A call of one of the overloads of `Register`. -/
inductive Registration where
  | next (ordinal : UInt32)
  | pair (ordinal id : UInt32)

def Registration.run (registry : VersionRegistry) : Registration → Exec VersionRegistry
  | next ordinal => registry.registerNext ordinal
  | pair ordinal id => registry.register ordinal id

/-- `VersionRegistry(ordinals)` and then these calls. -/
def build (ordinals : List UInt32) (calls : List Registration) : Exec VersionRegistry := do
  let registry ← new ordinals
  calls.foldlM Registration.run registry

/-- The same with the constructor template. -/
def buildOf (ordinals : List T) (calls : List Registration) : Exec VersionRegistry := do
  let registry ← newOf toOrdinal ordinals
  calls.foldlM Registration.run registry

end VersionRegistry

/-- The casts between an enumeration and `uint32_t`. -/
structure EnumCast (T : Type) where
  toOrdinal : T → UInt32
  ofOrdinal : UInt32 → T
  inverse : ∀ value, ofOrdinal (toOrdinal value) = value

namespace EnumRegistry

variable {T : Type} (cast : EnumCast T) (registries : Nat → VersionRegistry) (registry : VersionedRegistry)
  (version : ProtocolVersion.Pointer)

def invalidEnumByIdErrorable [Inhabited T] (argument : UInt64) : Errorable T :=
  invalidArgumentErrorable .invalidEnumById argument

/-- `GetValue(version, id)`. -/
def getValue [Inhabited T] (id : UInt32) : Exec (Errorable T) := do
  let ordinal ← registry.getOrdinalByID registries version id
  if !ordinal.isSuccess then pure (invalidEnumByIdErrorable id.toUInt64)
  else pure (successErrorable (cast.ofOrdinal ordinal.value))

/-- `GetID(version, value)`. -/
def getID (value : T) : Exec (Errorable UInt32) :=
  registry.getIDByOrdinal registries version (cast.toOrdinal value)

end EnumRegistry

/-- A constructor of objects `τ`. A null pointer is `none`. -/
abbrev Constructor (τ : Type) : Type :=
  ProtocolVersion.Pointer → ByteBufferImpl → Exec (Errorable (Option τ) × ByteBufferImpl)

structure ConstructorRegistry (τ : Type) extends VersionedRegistry where
  ordinalToObjectMap : List (Option (Constructor τ))

namespace ConstructorRegistry

variable {τ : Type}

def noConstructorExistErrorable (ordinal : UInt32) : Errorable (Option τ) :=
  invalidArgumentErrorable .noConstructorExist ordinal.toUInt64

def noConstructorOrdinalExistErrorable (id : UInt32) : Errorable (Option τ) :=
  invalidArgumentErrorable .noConstructorOrdinalExist id.toUInt64

/-- `RegisterConstructor(ordinal, constructor)`. -/
def registerConstructor (registry : ConstructorRegistry τ) (ordinal : UInt32)
    (constructor : Option (Constructor τ)) : Exec (ConstructorRegistry τ) := do
  let ordinalToObjectMap ← resizeVectorAndSet registry.ordinalToObjectMap ordinal constructor
  pure { registry with ordinalToObjectMap := ordinalToObjectMap }

/-- `GetObjectByID(version, id, buffer)`, with the ordinals whose constructors it
calls. -/
def getObjectByID (registries : Nat → VersionRegistry) (registry : ConstructorRegistry τ)
    (version : ProtocolVersion.Pointer) (id : UInt32) (buffer : ByteBufferImpl) :
    Exec (Errorable (Option τ) × ByteBufferImpl × List UInt32) := do
  let ordinal ← registry.toVersionedRegistry.getOrdinalByID registries version id
  if !ordinal.isSuccess then pure (noConstructorOrdinalExistErrorable id, buffer, [])
  else if ordinal.value.toNat ≥ registry.ordinalToObjectMap.length then
    pure (noConstructorExistErrorable ordinal.value, buffer, [])
  else
    match registry.ordinalToObjectMap.getD ordinal.value.toNat none with
    | some constructor => do
      let (object, buffer) ← constructor version buffer
      pure (object, buffer, [ordinal.value])
    | none => pure (noConstructorExistErrorable ordinal.value, buffer, [])

end ConstructorRegistry

end ShipNet
