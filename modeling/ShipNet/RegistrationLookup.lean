import ShipNet.Registration

/-! What a `VersionRegistry` answers once it is filled. Pairs without a repeated
ordinal or id are found in both directions. Nothing else is found exactly if the
registrations leave no entry of the two tables at its default. -/
namespace ShipNet.VersionRegistry
open Fallible OrdinalVector GrowingTable RawArray

/-! ### The tables -/

/-- The pairs of the vector that a registry is constructed from. -/
def numbered (ordinals : List UInt32) (start : Nat) : List (UInt32 × UInt32) :=
  (ordinals.zipIdx start).map fun entry => (entry.1, .ofNat entry.2)

/-- The pairs of these calls, of which `count` without an id came before. -/
def registered (count : Nat) : List Registration → List (UInt32 × UInt32)
  | [] => []
  | .next ordinal :: later => (ordinal, .ofNat count) :: registered (count + 1) later
  | .pair ordinal id :: later => (ordinal, id) :: registered count later

/-- All pairs that are introduced. -/
def introduced (ordinals : List UInt32) (calls : List Registration) : List (UInt32 × UInt32) :=
  numbered ordinals 0 ++ registered 0 calls

def byOrdinal (pairs : List (UInt32 × UInt32)) : List (Nat × UInt32) :=
  pairs.map fun pair => (pair.1.toNat, pair.2)

def byID (pairs : List (UInt32 × UInt32)) : List (Nat × UInt32) :=
  pairs.map fun pair => (pair.2.toNat, pair.1)

/-- Ordinals and ids for which `at + 8` does not wrap around. -/
def InRange (pairs : List (UInt32 × UInt32)) : Prop :=
  ∀ pair ∈ pairs, pair.1.toNat < 2 ^ 32 - 8 ∧ pair.2.toNat < 2 ^ 32 - 8

instance (pairs : List (UInt32 × UInt32)) : Decidable (InRange pairs) :=
  List.decidableBAll (fun pair : UInt32 × UInt32 => pair.1.toNat < 2 ^ 32 - 8 ∧ pair.2.toNat < 2 ^ 32 - 8) pairs

/-- The number of calls that leave the id to the registry. -/
def nextCount (calls : List Registration) : Nat :=
  calls.countP fun
    | .next _ => true
    | .pair _ _ => false

theorem nextCount_next (ordinal : UInt32) (later : List Registration) :
    nextCount (.next ordinal :: later) = nextCount later + 1 := by
  simp [nextCount]

theorem nextCount_pair (ordinal id : UInt32) (later : List Registration) :
    nextCount (.pair ordinal id :: later) = nextCount later := by
  simp [nextCount]

variable {ordinals : List UInt32} {calls : List Registration} {registry : VersionRegistry}

theorem addOrdinals_eq {table : List UInt32} {start : Nat} (inRange : InRange (numbered ordinals start)) :
    ordinals.foldlM addOrdinal (table, .ofNat start) =
      .ok (placeAll slack table (byOrdinal (numbered ordinals start)), .ofNat (start + ordinals.length)) := by
  induction ordinals generalizing table start with
  | nil => rfl
  | cons ordinal later ih =>
    obtain ⟨first, others⟩ := List.forall_mem_cons.mp inRange
    have next : (UInt32.ofNat start + 1 : UInt32) = .ofNat (start + 1) := (UInt32.ofNat_add start 1).symm
    simp only [List.foldlM_cons, addOrdinal, resizeVectorAndSet_eq first.1, ok_bind, pure_is_ok, next]
    rw [ih others, List.length_cons, Nat.add_right_comm start 1]
    rfl

theorem new_eq (inRange : InRange (numbered ordinals 0)) :
    new ordinals = .ok {
      ordinalToIDMap := placeAll slack [] (byOrdinal (numbered ordinals 0))
      idToOrdinalMap := ordinals } := by
  have added : ordinals.foldlM addOrdinal ([], 0) = .ok _ := addOrdinals_eq inRange
  simp only [new, added, ok_bind, pure_is_ok]

theorem register_eq {ordinal id : UInt32} (inRange : ordinal.toNat < 2 ^ 32 - 8 ∧ id.toNat < 2 ^ 32 - 8)
    (registry : VersionRegistry) :
    registry.register ordinal id = .ok { registry with
      ordinalToIDMap := place slack registry.ordinalToIDMap ordinal.toNat id
      idToOrdinalMap := place slack registry.idToOrdinalMap id.toNat ordinal } := by
  simp only [register, resizeVectorAndSet_eq inRange.1, resizeVectorAndSet_eq inRange.2, ok_bind, pure_is_ok]

theorem incrementLatest_eq {count : Nat} (few : count < 2 ^ 31) :
    incrementLatest ((count : Int) - 1) = .ok (count : Int) := by
  rw [incrementLatest, if_pos (by omega), pure_is_ok]
  congr 1
  omega

/-- As long as no id overflows, the calls write their pairs to both tables. -/
theorem registrations_eq {count : Nat} (latest : registry.latestRegisteredID = (count : Int) - 1)
    (inRange : InRange (registered count calls)) (few : count + nextCount calls ≤ 2 ^ 31) :
    calls.foldlM Registration.run registry = .ok {
      ordinalToIDMap := placeAll slack registry.ordinalToIDMap (byOrdinal (registered count calls))
      idToOrdinalMap := placeAll slack registry.idToOrdinalMap (byID (registered count calls))
      latestRegisteredID := (count : Int) + nextCount calls - 1 } := by
  induction calls generalizing registry count with
  | nil =>
    simp only [List.foldlM_nil, pure_is_ok, nextCount, List.countP_nil, Nat.cast_zero, add_zero, ← latest]
    rfl
  | cons call later ih =>
    cases call with
    | next ordinal =>
      obtain ⟨first, others⟩ := List.forall_mem_cons.mp inRange
      rw [nextCount_next] at few ⊢
      have stepped : incrementLatest ((count : Int) - 1) = .ok (count : Int) := incrementLatest_eq (by omega)
      simp only [List.foldlM_cons, Registration.run, registerNext, latest, stepped, Int.toNat_natCast,
        register_eq first, ok_bind]
      have latestNext : (count : Int) = ((count + 1 : Nat) : Int) - 1 := by omega
      rw [ih latestNext others (by omega)]
      simp only [Except.ok.injEq, mk.injEq]
      exact ⟨rfl, rfl, by omega⟩
    | pair ordinal id =>
      obtain ⟨first, others⟩ := List.forall_mem_cons.mp inRange
      rw [nextCount_pair] at few ⊢
      simp only [List.foldlM_cons, Registration.run, register_eq first, ok_bind]
      refine (ih ?_ others few).trans rfl
      exact latest

/-- One id too many. -/
theorem registrations_overflow {count : Nat} (latest : registry.latestRegisteredID = (count : Int) - 1)
    (inRange : InRange (registered count calls)) (started : count ≤ 2 ^ 31)
    (many : 2 ^ 31 < count + nextCount calls) :
    calls.foldlM Registration.run registry = .error .signedOverflow := by
  induction calls generalizing registry count with
  | nil => exact absurd many (Nat.not_lt.mpr started)
  | cons call later ih =>
    cases call with
    | next ordinal =>
      obtain ⟨first, others⟩ := List.forall_mem_cons.mp inRange
      rw [nextCount_next] at many
      by_cases room : count < 2 ^ 31
      · simp only [List.foldlM_cons, Registration.run, registerNext, latest, incrementLatest_eq room,
          Int.toNat_natCast, register_eq first, ok_bind]
        have latestNext : (count : Int) = ((count + 1 : Nat) : Int) - 1 := by omega
        exact ih latestNext others room (by omega)
      · have full : incrementLatest ((count : Int) - 1) = .error .signedOverflow := by
          rw [incrementLatest, if_neg (by omega), throw_is_error]
        simp only [List.foldlM_cons, Registration.run, registerNext, latest, full, error_bind]
    | pair ordinal id =>
      obtain ⟨first, others⟩ := List.forall_mem_cons.mp inRange
      rw [nextCount_pair] at many
      simp only [List.foldlM_cons, Registration.run, register_eq first, ok_bind]
      refine ih ?_ others started many
      exact latest

/-- The two tables of a registry that these pairs were introduced to. -/
structure Holds (ordinals : List UInt32) (calls : List Registration) (registry : VersionRegistry) : Prop where
  ordinalToIDMap : registry.ordinalToIDMap = placeAll slack [] (byOrdinal (introduced ordinals calls))
  idToOrdinalMap : registry.idToOrdinalMap = placeAll slack ordinals (byID (registered 0 calls))

theorem build_holds (inRange : InRange (introduced ordinals calls)) (few : nextCount calls ≤ 2 ^ 31) :
    Returns (build ordinals calls) (Holds ordinals calls) := by
  obtain ⟨fromVector, fromCalls⟩ := List.forall_mem_append.mp inRange
  simp only [build, new_eq fromVector, ok_bind]
  rw [registrations_eq rfl fromCalls (by omega), returns_ok]
  refine ⟨?_, rfl⟩
  simp only [introduced, byOrdinal, List.map_append, placeAll, List.foldl_append]

theorem build_overflow (inRange : InRange (introduced ordinals calls)) (many : 2 ^ 31 < nextCount calls) :
    build ordinals calls = .error .signedOverflow := by
  obtain ⟨fromVector, fromCalls⟩ := List.forall_mem_append.mp inRange
  simp only [build, new_eq fromVector, ok_bind]
  exact registrations_overflow rfl fromCalls (Nat.zero_le _) (by omega)

/-- The entries that these pairs write, in the table of the ids and in that of the
ordinals. -/
def ordinalIndices (pairs : List (UInt32 × UInt32)) : List Nat := pairs.map fun pair => pair.1.toNat

def idIndices (pairs : List (UInt32 × UInt32)) : List Nat := pairs.map fun pair => pair.2.toNat

/-! ### Answers -/

variable {ordinal id : UInt32}

theorem Holds.getIDByOrdinal_eq (holds : Holds ordinals calls registry) (ordinal : UInt32) :
    registry.getIDByOrdinal ordinal =
      if ordinal.toNat < extent slack 0 (ordinalIndices (introduced ordinals calls)) then
        successErrorable ((lastAt (byOrdinal (introduced ordinals calls)) ordinal.toNat).getD 0)
      else invalidPacketByOrdinal ordinal.toUInt64 := by
  have entry : registry.ordinalToIDMap.getD ordinal.toNat 0 =
      (lastAt (byOrdinal (introduced ordinals calls)) ordinal.toNat).getD 0 := by
    rw [holds.ordinalToIDMap]
    exact getD_placeAll slack_pos [] _ _
  have length : registry.ordinalToIDMap.length = extent slack 0 (ordinalIndices (introduced ordinals calls)) := by
    rw [holds.ordinalToIDMap, length_placeAll, byOrdinal, List.map_map]
    rfl
  simp only [getIDByOrdinal, entry, length, ge_iff_le, ← Nat.not_lt, ite_not]

theorem Holds.getOrdinalByID_eq (holds : Holds ordinals calls registry) (id : UInt32) :
    registry.getOrdinalByID id =
      if id.toNat < extent slack ordinals.length (idIndices (registered 0 calls)) then
        successErrorable ((lastAt (byID (registered 0 calls)) id.toNat).getD (ordinals.getD id.toNat 0))
      else invalidPacketById id.toUInt64 := by
  have entry : registry.idToOrdinalMap.getD id.toNat 0 =
      (lastAt (byID (registered 0 calls)) id.toNat).getD (ordinals.getD id.toNat 0) := by
    rw [holds.idToOrdinalMap]
    exact getD_placeAll slack_pos ordinals _ _
  have length : registry.idToOrdinalMap.length =
      extent slack ordinals.length (idIndices (registered 0 calls)) := by
    rw [holds.idToOrdinalMap, length_placeAll, byID, List.map_map]
    rfl
  simp only [getOrdinalByID, entry, length, ge_iff_le, ← Nat.not_lt, ite_not]

/-- The pair of a position of the vector. -/
theorem mem_numbered {pair : UInt32 × UInt32} :
    pair ∈ numbered ordinals 0 ↔ ∃ position, ordinals[position]? = some pair.1 ∧ pair.2 = .ofNat position := by
  simp only [numbered, List.mem_map, List.mem_zipIdx_iff_getElem?]
  constructor
  · rintro ⟨entry, found, rfl⟩
    exact ⟨entry.2, found, rfl⟩
  · rintro ⟨position, found, same⟩
    exact ⟨(pair.1, position), found, Prod.ext rfl same.symm⟩

theorem length_le (inRange : InRange (numbered ordinals 0)) : ordinals.length ≤ 2 ^ 32 - 8 := by
  by_cases short : ordinals.length ≤ 2 ^ 32 - 8
  · exact short
  · have inside : 2 ^ 32 - 8 < ordinals.length := Nat.lt_of_not_le short
    have member : (ordinals[2 ^ 32 - 8], UInt32.ofNat (2 ^ 32 - 8)) ∈ numbered ordinals 0 :=
      mem_numbered.mpr ⟨2 ^ 32 - 8, List.getElem?_eq_getElem inside, rfl⟩
    exact absurd (inRange _ member).2 (Nat.lt_irrefl _)

/-! ### Pairs that do not repeat -/

theorem nodup_indices {keys : List UInt32} (distinct : keys.Nodup) : (keys.map UInt32.toNat).Nodup :=
  distinct.map fun _ _ same => UInt32.toNat_inj.mp same

theorem Holds.resolves_ordinal (holds : Holds ordinals calls registry)
    (distinct : ((introduced ordinals calls).map Prod.fst).Nodup) {pair : UInt32 × UInt32}
    (member : pair ∈ introduced ordinals calls) :
    registry.getIDByOrdinal pair.1 = successErrorable pair.2 := by
  have inside : pair.1.toNat < extent slack 0 (ordinalIndices (introduced ordinals calls)) :=
    lt_extent slack_pos (List.mem_map.mpr ⟨pair, member, rfl⟩)
  have once : ((byOrdinal (introduced ordinals calls)).map Prod.fst).Nodup := by
    have indices := nodup_indices distinct
    rw [List.map_map] at indices
    rw [byOrdinal, List.map_map]
    exact indices
  have found : lastAt (byOrdinal (introduced ordinals calls)) pair.1.toNat = some pair.2 :=
    lastAt_eq_some once (List.mem_map.mpr ⟨pair, member, rfl⟩)
  rw [holds.getIDByOrdinal_eq, if_pos inside, found]
  rfl

theorem Holds.resolves_id (holds : Holds ordinals calls registry)
    (short : ordinals.length ≤ 2 ^ 32 - 8)
    (distinct : ((introduced ordinals calls).map Prod.snd).Nodup) {pair : UInt32 × UInt32}
    (member : pair ∈ introduced ordinals calls) :
    registry.getOrdinalByID pair.2 = successErrorable pair.1 := by
  rw [introduced, List.map_append] at distinct
  obtain ⟨-, once, apart⟩ := List.nodup_append.mp distinct
  rw [holds.getOrdinalByID_eq]
  rcases List.mem_append.mp member with fromVector | fromCall
  · obtain ⟨position, found, number⟩ := mem_numbered.mp fromVector
    have inside : position < ordinals.length := (List.getElem?_eq_some_iff.mp found).1
    have index : pair.2.toNat = position := by
      rw [number]
      exact UInt32.toNat_ofNat_of_lt' (by
        show position < 2 ^ 32
        omega)
    have within : position < extent slack ordinals.length (idIndices (registered 0 calls)) :=
      Nat.lt_of_lt_of_le inside (le_extent _)
    have untouched : lastAt (byID (registered 0 calls)) position = none := by
      apply lastAt_eq_none
      rw [byID, List.map_map]
      intro repeated
      obtain ⟨other, known, same⟩ := List.mem_map.mp repeated
      have sameID : pair.2 = other.2 := UInt32.toNat_inj.mp (index.trans same.symm)
      exact apart pair.2 (List.mem_map.mpr ⟨pair, fromVector, rfl⟩) other.2
        (List.mem_map.mpr ⟨other, known, rfl⟩) sameID
    rw [index, if_pos within, untouched, Option.getD_none, List.getD_eq_getElem?_getD, found]
    rfl
  · have within : pair.2.toNat < extent slack ordinals.length (idIndices (registered 0 calls)) :=
      lt_extent slack_pos (List.mem_map.mpr ⟨pair, fromCall, rfl⟩)
    have distinctIndices : ((byID (registered 0 calls)).map Prod.fst).Nodup := by
      have indices := nodup_indices once
      rw [List.map_map] at indices
      rw [byID, List.map_map]
      exact indices
    have found : lastAt (byID (registered 0 calls)) pair.2.toNat = some pair.1 :=
      lastAt_eq_some distinctIndices (List.mem_map.mpr ⟨pair, fromCall, rfl⟩)
    rw [if_pos within, found]
    rfl

/-- Calls of `Register(ordinal, id)`. -/
def pairCalls (pairs : List (UInt32 × UInt32)) : List Registration :=
  pairs.map fun pair => .pair pair.1 pair.2

theorem registered_pairCalls (count : Nat) (pairs : List (UInt32 × UInt32)) :
    registered count (pairCalls pairs) = pairs := by
  induction pairs with
  | nil => rfl
  | cons first later ih => exact congrArg (first :: ·) ih

theorem nextCount_pairCalls (pairs : List (UInt32 × UInt32)) : nextCount (pairCalls pairs) = 0 := by
  simp [nextCount, pairCalls]

/-- The template is the constructor for the ordinals that its values are cast to. -/
theorem addValues_eq {T : Type} (toOrdinal : T → UInt32) (ordinals : List T) (registry : VersionRegistry)
    (index : UInt32) :
    ordinals.foldlM (addValue toOrdinal) (registry, index) = (do
      let (ordinalToIDMap, index) ← (ordinals.map toOrdinal).foldlM addOrdinal (registry.ordinalToIDMap, index)
      pure ({ registry with
        ordinalToIDMap := ordinalToIDMap, idToOrdinalMap := registry.idToOrdinalMap ++ ordinals.map toOrdinal },
        index)) := by
  induction ordinals generalizing registry index with
  | nil => simp
  | cons ordinal later ih =>
    simp only [List.foldlM_cons, List.map_cons, addValue, addOrdinal]
    cases resizeVectorAndSet registry.ordinalToIDMap (toOrdinal ordinal) index with
    | error failure => rfl
    | ok ordinalToIDMap =>
      simp only [ok_bind, pure_is_ok, ih, List.append_assoc, List.cons_append, List.nil_append]

theorem newOf_eq {T : Type} (toOrdinal : T → UInt32) (ordinals : List T) :
    newOf toOrdinal ordinals = new (ordinals.map toOrdinal) := by
  rw [newOf, addValues_eq, new]
  cases (ordinals.map toOrdinal).foldlM addOrdinal ([], 0) with
  | error failure => rfl
  | ok state => rfl

/-- Every pair is found by its ordinal and by its id, whichever constructor was called, and so
is every value of an enumeration: `GetValue` is the inverse of `GetID`. -/
theorem registered_pairs_resolve (ordinals : List UInt32) (pairs : List (UInt32 × UInt32))
    (inRange : InRange (numbered ordinals 0 ++ pairs))
    (distinctOrdinals : ((numbered ordinals 0 ++ pairs).map Prod.fst).Nodup)
    (distinctIDs : ((numbered ordinals 0 ++ pairs).map Prod.snd).Nodup) :
    ∃ registry, build ordinals (pairCalls pairs) = .ok registry ∧
      (∀ (T : Type) (toOrdinal : T → UInt32) (values : List T), values.map toOrdinal = ordinals →
        buildOf toOrdinal values (pairCalls pairs) = .ok registry) ∧
      (∀ pair ∈ numbered ordinals 0 ++ pairs, registry.getIDByOrdinal pair.1 = successErrorable pair.2 ∧
        registry.getOrdinalByID pair.2 = successErrorable pair.1) ∧
      ∀ (T : Type) [Inhabited T] (cast : EnumCast T) (registries : Nat → VersionRegistry)
        (versioned : VersionedRegistry) (version : ProtocolVersion.Pointer) (address : Nat),
        versioned.registryOf version = .ok address → registries address = registry →
        ∀ (value : T) (id : UInt32), (cast.toOrdinal value, id) ∈ numbered ordinals 0 ++ pairs →
          EnumRegistry.getID cast registries versioned version value = .ok (successErrorable id) ∧
          EnumRegistry.getValue cast registries versioned version id = .ok (successErrorable value) := by
  have same : introduced ordinals (pairCalls pairs) = numbered ordinals 0 ++ pairs := by
    rw [introduced, registered_pairCalls]
  rw [← same] at inRange distinctOrdinals distinctIDs ⊢
  have few : nextCount (pairCalls pairs) ≤ 2 ^ 31 := by
    rw [nextCount_pairCalls]
    exact Nat.zero_le _
  obtain ⟨registry, ran, holds⟩ := build_holds inRange few
  have short := length_le (List.forall_mem_append.mp inRange).1
  refine ⟨registry, ran, ?_, ?_, ?_⟩
  · rintro T toOrdinal values rfl
    rwa [buildOf, newOf_eq]
  · intro pair member
    exact ⟨holds.resolves_ordinal distinctOrdinals member, holds.resolves_id short distinctIDs member⟩
  · intro T _ cast registries versioned version address reached here value id member
    have byValue := holds.resolves_ordinal distinctOrdinals member
    have byId := holds.resolves_id short distinctIDs member
    simp only at byValue byId
    constructor
    · simp only [EnumRegistry.getID, VersionedRegistry.getIDByOrdinal, reached, ok_bind, pure_is_ok, here,
        byValue]
    · simp only [EnumRegistry.getValue, VersionedRegistry.getOrdinalByID, reached, ok_bind, pure_is_ok, here,
        byId, success_isSuccess, Bool.not_true, Bool.false_eq_true, if_false, success_value, cast.inverse]

/-- Two ordinals from a vector, and two pairs out of order. -/
theorem sparse_pairs_resolve : ∃ registry, build [20, 3] (pairCalls [(100, 50), (0, 9)]) = .ok registry ∧
    ∀ pair ∈ [((20 : UInt32), (0 : UInt32)), (3, 1), (100, 50), (0, 9)],
      registry.getIDByOrdinal pair.1 = successErrorable pair.2 ∧
        registry.getOrdinalByID pair.2 = successErrorable pair.1 := by
  obtain ⟨registry, ran, -, resolve, -⟩ := registered_pairs_resolve [20, 3] [(100, 50), (0, 9)]
    (by decide) (by decide) (by decide)
  exact ⟨registry, ran, resolve⟩

/-! ### Nothing else -/

/-- Whether anything but these pairs is found. A packet with an unknown id reaches
no constructor. -/
structure OnlyRegisteredResolve (registry : VersionRegistry) (pairs : List (UInt32 × UInt32)) : Prop where
  ids : ∀ id, (registry.getOrdinalByID id).isSuccess = true ↔ ∃ ordinal, (ordinal, id) ∈ pairs
  ordinals : ∀ ordinal, (registry.getIDByOrdinal ordinal).isSuccess = true ↔ ∃ id, (ordinal, id) ∈ pairs
  constructors : ∀ (τ : Type) (constructors : ConstructorRegistry τ) (registries : Nat → VersionRegistry)
    (version : ProtocolVersion.Pointer) (address : Nat) (id : UInt32) (buffer : ByteBufferImpl),
    constructors.registryOf version = .ok address → registries address = registry →
    (∀ ordinal, (ordinal, id) ∉ pairs) →
    ConstructorRegistry.getObjectByID registries constructors version id buffer =
      .ok (ConstructorRegistry.noConstructorOrdinalExistErrorable id, buffer, [])

/-- An id without an ordinal is refused before any constructor. -/
theorem getObjectByID_refused {τ : Type} {constructors : ConstructorRegistry τ}
    {registries : Nat → VersionRegistry} {version : ProtocolVersion.Pointer} {address : Nat}
    (reached : constructors.registryOf version = .ok address)
    (unknown : ((registries address).getOrdinalByID id).isSuccess = false) (buffer : ByteBufferImpl) :
    ConstructorRegistry.getObjectByID registries constructors version id buffer =
      .ok (ConstructorRegistry.noConstructorOrdinalExistErrorable id, buffer, []) := by
  simp only [ConstructorRegistry.getObjectByID, VersionedRegistry.getOrdinalByID, reached, ok_bind, pure_is_ok,
    unknown, Bool.not_false, if_true]

theorem ordinal_introduced {pairs : List (UInt32 × UInt32)} :
    (∃ id, (ordinal, id) ∈ pairs) ↔ ordinal.toNat ∈ ordinalIndices pairs := by
  simp only [ordinalIndices, List.mem_map]
  constructor
  · rintro ⟨id, member⟩
    exact ⟨(ordinal, id), member, rfl⟩
  · rintro ⟨pair, member, same⟩
    obtain rfl := UInt32.toNat_inj.mp same
    exact ⟨pair.2, member⟩

theorem id_registered {pairs : List (UInt32 × UInt32)} :
    (∃ ordinal, (ordinal, id) ∈ pairs) ↔ id.toNat ∈ idIndices pairs := by
  simp only [idIndices, List.mem_map]
  constructor
  · rintro ⟨ordinal, member⟩
    exact ⟨(ordinal, id), member, rfl⟩
  · rintro ⟨pair, member, same⟩
    obtain rfl := UInt32.toNat_inj.mp same
    exact ⟨pair.1, member⟩

theorem id_numbered (short : ordinals.length ≤ 2 ^ 32 - 8) :
    (∃ ordinal, (ordinal, id) ∈ numbered ordinals 0) ↔ id.toNat < ordinals.length := by
  simp only [mem_numbered]
  constructor
  · rintro ⟨ordinal, position, found, number⟩
    have inside : position < ordinals.length := (List.getElem?_eq_some_iff.mp found).1
    have index : id.toNat = position := by
      rw [number]
      exact UInt32.toNat_ofNat_of_lt' (by
        show position < 2 ^ 32
        omega)
    omega
  · intro inside
    exact ⟨ordinals[id.toNat], id.toNat, List.getElem?_eq_getElem inside, UInt32.ofNat_toNat.symm⟩

theorem id_introduced (short : ordinals.length ≤ 2 ^ 32 - 8) :
    (∃ ordinal, (ordinal, id) ∈ introduced ordinals calls) ↔
      id.toNat < ordinals.length ∨ id.toNat ∈ idIndices (registered 0 calls) := by
  simp only [introduced, List.mem_append, exists_or, id_numbered short, id_registered]

theorem Holds.ordinal_found (holds : Holds ordinals calls registry) :
    (registry.getIDByOrdinal ordinal).isSuccess = true ↔
      ordinal.toNat < extent slack 0 (ordinalIndices (introduced ordinals calls)) := by
  rw [holds.getIDByOrdinal_eq]
  split
  · rename_i inside
    simp [inside]
  · rename_i outside
    simp [outside, invalidPacketByOrdinal]

theorem Holds.id_found (holds : Holds ordinals calls registry) :
    (registry.getOrdinalByID id).isSuccess = true ↔
      id.toNat < extent slack ordinals.length (idIndices (registered 0 calls)) := by
  rw [holds.getOrdinalByID_eq]
  split
  · rename_i inside
    simp [inside]
  · rename_i outside
    simp [outside, invalidPacketById]

/-- Each table ends at an index of 32 bits. -/
theorem extent_small {size : Nat} {indices : List Nat} (fits : size ≤ 2 ^ 32 - 8)
    (inRange : ∀ index ∈ indices, index < 2 ^ 32 - 8) : extent slack size indices ≤ 2 ^ 32 := by
  apply extent_le (by omega)
  intro index member
  have bounded := inRange index member
  show index + 8 ≤ 2 ^ 32
  omega

/-- Which entries are written, asked of every index of 32 bits. -/
theorem filled_iff {size : Nat} {indices : List Nat} (small : extent slack size indices ≤ 2 ^ 32) :
    Filled slack size indices ↔
      ∀ key : UInt32, key.toNat < extent slack size indices ↔ key.toNat < size ∨ key.toNat ∈ indices := by
  constructor
  · intro filled key
    refine ⟨filled key.toNat, ?_⟩
    rintro (old | written)
    · exact Nat.lt_of_lt_of_le old (le_extent indices)
    · exact lt_extent slack_pos written
  · intro answers position inside
    have exact : (UInt32.ofNat position).toNat = position :=
      UInt32.toNat_ofNat_of_lt' (Nat.lt_of_lt_of_le inside small)
    have answer := (answers (.ofNat position)).mp (exact.symm ▸ inside)
    rwa [exact] at answer

theorem Holds.only_registered_iff (holds : Holds ordinals calls registry)
    (inRange : InRange (introduced ordinals calls)) :
    OnlyRegisteredResolve registry (introduced ordinals calls) ↔
      Filled slack 0 (ordinalIndices (introduced ordinals calls)) ∧
        Filled slack ordinals.length (idIndices (registered 0 calls)) := by
  obtain ⟨fromVector, fromCalls⟩ := List.forall_mem_append.mp inRange
  have short := length_le fromVector
  have ordinalsSmall : extent slack 0 (ordinalIndices (introduced ordinals calls)) ≤ 2 ^ 32 := by
    apply extent_small (Nat.zero_le _)
    intro index member
    obtain ⟨pair, known, rfl⟩ := List.mem_map.mp member
    exact (inRange pair known).1
  have idsSmall : extent slack ordinals.length (idIndices (registered 0 calls)) ≤ 2 ^ 32 := by
    apply extent_small short
    intro index member
    obtain ⟨pair, known, rfl⟩ := List.mem_map.mp member
    exact (fromCalls pair known).2
  rw [filled_iff ordinalsSmall, filled_iff idsSmall]
  constructor
  · intro only
    constructor
    · intro key
      rw [← holds.ordinal_found, only.ordinals, ordinal_introduced]
      simp only [Nat.not_lt_zero, false_or]
    · intro key
      rw [← holds.id_found, only.ids, id_introduced short]
  · rintro ⟨ordinalsFilled, idsFilled⟩
    have ids : ∀ id, (registry.getOrdinalByID id).isSuccess = true ↔
        ∃ ordinal, (ordinal, id) ∈ introduced ordinals calls := by
      intro id
      rw [holds.id_found, idsFilled, id_introduced short]
    refine ⟨ids, ?_, ?_⟩
    · intro ordinal
      rw [holds.ordinal_found, ordinalsFilled, ordinal_introduced]
      simp only [Nat.not_lt_zero, false_or]
    · intro τ constructors registries version address id buffer reached here unknown
      apply getObjectByID_refused reached
      rw [here, ← Bool.not_eq_true, ids]
      rintro ⟨ordinal, member⟩
      exact unknown ordinal member

/-- Nothing but the registered pairs is found exactly if no id overflows and both
tables are filled to their ends. -/
theorem only_registered_resolve_iff (ordinals : List UInt32) (calls : List Registration)
    (inRange : InRange (introduced ordinals calls)) :
    (∃ registry, build ordinals calls = .ok registry ∧
      OnlyRegisteredResolve registry (introduced ordinals calls)) ↔
      nextCount calls ≤ 2 ^ 31 ∧ Filled slack 0 (ordinalIndices (introduced ordinals calls)) ∧
        Filled slack ordinals.length (idIndices (registered 0 calls)) := by
  by_cases few : nextCount calls ≤ 2 ^ 31
  · obtain ⟨registry, ran, holds⟩ := build_holds inRange few
    rw [ran]
    constructor
    · rintro ⟨_, ⟨⟩, only⟩
      exact ⟨few, (holds.only_registered_iff inRange).mp only⟩
    · rintro ⟨-, filled⟩
      exact ⟨registry, rfl, (holds.only_registered_iff inRange).mpr filled⟩
  · rw [build_overflow inRange (Nat.lt_of_not_le few)]
    constructor
    · rintro ⟨_, ⟨⟩, _⟩
    · rintro ⟨fits, -⟩
      exact absurd fits few

/-- Eight ordinals from a vector, in an order that leaves no entry unset. -/
theorem full_tables_resolve_only_registered :
    ∃ registry, build [0, 3, 1, 2, 7, 6, 5, 4] [] = .ok registry ∧
      OnlyRegisteredResolve registry (introduced [0, 3, 1, 2, 7, 6, 5, 4] []) :=
  (only_registered_resolve_iff [0, 3, 1, 2, 7, 6, 5, 4] [] (by decide)).mpr
    ⟨by decide, by decide, by decide⟩

/-- One pair: the id in front of it, which nobody registered, is found as well. -/
theorem unregistered_id_resolves : ∃ registry, build [] [.pair 0 1] = .ok registry ∧
    ¬ OnlyRegisteredResolve registry (introduced [] [.pair 0 1]) := by
  refine ⟨{ ordinalToIDMap := [1, 0, 0, 0, 0, 0, 0, 0], idToOrdinalMap := [0, 0, 0, 0, 0, 0, 0, 0, 0] },
    by rfl, ?_⟩
  intro only
  obtain ⟨ordinal, member⟩ := (only.ids 0).mp (by decide)
  simp [introduced, numbered, registered] at member

end ShipNet.VersionRegistry
