import ShipNet.Fallible

/-! `Errorable<T>`, the result type of every operation that may refuse its
input, and the faults that no C++ program may run into. -/
namespace ShipNet

/-- What C++ gives no meaning to, and running forever. -/
inductive Fault
  /-- `front()` or `pop_front()` where there is no element. -/
  | emptyDeque
  /-- An access outside the array or block it names. -/
  | outOfBounds
  /-- An access to a block that was deleted. -/
  | freedSegment
  /-- A value read before any was assigned. -/
  | uninitialised
  /-- An `int` beyond its bounds. -/
  | signedOverflow
  /-- A loop that never ends. -/
  | endless
  deriving DecidableEq, Repr

/-- A run of the code: its result, or the fault it runs into. -/
abbrev Exec := Except Fault

/-- The classes of results. `OrdinalRegistry` hands every class its own
`TYPE_ORDINAL`, so comparing ordinals is comparing classes. -/
inductive ErrorableType
  | success
  | errno
  | gracefulDisconnect
  | invalidUUID
  | invalidUUIDSize
  | invalidVarInt
  | incompleteVarInt
  | invalidVarLong
  | incompleteVarLong
  | incompleteBoolean
  | incompleteByte
  | incompleteShort
  | incompleteMedium
  | incompleteInt
  | incompleteLong
  | incompleteByteArray
  | invalidStringSize
  | invalidByteArraySize
  | invalidReadSkipRequest
  | incompleteByteFrame
  | invalidByteFrame
  | incompleteFrame
  | invalidFrame
  | invalidPacketSize
  | canNotReadPacket
  | invalidPacketByOrdinal
  | invalidPacketById
  | invalidEnumById
  | noConstructorExist
  | noConstructorOrdinalExist
  deriving DecidableEq, Repr

structure Errorable (T : Type) where
  typeOrdinal : ErrorableType
  /-- What `GetValue` answers, also on an error. -/
  value : T
  errorCode : UInt64
  deriving DecidableEq, Repr

variable {T : Type}

def Errorable.isSuccess (result : Errorable T) : Bool :=
  result.typeOrdinal = .success

def successErrorable (value : T) : Errorable T := ⟨.success, value, 0⟩

/-- The classes of `CreateInvalidArgumentErrorable`: a default value and the
argument as error code. -/
def invalidArgumentErrorable [Inhabited T] (typeOrdinal : ErrorableType) (argument : UInt64) :
    Errorable T :=
  ⟨typeOrdinal, default, argument⟩

/-- `ErrnoErrorable`, with the value of `errno` at that time. -/
def errnoErrorable (value : T) (errno : Nat) : Errorable T := ⟨.errno, value, .ofNat errno⟩

@[simp] theorem success_isSuccess (value : T) : (successErrorable value).isSuccess = true := rfl

@[simp] theorem success_value (value : T) : (successErrorable value).value = value := rfl

@[simp] theorem success_typeOrdinal (value : T) :
    (successErrorable value).typeOrdinal = .success := rfl

@[simp] theorem invalidArgument_typeOrdinal [Inhabited T] (typeOrdinal : ErrorableType)
    (argument : UInt64) :
    (invalidArgumentErrorable typeOrdinal argument : Errorable T).typeOrdinal = typeOrdinal := rfl

@[simp] theorem invalidArgument_value [Inhabited T] (typeOrdinal : ErrorableType)
    (argument : UInt64) :
    (invalidArgumentErrorable typeOrdinal argument : Errorable T).value = default := rfl

@[simp] theorem invalidArgument_isSuccess [Inhabited T] (typeOrdinal : ErrorableType)
    (argument : UInt64) (refused : typeOrdinal ≠ .success) :
    (invalidArgumentErrorable typeOrdinal argument : Errorable T).isSuccess = false := by
  simp [Errorable.isSuccess, refused]

end ShipNet
