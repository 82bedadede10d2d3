/-!
# Coherence messages

The message that every controller, bus and queue of the simulator passes around, with the
two classifications the processing queue is ordered by. Identifiers and addresses are
natural numbers; a payload is a list of bytes. The transmission cycle, which no modelled
function reads, is left out.
-/

namespace Octopus

/-- The interface a message entered its controller from. -/
inductive Source
  | lowerInterconnect
  | upperInterconnect
  | self
  deriving DecidableEq, Repr

/-- The producer's tag of a message; no protocol decoder reads it. -/
inductive Kind
  | unknown
  | demand
  | getS
  | getM
  | putM
  | inv
  | memRead
  | evict
  | wbData
  | wbInv
  | supply
  | supplyDeferred
  | resp
  | fill
  | memWrite
  | putS
  | fwd
  | ack
  deriving DecidableEq, Repr

/-- The interconnect channel a message is pushed on. -/
inductive MessageType
  | request
  | dataResponse
  | serviceRequest
  deriving DecidableEq, Repr

/-- A coherence message. `fromId` and `toIds` are the identifiers of the
sending and the receiving controllers. -/
structure Message where
  msgId : Nat := 0
  addr : Nat := 0
  complementaryValue : Nat := 0
  complementaryValue2 : Nat := 0
  owner : Nat := 0
  fromId : Nat := 0
  toIds : List Nat := []
  source : Source := .lowerInterconnect
  data : Option (List UInt8) := none
  dataSize : Nat := 0
  kind : Kind := .unknown
  deriving DecidableEq, Repr

namespace Message

/-- Copy a payload into a message; the recorded size is the 64 bytes that are always copied. -/
def copyData (msg : Message) (data : List UInt8) : Message :=
  { msg with data := some data, dataSize := 64 }

/-- A data-less Load, Store, GetS or GetM that entered on the lower interface. -/
def isDemandRequest (msg : Message) : Bool :=
  msg.source == .lowerInterconnect && msg.data.isNone &&
    (msg.complementaryValue == 0 || msg.complementaryValue == 1)

/-- A data-less back-invalidation. -/
def isInvalidation (msg : Message) : Bool :=
  msg.complementaryValue == 10 && msg.data.isNone

/-- The messages that may not overtake an older one of their line. -/
def isOrdered (msg : Message) : Bool :=
  msg.isDemandRequest || msg.isInvalidation

@[simp] theorem copyData_data (msg : Message) (d : List UInt8) : (msg.copyData d).data = some d := rfl

@[simp] theorem copyData_owner (msg : Message) (d : List UInt8) : (msg.copyData d).owner = msg.owner := rfl

@[simp] theorem copyData_toIds (msg : Message) (d : List UInt8) : (msg.copyData d).toIds = msg.toIds := rfl

@[simp] theorem copyData_msgId (msg : Message) (d : List UInt8) : (msg.copyData d).msgId = msg.msgId := rfl

@[simp] theorem copyData_dataSize (msg : Message) (d : List UInt8) : (msg.copyData d).dataSize = 64 := rfl

@[simp] theorem copyData_complementaryValue (msg : Message) (d : List UInt8) :
    (msg.copyData d).complementaryValue = msg.complementaryValue := rfl

/-- A message with a payload is never ordered behind others. -/
theorem isOrdered_eq_false_of_data {msg : Message} (h : msg.data.isSome) : msg.isOrdered = false := by
  cases hd : msg.data with
  | none => simp [hd] at h
  | some d => simp [isOrdered, isDemandRequest, isInvalidation, hd]

end Message

/-- The request types that bus messages carry in their complementary value. -/
def requestTypeGetS : Nat := 0

/-- The request type of a GetM. -/
def requestTypeGetM : Nat := 1

/-- The request type of a PutM. -/
def requestTypePutM : Nat := 2

/-- The request type of a back-invalidation. -/
def requestTypeInv : Nat := 10

end Octopus
