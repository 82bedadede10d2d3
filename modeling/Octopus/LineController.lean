import Octopus.CacheLine
import Octopus.Lib.Sequence
import Octopus.Message

/-!
# The controller actions on one line

`BaseController` and `CacheController` carry out a protocol's controller actions in the order
the protocol lists them. This module models the part of a controller that belongs to one line
(the line itself, the pending requests, the requests parked for a write-back and the stores
whose bytes wait for their line) and each action on it. The data array has latency 0, no
external processor is attached, and `exit` ends the run with a reason.
-/

namespace Octopus

/-- The ways the simulator ends a run by itself. -/
inductive Exit
  /-- A protocol met a cell whose action is Fault. -/
  | fault
  /-- The last-level cache was asked to process a request on a Stall cell. -/
  | stall
  /-- `readEvent` met a request type or an owner it does not know. -/
  | invalidTransaction
  /-- Data was written to a line that is found nowhere. -/
  | unfoundLine
  /-- A response found no pending request. -/
  | noPending
  /-- A pending request was answered without data. -/
  | pendingWithoutData
  /-- The sharers of a line that has no entry were looked up. -/
  | missingSharers
  /-- Bytes were modified in a line without storage, or past its end. -/
  | unallocatedLine
  deriving DecidableEq, Repr

/-- The actions a protocol hands to its controller. -/
inductive ControllerAction (σ : Type)
  | removePending (msg : Message)
  | hitAction (msg : Message)
  | addPending (msg : Message)
  | sendBusMsg (msg : Message)
  | writeBack (msg : Message)
  | updateCacheLine (msg : Message) (line : GenericCacheLine σ)
  | modifyData (msg : Message)
  | saveReqForWriteBack (msg : Message)
  | noAction
  | stall (msg : Message)
  | sendInvMsg (msg : Message)
  | removeSavedReq

/-- Where a controller puts a message it emits. -/
inductive Port
  | lower
  | upper
  | processingQueue
  deriving DecidableEq, Repr

/-- A message that leaves an action, with its port and channel. -/
structure Emission where
  port : Port
  type : MessageType
  msg : Message
  deriving DecidableEq, Repr

/-- The parameters of a controller that its actions read. -/
structure ControllerConfig where
  id : Nat
  sharedMemoryId : Nat
  blockSize : Nat
  /-- Whether a deferred supply of a parked GetS also goes to the level above. -/
  deferredSupplyCopiesToLLC : Bool

/-- What a controller keeps for one line. -/
structure LineController (σ : Type) where
  slot : Slot σ := none
  pending : List Message := []
  saved : List Message := []
  modifying : List (Nat × Message) := []
  deriving DecidableEq, Repr

namespace LineController

variable {σ : Type}

/-- The outcome of an action: the controller and what was emitted, or an exit. -/
abbrev Result (σ : Type) := Except Exit (LineController σ × List Emission)

/-- The message with the resident bytes, when it carries none and there are some. -/
def withLineData (c : LineController σ) (msg : Message) : Message :=
  match msg.data, c.slot.readCacheLine with
  | none, some bytes => msg.copyData bytes
  | _, _ => msg

/-- `updateCacheLine`: write the bits and, for a full block into a valid line, the bytes. -/
def updateCacheLine (cfg : ControllerConfig) (c : LineController σ) (msg : Message)
    (line : GenericCacheLine σ) : Result σ :=
  match msg.data with
  | none =>
    .ok ({ c with slot := (c.slot.updateLineBits line).getD (c.slot.writeLine2MSHR line) }, [])
  | some bytes =>
    if !line.valid || msg.dataSize < cfg.blockSize then
      .ok ({ c with slot := (c.slot.updateLineBits line).getD (c.slot.writeLine2MSHR line) }, [])
    else
      match ((c.slot.updateLineBits line).getD c.slot).updateLineData cfg.blockSize bytes with
      | some slot => .ok ({ c with slot := slot }, [])
      | none => .error .unfoundLine

/-- `hitAction`: respond on the lower interface, with the line's bytes if the message has none. -/
def hitAction (c : LineController σ) (msg : Message) : Result σ :=
  .ok (c, [⟨.lower, .dataResponse, { c.withLineData msg with kind := .resp }⟩])

/-- The response a parked request goes out as. -/
def respondTo (msg : Message) (bytes : List UInt8) (request : Message) : Message :=
  { request.copyData bytes with
    complementaryValue := msg.complementaryValue
    toIds := msg.toIds
    kind := .resp }

/-- `removePendingAndRespond`: answer every pending request of the line. -/
def removePendingAndRespond (c : LineController σ) (msg : Message) : Result σ :=
  if c.pending = [] then .error .noPending
  else
    match (c.withLineData msg).data with
    | none => .error .pendingWithoutData
    | some bytes =>
      .ok ({ c with pending := [] },
        c.pending.map fun request => ⟨.lower, .dataResponse, respondTo msg bytes request⟩)

/-- `addtoPendingRequests`: record a request, and the bytes it will store. -/
def addToPendingRequests (c : LineController σ) (msg : Message) : Result σ :=
  let modifying :=
    if msg.data.isSome then (msg.msgId, msg) :: c.modifying.filter (fun e => e.1 ≠ msg.msgId)
    else c.modifying
  .ok ({ c with pending := c.pending ++ [msg], modifying := modifying }, [])

/-- The deferred-supply rule: answer the parked requests, the first as the main destination. -/
def addressSavedRequests (cfg : ControllerConfig) (c : LineController σ) (msg : Message) : Message :=
  match c.saved with
  | [] => { msg with kind := if msg.kind = .supplyDeferred then .wbInv else msg.kind }
  | first :: rest =>
    let copyToLLC := cfg.deferredSupplyCopiesToLLC && first.complementaryValue == requestTypeGetS &&
      !msg.toIds.contains cfg.sharedMemoryId
    { msg with
      owner := first.owner
      msgId := first.msgId
      toIds := (if copyToLLC then msg.toIds ++ [cfg.sharedMemoryId] else msg.toIds) ++
        rest.map Message.owner }

/-- `performWriteBack`: send the line to the parked requests or to the message's owner. -/
def performWriteBack (cfg : ControllerConfig) (c : LineController σ) (msg : Message) : Result σ :=
  let addressed := c.withLineData (addressSavedRequests cfg c msg)
  let destination := if addressed.owner = cfg.id then cfg.sharedMemoryId else addressed.owner
  .ok ({ c with saved := [] },
    [⟨.upper, .dataResponse, { addressed with toIds := addressed.toIds ++ [destination] }⟩])

/-- `modifyData`: write the bytes of the store the message completes into the line. -/
def modifyData (cfg : ControllerConfig) (c : LineController σ) (msg : Message) : Result σ :=
  let store : Option Message :=
    match c.modifying.lookup msg.msgId with
    | some m => some m
    | none => if msg.source = .lowerInterconnect ∧ msg.data.isSome then some msg else none
  match store with
  | none => .ok (c, [])
  | some m =>
    let modifying := c.modifying.filter (fun e => e.1 ≠ msg.msgId)
    match c.slot with
    | none => .ok ({ c with modifying := modifying }, [])
    | some r =>
      match r.data with
      | none => .error .unallocatedLine
      | some block =>
        let bytes := (m.data.getD []).take m.dataSize
        .ok ({ c with
          slot := some { r with data := some (overwrite block (m.addr % cfg.blockSize) bytes) }
          modifying := modifying }, [])

/-- Carry out one controller action. -/
def execAction (cfg : ControllerConfig) (c : LineController σ) : ControllerAction σ → Result σ
  | .removePending msg => c.removePendingAndRespond msg
  | .hitAction msg => c.hitAction msg
  | .addPending msg => c.addToPendingRequests msg
  | .sendBusMsg msg => .ok (c, [⟨.upper, .request, msg⟩])
  | .writeBack msg => c.performWriteBack cfg msg
  | .updateCacheLine msg line => c.updateCacheLine cfg msg line
  | .modifyData msg => c.modifyData cfg msg
  | .saveReqForWriteBack msg => .ok ({ c with saved := c.saved ++ [msg] }, [])
  | .noAction => .ok (c, [])
  | .stall msg => .ok (c, [⟨.processingQueue, .request, msg⟩])
  | .sendInvMsg msg => .ok (c, [⟨.lower, .serviceRequest, msg⟩])
  | .removeSavedReq => .ok ({ c with saved := [] }, [])

/-- Carry out a list of controller actions in order, collecting what they emit. -/
def execActions (cfg : ControllerConfig) (c : LineController σ) : List (ControllerAction σ) → Result σ
  | [] => .ok (c, [])
  | a :: rest =>
    match c.execAction cfg a with
    | .error e => .error e
    | .ok (c', out) =>
      match c'.execActions cfg rest with
      | .error e => .error e
      | .ok (c'', out') => .ok (c'', out ++ out')

end LineController

end Octopus
