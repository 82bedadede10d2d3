import Octopus.Directory.Actions
import Octopus.FRFCFSBuffer
import Octopus.Tables.DirectoryCore

/-!
# The private-cache protocols under a directory

`MSIDirectory`, `MESIDirectory` and `MOESIDirectory`. Each class handles what its table adds and
leaves the rest to the class it extends, so the order of the controller actions follows the chain of
the classes. An acknowledgement counter is an integer; it stays far from the bounds of its type.
-/

namespace Octopus

namespace MSIDirectory

/-- `REQUEST_TYPE_PUTS`. -/
def requestTypePutS : Nat := 2

/-- `REQUEST_TYPE_PUTM`. -/
def requestTypePutM : Nat := 3

/-- `REQUEST_TYPE_INV`. -/
def requestTypeInv : Nat := 4

/-- `REQUEST_TYPE_PUT_ACK`. -/
def requestTypePutAck : Nat := 5

/-- `REQUEST_TYPE_INV_ACK`. -/
def requestTypeInvAck : Nat := 6

variable {σ : Type}

/-- Whether a counter exists that a count brings to zero: every acknowledgement has come before it. -/
def settledBy (ackCounter : Option Int) (count : Nat) : Bool :=
  ackCounter.any fun c => c + (count : Int) == 0

/-- `MSIDirectory::readEvent`: the event a message is for a cache with this counter. -/
def readEvent (cfg : ControllerConfig) (ackCounter : Option Int) (msg : Message) : Except Exit DirectoryEventId :=
  match msg.source with
  | .lowerInterconnect => .ok (if msg.complementaryValue = 0 then .load else .store)
  | .self => if msg.owner = cfg.id then .ok .replacement else .error .invalidTransaction
  | .upperInterconnect =>
    if msg.data.isSome then
      if msg.fromId ≠ cfg.sharedMemoryId then .ok .dataFromOwner
      else if msg.complementaryValue = 0 then .ok .dataZeroAck
      else .ok (if settledBy ackCounter msg.complementaryValue then .dataZeroAck else .dataNonZeroAck)
    else if msg.complementaryValue = requestTypeGetS then .ok .fwdGetS
    else if msg.complementaryValue = requestTypeGetM then .ok .fwdGetM
    else if msg.complementaryValue = requestTypePutAck then .ok .putAck
    else if msg.complementaryValue = requestTypeInv then .ok .inv
    else if msg.complementaryValue = requestTypeInvAck then
      .ok (if ackCounter.any fun c => c - 1 == 0 then .lastInvAck else .invAck)
    else .error .invalidTransaction

/-- A data-less message of this cache about a message: a request to the home or an acknowledgement. -/
def busMessage (cfg : ControllerConfig) (msg : Message) (type dest : Nat) (kind : Kind) : Message :=
  { msgId := msg.msgId, addr := msg.addr, complementaryValue := type, owner := cfg.id, toIds := [dest], kind := kind }

/-- A write-back of this cache: an eviction, or an acknowledgement that carries the line. -/
def writeBackMessage (cfg : ControllerConfig) (msg : Message) (type : Nat) (kind : Kind) : Message :=
  { msgId := msg.msgId, addr := msg.addr, complementaryValue := type, owner := cfg.id, kind := kind }

/-- The supply message of a `Data2Req` or `Data2Both` action. -/
def supplyMessage (cfg : ControllerConfig) (msg : Message) (both : Bool) : Message :=
  { msg with
    complementaryValue := 0
    toIds := if both then [cfg.sharedMemoryId] else []
    kind := .supply }

/-- The controller actions of a Hit: the response, the settled counter and the store. -/
def hitActions (ackCounter : Option Int) (msg : Message) : List (DirectoryAction σ) :=
  (if msg.source = .lowerInterconnect ∨ msg.data = none then
    (if msg.source = .upperInterconnect then [.removePendingNoResponse msg] else []) ++ [.base (.hitAction msg)]
  else [.base (.removePending msg)]) ++
    (if msg.source = .upperInterconnect ∧ settledBy ackCounter msg.complementaryValue then [.setACKNumber msg] else []) ++
    [.base (.modifyData msg)]

/-- One action of a cell, added to the controller actions built so far. -/
def addAction (cfg : ControllerConfig) (ackCounter : Option Int) (msg : Message) (built : List (DirectoryAction σ)) :
    DirectoryActionId → Except Exit (List (DirectoryAction σ))
  | .stall => .ok (built ++ [.base (.stall msg)])
  | .hit => .ok (built ++ hitActions ackCounter msg)
  | .getS => .ok (built ++ [.base (.addPending msg),
      .base (.sendBusMsg (busMessage cfg msg requestTypeGetS cfg.sharedMemoryId .getS))])
  | .getM => .ok (built ++ [.base (.addPending msg),
      .base (.sendBusMsg (busMessage cfg msg requestTypeGetM cfg.sharedMemoryId .getM))])
  | .putS => .ok (built ++ [.base (.sendBusMsg (busMessage cfg msg requestTypePutS cfg.sharedMemoryId .putS))])
  | .putMData => .ok (.base (.writeBack (writeBackMessage cfg msg requestTypePutM .putM)) :: built)
  | .data2Both => .ok (.base (.writeBack (supplyMessage cfg msg true)) :: built)
  | .data2Req => .ok (.base (.writeBack (supplyMessage cfg msg false)) :: built)
  | .invAck2Req => .ok (built ++ [.base (.sendBusMsg (busMessage cfg msg requestTypeInvAck msg.owner .ack))])
  | .invAckData => .ok (.base (.writeBack (writeBackMessage cfg msg requestTypeInvAck .ack)) :: built)
  | .ackDec => .ok (built ++ [.decrementACK msg])
  | .ackNumSet => .ok (built ++ [.setACKNumber msg])
  | .saveReq =>
    .ok (built ++ [.base (.saveReqForWriteBack { msgId := msg.msgId, addr := msg.addr, owner := msg.owner })])
  | .fault => .error .fault
  | .putE | .putOData | .setAck => .ok built

/-- `MSIDirectory::handleAction`: the line update first, then the cell's actions; write-backs go to the front. -/
def handleAction (cfg : ControllerConfig) (fsm : Fsm σ DirectoryEventId DirectoryActionId) (ackCounter : Option Int)
    (actions : List DirectoryActionId) (msg : Message) (line : GenericCacheLine σ) (next : σ) :
    Except Exit (List (DirectoryAction σ)) :=
  let update : List (DirectoryAction σ) :=
    if actions.head? = some .stall then []
    else [.base (.updateCacheLine msg { line with valid := fsm.isValidState next, state := next })]
  actions.foldlM (addAction cfg ackCounter msg) update

end MSIDirectory

namespace MESIDirectory

/-- `REQUEST_TYPE_PUTE`. -/
def requestTypePutE : Nat := 7

/-- `RESPONSE_TYPE_EXECLUSIVE_DATA`. -/
def responseTypeExeclusiveData : Nat := 0xFFFFFFFF

variable {σ : Type}

/-- `MESIDirectory::readEvent`: exclusive data is its own event. -/
def readEvent (cfg : ControllerConfig) (ackCounter : Option Int) (msg : Message) : Except Exit DirectoryEventId :=
  if msg.source = .upperInterconnect ∧ msg.data.isSome ∧ msg.complementaryValue = responseTypeExeclusiveData then
    .ok .dataExeclusive
  else MSIDirectory.readEvent cfg ackCounter msg

/-- `MESIDirectory::handleAction`: the MSI actions, and last the `PutE`. -/
def handleAction (cfg : ControllerConfig) (fsm : Fsm σ DirectoryEventId DirectoryActionId) (ackCounter : Option Int)
    (actions : List DirectoryActionId) (msg : Message) (line : GenericCacheLine σ) (next : σ) :
    Except Exit (List (DirectoryAction σ)) :=
  (MSIDirectory.handleAction cfg fsm ackCounter (actions.erase .putE) msg line next).map fun built =>
    if DirectoryActionId.putE ∈ actions then
      built ++ [.base (.sendBusMsg (MSIDirectory.busMessage cfg msg requestTypePutE cfg.sharedMemoryId .unknown))]
    else built

end MESIDirectory

namespace MOESIDirectory

/-- `REQUEST_TYPE_PUTO`. -/
def requestTypePutO : Nat := 8

/-- `RESPONSE_TYPE_ACKCOUNT`. -/
def responseTypeAckCount : Nat := 9

/-- `REQUEST_TYPE_INVM`. -/
def requestTypeInvM : Nat := 10

variable {σ : Type}

/-- `MOESIDirectory::readEvent`: the count of the home, counted data of an owner, and the recall of the owner. -/
def readEvent (cfg : ControllerConfig) (ackCounter : Option Int) (msg : Message) : Except Exit DirectoryEventId :=
  if msg.source = .upperInterconnect ∧ msg.complementaryValue2 = responseTypeAckCount then
    .ok (if msg.complementaryValue = 0 then .ackCountZero else .ackCount)
  else if msg.source = .upperInterconnect ∧ msg.data.isSome then
    if msg.fromId ≠ cfg.sharedMemoryId ∧ msg.complementaryValue ≠ 0 ∧
        !MSIDirectory.settledBy ackCounter msg.complementaryValue then
      .ok .dataFromOwnerNonZeroAck
    else MESIDirectory.readEvent cfg ackCounter msg
  else if msg.source = .upperInterconnect ∧ msg.complementaryValue = requestTypeInvM then .ok .invM
  else MESIDirectory.readEvent cfg ackCounter msg

/-- The supply message of a `Data2Req` action, which passes on the count of a forward. -/
def supplyMessage (msg : Message) : Message :=
  { msg with complementaryValue := msg.complementaryValue2, toIds := [] }

/-- `MOESIDirectory::handleAction`: around the MESI actions, the eviction of an owner, the count and the supply. -/
def handleAction (cfg : ControllerConfig) (fsm : Fsm σ DirectoryEventId DirectoryActionId) (ackCounter : Option Int)
    (actions : List DirectoryActionId) (msg : Message) (line : GenericCacheLine σ) (next : σ) :
    Except Exit (List (DirectoryAction σ)) :=
  (MESIDirectory.handleAction cfg fsm ackCounter
      (actions.filter fun a => a != .putOData && a != .setAck && a != .data2Req) msg line next).map fun built =>
    let evicted := if DirectoryActionId.putOData ∈ actions then
      .base (.writeBack (MSIDirectory.writeBackMessage cfg msg requestTypePutO .unknown)) :: built else built
    let counted := if DirectoryActionId.setAck ∈ actions then evicted ++ [.setACKNumber msg] else evicted
    if DirectoryActionId.data2Req ∈ actions then .base (.writeBack (supplyMessage msg)) :: counted else counted

end MOESIDirectory

/-- A private-cache protocol under a directory: its table, first state, event reader and action handler. -/
structure DirectoryProtocol (σ : Type) where
  fsm : Fsm σ DirectoryEventId DirectoryActionId
  initial : σ
  readEvent : ControllerConfig → Option Int → Message → Except Exit DirectoryEventId
  handleAction : ControllerConfig → Fsm σ DirectoryEventId DirectoryActionId → Option Int → List DirectoryActionId →
    Message → GenericCacheLine σ → σ → Except Exit (List (DirectoryAction σ))

/-- MSI over `MSI_directory`. -/
def msiDirectoryProtocol : DirectoryProtocol MSIDirectoryState where
  fsm := msiDirectory
  initial := .I
  readEvent := MSIDirectory.readEvent
  handleAction := MSIDirectory.handleAction

/-- MESI over `MESI_directory`. -/
def mesiDirectoryProtocol : DirectoryProtocol MESIDirectoryState where
  fsm := mesiDirectory
  initial := .I
  readEvent := MESIDirectory.readEvent
  handleAction := MESIDirectory.handleAction

/-- MOESI over `MOESI_directory`. -/
def moesiDirectoryProtocol : DirectoryProtocol MOESIDirectoryState where
  fsm := moesiDirectory
  initial := .I
  readEvent := MOESIDirectory.readEvent
  handleAction := MOESIDirectory.handleAction

namespace DirectoryProtocol

variable {σ : Type} (P : DirectoryProtocol σ)

/-- `processRequest`: the row of a message in a line state and its controller actions. -/
def processRequest (cfg : ControllerConfig) (ackCounter : Option Int) (line : GenericCacheLine σ) (msg : Message) :
    Except Exit (List (DirectoryAction σ)) :=
  match P.readEvent cfg ackCounter msg with
  | .error e => .error e
  | .ok event =>
    P.handleAction cfg P.fsm ackCounter (P.fsm.getActions line.state event) msg line (P.fsm.getNextState line.state event)

/-- `getRequestState`: whether the row of a message stalls; it reads a copy. -/
def getRequestState (cfg : ControllerConfig) (ackCounter : Option Int) (line : GenericCacheLine σ) (msg : Message) :
    Except Exit FRFCFSState :=
  match P.readEvent cfg ackCounter msg with
  | .error e => .error e
  | .ok event => .ok (if P.fsm.hasAction line.state event .stall then .nonReady else .ready)

/-- Process one message on the controller of its line. -/
def process (cfg : ControllerConfig) (c : DirectoryController σ) (msg : Message) : DirectoryController.Result σ :=
  match P.processRequest cfg c.ackCounter (c.line.slot.readLineBits P.initial) msg with
  | .error e => .error e
  | .ok actions => c.execActions cfg actions

end DirectoryProtocol

end Octopus
