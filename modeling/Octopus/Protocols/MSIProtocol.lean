import Octopus.FRFCFSBuffer
import Octopus.LineController
import Octopus.Tables.SnoopingL1

/-!
# The snooping private-cache protocols

`MSIProtocol`, `MESIProtocol` and `MOESIProtocol`: how a message is read as an event of the
table and how the actions of a cell become controller actions. MESI overrides both steps of MSI
and MOESI inherits those of MESI, so one definition serves the three tables.
-/

namespace Octopus

namespace MSIProtocol

variable {σ : Type}

/-- `MSIProtocol::readEvent`: the event a message is for the cache `id`. -/
def readEvent (id : Nat) (msg : Message) : Except Exit EventId :=
  match msg.source with
  | .lowerInterconnect => .ok (if msg.complementaryValue = 0 then .load else .store)
  | .self => if msg.owner = id then .ok .replacement else .error .invalidTransaction
  | .upperInterconnect =>
    if msg.data.isSome then .ok .ownData
    else if msg.complementaryValue = requestTypeGetS then
      .ok (if msg.owner = id then .ownGetS else .otherGetS)
    else if msg.complementaryValue = requestTypeGetM then
      .ok (if msg.owner = id then .ownGetM else .otherGetM)
    else if msg.complementaryValue = requestTypePutM then
      .ok (if msg.owner = id then .ownPutM else .otherPutM)
    else if msg.complementaryValue = requestTypeInv then .ok .invalidation
    else .error .invalidTransaction

/-- A request this cache puts on the bus for a message. -/
def busRequest (cfg : ControllerConfig) (msg : Message) (type : Nat) (kind : Kind) : Message :=
  { msgId := msg.msgId, addr := msg.addr, complementaryValue := type, owner := cfg.id,
    toIds := [cfg.sharedMemoryId], kind := kind }

/-- The supply message of a `Data2Req` or `Data2Both` action. -/
def supplyMessage (cfg : ControllerConfig) (msg : Message) (both : Bool) : Message :=
  { msg with
    kind :=
      if msg.data.isSome then .supplyDeferred
      else if msg.complementaryValue = requestTypePutM then .wbData
      else if msg.complementaryValue = requestTypeInv then .wbInv
      else .supply
    toIds := if both then [cfg.sharedMemoryId] else [] }

/-- One action of a cell, added to the controller actions built so far. -/
def addAction (cfg : ControllerConfig) (msg : Message) (built : List (ControllerAction σ)) :
    ActionId → Except Exit (List (ControllerAction σ))
  | .stall => .ok (built ++ [.stall msg])
  | .hit =>
    .ok (built ++ [if msg.source = .lowerInterconnect then .hitAction msg else .removePending msg,
      .modifyData msg])
  | .getS => .ok (built ++ [.addPending msg, .sendBusMsg (busRequest cfg msg requestTypeGetS .getS)])
  | .getM => .ok (built ++ [.addPending msg, .sendBusMsg (busRequest cfg msg requestTypeGetM .getM)])
  | .putM => .ok (built ++ [.sendBusMsg (busRequest cfg msg requestTypePutM .putM)])
  | .data2Req => .ok (.writeBack (supplyMessage cfg msg false) :: built)
  | .data2Both => .ok (.writeBack (supplyMessage cfg msg true) :: built)
  | .saveReq =>
    .ok (built ++ [.saveReqForWriteBack
      { msgId := msg.msgId, addr := msg.addr, complementaryValue := msg.complementaryValue,
        owner := msg.owner }])
  | .fault => .error .fault
  | .removeSavedReq => .ok built

/-- `MSIProtocol::handleAction`: the line update first, then the cell's actions in order. -/
def handleAction (cfg : ControllerConfig) (fsm : Fsm σ EventId ActionId) (actions : List ActionId)
    (msg : Message) (line : GenericCacheLine σ) (next : σ) : Except Exit (List (ControllerAction σ)) :=
  let update : List (ControllerAction σ) :=
    if actions.head? = some .stall then []
    else [.updateCacheLine msg { line with valid := fsm.isValidState next, state := next }]
  actions.foldlM (addAction cfg msg) update

end MSIProtocol

namespace MESIProtocol

variable {σ : Type}

/-- `MESIProtocol::readEvent`: exclusive data is its own event, and its mark is consumed. -/
def readEvent (id : Nat) (msg : Message) : Except Exit (EventId × Message) :=
  match MSIProtocol.readEvent id msg with
  | .error e => .error e
  | .ok .ownData =>
    if msg.complementaryValue = 2 then .ok (.ownDataExeclusive, { msg with complementaryValue := 0 })
    else .ok (.ownData, msg)
  | .ok event => .ok (event, msg)

/-- `MESIProtocol::handleAction`: the MSI actions, and last the drop of the parked requests. -/
def handleAction (cfg : ControllerConfig) (fsm : Fsm σ EventId ActionId) (actions : List ActionId)
    (msg : Message) (line : GenericCacheLine σ) (next : σ) : Except Exit (List (ControllerAction σ)) :=
  match MSIProtocol.handleAction cfg fsm (actions.erase .removeSavedReq) msg line next with
  | .error e => .error e
  | .ok built =>
    .ok (if ActionId.removeSavedReq ∈ actions then built ++ [.removeSavedReq] else built)

end MESIProtocol

/-- A snooping private-cache protocol: its table, first state, event reader and action handler. -/
structure L1Protocol (σ : Type) where
  fsm : Fsm σ EventId ActionId
  initial : σ
  /-- The event of a message, and the message as reading it leaves it. -/
  readEvent : Nat → Message → Except Exit (EventId × Message)
  handleAction : ControllerConfig → Fsm σ EventId ActionId → List ActionId → Message →
    GenericCacheLine σ → σ → Except Exit (List (ControllerAction σ))

/-- MSI over `MSI_splitBus_snooping`. -/
def msiProtocol : L1Protocol MSIState where
  fsm := msiSplitBusSnooping
  initial := .I
  readEvent id msg := (MSIProtocol.readEvent id msg).map fun event => (event, msg)
  handleAction := MSIProtocol.handleAction

/-- MESI over `MESI_splitBus_snooping`. -/
def mesiProtocol : L1Protocol MESIState where
  fsm := mesiSplitBusSnooping
  initial := .I
  readEvent := MESIProtocol.readEvent
  handleAction := MESIProtocol.handleAction

/-- MOESI over `MOESI_splitBus_snooping`, with the methods of MESI. -/
def moesiProtocol : L1Protocol MOESIState where
  fsm := moesiSplitBusSnooping
  initial := .I
  readEvent := MESIProtocol.readEvent
  handleAction := MESIProtocol.handleAction

namespace L1Protocol

variable {σ : Type} (P : L1Protocol σ)

/-- `processRequest`: the row of a message in a line state and its controller actions. -/
def processRequest (cfg : ControllerConfig) (line : GenericCacheLine σ) (msg : Message) :
    Except Exit (List (ControllerAction σ)) :=
  match P.readEvent cfg.id msg with
  | .error e => .error e
  | .ok (event, msg') =>
    P.handleAction cfg P.fsm (P.fsm.getActions line.state event) msg' line
      (P.fsm.getNextState line.state event)

/-- `getRequestState`: whether the row of a message stalls, and the message as it is left. -/
def getRequestState (id : Nat) (line : GenericCacheLine σ) (msg : Message) :
    Except Exit (FRFCFSState × Message) :=
  match P.readEvent id msg with
  | .error e => .error e
  | .ok (event, msg') =>
    .ok (if P.fsm.hasAction line.state event .stall then .nonReady else .ready, msg')

/-- `needsDataArray`: whether the row of a message touches the data array; it reads a copy. -/
def needsDataArray (id : Nat) (line : GenericCacheLine σ) (msg : Message) : Except Exit Bool :=
  match P.readEvent id msg with
  | .error e => .error e
  | .ok (event, _) =>
    .ok (P.fsm.hasAction line.state event .hit || P.fsm.hasAction line.state event .data2Req ||
      P.fsm.hasAction line.state event .data2Both)

/-- Process one message on the controller of its line. -/
def process (cfg : ControllerConfig) (c : LineController σ) (msg : Message) :
    LineController.Result σ :=
  match P.processRequest cfg (c.slot.readLineBits P.initial) msg with
  | .error e => .error e
  | .ok actions => c.execActions cfg actions

end L1Protocol

end Octopus
