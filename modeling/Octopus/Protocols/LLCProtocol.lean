import Octopus.Protocols.MSIProtocol
import Octopus.Tables.SnoopingLLC

/-!
# The snooping last-level-cache protocols

`LLCMSIProtocol` and `LLCMESIProtocol`. The MESI class only adds the exclusive response, and
the MOESI last-level cache is the MESI class over its own table.
-/

namespace Octopus

namespace LLCMSIProtocol

variable {τ : Type}

/--
`LLCMSIProtocol::readEvent`: the event of a message for the cache `id` with this line. `none`
where the source leaves the event unset.
-/
def readEvent (id : Nat) (line : GenericCacheLine τ) (msg : Message) : Except Exit (Option LLCEventId) :=
  match msg.source with
  | .self => .ok (if msg.owner = id then some .replacement else none)
  | .upperInterconnect => .ok (if msg.data.isSome then some .dataFromUpperInterface else none)
  | .lowerInterconnect =>
    if msg.data.isSome then .ok (some .dataFromLowerInterface)
    else if msg.complementaryValue = requestTypeGetS then .ok (some .getS)
    else if msg.complementaryValue = requestTypeGetM then .ok (some .getM)
    else if msg.complementaryValue = requestTypePutM then
      .ok (some (if msg.owner = id then .replacement
        else if some msg.owner = line.ownerId then .putMFromOwner else .putMFromNonOwner))
    else if msg.complementaryValue = requestTypeInv then
      .ok (if msg.owner = id then some .ownInvalidation else none)
    else .error .invalidTransaction

/-- One action of a cell: the controller actions built so far and the line it edits. -/
def addAction (cfg : ControllerConfig) (msg : Message)
    (built : List (ControllerAction τ) × GenericCacheLine τ) :
    LLCActionId → Except Exit (List (ControllerAction τ) × GenericCacheLine τ)
  | .stall => .error .stall
  | .sendData =>
    let response := { msg with toIds := [msg.owner], kind := .resp }
    .ok (built.1 ++ [if msg.source = .lowerInterconnect then .hitAction response
      else .removePending response], built.2)
  | .getData =>
    .ok (built.1 ++ [.addPending msg, .sendBusMsg
      { msgId := msg.msgId, addr := msg.addr, complementaryValue := 1,
        owner := msg.owner, toIds := [cfg.sharedMemoryId], kind := .memRead }], built.2)
  | .setOwner => .ok (built.1 ++ [.noAction], { built.2 with ownerId := some msg.owner })
  | .clearOwner => .ok (built.1 ++ [.noAction], { built.2 with ownerId := none })
  | .saveData => .ok (built.1 ++ [.noAction], built.2)
  | .issueInv =>
    .ok (built.1 ++ [.sendInvMsg
      { msgId := msg.msgId, addr := msg.addr, complementaryValue := requestTypeInv, owner := cfg.id,
        toIds := [cfg.id], kind := .inv }], built.2)
  | .writeBack =>
    let message : Message := { msgId := msg.msgId, addr := msg.addr, owner := msg.owner }
    let carried := match msg.data with
      | some bytes => message.copyData bytes
      | none => message
    .ok (built.1 ++ [.writeBack { carried with kind := .memWrite }], built.2)
  | .fault => .error .fault
  | .sendExeclusiveData => .ok built

/-- `LLCMSIProtocol::handleAction`: the cell's actions in order, then the line update. -/
def handleAction (cfg : ControllerConfig) (fsm : Fsm τ LLCEventId LLCActionId)
    (actions : List LLCActionId) (msg : Message) (line : GenericCacheLine τ) (next : τ) :
    Except Exit (List (ControllerAction τ)) :=
  match actions.foldlM (addAction cfg msg) ([], line) with
  | .error e => .error e
  | .ok (built, line') =>
    .ok (built ++ [.updateCacheLine msg { line' with valid := fsm.isValidState next, state := next }])

end LLCMSIProtocol

namespace LLCMESIProtocol

variable {τ : Type}

/-- The response that grants the requester an exclusive copy. -/
def exclusiveResponse (msg : Message) : Message :=
  { msg with toIds := [msg.owner], complementaryValue := 2 }

/-- `LLCMESIProtocol::handleAction`: the MSI actions, and last the exclusive response. -/
def handleAction (cfg : ControllerConfig) (fsm : Fsm τ LLCEventId LLCActionId)
    (actions : List LLCActionId) (msg : Message) (line : GenericCacheLine τ) (next : τ) :
    Except Exit (List (ControllerAction τ)) :=
  match LLCMSIProtocol.handleAction cfg fsm (actions.erase .sendExeclusiveData) msg line next with
  | .error e => .error e
  | .ok built =>
    .ok (if LLCActionId.sendExeclusiveData ∈ actions then
      built ++ [if msg.source = .lowerInterconnect then .hitAction (exclusiveResponse msg)
        else .removePending (exclusiveResponse msg)]
      else built)

end LLCMESIProtocol

/-- A snooping last-level-cache protocol: its table, first state and action handler. -/
structure LLCProtocol (τ : Type) where
  fsm : Fsm τ LLCEventId LLCActionId
  initial : τ
  handleAction : ControllerConfig → Fsm τ LLCEventId LLCActionId → List LLCActionId → Message →
    GenericCacheLine τ → τ → Except Exit (List (ControllerAction τ))

/-- MSI over `MSI_LLC`. -/
def llcMSIProtocol : LLCProtocol LLCMSIState where
  fsm := msiLLC
  initial := .N
  handleAction := LLCMSIProtocol.handleAction

/-- MESI over `MESI_LLC`. -/
def llcMESIProtocol : LLCProtocol LLCMESIState where
  fsm := mesiLLC
  initial := .N
  handleAction := LLCMESIProtocol.handleAction

/-- MOESI over `MOESI_LLC`, with the methods of MESI. -/
def llcMOESIProtocol : LLCProtocol LLCMOESIState where
  fsm := moesiLLC
  initial := .N
  handleAction := LLCMESIProtocol.handleAction

namespace LLCProtocol

variable {τ : Type} (P : LLCProtocol τ)

/-- `processRequest`; a message without an event has no row and is an invalid transaction here. -/
def processRequest (cfg : ControllerConfig) (line : GenericCacheLine τ) (msg : Message) :
    Except Exit (List (ControllerAction τ)) :=
  match LLCMSIProtocol.readEvent cfg.id line msg with
  | .error e => .error e
  | .ok none => .error .invalidTransaction
  | .ok (some event) =>
    P.handleAction cfg P.fsm (P.fsm.getActions line.state event) msg line
      (P.fsm.getNextState line.state event)

/--
`getRequestState`: data is always ready, any other message unless its row stalls. A message
without an event has no row to stall on.
-/
def getRequestState (id : Nat) (line : GenericCacheLine τ) (msg : Message) :
    Except Exit (FRFCFSState × Message) :=
  match LLCMSIProtocol.readEvent id line msg with
  | .error e => .error e
  | .ok none => .ok (.ready, msg)
  | .ok (some event) =>
    .ok (if msg.data.isSome then .ready
      else if P.fsm.hasAction line.state event .stall then .nonReady else .ready, msg)

/-- `needsDataArray`: whether the row of a message reads or writes the line's bytes. -/
def needsDataArray (id : Nat) (line : GenericCacheLine τ) (msg : Message) : Except Exit Bool :=
  match LLCMSIProtocol.readEvent id line msg with
  | .error e => .error e
  | .ok none => .ok false
  | .ok (some event) =>
    .ok (P.fsm.hasAction line.state event .sendData ||
      P.fsm.hasAction line.state event .sendExeclusiveData ||
      P.fsm.hasAction line.state event .saveData)

/-- Process one message on the controller of its line. -/
def process (cfg : ControllerConfig) (c : LineController τ) (msg : Message) :
    LineController.Result τ :=
  match P.processRequest cfg (c.slot.readLineBits P.initial) msg with
  | .error e => .error e
  | .ok actions => c.execActions cfg actions

end LLCProtocol

end Octopus
