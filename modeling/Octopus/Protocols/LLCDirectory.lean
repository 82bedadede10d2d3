import Octopus.Protocols.MSIDirectory
import Octopus.Tables.DirectoryHome

/-!
# The home protocols of a directory

`LLCMSIDirectory`, `LLCMESIDirectory` and `LLCMOESIDirectory`. A handler reads the sharers of the line
as they are before the row: the actions that change them run after it has returned. The MOESI class
replaces the invalidations and the forward of a GetM of the MSI class.
-/

namespace Octopus

namespace LLCMSIDirectory

variable {τ : Type}

/-- Whether one sharer is left. -/
def oneSharer (sharers : Option (List Nat)) : Bool := sharers.any fun list => list.length == 1

/-- `LLCMSIDirectory::readEvent`: the event of a message for the home with this line and these sharers. -/
def readEvent (cfg : ControllerConfig) (line : GenericCacheLine τ) (sharers : Option (List Nat)) (msg : Message) :
    Except Exit HomeEventId :=
  match msg.source with
  | .upperInterconnect => if msg.data.isSome then .ok .dataFromUpperInterface else .error .invalidTransaction
  | .self => if msg.owner = cfg.id then .ok .replacement else .error .invalidTransaction
  | .lowerInterconnect =>
    if msg.data.isSome then
      if msg.complementaryValue = MSIDirectory.requestTypePutM then
        .ok (if some msg.owner = line.ownerId then .putMDataFromOwner else .putMDataFromNonOwner)
      else .ok .dataFromLowerInterface
    else if msg.complementaryValue = requestTypeGetS then .ok .getS
    else if msg.complementaryValue = requestTypeGetM then .ok .getM
    else if msg.complementaryValue = MSIDirectory.requestTypePutS then
      .ok (if sharers = some [msg.owner] then .lastPutS else .putS)
    else if msg.complementaryValue = MSIDirectory.requestTypeInvAck then
      .ok (if oneSharer sharers then .lastInvAck else .invAck)
    else .error .invalidTransaction

/-- The number of sharers that a requester is told, itself left out if it is in the list. -/
def ackCount (sharers : Option (List Nat)) (requester : Nat) : Nat :=
  match sharers with
  | none => 0
  | some list => if requester ∈ list then list.length - 1 else list.length

/-- The data response to a request. -/
def dataResponse (line : GenericCacheLine τ) (sharers : Option (List Nat)) (msg : Message) : Message :=
  { msg with
    toIds := [msg.owner]
    complementaryValue := if line.ownerId = none then 0 else ackCount sharers msg.owner
    kind := .resp }

/-- The forward of a request to the old owner. -/
def forward (oldOwner : Option Nat) (msg : Message) (type : Nat) : Message :=
  { msg with complementaryValue := type, toIds := [oldOwner.getD 0xFFFF], kind := .fwd }

/-- The invalidation of every sharer but the requester. -/
def invalidation (list : List Nat) (msg : Message) : Message :=
  { msg with complementaryValue := MSIDirectory.requestTypeInv, toIds := list.filter (· ≠ msg.owner), kind := .inv }

/-- The acknowledgement of an eviction notice. -/
def putAck (cfg : ControllerConfig) (msg : Message) : Message :=
  { msgId := msg.msgId, addr := msg.addr, complementaryValue := MSIDirectory.requestTypePutAck, owner := cfg.id,
    toIds := [msg.owner], kind := .ack }

/-- A response goes out at once, or to the pending request once memory has answered. -/
def respond (msg response : Message) : DirectoryAction τ :=
  .base (if msg.source = .lowerInterconnect then .hitAction response else .removePending response)

/-- One action of a cell: the controller actions built so far and the line it edits. -/
def addAction (cfg : ControllerConfig) (sharers : Option (List Nat)) (oldOwner : Option Nat) (msg : Message)
    (built : List (DirectoryAction τ) × GenericCacheLine τ) :
    HomeActionId → Except Exit (List (DirectoryAction τ) × GenericCacheLine τ)
  | .stall => .error .stall
  | .getData =>
    .ok (built.1 ++ [.base (.addPending msg), .base (.sendBusMsg
      { msgId := msg.msgId, addr := msg.addr, complementaryValue := 1, owner := msg.owner,
        toIds := [cfg.sharedMemoryId], kind := .memRead })], built.2)
  | .sendData => .ok (built.1 ++ [respond msg (dataResponse built.2 sharers msg)], built.2)
  | .saveData => .ok (built.1 ++ [.base .noAction], built.2)
  | .setOwner => .ok (built.1 ++ [.setSharers msg], { built.2 with ownerId := some msg.owner })
  | .clearOwner => .ok (built.1 ++ [.base .noAction], { built.2 with ownerId := none })
  | .sendInv =>
    match sharers with
    | none => .error .missingSharers
    | some list => .ok (built.1 ++ [.sendForwardMessage (invalidation list msg)], built.2)
  | .fwdGetS => .ok (built.1 ++ [.sendForwardMessage (forward oldOwner msg requestTypeGetS)], built.2)
  | .fwdGetM => .ok (built.1 ++ [.sendForwardMessage (forward oldOwner msg requestTypeGetM)], built.2)
  | .putAck => .ok (built.1 ++ [.sendForwardMessage (putAck cfg msg)], built.2)
  | .writeBack =>
    .ok (built.1 ++ [.base (.writeBack { msgId := msg.msgId, addr := msg.addr, owner := cfg.id, kind := .memWrite })],
      built.2)
  | .incSharers => .ok (built.1 ++ [.incrementSharers msg], built.2)
  | .decSharers => .ok (built.1 ++ [.decrementSharers msg], built.2)
  | .fault => .error .fault
  | .sendEData | .sendAckC | .sendInvM => .ok built

/-- `LLCMSIDirectory::handleAction`: the cell's actions in order, then the line update. -/
def handleAction (cfg : ControllerConfig) (fsm : Fsm τ HomeEventId HomeActionId) (sharers : Option (List Nat))
    (actions : List HomeActionId) (msg : Message) (line : GenericCacheLine τ) (next : τ) :
    Except Exit (List (DirectoryAction τ)) :=
  match actions.foldlM (addAction cfg sharers line.ownerId msg) ([], line) with
  | .error e => .error e
  | .ok (built, line') =>
    .ok (built ++ [.base (.updateCacheLine msg { line' with valid := fsm.isValidState next, state := next })])

end LLCMSIDirectory

namespace LLCMESIDirectory

variable {τ : Type}

/-- `LLCMESIDirectory::readEvent`: the notice that a clean exclusive copy has gone. -/
def readEvent (cfg : ControllerConfig) (line : GenericCacheLine τ) (sharers : Option (List Nat)) (msg : Message) :
    Except Exit HomeEventId :=
  if msg.source = .lowerInterconnect ∧ msg.complementaryValue = MESIDirectory.requestTypePutE then
    .ok (if some msg.owner = line.ownerId then .putEFromOwner else .putEFromNonOwner)
  else LLCMSIDirectory.readEvent cfg line sharers msg

/-- The response that grants the requester an exclusive copy. -/
def exclusiveResponse (msg : Message) : Message :=
  { msg with toIds := [msg.owner], complementaryValue := MESIDirectory.responseTypeExeclusiveData }

/-- `LLCMESIDirectory::handleAction`: the MSI actions, and last the exclusive response. -/
def handleAction (cfg : ControllerConfig) (fsm : Fsm τ HomeEventId HomeActionId) (sharers : Option (List Nat))
    (actions : List HomeActionId) (msg : Message) (line : GenericCacheLine τ) (next : τ) :
    Except Exit (List (DirectoryAction τ)) :=
  (LLCMSIDirectory.handleAction cfg fsm sharers (actions.erase .sendEData) msg line next).map fun built =>
    if HomeActionId.sendEData ∈ actions then built ++ [LLCMSIDirectory.respond msg (exclusiveResponse msg)] else built

end LLCMESIDirectory

namespace LLCMOESIDirectory

variable {τ : Type}

/-- `LLCMOESIDirectory::readEvent`: the notices of an owner of dirty shared data, and requests of the owner itself. -/
def readEvent (cfg : ControllerConfig) (line : GenericCacheLine τ) (sharers : Option (List Nat)) (msg : Message) :
    Except Exit HomeEventId :=
  if msg.source = .lowerInterconnect then
    if msg.data.isSome then
      if msg.complementaryValue = MOESIDirectory.requestTypePutO then
        .ok (if some msg.owner = line.ownerId then
            if LLCMSIDirectory.oneSharer sharers then .lastPutOFromOwner else .putODataFromOwner
          else .putODataFromNonOwner)
      else if msg.complementaryValue = MSIDirectory.requestTypeInvAck ∧ LLCMSIDirectory.oneSharer sharers then
        .ok .dataFromLowerInterfaceLastAck
      else LLCMESIDirectory.readEvent cfg line sharers msg
    else if msg.complementaryValue = requestTypeGetM ∧ line.ownerId = some msg.owner then .ok .getMFromOwner
    else LLCMESIDirectory.readEvent cfg line sharers msg
  else LLCMESIDirectory.readEvent cfg line sharers msg

/-- The count of acknowledgements for an owner that becomes the only sharer. -/
def ackCountMessage (cfg : ControllerConfig) (sharers : Option (List Nat)) (msg : Message) : Message :=
  { msgId := msg.msgId, addr := msg.addr, complementaryValue := LLCMSIDirectory.ackCount sharers msg.owner,
    complementaryValue2 := MOESIDirectory.responseTypeAckCount, owner := cfg.id, toIds := [msg.owner] }

/-- The sharers that are neither the requester nor the old owner. -/
def others (list : List Nat) (oldOwner : Option Nat) (requester : Nat) : List Nat :=
  list.filter fun id => id ≠ requester ∧ some id ≠ oldOwner

/-- The invalidation of the sharers; the old owner is spared where a forward invalidates it. -/
def invalidation (cfg : ControllerConfig) (list : List Nat) (oldOwner : Option Nat) (msg : Message) : Message :=
  { msg with
    complementaryValue := MSIDirectory.requestTypeInv
    toIds := list.filter fun id => id ≠ msg.owner ∧ ¬ (some id = oldOwner ∧ msg.owner ≠ cfg.id) }

/-- The forward of a GetM, with the number of the other sharers. -/
def forwardGetM (list : List Nat) (oldOwner : Option Nat) (msg : Message) : Message :=
  { msg with
    complementaryValue := requestTypeGetM
    complementaryValue2 := (others list oldOwner msg.owner).length
    toIds := [oldOwner.getD 0xFFFF] }

/-- The recall of the owner. -/
def recallOwner (oldOwner : Option Nat) (msg : Message) : Message :=
  { msg with complementaryValue := MOESIDirectory.requestTypeInvM, toIds := [oldOwner.getD 0xFFFF] }

/-- A message to the sharers of a line, which must have an entry. -/
def toSharers (sharers : Option (List Nat)) (message : List Nat → Message) : Except Exit (List (DirectoryAction τ)) :=
  match sharers with
  | none => .error .missingSharers
  | some list => .ok [.sendForwardMessage (message list)]

/-- The actions that the class takes out of a row before it hands the row on. -/
def isOwnAction (a : HomeActionId) : Bool := a == .sendAckC || a == .sendInv || a == .fwdGetM || a == .sendInvM

/-- `LLCMOESIDirectory::handleAction`: the MESI actions, then the count, the invalidations, the forward and the recall. -/
def handleAction (cfg : ControllerConfig) (fsm : Fsm τ HomeEventId HomeActionId) (sharers : Option (List Nat))
    (actions : List HomeActionId) (msg : Message) (line : GenericCacheLine τ) (next : τ) :
    Except Exit (List (DirectoryAction τ)) := do
  let built ← LLCMESIDirectory.handleAction cfg fsm sharers (actions.filter fun a => !isOwnAction a) msg line next
  let counted := if HomeActionId.sendAckC ∈ actions then
    [.sendForwardMessage (ackCountMessage cfg sharers msg)] else []
  let invalidated ← if HomeActionId.sendInv ∈ actions then
    toSharers sharers fun list => invalidation cfg list line.ownerId msg else .ok []
  let forwarded ← if HomeActionId.fwdGetM ∈ actions then
    toSharers sharers fun list => forwardGetM list line.ownerId msg else .ok []
  let recalled := if HomeActionId.sendInvM ∈ actions then [.sendForwardMessage (recallOwner line.ownerId msg)] else []
  .ok (built ++ counted ++ invalidated ++ forwarded ++ recalled)

end LLCMOESIDirectory

/-- A home protocol of a directory: its table, first state, event reader and action handler. -/
structure HomeProtocol (τ : Type) where
  fsm : Fsm τ HomeEventId HomeActionId
  initial : τ
  readEvent : ControllerConfig → GenericCacheLine τ → Option (List Nat) → Message → Except Exit HomeEventId
  handleAction : ControllerConfig → Fsm τ HomeEventId HomeActionId → Option (List Nat) → List HomeActionId → Message →
    GenericCacheLine τ → τ → Except Exit (List (DirectoryAction τ))

/-- MSI over `MSI_LLC_directory`. -/
def llcMSIDirectory : HomeProtocol LLCMSIDirectoryState where
  fsm := msiLLCDirectory
  initial := .N
  readEvent := LLCMSIDirectory.readEvent
  handleAction := LLCMSIDirectory.handleAction

/-- MESI over `MESI_LLC_directory`. -/
def llcMESIDirectory : HomeProtocol LLCMESIDirectoryState where
  fsm := mesiLLCDirectory
  initial := .N
  readEvent := LLCMESIDirectory.readEvent
  handleAction := LLCMESIDirectory.handleAction

/-- MOESI over `MOESI_LLC_directory`. -/
def llcMOESIDirectory : HomeProtocol LLCMOESIDirectoryState where
  fsm := moesiLLCDirectory
  initial := .N
  readEvent := LLCMOESIDirectory.readEvent
  handleAction := LLCMOESIDirectory.handleAction

namespace HomeProtocol

variable {τ : Type} (P : HomeProtocol τ)

/-- `processRequest`: the row of a message in a line state and its controller actions. -/
def processRequest (cfg : ControllerConfig) (line : GenericCacheLine τ) (sharers : Option (List Nat)) (msg : Message) :
    Except Exit (List (DirectoryAction τ)) :=
  match P.readEvent cfg line sharers msg with
  | .error e => .error e
  | .ok event =>
    P.handleAction cfg P.fsm sharers (P.fsm.getActions line.state event) msg line (P.fsm.getNextState line.state event)

/-- `getRequestState`: data is always ready, any other message unless its row stalls. -/
def getRequestState (cfg : ControllerConfig) (line : GenericCacheLine τ) (sharers : Option (List Nat)) (msg : Message) :
    Except Exit FRFCFSState :=
  match P.readEvent cfg line sharers msg with
  | .error e => .error e
  | .ok event =>
    .ok (if msg.data.isSome then .ready
      else if P.fsm.hasAction line.state event .stall then .nonReady else .ready)

/-- Process one message on the controller of its line. -/
def process (cfg : ControllerConfig) (c : DirectoryController τ) (msg : Message) : DirectoryController.Result τ :=
  match P.processRequest cfg (c.line.slot.readLineBits P.initial) c.sharers msg with
  | .error e => .error e
  | .ok actions => c.execActions cfg actions

end HomeProtocol

end Octopus
