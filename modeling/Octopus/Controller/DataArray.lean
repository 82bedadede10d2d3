import Octopus.LineController

/-!
# Actions that wait for the data array

The actions of a controller when an access to the data array takes time. In the occupancy model an
access runs at once and closes the array for its latency; in the pipelined model a message waits
for its access before it runs. An action that needs the array while it is closed parks its bytes,
unless the line is in a holding register or in the write-back buffer.
-/

namespace Octopus

/-- The parameters of a data array. -/
structure ArrayConfig where
  m_data_access_latency : Nat
  m_data_array_pipelined : Bool
  line_interlock : Bool

namespace ArrayConfig

variable (cfg : ArrayConfig)

/-- `pipelinedArray`. -/
def pipelinedArray : Bool := cfg.m_data_array_pipelined && 0 < cfg.m_data_access_latency

/-- `m_line_interlock`, which the constructor turns on for the pipelined model. -/
def m_line_interlock : Bool := cfg.line_interlock || cfg.pipelinedArray

end ArrayConfig

/-- The clock of a data array, and the cycle it opens in. -/
structure DataArray where
  m_cycle : Nat := 0
  m_ready_cycle : Nat := 0
  deriving DecidableEq, Repr

namespace DataArray

variable (cfg : ArrayConfig) (d : DataArray)

/-- `isReady`. -/
def isReady : Bool := cfg.m_data_array_pipelined || d.m_ready_cycle ≤ d.m_cycle

/-- The array is busy for its latency, unless it is pipelined. -/
def occupy : DataArray :=
  if cfg.m_data_array_pipelined then d else { d with m_ready_cycle := d.m_cycle + cfg.m_data_access_latency }

/--
Whether `deferForDataArray` defers a message, the interlock apart: in the pipelined model a message
that touches the array (`messageTouchesArray`), in the occupancy model one that finds it busy.
-/
def defers (needsDataArray : Bool) (location : Option LineLocation) (msg : Message) : Bool :=
  if cfg.pipelinedArray then
    decide (location ≠ some .pwb) && (needsDataArray || msg.data.isSome &&
      !(msg.source == .lowerInterconnect && (msg.complementaryValue == 0 || msg.complementaryValue == 1)))
  else cfg.m_data_access_latency != 0 && !d.isReady cfg && needsDataArray

end DataArray

namespace Slot

variable {σ : Type}

/-- Where the data handler keeps the line. -/
def lineLocation (slot : Slot σ) : Option LineLocation := slot.map (·.location)

/-- Whether the line is in a register: a holding register or the write-back buffer. -/
def inRegister (slot : Slot σ) : Bool :=
  match slot.lineLocation with
  | some .mshr | some .pwb => true
  | _ => false

/-- `isReady` for an address. -/
def isReady (slot : Slot σ) (cfg : ArrayConfig) (d : DataArray) : Bool := slot.inRegister || d.isReady cfg

end Slot

/-- The actions that can wait for the data array. -/
inductive ParkedKind
  | hitAction
  | removePending
  | writeBack
  | writeCacheLineData
  deriving DecidableEq, Repr

/-- An action that waits for the data array. -/
structure ParkedAction where
  kind : ParkedKind
  msg : Message
  deriving DecidableEq, Repr

/-- What actions leave behind: the controller of the line, the array, what was emitted and what waits. -/
structure Outcome (κ π : Type) where
  line : κ
  array : DataArray
  emitted : List Emission := []
  parked : List π := []

/-- An outcome, seen through a part of the controller. -/
def Outcome.mapLine {κ κ' π : Type} (view : κ → κ') (o : Outcome κ π) : Outcome κ' π :=
  { line := view o.line, array := o.array, emitted := o.emitted, parked := o.parked }

/-- Carry out a list of actions in order. -/
def execAll {κ π α : Type} (exec : DataArray → κ → α → Except Exit (Outcome κ π)) (d : DataArray) (c : κ) :
    List α → Except Exit (Outcome κ π)
  | [] => .ok { line := c, array := d }
  | a :: rest =>
    match exec d c a with
    | .error e => .error e
    | .ok o =>
      match execAll exec o.array o.line rest with
      | .error e => .error e
      | .ok o' => .ok { o' with emitted := o.emitted ++ o'.emitted, parked := o.parked ++ o'.parked }

namespace LineController

variable {σ : Type} (cfg : ControllerConfig) (acfg : ArrayConfig)

/--
`checkReadinessOfCache`: whether an access to the line of a slot may run now. `firing` is
`m_pipe_firing`, set while a deferred access completes.
-/
def checkReadinessOfCache (firing : Bool) (d : DataArray) (slot : Slot σ) : Bool :=
  if acfg.pipelinedArray then firing || slot.inRegister else slot.isReady acfg d

/-- An action that reads the line if its message carries no bytes. -/
def reading (firing : Bool) (d : DataArray) (c : LineController σ) (msg : Message) (kind : ParkedKind)
    (run : Result σ) : Except Exit (Outcome (LineController σ) ParkedAction) :=
  if msg.data.isNone && !checkReadinessOfCache acfg firing d c.slot then
    .ok { line := c, array := d, parked := [⟨kind, msg⟩] }
  else
    run.map fun r =>
      { line := r.1
        array := if msg.data.isNone && c.slot.isSome then d.occupy acfg else d
        emitted := r.2 }

/-- `writeCacheLineData`: the bytes of a message go to the line. -/
def writeCacheLineData (firing : Bool) (d : DataArray) (c : LineController σ) (msg : Message) :
    Except Exit (Outcome (LineController σ) ParkedAction) :=
  if checkReadinessOfCache acfg firing d c.slot then
    match c.slot.updateLineData cfg.blockSize (msg.data.getD []) with
    | none => .error .unfoundLine
    | some slot =>
      .ok { line := { c with slot := slot }
            array := if c.slot.lineLocation = some .pwb then d else d.occupy acfg }
  else .ok { line := c, array := d, parked := [⟨.writeCacheLineData, msg⟩] }

/-- Whether `updateCacheLine` also writes the bytes of its message. -/
def writesData (msg : Message) (line : GenericCacheLine σ) : Bool :=
  msg.data.isSome && line.valid && cfg.blockSize ≤ msg.dataSize

/-- The store whose bytes `modifyData` writes for a message. -/
def storeOf (c : LineController σ) (msg : Message) : Option Message :=
  match c.modifying.lookup msg.msgId with
  | some m => some m
  | none => if msg.source = .lowerInterconnect ∧ msg.data.isSome then some msg else none

/-- `hitAction` of a cache controller. -/
def hitTimed (firing : Bool) (d : DataArray) (c : LineController σ) (msg : Message) :
    Except Exit (Outcome (LineController σ) ParkedAction) :=
  reading acfg firing d c msg .hitAction (c.hitAction msg)

/-- `removePendingAndRespond` of a cache controller. -/
def removePendingTimed (firing : Bool) (d : DataArray) (c : LineController σ) (msg : Message) :
    Except Exit (Outcome (LineController σ) ParkedAction) :=
  reading acfg firing d c msg .removePending (c.removePendingAndRespond msg)

/-- `performWriteBack` of a cache controller: the parked requests are addressed before the array is asked for. -/
def writeBackTimed (firing : Bool) (d : DataArray) (c : LineController σ) (msg : Message) :
    Except Exit (Outcome (LineController σ) ParkedAction) :=
  reading acfg firing d { c with saved := [] } (addressSavedRequests cfg c msg) .writeBack (c.performWriteBack cfg msg)

/-- Carry out one controller action on a line of an array. -/
def execTimed (firing : Bool) (d : DataArray) (c : LineController σ) :
    ControllerAction σ → Except Exit (Outcome (LineController σ) ParkedAction)
  | .hitAction msg => hitTimed acfg firing d c msg
  | .removePending msg => removePendingTimed acfg firing d c msg
  | .writeBack msg => writeBackTimed cfg acfg firing d c msg
  | .updateCacheLine msg line =>
    if writesData cfg msg line then
      writeCacheLineData cfg acfg firing d { c with slot := (c.slot.updateLineBits line).getD c.slot } msg
    else (c.updateCacheLine cfg msg line).map fun r => { line := r.1, array := d, emitted := r.2 }
  | .modifyData msg =>
    if c.slot.isReady acfg d then
      (c.modifyData cfg msg).map fun r =>
        { line := r.1
          array := if c.slot.isSome && (c.storeOf msg).isSome then d.occupy acfg else d
          emitted := r.2 }
    else
      -- a closed array drops the bytes, and the saved store with them
      .ok { line := { c with modifying := c.modifying.filter fun e => e.1 ≠ msg.msgId }, array := d }
  | a => (c.execAction cfg a).map fun r => { line := r.1, array := d, emitted := r.2 }

/-- What was parked runs when its access completes. -/
def fireParked (d : DataArray) (c : LineController σ) (p : ParkedAction) :
    Except Exit (Outcome (LineController σ) ParkedAction) :=
  match p.kind with
  | .hitAction => hitTimed acfg true d c p.msg
  | .removePending => removePendingTimed acfg true d c p.msg
  | .writeBack => writeBackTimed cfg acfg true d c p.msg
  | .writeCacheLineData => writeCacheLineData cfg acfg true d c p.msg

end LineController

end Octopus
