import Octopus.Lib.TransitionSystem
import Octopus.MCsim.AddressMapping

/-!
# The FR-FCFS memory system

One channel of one rank of DDR4 with its controller, as the scheme `FRFCFS` sets it up: one queue of requests, one
queue of commands for each bank, the open-page command generator, and first-ready schedulers for both. A step is a
request or a cycle of the memory clock. Refresh is off, so no bank is ever busy with it, and no command is posted.

The commands of a requestor that is not in the table of the requestors are not critical; they are queued where the
scheduler does not look. A packet is one of the four commands that the generator makes. The group of a bank is no part
of the address that the device is given. Controller and device count the same cycles, so there is one clock.
`accepted`, `issued`, `returned` and `written` are histories, which no function reads.

The queue and the lists of pending requests hold pointers to the same objects. A request carries a `handle` that tells
its object, and what the data of a burst make of a pending request shows in the queue as well. The code frees the object
of a request that is done without looking at the queue; what it does if the request is still there is undefined, and
here the queue goes on with the object as it was last.
-/

namespace Octopus.MCsim

open Lib

/-- `RequestType`. -/
inductive RequestType
  | dataRead | dataWrite
  deriving DecidableEq, Repr

/-- A request with its place in the memory; the handle is that of its object. -/
structure Request where
  handle : Nat
  requestType : RequestType
  requestorID : Nat
  requestSize : Nat
  address : Nat
  arriveTime : Nat
  rank : Nat
  bank : Nat
  row : Nat
  col : Nat
  deriving DecidableEq, Repr

/-- A request without what is left of its size. -/
def Request.unsized (r : Request) : Request := { r with requestSize := 0 }

/-- `BusPacketType`: the commands of an open page. -/
inductive BusPacketType
  | rd | wr | act | pre
  deriving DecidableEq, Repr

/-- A command packet. -/
structure BusPacket where
  busPacketType : BusPacketType
  requestorID : Nat
  address : Nat
  column : Nat
  row : Nat
  bank : Nat
  arriveTime : Nat
  deriving DecidableEq, Repr

/-- A data packet. -/
structure DataPacket where
  requestorID : Nat
  address : Nat
  deriving DecidableEq, Repr

/-- The parameters of a memory system; the generator keeps its first activations in eight places. -/
structure MemoryConfig where
  org : Org
  speed : Speed
  numberRequestors : Nat
  banks_le : (orgTable org).banks ≤ 8

namespace MemoryConfig

variable (cfg : MemoryConfig)

/-- The speed of the device. -/
def speedEntry : SpeedEntry := DDR4.speedEntry cfg.org cfg.speed

/-- The rules of the device. -/
def spec : Spec Command := DDR4.spec cfg.speedEntry

/-- `get_DataBus`: the bytes of one burst. -/
def dataBusWidth : Nat := (orgTable cfg.org).dq * 8

/-- `queueNumber`: one command queue for each bank of each group. -/
def queueNumber : Nat := (orgTable cfg.org).bankGroups * (orgTable cfg.org).banks

/-- `get_constraints` of tRL, tWL and tBus: how long the data of a read and of a write takes. -/
def readLatency : Nat := cfg.speedEntry.nCL + cfg.speedEntry.nBL

/-- The same of a write. -/
def writeLatency : Nat := cfg.speedEntry.nCWL + cfg.speedEntry.nBL

/-- `command_timing`: how long a queue holds back a command after one that it has sent. -/
def commandTiming : BusPacketType → BusPacketType → Nat
  | .pre, .act => cfg.speedEntry.nRP
  | .pre, _ => 0
  | .act, .act => cfg.speedEntry.nRC
  | .act, .pre => cfg.speedEntry.nRAS
  | .act, _ => cfg.speedEntry.nRCD
  | .rd, .rd => 4
  | .rd, .wr => cfg.speedEntry.nCL + cfg.speedEntry.nBL + 2 - cfg.speedEntry.nCWL
  | .rd, .pre => cfg.speedEntry.nRTP
  | .rd, .act => 1
  | .wr, .rd => cfg.speedEntry.nCWL + 4 + 6
  | .wr, .wr => 4
  | .wr, .pre => cfg.speedEntry.nCWL + 4 + cfg.speedEntry.nWR
  | .wr, .act => 1

end MemoryConfig

/-- `convert_cmd`. -/
def BusPacketType.command : BusPacketType → Command
  | .rd => .rd
  | .wr => .wr
  | .act => .act
  | .pre => .pre

/-- `convert_addr`: every command goes to the first rank and its first bank group. -/
def BusPacket.addr (p : BusPacket) : Nat → Nat
  | 3 => p.bank
  | 4 => p.row
  | 5 => p.column
  | _ => 0

/-- A memory system. -/
structure MemorySystem where
  clockCycle : Nat := 0
  allocated : Nat := 0
  generalBuffer : List Request := []
  pendingReadRequest : List Request := []
  pendingWriteRequest : List Request := []
  bankTable : Nat → Nat → Option Nat := fun _ _ => none
  first : Nat → Bool := fun _ => true
  commandBuffer : List BusPacket := []
  hrtBuffer : Nat → List BusPacket := fun _ => []
  srtBuffer : Nat → List BusPacket := fun _ => []
  cmdQueueTimer : Nat → BusPacketType → Nat := fun _ _ => 0
  channel : DRAM Command 3
  sendData : List (DataPacket × Nat) := []
  pendingReadData : List (DataPacket × Nat) := []
  accepted : List Request := []
  issued : List (BusPacket × Nat) := []
  returned : List Request := []
  written : List Request := []

/-- What may happen next: a request, or a cycle of the memory clock. -/
inductive MemoryLabel
  | addRequest (requestorID address : Nat) (isRead : Bool) (size : Nat)
  | update

namespace MemorySystem

variable (cfg : MemoryConfig)

/-- The memory system before its first cycle. -/
def initial : MemorySystem where
  channel := DRAM.create cfg.spec 3 0

/-- The request that `addRequest` makes; every field of the scheme is written. -/
def request (handle clockCycle requestorID address : Nat) (isRead : Bool) (size : Nat) : Request :=
  let fields := addressMapping (decodeIndex frfcfsFormat (memTable (orgTable cfg.org))) address fun _ => 0
  { handle
    requestType := if isRead then .dataRead else .dataWrite
    requestorID
    requestSize := size
    address
    arriveTime := clockCycle
    rank := fields .rank
    bank := fields .bank
    row := fields .row
    col := fields .column }

/-- `addRequest`. -/
def addRequest (requestorID address : Nat) (isRead : Bool) (size : Nat) (s : MemorySystem) : MemorySystem :=
  let r := request cfg s.allocated s.clockCycle requestorID address isRead size
  { s with
    allocated := s.allocated + 1
    generalBuffer := s.generalBuffer ++ [r]
    pendingReadRequest := if isRead then s.pendingReadRequest ++ [r] else s.pendingReadRequest
    pendingWriteRequest := if isRead then s.pendingWriteRequest else s.pendingWriteRequest ++ [r]
    accepted := s.accepted ++ [r] }

/-- `isRowHit`: the row of the request is the last one that its bank was told to open. -/
def isRowHit (s : MemorySystem) (r : Request) : Bool := s.bankTable 0 r.bank == some r.row

/-- A command of a request. -/
def packet (r : Request) (busPacketType : BusPacketType) (column : Nat) : BusPacket where
  busPacketType
  requestorID := r.requestorID
  address := r.address
  column
  row := r.row
  bank := r.bank
  arriveTime := 0

/-- The commands of `commandGenerate`: the first activation of a bank is not preceded by a precharge. -/
def commands (r : Request) (isOpen first : Bool) : List BusPacket :=
  let activation :=
    if isOpen then [] else if first then [packet r .act r.col] else [packet r .pre r.col, packet r .act r.col]
  let access := if r.requestType = .dataWrite then .wr else .rd
  activation ++ (List.range (r.requestSize / cfg.dataBusWidth)).map fun x => packet r access (r.col + x)

/-- `commandGenerate` of the open-page generator. -/
def commandGenerate (r : Request) (isOpen : Bool) (s : MemorySystem) : MemorySystem :=
  { s with
    commandBuffer := s.commandBuffer ++ commands cfg r isOpen (s.first r.bank)
    first := if isOpen then s.first else Function.update s.first r.bank false }

/-- Schedule the request at an index: generate its commands, update the table of rows, and take it from the queue. -/
def schedule (index : Nat) (r : Request) (s : MemorySystem) : MemorySystem :=
  let s := s.commandGenerate cfg r (s.isRowHit r)
  { s with
    bankTable := Function.update s.bankTable r.rank (Function.update (s.bankTable r.rank) r.bank (some r.row))
    generalBuffer := s.generalBuffer.eraseIdx index }

/-- A loop of `requestSchedule` over the indices of the queue, which shrinks meanwhile: a request is taken if its bank
is free and, in the first loop, its row is open. -/
def scheduleLoop (hitsOnly : Bool) : Nat → Nat → MemorySystem → (Nat → Bool) → MemorySystem × (Nat → Bool)
  | 0, _, s, bankFlag => (s, bankFlag)
  | fuel + 1, index, s, bankFlag =>
    match s.generalBuffer[index]? with
    | none => (s, bankFlag)
    | some r =>
      if bankFlag r.bank && (!hitsOnly || s.isRowHit r) then
        scheduleLoop hitsOnly fuel (index + 1) (s.schedule cfg index r) (Function.update bankFlag r.bank false)
      else scheduleLoop hitsOnly fuel (index + 1) s bankFlag

/-- `requestSchedule`: row hits first. -/
def requestSchedule (s : MemorySystem) : MemorySystem :=
  let bankFlag := fun bank => decide (bank < cfg.queueNumber) && (s.hrtBuffer bank).isEmpty
  let hits := scheduleLoop cfg true s.generalBuffer.length 0 s bankFlag
  (scheduleLoop cfg false hits.1.generalBuffer.length 0 hits.1 hits.2).1

/-- `enqueueCommand`: the queue of the bank, by the criticality of the requestor. -/
def enqueueCommand (s : MemorySystem) (p : BusPacket) : MemorySystem :=
  let p := { p with arriveTime := s.clockCycle }
  if p.requestorID < cfg.numberRequestors then
    { s with hrtBuffer := Function.update s.hrtBuffer p.bank (s.hrtBuffer p.bank ++ [p]) }
  else { s with srtBuffer := Function.update s.srtBuffer p.bank (s.srtBuffer p.bank ++ [p]) }

/-- The loop that empties the buffer of the generator into the queues. -/
def enqueueCommands (s : MemorySystem) : MemorySystem :=
  { s.commandBuffer.foldl (enqueueCommand cfg) s with commandBuffer := [] }

/-- `isReady`: the timer of the queue has run out. -/
def isReady (s : MemorySystem) (p : BusPacket) (index : Nat) : Bool := s.cmdQueueTimer index p.busPacketType == 0

/-- `isIssuable`: the device lets the command pass. -/
def isIssuable (s : MemorySystem) (p : BusPacket) : Bool :=
  s.channel.check cfg.spec p.busPacketType.command p.addr s.clockCycle 0

/-- Which of two candidates `commandSchedule` keeps, the one that stood first or the next one. -/
def prefer (kept next : BusPacket × Nat) : BusPacket × Nat :=
  match next.1.busPacketType, kept.1.busPacketType with
  | .act, .pre => next
  | .act, .act | .pre, .pre | .rd, _ | .wr, _ => if next.1.arriveTime < kept.1.arriveTime then next else kept
  | .act, _ | .pre, _ => kept

/-- The candidates of `commandSchedule`: the heads of the queues that are ready and can be issued. -/
def candidates (s : MemorySystem) : List (BusPacket × Nat) :=
  (List.range cfg.queueNumber).filterMap fun index =>
    (s.hrtBuffer index).head?.bind fun p =>
      if s.isReady p index && s.isIssuable cfg p then some (p, index) else none

/-- `commandSchedule`: the command to send, with its queue. -/
def commandSchedule (s : MemorySystem) : Option (BusPacket × Nat) :=
  (s.candidates cfg).foldl (fun kept next => some ((kept.map fun kept => prefer kept next).getD next)) none

/-- `sendCommand`: hold back the queue, take the command from it, and give it to the device. -/
def sendCommand (p : BusPacket) (index : Nat) (s : MemorySystem) : MemorySystem :=
  { s with
    cmdQueueTimer := Function.update s.cmdQueueTimer index fun type =>
      max (s.cmdQueueTimer index type) (cfg.commandTiming p.busPacketType type)
    hrtBuffer := Function.update s.hrtBuffer index (s.hrtBuffer index).tail
    channel := s.channel.updateTiming cfg.spec p.busPacketType.command p.addr s.clockCycle 0 0
    issued := (p, s.clockCycle) :: s.issued
    pendingReadData :=
      if p.busPacketType = .rd then s.pendingReadData ++ [(⟨p.requestorID, p.address⟩, cfg.readLatency)]
      else s.pendingReadData
    sendData :=
      if p.busPacketType = .wr then s.sendData ++ [(⟨p.requestorID, p.address⟩, cfg.writeLatency)] else s.sendData }

/-- One burst of a pending request is done: the request that it completes, if it is the last one, and the others. -/
def burstDone (data : DataPacket) : List Request → Option Request × List Request
  | [] => (none, [])
  | r :: rest =>
    if data.requestorID = r.requestorID ∧ data.address = r.address then
      if r.requestSize = cfg.dataBusWidth then (some r, rest)
      else (none, { r with requestSize := r.requestSize - cfg.dataBusWidth } :: rest)
    else ((burstDone data rest).1, r :: (burstDone data rest).2)

/-- The queue, whose requests are the objects that are pending: their sizes are the same. -/
def shareSizes (pending queue : List Request) : List Request :=
  queue.map fun r =>
    (pending.find? fun p => p.handle = r.handle).elim r fun p => { r with requestSize := p.requestSize }

/-- `receiveData`. -/
def receiveData (data : DataPacket) (s : MemorySystem) : MemorySystem :=
  let done := burstDone cfg data s.pendingReadRequest
  { s with
    pendingReadRequest := done.2
    generalBuffer := shareSizes done.2 s.generalBuffer
    returned := s.returned ++ done.1.toList }

/-- `sendData`. -/
def writeData (data : DataPacket) (s : MemorySystem) : MemorySystem :=
  let done := burstDone cfg data s.pendingWriteRequest
  { s with
    pendingWriteRequest := done.2
    generalBuffer := shareSizes done.2 s.generalBuffer
    written := s.written ++ done.1.toList }

/-- One cycle less to wait. -/
def countDown (data : List (DataPacket × Nat)) : List (DataPacket × Nat) := data.map fun d => (d.1, d.2 - 1)

/-- The data of writes, in `MemoryController::update`. -/
def updateSendData (s : MemorySystem) : MemorySystem :=
  match s.sendData with
  | (data, 0) :: rest => { s.writeData cfg data with sendData := countDown rest }
  | sendData => { s with sendData := countDown sendData }

/-- `MemoryDevice::update`: the data of reads. -/
def updateDevice (s : MemorySystem) : MemorySystem :=
  match countDown s.pendingReadData with
  | (data, 0) :: rest => { s with pendingReadData := rest }.receiveData cfg data
  | pendingReadData => { s with pendingReadData }

/-- `commandSchedule` and what follows of it. -/
def updateCommand (s : MemorySystem) : MemorySystem :=
  match s.commandSchedule cfg with
  | none => s
  | some (p, index) => s.sendCommand cfg p index

/-- `tick`: the timers run down, and the clock goes on. -/
def tick (s : MemorySystem) : MemorySystem :=
  { s with cmdQueueTimer := fun index type => s.cmdQueueTimer index type - 1, clockCycle := s.clockCycle + 1 }

/-- `update`: a cycle of the controller and of the device. -/
def update (s : MemorySystem) : MemorySystem :=
  ((((s.requestSchedule cfg).enqueueCommands cfg).updateCommand cfg).updateSendData cfg).tick.updateDevice cfg

/-- One step. -/
def step (s : MemorySystem) : MemoryLabel → MemorySystem
  | .addRequest requestorID address isRead size => s.addRequest cfg requestorID address isRead size
  | .update => s.update cfg

/-- The runs of a memory system. -/
def system : TransitionSystem MemorySystem MemoryLabel where
  init s := s = initial cfg
  step s l s' := s' = s.step cfg l

/-- The state after some steps. -/
def run (labels : List MemoryLabel) : MemorySystem := labels.foldl (step cfg) (initial cfg)

/-- What some steps reach that meet a guard on the label. -/
theorem foldl_reachable_restrict {cfg : MemoryConfig} {guard : MemorySystem → MemoryLabel → Prop}
    {labels : List MemoryLabel} (hguard : ∀ l ∈ labels, ∀ s, guard s l) {s : MemorySystem}
    (hs : ((system cfg).restrict guard).Reachable s) :
    ((system cfg).restrict guard).Reachable (labels.foldl (step cfg) s) := by
  induction labels generalizing s with
  | nil => exact hs
  | cons l labels ih =>
    rw [List.forall_mem_cons] at hguard
    exact ih hguard.2 (hs.step ⟨hguard.1 s, rfl⟩)

/-- What a run reaches, by such steps. -/
theorem run_reachable_restrict {cfg : MemoryConfig} (guard : MemorySystem → MemoryLabel → Prop)
    {labels : List MemoryLabel} (hguard : ∀ l ∈ labels, ∀ s, guard s l) :
    ((system cfg).restrict guard).Reachable (run cfg labels) :=
  foldl_reachable_restrict hguard (.init rfl)

/-- What a run reaches. -/
theorem run_reachable (cfg : MemoryConfig) (labels : List MemoryLabel) : (system cfg).Reachable (run cfg labels) :=
  (run_reachable_restrict (fun _ _ => True) fun _ _ _ => trivial).of_restrict

/-- Two requestors on eight gigabits at their highest speed. -/
def twoRequestors : MemoryConfig := ⟨.gb8x8, .s2400U, 2, Nat.le_of_ble_eq_true rfl⟩

end MemorySystem

end Octopus.MCsim
