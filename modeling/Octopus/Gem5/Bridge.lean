import Octopus.Lib.TransitionSystem
import Mathlib.Algebra.Group.Nat.Defs
import Mathlib.Data.List.AList
import Mathlib.Data.List.Sort
import Mathlib.Data.Prod.Lex

/-!
# The gem5 bridge

The bridge accepts packets from the ports of a gem5 core, hands them to the simulator, performs their
data when the simulator commits them and answers them when it completes them. The data of an access
is held back while an older write to the same bytes has not performed its own. Answering a packet may
let a port send again, which re-enters the bridge.

gem5 and the simulator are parameters: the memory a run starts with and what `sendAtomic` makes of the
memory and a packet, the ids `addRequest` returns, when the L1 is blocked, and what a sender re-issues
when it is asked to retry. `accepted`, `committed`, `completed`, `performed`, `answered` and `data` are
histories, as are the ids in `sent`; no function reads them.
-/

namespace Octopus

/-- What a packet asks for. It lies inside the address space. -/
structure Access where
  addr : Nat
  size : Nat
  isRead : Bool := false
  isWrite : Bool := false
  isInvalidate : Bool := false
  isClean : Bool := false
  isUncacheable : Bool := false
  isMemAddr : Bool := true
  fits : addr + size < 2 ^ 64
  deriving DecidableEq

/-- Two accesses have bytes in common. -/
def Access.Overlaps (a b : Access) : Prop :=
  a.addr < b.addr + b.size ∧ b.addr < a.addr + a.size

instance (a b : Access) : Decidable (a.Overlaps b) :=
  inferInstanceAs (Decidable (_ ∧ _))

/-- Whether an access is one to a cache line. -/
def Access.cacheable (a : Access) : Bool :=
  (a.isRead || a.isWrite) && !a.isUncacheable && a.isMemAddr

/-- A packet: a request, or the response it was turned into. -/
structure Packet extends Access where
  isResponse : Bool := false
  deriving DecidableEq

/-- An accepted packet with its progress. `seq` is its place in the order of acceptance. -/
structure PendingTxn where
  pkt : Packet
  portId : Nat
  committed : Bool := false
  seq : Nat
  dataDone : Bool := false
  completionArrived : Bool := false
  deriving DecidableEq

/-- The ways the bridge panics; `outOfFuel` is none of the program's. -/
inductive BridgeExit
  | issuedTwice
  | unknownData
  | notResponse
  | unknownCommit
  | committedTwice
  | addrMismatch
  | unknownCompletion
  | completedBeforeCommit
  | outOfFuel
  deriving DecidableEq

/-- What the bridge is connected to: the memory, the simulator and the senders. -/
structure Surroundings (μ : Type) where
  /-- The memory before the run. -/
  memory : μ
  /-- Perform the data of a packet at once. -/
  sendAtomic : μ → Packet → μ × Packet
  /-- The id `addRequest` returns for the packet of a sequence number. -/
  msgId : Nat → Nat
  /-- Whether the L1 is blocked, each time it is asked, given the number of outstanding requests. -/
  isBlocked : Nat → Nat → Bool
  /-- What the sender re-issues on each retry. -/
  resend : Nat → List Access
  response : ∀ m pkt, pkt.isResponse = false → pkt.cacheable →
    (sendAtomic m pkt).2 = { pkt with isResponse := true }
  msgId_injective : Function.Injective msgId

/-- The bridge of a core. -/
structure Bridge (μ : Type) where
  mem : μ
  pendingRequests : AList fun _ : Nat => PendingTxn := ∅
  nextSeq : Nat := 0
  needRetry : List Bool := []
  /-- How often the L1 was asked whether it is blocked. -/
  checks : Nat := 0
  /-- How many retries were sent. -/
  retries : Nat := 0
  /-- The packets sent to the ports, each with its port and the id of the access it answers, if it was
  handed to the simulator. -/
  sent : List (Option Nat × Nat × Packet) := []
  /-- The packets whose data the memory performed, with the ids of their accesses in the same way. -/
  data : List (Option Nat × Packet) := []
  /-- The accesses handed to the simulator, each with its port. -/
  accepted : List (Access × Nat) := []
  committed : List Nat := []
  completed : List Nat := []
  performed : List Nat := []
  answered : List Nat := []

namespace Bridge

variable {μ : Type} (env : Surroundings μ)

/-- Send a packet to a port. -/
def sendPacket (s : Bridge μ) (msgId : Option Nat) (port : Nat) (pkt : Packet) : Bridge μ :=
  { s with sent := s.sent ++ [(msgId, port, pkt)] }

/-- Hand a packet to the simulator and record it. -/
def submit (s : Bridge μ) (a : Access) (port : Nat) : Except BridgeExit (Bridge μ) :=
  let id := env.msgId s.nextSeq
  if (s.pendingRequests.lookup id).isSome then .error .issuedTwice
  else
    .ok { s with
      pendingRequests := s.pendingRequests.insert id { pkt := { a with }, portId := port, seq := s.nextSeq }
      nextSeq := s.nextSeq + 1
      accepted := s.accepted ++ [(a, port)] }

/-- Whether the L1 is blocked. -/
def portBlocked (s : Bridge μ) : Bool × Bridge μ :=
  (env.isBlocked s.checks s.pendingRequests.entries.length, { s with checks := s.checks + 1 })

/-- A packet that is not for a cache line goes to the memory at once. -/
def bypass (s : Bridge μ) (a : Access) (port : Nat) : Bridge μ :=
  let (mem, pkt) := env.sendAtomic s.mem { a with }
  let s := { s with mem := mem, data := s.data ++ [(none, { a with })] }
  if pkt.isResponse then s.sendPacket none port pkt else s

/-- A port receives a packet; the answer is whether it is taken. -/
def accessTiming (s : Bridge μ) (a : Access) (port : Nat) : Except BridgeExit (Bool × Bridge μ) :=
  if a.isInvalidate || a.isClean then .ok (true, s.sendPacket none port { a with isResponse := true })
  else if !a.cacheable then .ok (true, s.bypass env a port)
  else
    match s.portBlocked env with
    | (true, s) => .ok (false, { s with needRetry := s.needRetry.set port true })
    | (false, s) => (s.submit env a port).map fun s => (true, s)

/-- Ask the first port that waits to send again; its sender re-issues packets. -/
def retryBlockedPorts (s : Bridge μ) : Except BridgeExit (Bridge μ) :=
  match s.portBlocked env with
  | (true, s) => .ok s
  | (false, s) =>
    match s.needRetry.findIdx? id with
    | none => .ok s
    | some port =>
      (env.resend s.retries).foldlM (fun s a => (s.accessTiming env a port).map (·.2))
        { s with needRetry := s.needRetry.set port false, retries := s.retries + 1 }

/-- Whether an older write to the same bytes has not performed its data; addresses are 64-bit numbers. -/
def blockedByOlderWrite (s : Bridge μ) (txn : PendingTxn) : Bool :=
  let lo := txn.pkt.addr
  let hi := (lo + txn.pkt.size) % 2 ^ 64
  s.pendingRequests.entries.any fun entry =>
    let o := entry.2
    let olo := o.pkt.addr
    !(decide (txn.seq ≤ o.seq) || o.dataDone || !o.pkt.isWrite) &&
      decide (olo < hi) && decide (lo < (olo + o.pkt.size) % 2 ^ 64)

/-- Answer a packet. -/
def respond (s : Bridge μ) (msgId : Nat) : Except BridgeExit (Bridge μ) :=
  match s.pendingRequests.lookup msgId with
  | none => .error .unknownData
  | some txn =>
    if txn.pkt.isResponse = false then .error .notResponse
    else
      let s := { s with
        pendingRequests := s.pendingRequests.erase msgId
        answered := s.answered ++ [msgId] }
      (s.sendPacket (some msgId) txn.portId txn.pkt).retryBlockedPorts env

/-- The accesses that are committed and not performed, the oldest first. -/
def held (s : Bridge μ) : List (Nat ×ₗ Nat) :=
  ((s.pendingRequests.entries.filter fun entry => entry.2.committed && !entry.2.dataDone).map
    fun entry => toLex (entry.2.seq, entry.1)).insertionSort (· ≤ ·)

/-- Perform an access that was held back, if it still is and nothing blocks it. -/
def releaseNext (performData : Nat → Bridge μ → Except BridgeExit (Bridge μ)) (s : Bridge μ) (h : Nat ×ₗ Nat) :
    Except BridgeExit (Bridge μ) :=
  match s.pendingRequests.lookup (ofLex h).2 with
  | none => .ok s
  | some txn =>
    if txn.dataDone then .ok s
    else if s.blockedByOlderWrite txn then .ok s
    else performData (ofLex h).2 s

/-- Perform what is held back and no longer blocked, looking each access up again. -/
def releaseHeldBack (performData : Nat → Bridge μ → Except BridgeExit (Bridge μ)) (s : Bridge μ) :
    Except BridgeExit (Bridge μ) :=
  s.held.foldlM (releaseNext performData) s

/-- The memory performs the data of an access and makes its packet a response. -/
def perform (s : Bridge μ) (msgId : Nat) (txn : PendingTxn) : Bridge μ :=
  let result := env.sendAtomic s.mem txn.pkt
  { s with
    mem := result.1
    pendingRequests := s.pendingRequests.insert msgId { txn with pkt := result.2, dataDone := true }
    data := s.data ++ [(some msgId, txn.pkt)]
    performed := s.performed ++ [msgId] }

/-- Perform the data of an access, answer it if it is complete, and release what a write held back.
The recursion is as deep as there are accesses to perform; the first argument bounds it. -/
def performData : Nat → Nat → Bridge μ → Except BridgeExit (Bridge μ)
  | 0, _, _ => .error .outOfFuel
  | fuel + 1, msgId, s =>
    match s.pendingRequests.lookup msgId with
    | none => .error .unknownData
    | some txn =>
      if (env.sendAtomic s.mem txn.pkt).2.isResponse = false then .error .notResponse
      else
        let s := s.perform env msgId txn
        (if txn.completionArrived then s.respond env msgId else .ok s).bind fun s =>
          if txn.pkt.isWrite then s.releaseHeldBack (performData fuel) else .ok s

/-- The simulator commits a request. -/
def onCommit (s : Bridge μ) (msgId address : Nat) : Except BridgeExit (Bridge μ) :=
  match s.pendingRequests.lookup msgId with
  | none => .error .unknownCommit
  | some txn =>
    if txn.committed then .error .committedTwice
    else if txn.pkt.addr ≠ address then .error .addrMismatch
    else
      let txn := { txn with committed := true }
      let s := { s with
        pendingRequests := s.pendingRequests.insert msgId txn
        committed := s.committed ++ [msgId] }
      if s.blockedByOlderWrite txn then .ok s
      else performData env s.pendingRequests.entries.length msgId s

/-- The simulator completes a request. -/
def cacheSimCallback (s : Bridge μ) (msgId : Nat) : Except BridgeExit (Bridge μ) :=
  match s.pendingRequests.lookup msgId with
  | none => .error .unknownCompletion
  | some txn =>
    if txn.committed = false then .error .completedBeforeCommit
    else
      let s := { s with completed := s.completed ++ [msgId] }
      if txn.dataDone = false then
        .ok { s with pendingRequests := s.pendingRequests.insert msgId { txn with completionArrived := true } }
      else s.respond env msgId

/-- What happens at the bridge: a port receives a packet, the simulator commits or completes a
request, or the clock ticks. -/
inductive Event
  | access (a : Access) (port : Nat)
  | commit (msgId address : Nat)
  | complete (msgId : Nat)
  | tick
  deriving DecidableEq

/-- One step of a run. -/
def exec (s : Bridge μ) : Event → Except BridgeExit (Bridge μ)
  | .access a port => (s.accessTiming env a port).map (·.2)
  | .commit msgId address => s.onCommit env msgId address
  | .complete msgId => s.cacheSimCallback env msgId
  | .tick => s.retryBlockedPorts env

/-- What the simulator keeps to: it commits each accepted request once, under its address, and
completes each committed one once. -/
def Keeps (s : Bridge μ) : Event → Prop
  | .commit msgId address => msgId ∉ s.committed ∧
      ∃ k < s.nextSeq, env.msgId k = msgId ∧ s.accepted[k]?.any fun a => a.1.addr == address
  | .complete msgId => msgId ∈ s.committed ∧ msgId ∉ s.completed
  | _ => True

instance (s : Bridge μ) : (e : Event) → Decidable (s.Keeps env e)
  | .access _ _ | .tick => inferInstanceAs (Decidable True)
  | .commit msgId address => inferInstanceAs (Decidable (msgId ∉ s.committed ∧
      ∃ k < s.nextSeq, env.msgId k = msgId ∧ s.accepted[k]?.any fun a => a.1.addr == address))
  | .complete msgId => inferInstanceAs (Decidable (msgId ∈ s.committed ∧ msgId ∉ s.completed))

/-- The runs of the bridge. -/
def system : Lib.TransitionSystem (Bridge μ) Event where
  init s := ∃ ports, s = { mem := env.memory, needRetry := ports }
  step s e s' := s.Keeps env e ∧ s.exec env e = .ok s'

end Bridge

end Octopus
