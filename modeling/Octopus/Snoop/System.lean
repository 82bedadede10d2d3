import Octopus.Lib.Sequence
import Octopus.Lib.TransitionSystem
import Octopus.Protocols.LLCProtocol

/-!
# One line of a snooping system

Any number of private caches and one last-level cache on a split bus, as far as one line is
concerned. A state holds the controllers, the last-level cache's processing queue, the requests
that wait for the request bus, the data messages on their way to an addressee and the reads that
main memory has not answered. Addresses are offsets in the line.

A granted request or invalidation is consumed by every private cache at once; the last-level
cache then drains its queue with `getFirstReady`, so it processes what the per-line gate and the
Stall cells let through, oldest first. Main memory keeps no data: a fill carries zeros.
-/

namespace Octopus.Snoop

open LineController

/-- The size and the identifiers of a system; private cache `i` has the identifier `i`. -/
structure Topology where
  /-- The number of private caches. -/
  n : Nat
  llcId : Nat
  memoryId : Nat
  blockSize : Nat
  llcId_ge : n ≤ llcId
  llcId_ne_memoryId : llcId ≠ memoryId
  blockSize_le : blockSize ≤ 64

/-- A data message on its way to one addressee. -/
structure Flight where
  msg : Message
  dest : Nat
  deriving DecidableEq, Repr

/-- The two protocols of a system. -/
structure Protocols (σ τ : Type) where
  l1 : L1Protocol σ
  llc : LLCProtocol τ

/-- The state of one line. -/
structure System (t : Topology) (σ τ : Type) where
  l1 : Fin t.n → LineController σ
  /-- The snooped messages that wait on a Stall cell in a private cache's queue. -/
  waiting : Fin t.n → List Message
  llc : LineController τ
  queue : FRFCFSBuffer
  /-- The requests and invalidations that wait for the request bus. -/
  bus : List Message
  flight : List Flight
  /-- The reads main memory has not answered. -/
  memory : List Message
  /-- The responses handed to the processors so far. -/
  cpu : List (Fin t.n × Message)
  nextId : Nat

/-- The steps of a run; an index picks one message among those that wait or are on their way. -/
inductive Label (n : Nat)
  | load (i : Fin n) (offset : Nat)
  | store (i : Fin n) (offset : Nat) (bytes : Option (List UInt8))
  | replacement (i : Fin n)
  | evict
  | grant (k : Nat)
  | retry (i : Fin n) (k : Nat)
  | deliver (k : Nat)
  | fill (k : Nat)

variable {t : Topology} {σ τ : Type}

namespace Topology

/-- The controller of private cache `i`. -/
def l1Config (t : Topology) (i : Fin t.n) : ControllerConfig where
  id := i
  sharedMemoryId := t.llcId
  blockSize := t.blockSize
  deferredSupplyCopiesToLLC := true

/-- The controller of the last-level cache. -/
def llcConfig (t : Topology) : ControllerConfig where
  id := t.llcId
  sharedMemoryId := t.memoryId
  blockSize := t.blockSize
  deferredSupplyCopiesToLLC := true

end Topology

/-- The messages emitted on one port and channel. -/
def emitted (port : Port) (type : MessageType) (out : List Emission) : List Message :=
  out.filterMap fun e => if e.port = port ∧ e.type = type then some e.msg else none

/-- The deliveries a list of data messages asks for. -/
def flights (msgs : List Message) : List Flight :=
  msgs.flatMap fun msg => msg.toIds.map fun dest => ⟨msg, dest⟩

/-- What a private cache emits, put where it belongs. -/
def System.emitL1 (s : System t σ τ) (i : Fin t.n) (out : List Emission) : System t σ τ :=
  { s with
    waiting := Function.update s.waiting i (s.waiting i ++ emitted .processingQueue .request out)
    bus := s.bus ++ emitted .upper .request out
    flight := s.flight ++ flights (emitted .upper .dataResponse out)
    cpu := s.cpu ++ (emitted .lower .dataResponse out).map fun msg => (i, msg) }

/-- What all private caches emit for one broadcast, in the order of their identifiers. -/
def System.emitAll (s : System t σ τ) (out : Fin t.n → List Emission) : System t σ τ :=
  let all (port : Port) (type : MessageType) : List Message :=
    (List.finRange t.n).flatMap fun i => emitted port type (out i)
  { s with
    waiting := fun i => s.waiting i ++ emitted .processingQueue .request (out i)
    bus := s.bus ++ all .upper .request
    flight := s.flight ++ flights (all .upper .dataResponse)
    cpu := s.cpu ++ (List.finRange t.n).flatMap fun i =>
      (emitted .lower .dataResponse (out i)).map fun msg => (i, msg) }

/-- What the last-level cache emits; main memory drops what is written to it. -/
def System.emitLLC (s : System t σ τ) (out : List Emission) : System t σ τ :=
  { s with
    bus := s.bus ++ emitted .lower .serviceRequest out
    flight := s.flight ++ flights (emitted .lower .dataResponse out)
    memory := s.memory ++ emitted .upper .request out }

/-- The line bits a scan of the last-level cache's queue sees. -/
def llcScan (P : LLCProtocol τ) (cfg : ControllerConfig) (c : LineController τ) : FRFCFSBuffer.Scan where
  sameLine _ _ := true
  hold _ := false
  checkState msg _ :=
    -- an exit in the callback ends the run like the same exit in `processRequest`
    match P.getRequestState cfg.id (c.slot.readLineBits P.initial) msg with
    | .ok checked => checked
    | .error _ => (.ready, msg)

/-- `processLogic` at the last-level cache: process ready messages until none is left. -/
def drain (P : LLCProtocol τ) (cfg : ControllerConfig) :
    Nat → LineController τ → FRFCFSBuffer → Except Exit (LineController τ × FRFCFSBuffer × List Emission)
  | 0, c, q => .ok (c, q, [])
  | fuel + 1, c, q =>
    match q.getFirstReady (llcScan P cfg c) with
    | (none, q') => .ok (c, q', [])
    | (some msg, q') =>
      match P.process cfg c msg with
      | .error e => .error e
      | .ok (c', out) =>
        match drain P cfg fuel c' q' with
        | .error e => .error e
        | .ok (c'', q'', out') => .ok (c'', q'', out ++ out')

/-- The last-level cache works on a queue; every popped message leaves it for good. -/
def System.drainLLC (P : LLCProtocol τ) (s : System t σ τ) (q : FRFCFSBuffer) :
    Except Exit (System t σ τ) :=
  match drain P t.llcConfig (q.buffer.length + 1) s.llc q with
  | .error e => .error e
  | .ok (c, q', out) => .ok ({ s with llc := c, queue := q' }.emitLLC out)

/-- A message enters the last-level cache from below, and the queue is drained. -/
def System.receiveLLC (P : LLCProtocol τ) (s : System t σ τ) (msg : Message) :
    Except Exit (System t σ τ) :=
  match s.queue.pushBack msg .nonReady true with
  | none => .ok s
  | some q => s.drainLLC P q

/-- Private cache `i` processes a message. -/
def System.runL1 (P : L1Protocol σ) (s : System t σ τ) (i : Fin t.n) (msg : Message) :
    Except Exit (System t σ τ) :=
  match P.process (t.l1Config i) (s.l1 i) msg with
  | .error e => .error e
  | .ok (c, out) => .ok ({ s with l1 := Function.update s.l1 i c }.emitL1 i out)

/-- Whether the row of a message does not stall in private cache `i`. -/
def System.readyL1 (P : L1Protocol σ) (s : System t σ τ) (i : Fin t.n) (msg : Message) : Bool :=
  match P.getRequestState i ((s.l1 i).slot.readLineBits P.initial) msg with
  | .ok (.ready, _) => true
  | _ => false

/-- A processor request or a self-generated replacement, once its row does not stall. -/
def System.request (P : L1Protocol σ) (s : System t σ τ) (i : Fin t.n) (msg : Message) :
    Option (Except Exit (System t σ τ)) :=
  if s.readyL1 P i msg then some ({ s with nextId := s.nextId + 1 }.runL1 P i msg) else none

/-- A broadcast: every private cache processes the message, then the last-level cache. -/
def System.broadcast (P : Protocols σ τ) (s : System t σ τ) (msg : Message) :
    Except Exit (System t σ τ) :=
  match Lib.sequence fun i =>
      P.l1.process (t.l1Config i) (s.l1 i) { msg with source := .upperInterconnect } with
  | .error e => .error e
  | .ok results =>
    ({ s with l1 := fun i => (results i).1 }.emitAll fun i => (results i).2).receiveLLC P.llc
      { msg with source := .lowerInterconnect }

/-- The processor's request message. -/
def System.cpuMessage (s : System t σ τ) (i : Fin t.n) (offset type : Nat)
    (bytes : Option (List UInt8)) : Message where
  msgId := s.nextId
  addr := offset
  complementaryValue := type
  owner := i
  toIds := [t.llcId]
  data := bytes
  dataSize := (bytes.getD []).length
  kind := .demand

/-- The message a controller sends itself to evict a line. -/
def System.evictMessage (s : System t σ τ) (cfg : ControllerConfig) : Message where
  msgId := s.nextId
  owner := cfg.id
  toIds := [cfg.sharedMemoryId]
  source := .self
  kind := .evict

/-- Main memory's answer to a read. -/
def fillMessage (t : Topology) (read : Message) : Message where
  msgId := read.msgId
  addr := read.addr
  owner := read.owner
  toIds := [t.llcId]
  source := .upperInterconnect
  data := some (List.replicate 64 0)
  dataSize := 64
  kind := .fill

/-- One step; `none` where the label is not enabled. -/
def System.step (P : Protocols σ τ) (s : System t σ τ) : Label t.n → Option (Except Exit (System t σ τ))
  | .load i offset =>
    if offset < t.blockSize then s.request P.l1 i (s.cpuMessage i offset 0 none) else none
  | .store i offset bytes =>
    if offset < t.blockSize ∧ offset + (bytes.getD []).length ≤ t.blockSize then
      s.request P.l1 i (s.cpuMessage i offset 1 bytes)
    else none
  | .replacement i => s.request P.l1 i (s.evictMessage (t.l1Config i))
  | .evict =>
    match s.llc.slot with
    | some r =>
      if r.location = .array then
        some ({ s with
          llc := { s.llc with slot := s.llc.slot.moveLine2WB }
          nextId := s.nextId + 1 }.receiveLLC P.llc (s.evictMessage t.llcConfig))
      else none
    | none => none
  | .grant k =>
    match s.bus[k]? with
    | some msg => some ({ s with bus := s.bus.eraseIdx k }.broadcast P msg)
    | none => none
  | .retry i k =>
    match (s.waiting i)[k]? with
    | some msg =>
      if s.readyL1 P.l1 i msg then
        some ({ s with
          waiting := Function.update s.waiting i ((s.waiting i).eraseIdx k) }.runL1 P.l1 i msg)
      else none
    | none => none
  | .deliver k =>
    match s.flight[k]? with
    | some f =>
      let s' := { s with flight := s.flight.eraseIdx k }
      if f.dest = t.llcId then
        some (s'.receiveLLC P.llc { f.msg with source := .lowerInterconnect })
      else if h : f.dest < t.n then
        some (s'.runL1 P.l1 ⟨f.dest, h⟩ { f.msg with source := .upperInterconnect })
      else none
    | none => none
  | .fill k =>
    match s.memory[k]? with
    | some read =>
      some ({ s with memory := s.memory.eraseIdx k }.drainLLC P.llc
        (s.queue.pushFrontOrdered (fillMessage t read)))
    | none => none

/-- The first state: nothing is resident, queued or on its way. -/
def System.initial (t : Topology) (σ τ : Type) : System t σ τ where
  l1 _ := {}
  waiting _ := []
  llc := {}
  queue := {}
  bus := []
  flight := []
  memory := []
  cpu := []
  nextId := 0

/-- The runs of a snooping system. -/
def system (t : Topology) (P : Protocols σ τ) : Lib.TransitionSystem (System t σ τ) (Label t.n) where
  init s := s = .initial t σ τ
  step s l s' := s.step P l = some (.ok s')

/-- Run a list of steps; `none` once a label is not enabled or the simulator has exited. -/
def System.run (P : Protocols σ τ) (s : System t σ τ) : List (Label t.n) → Option (System t σ τ)
  | [] => some s
  | l :: rest =>
    match s.step P l with
    | some (.ok s') => s'.run P rest
    | _ => none

/-- One step; `none` where the label is not enabled or the simulator exits. -/
def System.next (P : Protocols σ τ) (s : System t σ τ) (l : Label t.n) : Option (System t σ τ) :=
  (s.step P l).bind Except.toOption

/-- Such a step is a step of the system. -/
theorem System.step_of_next {P : Protocols σ τ} {s s' : System t σ τ} {l : Label t.n}
    (h : s.next P l = some s') : (system t P).step s l s' := by
  show s.step P l = some (.ok s')
  rw [System.next] at h
  cases hres : s.step P l with
  | none => simp [hres] at h
  | some r =>
    cases r with
    | error e => simp [hres, Except.toOption] at h
    | ok s₁ => simpa [hres, Except.toOption] using h

/-- What a run reaches is reachable. -/
theorem System.run_reachable {P : Protocols σ τ} {ls : List (Label t.n)} {s s' : System t σ τ}
    (hs : (system t P).Reachable s) (h : s.run P ls = some s') : (system t P).Reachable s' := by
  induction ls generalizing s with
  | nil =>
    obtain rfl : s = s' := by simpa [System.run] using h
    exact hs
  | cons l rest ih =>
    rw [System.run] at h
    split at h
    · next s₁ hstep => exact ih (hs.step hstep) h
    · simp at h

end Octopus.Snoop
