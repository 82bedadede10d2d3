import Octopus.Lib.TransitionSystem
import Octopus.Protocols.LLCDirectory
import Octopus.Snoop.System

/-!
# One line of a directory system

Any number of private caches and the home of one line. Requests, data and service messages travel on
channels of their own: two messages of one channel with the same sender and addressee arrive in the order
in which they were sent, and nothing else is ordered. A message on a Stall cell waits at its addressee,
where a later one may pass it. Main memory keeps what is written back to it.
-/

namespace Octopus.Directory

open Snoop (Topology emitted)

/-- A message on its way to one addressee. -/
structure Flight where
  type : MessageType
  msg : Message
  dest : Nat
  deriving DecidableEq, Repr

/-- The two protocols of a system. -/
structure Protocols (σ τ : Type) where
  core : DirectoryProtocol σ
  home : HomeProtocol τ

/-- The state of one line. -/
structure System (t : Topology) (σ τ : Type) where
  core : Fin t.n → DirectoryController σ
  home : DirectoryController τ
  flight : List Flight
  /-- The reads main memory has not answered. -/
  memory : List Message
  /-- The bytes main memory keeps. -/
  stored : List UInt8
  /-- The responses handed to the processors so far. -/
  cpu : List (Fin t.n × Message)
  nextId : Nat

/-- The steps of a run; an index picks one message among those that are on their way. -/
inductive Label (n : Nat)
  | load (i : Fin n) (offset : Nat)
  | store (i : Fin n) (offset : Nat) (bytes : Option (List UInt8))
  | replacement (i : Fin n)
  | evict
  | deliver (k : Nat)
  | fill (k : Nat)

variable {t : Topology} {σ τ : Type}

/-- The controller of private cache `i`. -/
def coreConfig (t : Topology) (i : Fin t.n) : ControllerConfig where
  id := i
  sharedMemoryId := t.llcId
  blockSize := t.blockSize
  deferredSupplyCopiesToLLC := false

/-- The controller of the home. -/
def homeConfig (t : Topology) : ControllerConfig where
  id := t.llcId
  sharedMemoryId := t.memoryId
  blockSize := t.blockSize
  deferredSupplyCopiesToLLC := false

/-- The deliveries that a sender's messages on one channel ask for. -/
def flights (sender : Nat) (type : MessageType) (msgs : List Message) : List Flight :=
  msgs.flatMap fun msg => msg.toIds.map fun dest => ⟨type, { msg with fromId := sender }, dest⟩

/-- What a private cache emits, put where it belongs; a row that stalls never runs. -/
def System.emitCore (s : System t σ τ) (i : Fin t.n) (out : List Emission) : System t σ τ :=
  { s with
    flight := s.flight ++ flights i .request (emitted .upper .request out) ++
      flights i .dataResponse (emitted .upper .dataResponse out)
    cpu := s.cpu ++ (emitted .lower .dataResponse out).map fun msg => (i, msg) }

/-- What the home emits; a write-back overwrites what main memory keeps. -/
def System.emitHome (s : System t σ τ) (out : List Emission) : System t σ τ :=
  { s with
    flight := s.flight ++ flights t.llcId .serviceRequest (emitted .lower .serviceRequest out) ++
      flights t.llcId .dataResponse (emitted .lower .dataResponse out)
    memory := s.memory ++ emitted .upper .request out
    stored := ((emitted .upper .dataResponse out).filterMap Message.data).getLast?.getD s.stored }

/-- Private cache `i` processes a message. -/
def System.runCore (P : DirectoryProtocol σ) (s : System t σ τ) (i : Fin t.n) (msg : Message) :
    Except Exit (System t σ τ) :=
  match P.process (coreConfig t i) (s.core i) msg with
  | .error e => .error e
  | .ok (c, out) => .ok ({ s with core := Function.update s.core i c }.emitCore i out)

/-- The home processes a message. -/
def System.runHome (P : HomeProtocol τ) (s : System t σ τ) (msg : Message) : Except Exit (System t σ τ) :=
  match P.process (homeConfig t) s.home msg with
  | .error e => .error e
  | .ok (c, out) => .ok ({ s with home := c }.emitHome out)

/-- Whether a message does not wait in private cache `i`; an exit of the check ends the run as the row does. -/
def System.coreReady (P : DirectoryProtocol σ) (s : System t σ τ) (i : Fin t.n) (msg : Message) : Bool :=
  match P.getRequestState (coreConfig t i) (s.core i).ackCounter ((s.core i).line.slot.readLineBits P.initial) msg with
  | .ok .nonReady => false
  | _ => true

/-- Whether a message does not wait in the home. -/
def System.homeReady (P : HomeProtocol τ) (s : System t σ τ) (msg : Message) : Bool :=
  match P.getRequestState (homeConfig t) (s.home.line.slot.readLineBits P.initial) s.home.sharers msg with
  | .ok .nonReady => false
  | _ => true

/-- Whether a message on its way would not wait at its addressee. -/
def System.ready (P : Protocols σ τ) (s : System t σ τ) (f : Flight) : Bool :=
  if h : f.dest < t.n then s.coreReady P.core ⟨f.dest, h⟩ { f.msg with source := .upperInterconnect }
  else s.homeReady P.home { f.msg with source := .lowerInterconnect }

/-- Whether an earlier message of the same channel, sender and addressee is to be taken first. -/
def System.passed (P : Protocols σ τ) (s : System t σ τ) (k : Nat) (f : Flight) : Bool :=
  (s.flight.take k).any fun g =>
    g.type == f.type && g.msg.fromId == f.msg.fromId && g.dest == f.dest && s.ready P g

/-- A processor request or a self-generated replacement, once its row does not stall. -/
def System.request (P : DirectoryProtocol σ) (s : System t σ τ) (i : Fin t.n) (msg : Message) :
    Option (Except Exit (System t σ τ)) :=
  if s.coreReady P i msg then some ({ s with nextId := s.nextId + 1 }.runCore P i msg) else none

/-- The processor's request message. -/
def System.cpuMessage (s : System t σ τ) (i : Fin t.n) (offset type : Nat) (bytes : Option (List UInt8)) : Message where
  msgId := s.nextId
  addr := offset
  complementaryValue := type
  owner := i
  toIds := [t.llcId]
  data := bytes
  dataSize := (bytes.getD []).length
  kind := .demand

/-- The message a controller sends itself to evict a line. -/
def System.evictMessage (s : System t σ τ) (cfg : ControllerConfig) : Message where
  msgId := s.nextId
  owner := cfg.id
  toIds := [cfg.sharedMemoryId]
  source := .self
  kind := .evict

/-- Main memory's answer to a read. -/
def System.fillMessage (s : System t σ τ) (read : Message) : Message where
  msgId := read.msgId
  addr := read.addr
  owner := read.owner
  fromId := t.memoryId
  toIds := [t.llcId]
  source := .upperInterconnect
  data := some s.stored
  dataSize := 64
  kind := .fill

/-- One step; `none` where the label is not enabled. -/
def System.step (P : Protocols σ τ) (s : System t σ τ) : Label t.n → Option (Except Exit (System t σ τ))
  | .load i offset =>
    if offset < t.blockSize then s.request P.core i (s.cpuMessage i offset 0 none) else none
  | .store i offset bytes =>
    if offset < t.blockSize ∧ offset + (bytes.getD []).length ≤ t.blockSize then
      s.request P.core i (s.cpuMessage i offset 1 bytes)
    else none
  | .replacement i => s.request P.core i (s.evictMessage (coreConfig t i))
  | .evict =>
    -- a replacement that would wait is not begun yet
    if s.home.line.slot.isSome ∧ s.homeReady P.home (s.evictMessage (homeConfig t)) then
      some ({ s with
        home := { s.home with line := { s.home.line with slot := s.home.line.slot.moveLine2WB } }
        nextId := s.nextId + 1 }.runHome P.home (s.evictMessage (homeConfig t)))
    else none
  | .deliver k =>
    match s.flight[k]? with
    | some f =>
      if s.passed P k f then none
      else
        let s' := { s with flight := s.flight.eraseIdx k }
        if h : f.dest < t.n then
          if s.coreReady P.core ⟨f.dest, h⟩ { f.msg with source := .upperInterconnect } then
            some (s'.runCore P.core ⟨f.dest, h⟩ { f.msg with source := .upperInterconnect })
          else none
        else if f.dest = t.llcId then
          if s.homeReady P.home { f.msg with source := .lowerInterconnect } then
            some (s'.runHome P.home { f.msg with source := .lowerInterconnect })
          else none
        else none
    | none => none
  | .fill k =>
    match s.memory[k]? with
    | some read => some ({ s with memory := s.memory.eraseIdx k }.runHome P.home (s.fillMessage read))
    | none => none

/-- The first state: nothing is resident or on its way, and main memory keeps some bytes. -/
def System.initial (t : Topology) (σ τ : Type) (bytes : List UInt8) : System t σ τ where
  core _ := {}
  home := {}
  flight := []
  memory := []
  stored := bytes
  cpu := []
  nextId := 0

/-- The runs of a directory system. -/
def system (t : Topology) (P : Protocols σ τ) : Lib.TransitionSystem (System t σ τ) (Label t.n) where
  init s := ∃ bytes : List UInt8, bytes.length = 64 ∧ s = .initial t σ τ bytes
  step s l s' := s.step P l = some (.ok s')

/-- Run a list of steps; `none` once a label is not enabled or the simulator has exited. -/
def System.run (P : Protocols σ τ) (s : System t σ τ) : List (Label t.n) → Option (System t σ τ)
  | [] => some s
  | l :: rest =>
    match s.step P l with
    | some (.ok s') => s'.run P rest
    | _ => none

/-- What a run reaches is reachable. -/
theorem System.run_reachable {P : Protocols σ τ} {ls : List (Label t.n)} {s s' : System t σ τ}
    (hs : (system t P).Reachable s) (h : s.run P ls = some s') : (system t P).Reachable s' := by
  induction ls generalizing s with
  | nil =>
    obtain rfl : s = s' := by simpa [System.run] using h
    exact hs
  | cons l rest ih =>
    rw [System.run] at h
    split at h
    · next s₁ hstep => exact ih (hs.step hstep) h
    · simp at h

end Octopus.Directory
