import Octopus.Interconnect.Interface

/-!
# Arbiters

An arbiter looks at the transmit buffers of a bus and picks the place of the next message: a
buffer and an index in it. The bus removes the message at that place and carries it. The FCFS
arbiter picks the oldest head of a buffer; the round robin arbiter passes from candidate to
candidate and picks the oldest message of the first one that has any; the TDM arbiter passes to the
next candidate once a period and picks the oldest message of that one alone.
-/

namespace Octopus

/-- The place of a message: a buffer and an index in it. -/
structure BufferPlace where
  buffer : Nat
  index : Nat
  deriving DecidableEq, Repr

/-- An arbiter: it picks a place, and may keep a state of its own. -/
structure Arbiter where
  State : Type
  /-- The state the constructor leaves. -/
  init : State
  elect : State → Nat → List (List BusMessage) → State × Option BufferPlace
  forceElect : State → Nat → List (List BusMessage) → State × Option BufferPlace

namespace Arbiter

/-- The bound no message's cycle reaches when it is elected: the largest 64-bit number. -/
def maxCycle : Nat := 0xFFFFFFFFFFFFFFFF

/-- Scan the buffers, numbered from `i`, for the candidate of least cycle; the first of equals
stays. `find` is the candidate of a buffer with its index. -/
def scan (find : List BusMessage → Option (BusMessage × Nat)) :
    List (List BusMessage) → Nat → Nat → Option BufferPlace → Option BufferPlace
  | [], _, _, best => best
  | buffer :: buffers, i, bestCycle, best =>
    match find buffer with
    | some (msg, index) =>
      if msg.cycle < bestCycle then scan find buffers (i + 1) msg.cycle (some ⟨i, index⟩)
      else scan find buffers (i + 1) bestCycle best
    | none => scan find buffers (i + 1) bestCycle best

/-- The first message of an owner in a buffer, with its index. -/
def findMessage (owner : Nat) (buffer : List BusMessage) : Option (BusMessage × Nat) :=
  buffer.zipIdx.find? fun entry => entry.1.owner == owner

/-- The owner's oldest message over all buffers. -/
def electOldestOwned (buffers : List (List BusMessage)) (owner : Nat) : Option BufferPlace :=
  scan (findMessage owner) buffers 0 maxCycle none

end Arbiter

/-- First come, first served: the oldest head of a buffer. -/
def fcfsElect (buffers : List (List BusMessage)) : Option BufferPlace :=
  Arbiter.scan (fun buffer => buffer.zipIdx.head?) buffers 0 Arbiter.maxCycle none

/-- The FCFS arbiter; it has no state, and a forced election is an election. -/
def FCFSArbiter : Arbiter where
  State := Unit
  init := ()
  elect _ _ buffers := ((), fcfsElect buffers)
  forceElect _ _ buffers := ((), fcfsElect buffers)

/-- The registers of the round robin arbiter. -/
structure RRState where
  candidateIndex : Nat := 0
  candidateId : Nat := 0
  deriving DecidableEq, Repr

namespace RRState

/-- Move to the next candidate. -/
def selectCandidate (candidates : List Nat) (st : RRState) : RRState :=
  let index := (st.candidateIndex + 1) % candidates.length
  { candidateIndex := index, candidateId := candidates.getD index 0 }

/-- Try the next candidates, at most `n` of them, until one has a message. -/
def elect (candidates : List Nat) (buffers : List (List BusMessage)) :
    Nat → RRState → RRState × Option BufferPlace
  | 0, st => (st, none)
  | n + 1, st =>
    let st' := st.selectCandidate candidates
    match Arbiter.electOldestOwned buffers st'.candidateId with
    | some place => (st', some place)
    | none => elect candidates buffers n st'

end RRState

/-- The round robin arbiter: an election tries every candidate once, a forced election only the
current one. -/
def RRArbiter (candidates : List Nat) : Arbiter where
  State := RRState
  init := {}
  elect st _ buffers := st.elect candidates buffers candidates.length
  forceElect st _ buffers := (st, Arbiter.electOldestOwned buffers st.candidateId)

namespace TDMArbiter

variable (candidates : List Nat) (arbiterPeriod : Nat)

/-- Move to the next candidate when a period begins. -/
def selectCandidate (index cycle : Nat) : Nat :=
  if cycle % arbiterPeriod = 0 then (index + 1) % candidates.length else index

/-- The candidate the arbiter has come to. -/
def candidate (index : Nat) : Nat :=
  candidates.getD index 0

/-- The oldest message of the slot owner. -/
def coreElect (index cycle : Nat) (buffers : List (List BusMessage)) : Nat × Option BufferPlace :=
  let index' := selectCandidate candidates arbiterPeriod index cycle
  (index', Arbiter.electOldestOwned buffers (candidate candidates index'))

/-- The TDM arbiter: its state is `candidate_index`, and it elects when a period begins only. -/
def arbiter : Arbiter where
  State := Nat
  init := 0
  elect index cycle buffers :=
    if cycle % arbiterPeriod ≠ 0 then (index, none) else coreElect candidates arbiterPeriod index cycle buffers
  forceElect := coreElect candidates arbiterPeriod

end TDMArbiter

end Octopus
