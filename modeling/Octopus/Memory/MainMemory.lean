import Mathlib.Data.List.Basic
import Octopus.FRFCFSBuffer
import Octopus.Interconnect.Interface
import Octopus.Lib.DelayLine
import Octopus.Lib.TransitionSystem

/-!
# Main memory

`MainMemoryController`: in each cycle it takes at most one message from its interface, stamps it with the cycle
and queues it, and then serves the first queued message that has waited for the latency. A read is answered with
a block of zeros, a write is only counted. The queue is an `FRFCFS_Buffer` with neither a line mask nor a hold; a
message that does not fit into it stays in the interface.

The interface is what a cycle brings: the message that a peek finds and whether a push succeeds. `entered` and
`left` are histories, which no function reads.
-/

namespace Octopus

open Lib

/-- The parameters of a memory controller; a queue size of `none` is -1. -/
structure MainMemoryConfig where
  llcId : Nat
  memoryLatency : Nat
  processingQueueSize : Option Nat := some 32

/-- A queued message with its last known readiness. -/
structure MemoryElement where
  item : BusMessage
  state : FRFCFSState
  deriving DecidableEq, Repr

/-- A queued message with the cycle it entered in. -/
def MemoryElement.stamped (e : MemoryElement) : Stamped BusMessage := ⟨e.item.cycle, e.item⟩

/-- A message that has just entered. -/
def MemoryElement.ofStamped (a : Stamped BusMessage) : MemoryElement := ⟨a.item, .nonReady⟩

/-- What the interface does in a cycle. -/
structure MemoryInput where
  request : Option BusMessage
  accepts : Bool

/-- A memory controller. `pushed` are the responses its interface took. -/
structure MainMemoryController where
  clkCycle : Nat := 1
  readCount : Nat := 0
  writeCount : Nat := 0
  processingQueue : List MemoryElement := []
  pushed : List BusMessage := []
  entered : List (Stamped BusMessage) := []
  left : List (Stamped BusMessage) := []

namespace MainMemoryController

variable (cfg : MainMemoryConfig)

/-- `getRequestState`: a message is ready once the latency has passed. -/
def getRequestState (clkCycle : Nat) (msg : BusMessage) (current : FRFCFSState) : FRFCFSState :=
  if current = .nonReady ∧ msg.cycle + cfg.memoryLatency ≤ clkCycle then .ready else .nonReady

/-- `getFirstReady`: take the first message that is ready. -/
def getFirstReady (clkCycle : Nat) : List MemoryElement → Option BusMessage × List MemoryElement
  | [] => (none, [])
  | e :: rest =>
    match if e.state = .ready then .ready else getRequestState cfg clkCycle e.item e.state with
    | .ready => (some e.item, rest)
    | .needsAction => (some e.item, { e with state := .waiting } :: rest)
    | state => ((getFirstReady clkCycle rest).1, { e with state } :: (getFirstReady clkCycle rest).2)

/-- Whether `pushBack` admits a message that is not ready. -/
def admits (s : MainMemoryController) : Bool := cfg.processingQueueSize.all fun size => s.processingQueue.length < size

/-- `addRequests2ProcessingQueue`: queue the message of the interface, if it fits. -/
def addRequests2ProcessingQueue (s : MainMemoryController) : Option BusMessage → MainMemoryController
  | none => s
  | some msg =>
    let msg := { msg with source := .lowerInterconnect, cycle := s.clkCycle }
    if s.admits cfg then
      { s with
        processingQueue := s.processingQueue ++ [⟨msg, .nonReady⟩]
        entered := s.entered ++ [⟨s.clkCycle, msg⟩] }
    else s

/-- The answer to a read, as it is pushed in a cycle. -/
def response (clkCycle : Nat) (msg : BusMessage) : BusMessage :=
  let fill : Message :=
    { msgId := msg.msgId, addr := msg.addr, owner := msg.owner, toIds := [cfg.llcId], kind := .fill }
  { fill.copyData (List.replicate 64 0) with cycle := clkCycle }

/-- `processLogic`: the program exits if the interface refuses a response. -/
def processLogic (s : MainMemoryController) (i : MemoryInput) : Option MainMemoryController :=
  let s := s.addRequests2ProcessingQueue cfg i.request
  match getFirstReady cfg s.clkCycle s.processingQueue with
  | (none, queue) => some { s with processingQueue := queue }
  | (some msg, queue) =>
    let s : MainMemoryController := { s with processingQueue := queue, left := s.left ++ [⟨s.clkCycle, msg⟩] }
    if msg.data = none then
      if i.accepts then
        some { s with readCount := s.readCount + 1, pushed := s.pushed ++ [response cfg s.clkCycle msg] }
      else none
    else some { s with writeCount := s.writeCount + 1 }

/-- `cycleProcess`. -/
def cycleProcess (s : MainMemoryController) (i : MemoryInput) : Option MainMemoryController :=
  (s.processLogic cfg i).map fun s => { s with clkCycle := s.clkCycle + 1 }

/-- The runs of a memory controller. -/
def system : TransitionSystem MainMemoryController MemoryInput where
  init s := s = {}
  step s i s' := s.cycleProcess cfg i = some s'

/-- A read. -/
def isRead (a : Stamped BusMessage) : Bool := a.item.data.isNone

/-- The queued messages with the cycles they entered in. -/
def waiting (s : MainMemoryController) : List (Stamped BusMessage) :=
  s.processingQueue.map MemoryElement.stamped

/-- The queue is a delay line, and the responses and the counters follow what has left it. -/
structure Inv (s : MainMemoryController) : Prop where
  delays : Delays cfg.memoryLatency s.clkCycle s.entered s.waiting s.left
  state : ∀ e ∈ s.processingQueue, e.state = .nonReady
  pushed : s.pushed = (s.left.filter isRead).map fun a => response cfg a.time a.item
  readCount : s.readCount = s.left.countP isRead
  writeCount : s.writeCount = s.left.countP fun a => !isRead a

variable {cfg} {s s' : MainMemoryController} {i : MemoryInput}

/-- The messages that a cycle lets in. -/
def admitted (cfg : MainMemoryConfig) (s : MainMemoryController) : Option BusMessage → List (Stamped BusMessage)
  | none => []
  | some msg =>
    if s.admits cfg then [⟨s.clkCycle, { msg with source := .lowerInterconnect, cycle := s.clkCycle }⟩] else []

/-- A cycle lets in one message at most, and stamps it. -/
theorem admitted_cases (cfg : MainMemoryConfig) (s : MainMemoryController) (request : Option BusMessage) :
    admitted cfg s request = [] ∨ ∃ x, admitted cfg s request = [⟨s.clkCycle, x⟩] := by
  cases request with
  | none => exact .inl rfl
  | some msg =>
    rw [admitted]
    split
    · exact .inr ⟨_, rfl⟩
    · exact .inl rfl

/-- What the intake changes. -/
theorem addRequests_eq (cfg : MainMemoryConfig) (s : MainMemoryController) (request : Option BusMessage) :
    s.addRequests2ProcessingQueue cfg request =
      { s with
        processingQueue := s.processingQueue ++ (admitted cfg s request).map MemoryElement.ofStamped
        entered := s.entered ++ admitted cfg s request } := by
  cases request with
  | none => simp [addRequests2ProcessingQueue, admitted]
  | some msg =>
    rw [addRequests2ProcessingQueue, admitted]
    split <;> simp [MemoryElement.ofStamped]

/-- An admitted message waits from the cycle it was admitted in. -/
theorem waiting_admitted (cfg : MainMemoryConfig) (s : MainMemoryController) (request : Option BusMessage) :
    (admitted cfg s request).map (MemoryElement.stamped ∘ MemoryElement.ofStamped) = admitted cfg s request := by
  cases request with
  | none => rfl
  | some msg =>
    rw [admitted]
    split <;> rfl

/-- A scan over messages none of which is ripe finds nothing. -/
theorem getFirstReady_none (cfg : MainMemoryConfig) {clkCycle : Nat} {queue : List MemoryElement} (hstate : ∀ e ∈ queue, e.state = .nonReady)
    (hlate : ∀ e ∈ queue, clkCycle < e.item.cycle + cfg.memoryLatency) :
    getFirstReady cfg clkCycle queue = (none, queue) := by
  induction queue with
  | nil => rfl
  | cons e queue ih =>
    have hfirst := hstate e List.mem_cons_self
    have hrest := ih (fun e he => hstate e (List.mem_cons_of_mem _ he)) fun e he => hlate e (List.mem_cons_of_mem _ he)
    have hnot : ¬ e.item.cycle + cfg.memoryLatency ≤ clkCycle := Nat.not_le.2 (hlate e List.mem_cons_self)
    have helement : { e with state := FRFCFSState.nonReady } = e := by rw [← hfirst]
    simp [getFirstReady, getRequestState, hfirst, hnot, hrest, helement]

/-- A scan takes the front of the queue if it is ripe. -/
theorem getFirstReady_some (cfg : MainMemoryConfig) {clkCycle : Nat} {e : MemoryElement} (queue : List MemoryElement)
    (hstate : e.state = .nonReady) (hripe : e.item.cycle + cfg.memoryLatency ≤ clkCycle) :
    getFirstReady cfg clkCycle (e :: queue) = (some e.item, queue) := by
  simp [getFirstReady, getRequestState, hstate, hripe]

/-- The queue after the intake, stamped. -/
theorem waiting_append (cfg : MainMemoryConfig) (s : MainMemoryController) (request : Option BusMessage) :
    (s.processingQueue ++ (admitted cfg s request).map MemoryElement.ofStamped).map MemoryElement.stamped =
      s.waiting ++ admitted cfg s request := by
  rw [List.map_append, List.map_map, waiting_admitted, waiting]

/-- Every message of the queue after the intake waits. -/
theorem Inv.state_append (h : s.Inv cfg) (request : Option BusMessage) :
    ∀ e ∈ s.processingQueue ++ (admitted cfg s request).map MemoryElement.ofStamped, e.state = .nonReady := by
  intro e he
  cases List.mem_append.1 he with
  | inl he => exact h.state e he
  | inr he =>
    cases List.mem_map.1 he with
    | intro a ha => rw [← ha.2, MemoryElement.ofStamped]

/-- A cycle in which nothing ripens. -/
theorem Inv.idle (h : s.Inv cfg)
    (hlate : ∀ a ∈ s.waiting ++ admitted cfg s i.request, s.clkCycle < a.time + cfg.memoryLatency) :
    s.processLogic cfg i = some (s.addRequests2ProcessingQueue cfg i.request) := by
  rw [← waiting_append] at hlate
  have hnone := getFirstReady_none cfg (h.state_append i.request)
    fun e he => hlate _ (List.mem_map_of_mem he)
  simp only [processLogic, addRequests_eq, hnone]

/-- A cycle in which a message ripens: a read is answered, unless the interface does not take the response. -/
theorem Inv.serve (h : s.Inv cfg) {a : Stamped BusMessage} {rest : List (Stamped BusMessage)}
    (hsplit : s.waiting ++ admitted cfg s i.request = a :: rest) (hripe : a.time + cfg.memoryLatency = s.clkCycle) :
    ∃ queue : List MemoryElement, queue.map MemoryElement.stamped = rest ∧
      (∀ e ∈ queue, e.state = .nonReady) ∧
      s.processLogic cfg i =
        if isRead a then
          if i.accepts then
            some { s with
              processingQueue := queue
              entered := s.entered ++ admitted cfg s i.request
              left := s.left ++ [⟨s.clkCycle, a.item⟩]
              readCount := s.readCount + 1
              pushed := s.pushed ++ [response cfg s.clkCycle a.item] }
          else none
        else
          some { s with
            processingQueue := queue
            entered := s.entered ++ admitted cfg s i.request
            left := s.left ++ [⟨s.clkCycle, a.item⟩]
            writeCount := s.writeCount + 1 } := by
  rw [← waiting_append] at hsplit
  have hstate := h.state_append i.request
  cases hqueue : s.processingQueue ++ (admitted cfg s i.request).map MemoryElement.ofStamped with
  | nil => simp [hqueue] at hsplit
  | cons e queue =>
    rw [hqueue] at hsplit hstate
    rw [List.map_cons, List.cons.injEq] at hsplit
    have htime : e.item.cycle = a.time := by rw [← hsplit.1, MemoryElement.stamped]
    have hitem : e.item = a.item := by rw [← hsplit.1, MemoryElement.stamped]
    have hsome := getFirstReady_some cfg queue (hstate e List.mem_cons_self)
      (Nat.le_of_eq (htime ▸ hripe))
    refine ⟨queue, hsplit.2, fun e he => hstate e (List.mem_cons_of_mem _ he), ?_⟩
    simp only [processLogic, addRequests_eq, hqueue, hsome, hitem, isRead, Option.isNone_iff_eq_none]

/-- One cycle keeps the invariant, and lets in what it admits. -/
theorem Inv.step (h : s.Inv cfg) (hstep : s.cycleProcess cfg i = some s') :
    s'.Inv cfg ∧ s'.entered = s.entered ++ admitted cfg s i.request := by
  rw [cycleProcess, Option.map_eq_some_iff] at hstep
  cases hstep with
  | intro served hserved =>
    rw [← hserved.2]
    cases h.delays.step (admitted_cases cfg s i.request) with
    | inl hripe =>
      cases hripe with
      | intro a hripe =>
        cases hripe with
        | intro rest hripe =>
          cases h.serve hripe.1 hripe.2.1 with
          | intro queue hserve =>
            have hlogic := hserve.2.2.symm.trans hserved.1
            have hdelays := hripe.2.2
            rw [← hserve.1] at hdelays
            have hlast : isRead ⟨s.clkCycle, a.item⟩ = isRead a := rfl
            by_cases hread : isRead a = true
            · rw [if_pos hread] at hlogic
              split at hlogic
              · rw [← Option.some.inj hlogic]
                refine ⟨⟨hdelays, hserve.2.1, ?_, ?_, ?_⟩, rfl⟩
                · simp [h.pushed, hlast, hread]
                · simp [h.readCount, List.countP_append, hlast, hread]
                · simp [h.writeCount, List.countP_append, hlast, hread]
              · simp at hlogic
            · rw [if_neg hread] at hlogic
              rw [← Option.some.inj hlogic]
              refine ⟨⟨hdelays, hserve.2.1, ?_, ?_, ?_⟩, rfl⟩
              · simp [h.pushed, hlast, hread]
              · simp [h.readCount, List.countP_append, hlast, hread]
              · simp [h.writeCount, List.countP_append, hlast, hread]
    | inr hidle =>
      have hlogic := (h.idle hidle.1).symm.trans hserved.1
      rw [← Option.some.inj hlogic, addRequests_eq]
      refine ⟨⟨?_, h.state_append i.request, h.pushed, h.readCount, h.writeCount⟩, rfl⟩
      have hdelays := hidle.2
      rw [← waiting_append] at hdelays
      exact hdelays

/-- The invariant holds in every reachable state. -/
theorem inv_inductive (cfg : MainMemoryConfig) : (system cfg).Inductive (Inv cfg) where
  init s hs := by
    have hstart : s = {} := hs
    rw [hstart]
    exact ⟨Delays.nil _ _, fun _ he => absurd he List.not_mem_nil, rfl, rfl, rfl⟩
  step _ _ _ _ h hstep := (h.step hstep).1

/-- A cycle ends the run exactly when the interface does not take the answer of a read that ripens in it. -/
theorem Inv.exits_iff (h : s.Inv cfg) : s.cycleProcess cfg i = none ↔
    i.accepts = false ∧
      ∃ a ∈ s.entered ++ admitted cfg s i.request, isRead a = true ∧ a.time + cfg.memoryLatency = s.clkCycle := by
  rw [cycleProcess, Option.map_eq_none_iff]
  cases h.delays.step (admitted_cases cfg s i.request) with
  | inl hripe =>
    cases hripe with
    | intro a hripe =>
      cases hripe with
      | intro rest hripe =>
        have hmem : a ∈ s.entered ++ admitted cfg s i.request :=
          h.delays.mem_entered (hripe.1.symm ▸ List.mem_cons_self)
        -- the stamps differ, so this is the only message that ripens in the cycle
        have honly : ∀ b ∈ s.entered ++ admitted cfg s i.request, b.time + cfg.memoryLatency = s.clkCycle → b = a := by
          intro b hb htime
          apply h.delays.eq_of_time_eq (admitted_cases cfg s i.request) hb hmem
          omega
        cases h.serve hripe.1 hripe.2.1 with
        | intro queue hserve =>
          rw [hserve.2.2]
          by_cases hread : isRead a = true
          · rw [if_pos hread]
            cases haccepts : i.accepts with
            | false => simpa using ⟨a, List.mem_append.1 hmem, hread, hripe.2.1⟩
            | true => simp
          · rw [if_neg hread]
            simp only [reduceCtorEq, false_iff, not_and, not_exists]
            intro _ b hb hbread htime
            exact hread (honly b hb htime ▸ hbread)
  | inr hidle =>
    rw [h.idle hidle.1]
    simp only [reduceCtorEq, false_iff, not_and, not_exists]
    intro _ a ha _ htime
    have hlate := hidle.1 a (h.delays.mem_of_ripe ha htime)
    omega

/-- Main memory is a pure delay: in every run, what has left it is what entered it the latency before, whatever its
order and kind; reads and only reads are answered; a message is refused exactly when as many as the queue holds
entered within the latency, so never if the queue is longer than the latency; and the program exits only if the
interface refuses an answer. -/
theorem constant_latency (hr : (system cfg).Reachable s) :
    s.left = (s.entered.filter fun a => a.time + cfg.memoryLatency < s.clkCycle).map (Stamped.later cfg.memoryLatency) ∧
      s.pushed = (s.left.filter isRead).map (fun a => response cfg a.time a.item) ∧
      s.readCount = s.left.countP isRead ∧ s.writeCount = s.left.countP (fun a => !isRead a) ∧
      (s.admits cfg = false ↔ ∃ size, cfg.processingQueueSize = some size ∧
        size ≤ (s.entered.filter fun a => s.clkCycle ≤ a.time + cfg.memoryLatency).length) ∧
      ((∀ size, cfg.processingQueueSize = some size → cfg.memoryLatency < size) → s.admits cfg = true) ∧
      ∀ i : MemoryInput, s.cycleProcess cfg i = none ↔ i.accepts = false ∧
        ∃ a ∈ s.entered ++ admitted cfg s i.request, isRead a = true ∧ a.time + cfg.memoryLatency = s.clkCycle := by
  have h := (inv_inductive cfg).reachable hr
  have hlength : s.processingQueue.length = s.waiting.length := by rw [waiting, List.length_map]
  refine ⟨h.delays.left_eq, h.pushed, h.readCount, h.writeCount, ?_, ?_, fun i => h.exits_iff⟩
  · rw [← h.delays.queue_eq, ← hlength, admits]
    cases cfg.processingQueueSize with
    | none => simp
    | some size => simp
  · intro hsize
    have hle := h.delays.length_le
    rw [admits, hlength]
    cases hbound : cfg.processingQueueSize with
    | none => rfl
    | some size =>
      have hless := hsize size hbound
      simp only [Option.all_some, decide_eq_true_eq]
      omega

/-- A memory with a latency of two cycles and a queue of four messages. -/
def twoCycles : MainMemoryConfig := ⟨9, 2, some 4⟩

/-- A read in the first cycle and a write in the second: what was proved holds of that run. -/
theorem constant_latency_two : ∃ s : MainMemoryController,
    s.left.map Stamped.time = [3, 4] ∧ s.pushed.map BusMessage.cycle = [3] ∧
      s.left = (s.entered.filter fun a => a.time + 2 < s.clkCycle).map (Stamped.later 2) ∧ s.admits twoCycles = true := by
  have hrun : ([⟨some { msgId := 5 }, true⟩, ⟨some { msgId := 6, data := some [1] }, true⟩, ⟨none, true⟩,
      ⟨none, true⟩].foldlM (cycleProcess twoCycles) {}).any fun s =>
        s.left.map Stamped.time == [3, 4] && s.pushed.map BusMessage.cycle == [3] := by
    decide
  cases (Option.any_eq_true _ _).1 hrun with
  | intro s hs =>
    have hr : (system twoCycles).Reachable s :=
      TransitionSystem.Reachable.foldlM (fun _ _ _ hstep => hstep) (.init rfl) hs.1
    have hlatency := constant_latency hr
    have htest := hs.2
    simp only [Bool.and_eq_true, beq_iff_eq] at htest
    refine ⟨s, htest.1, htest.2, hlatency.1, hlatency.2.2.2.2.2.1 fun size hsize => ?_⟩
    rw [← Option.some.inj hsize]
    decide

end MainMemoryController

end Octopus
