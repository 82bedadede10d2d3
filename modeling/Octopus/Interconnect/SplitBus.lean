import Octopus.Interconnect.Accounts
import Octopus.Lib.Sequence
import Octopus.Lib.TransitionSystem

/-!
# The split bus controller

A request bus and a response bus, each with one slot. A message is elected in slot 0, while none
is held, and delivered in slot latency - 1. The request bus does nothing while some interface has
no more free response slots than the reserve, and holds its message while a receiver has no room
for it; such steps are held steps of its history.
-/

namespace Octopus

open CommunicationInterface BusController Lib

/-- The registers of one bus of a split bus, with its history. -/
structure BusSlot where
  clkInSlot : Nat := 0
  messageAvailable : Bool := false
  electedMsg : BusMessage := {}
  lane : Lane BusMessage := {}

namespace BusSlot

/-- A message was elected. -/
def take (slot : BusSlot) (msg : BusMessage) : BusSlot :=
  { slot with messageAvailable := true, electedMsg := msg, lane := slot.lane.take msg }

/-- The message was delivered, and the step is over. -/
def deliver (slot : BusSlot) : BusSlot :=
  { slot with
    messageAvailable := false
    clkInSlot := 0
    lane := (slot.lane.send slot.electedMsg).tick }

/-- The step is over without progress. -/
def hold (slot : BusSlot) : BusSlot :=
  { slot with lane := slot.lane.hold.tick }

/-- The step is over: the counter goes on while a message is there. -/
def advance (slot : BusSlot) : BusSlot :=
  { slot with
    clkInSlot := if slot.messageAvailable then slot.clkInSlot + 1 else 0
    lane := slot.lane.tick }

/-- The registers show what the lane carries. -/
def Shows (slot : BusSlot) : Option (BusMessage × Nat) → Prop
  | none => slot.messageAvailable = false ∧ slot.clkInSlot = 0
  | some (msg, clk) => slot.messageAvailable = true ∧ slot.electedMsg = msg ∧ slot.clkInSlot = clk

/-- The invariant of a bus with a given latency. -/
def Inv (latency : Nat) (slot : BusSlot) : Prop :=
  ∃ o, slot.lane.Carrying (latency - 1) o ∧ slot.Shows o

variable {latency : Nat} {slot : BusSlot}

theorem inv_init (latency : Nat) : ({} : BusSlot).Inv latency :=
  ⟨none, Lane.carrying_init 0 _, rfl, rfl⟩

/-- An election finds the bus empty. -/
theorem Inv.take (h : slot.Inv latency) (havail : slot.messageAvailable = false) (msg : BusMessage) :
    (slot.take msg).Inv latency := by
  obtain ⟨o, hc, hs⟩ := h
  cases o with
  | none => exact ⟨some (msg, 0), hc.take msg, rfl, rfl, hs.2⟩
  | some p => simp [Shows, havail] at hs

/-- A held step. -/
theorem Inv.hold (h : slot.Inv latency) : slot.hold.Inv latency := by
  obtain ⟨o, hc, hs⟩ := h
  cases o with
  | none => exact ⟨none, hc.hold, hs⟩
  | some p => exact ⟨some p, hc.hold, hs⟩

/-- A step in which the message is delivered. -/
theorem Inv.deliver (h : slot.Inv latency) (havail : slot.messageAvailable) (hclk : slot.clkInSlot + 1 = latency) :
    slot.deliver.Inv latency := by
  obtain ⟨o, hc, hs⟩ := h
  cases o with
  | none => simp [Shows, havail] at hs
  | some p =>
    obtain ⟨-, hmsg, hp⟩ := hs
    have hend : p = (slot.electedMsg, latency - 1) := Prod.ext hmsg.symm (by omega)
    have hc' : slot.lane.Carrying (latency - 1) (some (slot.electedMsg, latency - 1)) := hend ▸ hc
    exact ⟨none, hc'.send, rfl, rfl⟩

/-- A step that is not the last of its slot. -/
theorem Inv.advance (h : slot.Inv latency) (hlatency : 1 ≤ latency)
    (hclk : ¬ (slot.messageAvailable ∧ slot.clkInSlot + 1 = latency)) : slot.advance.Inv latency := by
  obtain ⟨o, hc, hs⟩ := h
  cases o with
  | none => exact ⟨none, hc.idle, hs.1, by simp [BusSlot.advance, hs.1]⟩
  | some p =>
    obtain ⟨havail, hmsg, hp⟩ := hs
    obtain ⟨-, -, -, -, hle, -, -⟩ := hc.passages
    have hlt : p.2 < latency - 1 := by
      have hne : slot.clkInSlot + 1 ≠ latency := fun heq => hclk ⟨havail, heq⟩
      omega
    exact ⟨some (p.1, p.2 + 1), hc.advance hlt, havail, hmsg, by simp [BusSlot.advance, havail, hp]⟩

theorem Inv.conserves (h : slot.Inv latency) : slot.lane.Conserves (latency - 1) := by
  obtain ⟨o, hc, -⟩ := h
  exact hc.conserves

end BusSlot

/-- The parameters of a split bus; each bus has an arbiter of its own. -/
structure SplitBusConfig where
  requestLatency : Nat
  responseLatency : Nat
  responseReserve : Int := 0
  requestArbiter : Arbiter
  responseArbiter : Arbiter

/-- The state of a split bus controller. -/
structure SplitBusController (ι : Type) (cfg : SplitBusConfig) where
  bus : BusController ι
  requestArbiter : cfg.requestArbiter.State
  responseArbiter : cfg.responseArbiter.State
  request : BusSlot := {}
  response : BusSlot := {}

namespace SplitBusController

variable {ι : Type} {cfg : SplitBusConfig}

section

variable [CommunicationInterface ι]

/-- Some interface has no more free response slots than the reserve. -/
def responseBackpressured (s : SplitBusController ι cfg) : Bool :=
  s.bus.interfaces.any fun itf => txResponseFreeSlots itf ≤ cfg.responseReserve

/-- The transmit buffers for requests. -/
def buffersReq (s : SplitBusController ι cfg) : List BufferRef :=
  getCongregatedBuffers s.bus.indices .request

/-- The transmit buffers for responses. -/
def buffersResp (s : SplitBusController ι cfg) : List BufferRef :=
  getCongregatedBuffers s.bus.indices .dataResponse

/-- The election of the request bus. -/
def electRequest (cycle : Nat) (s : SplitBusController ι cfg) : SplitBusController ι cfg :=
  let result := cfg.requestArbiter.elect s.requestArbiter cycle (s.bus.contents s.buffersReq)
  match result.2.bind (s.bus.takeAt s.buffersReq) with
  | some (msg, bus) => { s with bus := bus, requestArbiter := result.1, request := s.request.take msg }
  | none => { s with requestArbiter := result.1 }

/-- The election of the response bus. -/
def electResponse (cycle : Nat) (s : SplitBusController ι cfg) : SplitBusController ι cfg :=
  let result := cfg.responseArbiter.elect s.responseArbiter cycle (s.bus.contents s.buffersResp)
  match result.2.bind (s.bus.takeAt s.buffersResp) with
  | some (msg, bus) => { s with bus := bus, responseArbiter := result.1, response := s.response.take msg }
  | none => { s with responseArbiter := result.1 }

/-- One step of the request bus. -/
def requestBusStep (cycle : Nat) (s : SplitBusController ι cfg) : SplitBusController ι cfg :=
  if s.responseBackpressured then { s with request := s.request.hold }
  else
    let s :=
      if s.request.clkInSlot = 0 && !s.request.messageAvailable then s.electRequest cycle else s
    if s.request.messageAvailable && decide (s.request.clkInSlot + 1 = cfg.requestLatency) then
      match s.bus.broadcast s.request.electedMsg .request with
      | (true, bus) => { s with bus := bus, request := s.request.deliver }
      | (false, _) => { s with request := s.request.hold }
    else { s with request := s.request.advance }

/-- One step of the response bus. -/
def responseBusStep (cycle : Nat) (s : SplitBusController ι cfg) :
    Except BusExit (SplitBusController ι cfg) :=
  let s :=
    if s.response.clkInSlot = 0 && !s.response.messageAvailable then s.electResponse cycle else s
  if s.response.messageAvailable && decide (s.response.clkInSlot + 1 = cfg.responseLatency) then
    (s.bus.send s.response.electedMsg .dataResponse).map fun bus =>
      { s with bus := bus, response := s.response.deliver }
  else .ok { s with response := s.response.advance }

/-- One step of the controller. -/
def busStep (cycle : Nat) (s : SplitBusController ι cfg) : Except BusExit (SplitBusController ι cfg) :=
  (s.requestBusStep cycle).responseBusStep cycle

/-- The controller when the request bus has had its election, if it has one. -/
def afterElectRequest (cycle : Nat) (s : SplitBusController ι cfg) : SplitBusController ι cfg :=
  if s.request.clkInSlot = 0 && !s.request.messageAvailable then s.electRequest cycle else s

/-- The controller when the response bus has had its election, if it has one. -/
def afterElectResponse (cycle : Nat) (s : SplitBusController ι cfg) : SplitBusController ι cfg :=
  if s.response.clkInSlot = 0 && !s.response.messageAvailable then s.electResponse cycle else s

/-- What a step of the request bus can do: it is held under back-pressure, delivers its message, is
held because some receiver has no room for it, or goes on. -/
inductive RequestStep (s : SplitBusController ι cfg) (cycle : Nat) : SplitBusController ι cfg → Prop
  | backpressured (hback : s.responseBackpressured) : RequestStep s cycle { s with request := s.request.hold }
  | delivered {bus : BusController ι} (hback : s.responseBackpressured = false)
      (havail : (s.afterElectRequest cycle).request.messageAvailable)
      (hclk : (s.afterElectRequest cycle).request.clkInSlot + 1 = cfg.requestLatency)
      (hbus : (s.afterElectRequest cycle).bus.broadcast (s.afterElectRequest cycle).request.electedMsg .request = (true, bus)) :
      RequestStep s cycle { s.afterElectRequest cycle with bus := bus, request := (s.afterElectRequest cycle).request.deliver }
  | refused {bus : BusController ι} (hback : s.responseBackpressured = false)
      (hbus : (s.afterElectRequest cycle).bus.broadcast (s.afterElectRequest cycle).request.electedMsg .request = (false, bus)) :
      RequestStep s cycle { s.afterElectRequest cycle with request := (s.afterElectRequest cycle).request.hold }
  | advanced (hback : s.responseBackpressured = false)
      (hlast : ¬ ((s.afterElectRequest cycle).request.messageAvailable ∧
        (s.afterElectRequest cycle).request.clkInSlot + 1 = cfg.requestLatency)) :
      RequestStep s cycle { s.afterElectRequest cycle with request := (s.afterElectRequest cycle).request.advance }

/-- A step of the request bus does one of these things. -/
theorem requestStep (s : SplitBusController ι cfg) (cycle : Nat) : RequestStep s cycle (s.requestBusStep cycle) := by
  rw [requestBusStep]
  split
  · next hback => exact .backpressured hback
  · next hback =>
    rw [Bool.not_eq_true] at hback
    change RequestStep s cycle (if (s.afterElectRequest cycle).request.messageAvailable &&
      decide ((s.afterElectRequest cycle).request.clkInSlot + 1 = cfg.requestLatency) then _ else _)
    split
    · next hlast =>
      rw [Bool.and_eq_true, decide_eq_true_eq] at hlast
      split
      · next hbus => exact .delivered hback hlast.1 hlast.2 hbus
      · next hbus => exact .refused hback hbus
    · next hlast =>
      rw [Bool.and_eq_true, decide_eq_true_eq] at hlast
      exact .advanced hback hlast

/-- What a step of the response bus can do: it delivers its message, or goes on. -/
inductive ResponseStep (s : SplitBusController ι cfg) (cycle : Nat) : SplitBusController ι cfg → Prop
  | delivered {bus : BusController ι} (havail : (s.afterElectResponse cycle).response.messageAvailable)
      (hclk : (s.afterElectResponse cycle).response.clkInSlot + 1 = cfg.responseLatency)
      (hbus : (s.afterElectResponse cycle).bus.send (s.afterElectResponse cycle).response.electedMsg .dataResponse = .ok bus) :
      ResponseStep s cycle { s.afterElectResponse cycle with bus := bus, response := (s.afterElectResponse cycle).response.deliver }
  | advanced (hlast : ¬ ((s.afterElectResponse cycle).response.messageAvailable ∧
        (s.afterElectResponse cycle).response.clkInSlot + 1 = cfg.responseLatency)) :
      ResponseStep s cycle { s.afterElectResponse cycle with response := (s.afterElectResponse cycle).response.advance }

/-- A step of the response bus that does not end the program does one of these things. -/
theorem responseStep {s s' : SplitBusController ι cfg} {cycle : Nat} (h : s.responseBusStep cycle = .ok s') :
    ResponseStep s cycle s' := by
  rw [responseBusStep] at h
  change (if (s.afterElectResponse cycle).response.messageAvailable &&
    decide ((s.afterElectResponse cycle).response.clkInSlot + 1 = cfg.responseLatency) then _ else _) = _ at h
  split at h
  · next hlast =>
    rw [Bool.and_eq_true, decide_eq_true_eq] at hlast
    obtain ⟨bus, hbus, rfl⟩ := map_eq_ok.1 h
    exact .delivered hlast.1 hlast.2 hbus
  · next hlast =>
    rw [Bool.and_eq_true, decide_eq_true_eq] at hlast
    obtain rfl := Except.ok.inj h
    exact .advanced hlast

/-- What happens in a run: traffic at the interfaces, and steps of the two buses. -/
inductive Label
  | traffic (t : Traffic)
  | request (cycle : Nat)
  | response (cycle : Nat)

/-- One step of a run. -/
def exec (s : SplitBusController ι cfg) : Label → Except BusExit (SplitBusController ι cfg)
  | .traffic t => .ok { s with bus := s.bus.act t }
  | .request cycle => .ok (s.requestBusStep cycle)
  | .response cycle => s.responseBusStep cycle

end

section

variable [LawfulInterface ι]

/-- The runs of a split bus, from interfaces nothing has passed yet. -/
def system (ι : Type) [LawfulInterface ι] (cfg : SplitBusConfig) :
    TransitionSystem (SplitBusController ι cfg) Label where
  init s := s.bus.Fresh ∧ s.requestArbiter = cfg.requestArbiter.init ∧
    s.responseArbiter = cfg.responseArbiter.init ∧ s.request = {} ∧ s.response = {}
  step s label s' := s.exec label = .ok s'

variable {s s' : SplitBusController ι cfg}

/-- What every run keeps. -/
structure Inv (s : SplitBusController ι cfg) : Prop where
  request : s.request.Inv cfg.requestLatency
  response : s.response.Inv cfg.responseLatency
  carries : s.bus.Carries s.request.lane.taken s.request.lane.sent s.response.lane.taken s.response.lane.sent

/-- The election of a request keeps the invariant. -/
theorem Inv.electRequest (hinv : s.Inv) (havail : s.request.messageAvailable = false) (cycle : Nat) :
    (s.electRequest cycle).Inv := by
  unfold SplitBusController.electRequest
  dsimp only
  split
  · next msg bus htake =>
    obtain ⟨place, -, htake⟩ := Option.bind_eq_some_iff.1 htake
    exact ⟨hinv.request.take havail msg, hinv.response, hinv.carries.takeRequest htake _⟩
  · exact ⟨hinv.request, hinv.response, hinv.carries⟩

/-- The election of a response keeps the invariant. -/
theorem Inv.electResponse (hinv : s.Inv) (havail : s.response.messageAvailable = false) (cycle : Nat) :
    (s.electResponse cycle).Inv := by
  unfold SplitBusController.electResponse
  dsimp only
  split
  · next msg bus htake =>
    obtain ⟨place, -, htake⟩ := Option.bind_eq_some_iff.1 htake
    exact ⟨hinv.request, hinv.response.take havail msg, hinv.carries.takeResponse htake _⟩
  · exact ⟨hinv.request, hinv.response, hinv.carries⟩

/-- The election of the request bus, if it has one, keeps the invariant. -/
theorem Inv.afterElectRequest (hinv : s.Inv) (cycle : Nat) : (s.afterElectRequest cycle).Inv := by
  rw [SplitBusController.afterElectRequest]
  split
  · next hslot =>
    simp only [Bool.and_eq_true, Bool.not_eq_true'] at hslot
    exact hinv.electRequest hslot.2 cycle
  · exact hinv

/-- The election of the response bus, if it has one, keeps the invariant. -/
theorem Inv.afterElectResponse (hinv : s.Inv) (cycle : Nat) : (s.afterElectResponse cycle).Inv := by
  rw [SplitBusController.afterElectResponse]
  split
  · next hslot =>
    simp only [Bool.and_eq_true, Bool.not_eq_true'] at hslot
    exact hinv.electResponse hslot.2 cycle
  · exact hinv

/-- One step of the request bus keeps the invariant. -/
theorem Inv.requestBusStep (hinv : s.Inv) (hlatency : 1 ≤ cfg.requestLatency) (cycle : Nat) : (s.requestBusStep cycle).Inv := by
  have helected := hinv.afterElectRequest cycle
  have hstep := s.requestStep cycle
  generalize s.requestBusStep cycle = s' at hstep
  cases hstep with
  | backpressured => exact ⟨hinv.request.hold, hinv.response, hinv.carries⟩
  | delivered _ havail hclk hbus =>
    exact ⟨helected.request.deliver havail hclk, helected.response, helected.carries.broadcast hbus _⟩
  | refused => exact ⟨helected.request.hold, helected.response, helected.carries⟩
  | advanced _ hlast => exact ⟨helected.request.advance hlatency hlast, helected.response, helected.carries⟩

/-- One step of the response bus keeps the invariant. -/
theorem Inv.responseBusStep (hinv : s.Inv) (hlatency : 1 ≤ cfg.responseLatency) {cycle : Nat} (h : s.responseBusStep cycle = .ok s') :
    s'.Inv := by
  have helected := hinv.afterElectResponse cycle
  cases responseStep h with
  | delivered havail hclk hbus =>
    exact ⟨helected.request, helected.response.deliver havail hclk, helected.carries.send hbus _⟩
  | advanced hlast => exact ⟨helected.request, helected.response.advance hlatency hlast, helected.carries⟩

/-- Every step of a run keeps the invariant. -/
theorem inv_inductive (ι : Type) [LawfulInterface ι] {cfg : SplitBusConfig}
    (hrequest : 1 ≤ cfg.requestLatency) (hresponse : 1 ≤ cfg.responseLatency) :
    (system ι cfg).Inductive Inv where
  init s h := by
    obtain ⟨hfresh, -, -, hreq, hresp⟩ := h
    refine ⟨hreq ▸ BusSlot.inv_init _, hresp ▸ BusSlot.inv_init _, ?_⟩
    rw [hreq, hresp]
    exact hfresh.carries
  step s label s' _ hinv h := by
    cases label with
    | traffic t =>
      obtain rfl := Except.ok.inj h
      exact ⟨hinv.request, hinv.response, hinv.carries.act t⟩
    | request cycle =>
      obtain rfl := Except.ok.inj h
      exact hinv.requestBusStep hrequest cycle
    | response cycle => exact hinv.responseBusStep hresponse h

/-- A step of the controller is a step of each bus, the request bus first. -/
theorem path_of_busStep {history : List (SplitBusController ι cfg × Label)} {cycle : Nat}
    (h : (system ι cfg).Path history s) (hstep : s.busStep cycle = .ok s') :
    (system ι cfg).Path ((s.requestBusStep cycle, .response cycle) :: (s, .request cycle) :: history) s' := by
  have hfirst : (system ι cfg).step s (.request cycle) (s.requestBusStep cycle) := rfl
  have hsecond : (system ι cfg).step (s.requestBusStep cycle) (.response cycle) s' := hstep
  exact (h.step hfirst).step hsecond

/-- A step of the request bus is held only under back-pressure, or for a demand request that some
receiver has no room for. -/
theorem requestBusStep_held (s : SplitBusController ι cfg) (cycle : Nat) :
    (s.requestBusStep cycle).request.lane.held = s.request.lane.held ∨ s.responseBackpressured ∨
      ((s.requestBusStep cycle).request.electedMsg.isDemandRequest ∧
        (s.requestBusStep cycle).bus.allAccept .request = false) := by
  have helected : (s.afterElectRequest cycle).request.lane.held = s.request.lane.held := by
    rw [afterElectRequest]
    split
    · unfold electRequest
      dsimp only
      split <;> rfl
    · rfl
  have hstep := s.requestStep cycle
  generalize s.requestBusStep cycle = s' at hstep
  cases hstep with
  | backpressured hback => exact .inr (.inl hback)
  | delivered => exact .inl helected
  | refused _ hbus =>
    right; right
    unfold broadcast at hbus
    split at hbus
    · next hguard =>
      have hfull : (s.afterElectRequest cycle).request.electedMsg.isDemandRequest ∧
          (s.afterElectRequest cycle).bus.allAccept .request = false := by
        simpa using hguard
      exact hfull
    · simp at hbus
  | advanced => exact .inl helected

/-- A step of the response bus never ends the program when the responses it may send name
interfaces of the bus. -/
theorem responseBusStep_proceeds (cycle : Nat)
    (hslot : ∀ d ∈ s.response.electedMsg.toIds, d ∈ s.bus.ids)
    (hwaiting : ∀ buffer ∈ s.bus.contents s.buffersResp, ∀ msg ∈ buffer, ∀ d ∈ msg.toIds, d ∈ s.bus.ids) :
    ∃ s', s.responseBusStep cycle = .ok s' := by
  unfold responseBusStep
  have helected : ∀ d ∈ (if s.response.clkInSlot = 0 && !s.response.messageAvailable then
      s.electResponse cycle else s).response.electedMsg.toIds, d ∈ (if s.response.clkInSlot = 0 &&
      !s.response.messageAvailable then s.electResponse cycle else s).bus.ids := by
    split
    · unfold electResponse
      dsimp only
      split
      · next msg bus htake =>
        obtain ⟨place, -, htake⟩ := Option.bind_eq_some_iff.1 htake
        obtain ⟨buffer, hbuffer, hmsg⟩ := mem_of_takeAt htake
        intro d hd
        rw [(takeAt_sameHeard htake).ids]
        exact hwaiting buffer hbuffer msg hmsg d hd
      · exact hslot
    · exact hslot
  generalize (if s.response.clkInSlot = 0 && !s.response.messageAvailable then
    s.electResponse cycle else s) = t at helected
  dsimp only
  split
  · obtain ⟨bus, hbus⟩ := exists_send_response helected
    exact ⟨_, by rw [hbus]; rfl⟩
  · exact ⟨_, rfl⟩

/-- What the split bus owes its users: each bus delivers what it elects on time, what it elects is
what leaves the transmit buffers, the interfaces receive exactly what was sent and have it in their
receive buffers until they pop it, only back-pressure and full receivers hold a request, and the
response bus goes on as long as responses name interfaces of the bus. -/
structure Conserved (s : SplitBusController ι cfg) : Prop where
  request : s.request.lane.Conserves (cfg.requestLatency - 1)
  response : s.response.lane.Conserves (cfg.responseLatency - 1)
  electedRequests : s.bus.Accounts [.request] (s.request.lane.taken.map Stamped.item)
  electedResponses : s.bus.Accounts [.dataResponse] (s.response.lane.taken.map Stamped.item)
  delivered : s.bus.Delivered s.request.lane.sent s.response.lane.sent
  received : s.bus.Balanced
  held : ∀ cycle, (s.requestBusStep cycle).request.lane.held = s.request.lane.held ∨
    s.responseBackpressured ∨ ((s.requestBusStep cycle).request.electedMsg.isDemandRequest ∧
      (s.requestBusStep cycle).bus.allAccept .request = false)
  proceeds : ∀ cycle, (∀ d ∈ s.response.electedMsg.toIds, d ∈ s.bus.ids) →
    (∀ buffer ∈ s.bus.contents s.buffersResp, ∀ msg ∈ buffer, ∀ d ∈ msg.toIds, d ∈ s.bus.ids) →
      ∃ s', s.responseBusStep cycle = .ok s'

end

/-- Every run of a split bus conserves its messages. -/
theorem split_conserved {cfg : SplitBusConfig} {s : SplitBusController BusInterface cfg}
    (hrequest : 1 ≤ cfg.requestLatency) (hresponse : 1 ≤ cfg.responseLatency)
    (h : (system BusInterface cfg).Reachable s) : s.Conserved := by
  have hinv := (inv_inductive BusInterface hrequest hresponse).reachable h
  exact ⟨hinv.request.conserves, hinv.response.conserves, hinv.carries.requests, hinv.carries.responses,
    hinv.carries.delivered, hinv.carries.balanced, s.requestBusStep_held, responseBusStep_proceeds⟩

/-- A split bus of two interfaces with FCFS arbiters and room for one request. -/
abbrev pairBusConfig : SplitBusConfig where
  requestLatency := 2
  responseLatency := 2
  requestArbiter := FCFSArbiter
  responseArbiter := FCFSArbiter

/-- The two interfaces before any traffic. -/
def pairBus : SplitBusController BusInterface pairBusConfig where
  bus := { interfaces := [{ interfaceId := 0, bufferMaxSize := 1 }, { interfaceId := 1, bufferMaxSize := 1 }] }
  requestArbiter := ()
  responseArbiter := ()

/-- The pair may start a run. -/
theorem pairBus_init : (system BusInterface pairBusConfig).init pairBus := by
  refine ⟨?_, rfl, rfl, rfl, rfl⟩
  simp [BusController.Fresh, pairBus, BusInterface.fresh_mk]

/-- The first of two requests is broadcast and popped by one of its receivers; the second finds the
other receiver full and is held; a response reaches interface 1. -/
theorem split_conserved_pair : ∃ s : SplitBusController BusInterface pairBusConfig,
    s.request.lane.sent.length = 1 ∧ s.request.lane.held ≠ [] ∧ s.response.lane.sent.length = 1 ∧
      (s.bus.interfaces.map fun itf => itf.consumed.length) = [1, 0] ∧
      (s.bus.interfaces.map fun itf => itf.rxRequestBuffer.length) = [0, 1] ∧
      (s.bus.interfaces.map fun itf => itf.rxResponseBuffer.length) = [0, 1] ∧ s.Conserved := by
  obtain ⟨history, s, hpath, htest⟩ := TransitionSystem.exists_path_of_run (fun _ _ _ h => h) (.init pairBus_init)
    [.traffic (.push 0 { addr := 64 } 1 .request), .request 1, .request 2, .traffic (.peek 0), .traffic (.pop 0),
      .traffic (.push 0 { addr := 64, toIds := [1] } 2 .dataResponse), .response 2, .response 3,
      .traffic (.push 1 { addr := 128 } 3 .request), .request 3, .request 4]
    (fun s => decide (s.request.lane.sent.length = 1 ∧ s.request.lane.held ≠ [] ∧ s.response.lane.sent.length = 1 ∧
      (s.bus.interfaces.map fun itf => itf.consumed.length) = [1, 0] ∧
      (s.bus.interfaces.map fun itf => itf.rxRequestBuffer.length) = [0, 1] ∧
      (s.bus.interfaces.map fun itf => itf.rxResponseBuffer.length) = [0, 1])) (by decide)
  obtain ⟨hsent, hheld, hresponse, hconsumed, hrequests, hresponses⟩ := of_decide_eq_true htest
  exact ⟨s, hsent, hheld, hresponse, hconsumed, hrequests, hresponses,
    split_conserved (by decide) (by decide) hpath.reachable⟩

end SplitBusController

end Octopus
