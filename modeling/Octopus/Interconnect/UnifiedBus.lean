import Octopus.Interconnect.Accounts
import Octopus.Interconnect.RoundRobin
import Octopus.Lib.TransitionSystem

/-!
# The unified bus controller

One slot of request latency + response latency steps serves both message classes, with branches
that exclude each other: a request is elected in slot 0 and broadcast in slot requestLatency - 1,
a response is elected by force in slot requestLatency and sent in the last slot. The outcome of
the broadcast is ignored, and a slot that finds no request never looks for a response.
-/

namespace Octopus

open CommunicationInterface BusController Lib

/-- The parameters of a unified bus. -/
structure UnifiedBusConfig where
  requestLatency : Nat
  responseLatency : Nat
  arbiter : Arbiter

/-- The state of a unified bus controller, with the histories of both message classes. -/
structure UnifiedBusController (cfg : UnifiedBusConfig) where
  bus : BusController BusInterface
  arbiter : cfg.arbiter.State
  clkInSlot : Nat := 0
  messageAvailable : Bool := false
  electedMsg : BusMessage := {}
  requests : Lane BusMessage := {}
  responses : Lane BusMessage := {}

namespace UnifiedBusController

variable {cfg : UnifiedBusConfig}

/-- The end of a step: the counter goes on while a message is there. -/
def finish (s : UnifiedBusController cfg) : UnifiedBusController cfg :=
  { s with
    clkInSlot :=
      if s.messageAvailable then (s.clkInSlot + 1) % (cfg.requestLatency + cfg.responseLatency) else 0
    requests := s.requests.tick
    responses := s.responses.tick }

/-- What the arbiter makes of the requests. -/
def elect (cycle : Nat) (s : UnifiedBusController cfg) :
    cfg.arbiter.State × Option (BusMessage × BusController BusInterface) :=
  let refs := getCongregatedBuffers s.bus.indices .request
  let result := cfg.arbiter.elect s.arbiter cycle (s.bus.contents refs)
  (result.1, result.2.bind (s.bus.takeAt refs))

/-- What the arbiter makes of the responses. -/
def forceElect (cycle : Nat) (s : UnifiedBusController cfg) :
    cfg.arbiter.State × Option (BusMessage × BusController BusInterface) :=
  let refs := getCongregatedBuffers s.bus.indices .dataResponse
  let result := cfg.arbiter.forceElect s.arbiter cycle (s.bus.contents refs)
  (result.1, result.2.bind (s.bus.takeAt refs))

/-- Slot 0: elect a request. -/
def requestSlot (cycle : Nat) (s : UnifiedBusController cfg) : UnifiedBusController cfg :=
  match s.elect cycle with
  | (arbiter, some (msg, bus)) =>
    { s with
      bus := bus, arbiter := arbiter, messageAvailable := true, electedMsg := msg
      requests := s.requests.take msg }
  | (arbiter, none) => { s with arbiter := arbiter, messageAvailable := false }

/-- Slot requestLatency - 1: broadcast the request, whether or not it is accepted. -/
def broadcastSlot (s : UnifiedBusController cfg) : UnifiedBusController cfg :=
  if s.messageAvailable then
    match s.bus.broadcast s.electedMsg .request with
    | (true, bus) => { s with bus := bus, requests := s.requests.send s.electedMsg }
    | (false, bus) => { s with bus := bus }
  else s

/-- Slot requestLatency: elect a response by force. -/
def responseSlot (cycle : Nat) (s : UnifiedBusController cfg) : UnifiedBusController cfg :=
  match s.forceElect cycle with
  | (arbiter, some (msg, bus)) =>
    { s with
      bus := bus, arbiter := arbiter, messageAvailable := true, electedMsg := msg
      responses := s.responses.take msg }
  | (arbiter, none) => { s with arbiter := arbiter, messageAvailable := false }

/-- The last slot: send the response. -/
def sendSlot (s : UnifiedBusController cfg) : Except BusExit (UnifiedBusController cfg) :=
  if s.messageAvailable then
    (s.bus.send s.electedMsg .dataResponse).map fun bus =>
      { s with bus := bus, messageAvailable := false, responses := s.responses.send s.electedMsg }
  else .ok s

/-- One step of the controller. -/
def busStep (cycle : Nat) (s : UnifiedBusController cfg) : Except BusExit (UnifiedBusController cfg) :=
  if s.clkInSlot = 0 then .ok (s.requestSlot cycle).finish
  else if s.clkInSlot + 1 = cfg.requestLatency then .ok s.broadcastSlot.finish
  else if s.clkInSlot = cfg.requestLatency then .ok (s.responseSlot cycle).finish
  else if s.clkInSlot + 1 = cfg.requestLatency + cfg.responseLatency then s.sendSlot.map finish
  else .ok s.finish

/-- What happens in a run. -/
inductive Label
  | traffic (t : Traffic)
  | step (cycle : Nat)

/-- One step of a run. -/
def exec (s : UnifiedBusController cfg) : Label → Except BusExit (UnifiedBusController cfg)
  | .traffic t => .ok { s with bus := s.bus.act t }
  | .step cycle => s.busStep cycle

/-- The runs of a unified bus, from interfaces nothing has passed yet. -/
def system (cfg : UnifiedBusConfig) : TransitionSystem (UnifiedBusController cfg) Label where
  init s := s.bus.Fresh ∧ s.arbiter = cfg.arbiter.init ∧ s.clkInSlot = 0 ∧
    s.messageAvailable = false ∧ s.electedMsg = {} ∧ s.requests = {} ∧ s.responses = {}
  step s label s' := s.exec label = .ok s'

/-- A step takes no message in vain: what it elects has the time to be delivered, and a demand
request is broadcast to receivers that all have room. -/
def Lossless (s : UnifiedBusController cfg) : Label → Prop
  | .traffic _ => True
  | .step cycle =>
    (s.clkInSlot = 0 → (s.elect cycle).2.isSome → 2 ≤ cfg.requestLatency) ∧
    (s.clkInSlot = cfg.requestLatency → (s.forceElect cycle).2.isSome → 2 ≤ cfg.responseLatency) ∧
    (s.clkInSlot + 1 = cfg.requestLatency → s.electedMsg.isDemandRequest → s.bus.allAccept .request)

instance (s : UnifiedBusController cfg) (l : Label) : Decidable (s.Lossless l) :=
  match l with
  | .traffic _ => .isTrue trivial
  | .step cycle => inferInstanceAs (Decidable (
    (s.clkInSlot = 0 → (s.elect cycle).2.isSome → 2 ≤ cfg.requestLatency) ∧
    (s.clkInSlot = cfg.requestLatency → (s.forceElect cycle).2.isSome → 2 ≤ cfg.responseLatency) ∧
    (s.clkInSlot + 1 = cfg.requestLatency → s.electedMsg.isDemandRequest → s.bus.allAccept .request)))

/-- A request waits in a transmit buffer. -/
def RequestWaits (s : UnifiedBusController cfg) : Prop :=
  ∃ itf ∈ s.bus.interfaces, itf.txRequestBuffer ≠ []

/-- A response waits in a transmit buffer. -/
def ResponseWaits (s : UnifiedBusController cfg) : Prop :=
  ∃ itf ∈ s.bus.interfaces, itf.txResponseBuffer ≠ []

/-- A step leaves the registers and the interfaces as they are; a pointer of the arbiter may have
turned without finding anything. -/
def Unchanged (cycle : Nat) (s : UnifiedBusController cfg) : Prop :=
  ∃ s', s.busStep cycle = .ok s' ∧ s'.bus = s.bus ∧ s'.clkInSlot = s.clkInSlot ∧
    s'.messageAvailable = s.messageAvailable ∧ s'.electedMsg = s.electedMsg

/-- What the unified bus owes its users: every message elected is delivered on time, what it elects
is what leaves the transmit buffers, the interfaces receive exactly what was sent and have it in
their receive buffers until they pop it, and no step leaves everything as it is while a message
waits. -/
structure Conserved (s : UnifiedBusController cfg) : Prop where
  requests : s.requests.Conserves (cfg.requestLatency - 1)
  responses : s.responses.Conserves (cfg.responseLatency - 1)
  electedRequests : s.bus.Accounts [.request] (s.requests.taken.map Stamped.item)
  electedResponses : s.bus.Accounts [.dataResponse] (s.responses.taken.map Stamped.item)
  delivered : s.bus.Delivered s.requests.sent s.responses.sent
  received : s.bus.Balanced
  progress : s.RequestWaits ∨ s.ResponseWaits → ∀ cycle, ¬ s.Unchanged cycle

end UnifiedBusController

/-- An arbiter finds a message whenever eligible ones wait. -/
def Arbiter.Finds (arbiter : Arbiter) (eligible : BusMessage → Prop) : Prop :=
  ∀ st cycle buffers, (∀ buffer ∈ buffers, ∀ msg ∈ buffer, eligible msg) → (∃ buffer ∈ buffers, buffer ≠ []) →
    ∃ place buffer msg, (arbiter.elect st cycle buffers).2 = some place ∧
      buffers[place.buffer]? = some buffer ∧ buffer[place.index]? = some msg

/-- The FCFS arbiter finds every message that was sent before the clock ran out. -/
theorem FCFSArbiter.finds : FCFSArbiter.Finds fun msg => msg.cycle < Arbiter.maxCycle := by
  rintro st cycle buffers heligible ⟨buffer, hbuffer, hne⟩
  have hhead : ∀ (buffer : List BusMessage) msg index, buffer.zipIdx.head? = some (msg, index) →
      buffer[index]? = some msg := by
    intro buffer msg index hfound
    cases buffer with
    | nil => cases hfound
    | cons first rest =>
      cases hfound
      rfl
  rcases Arbiter.scan_cases (fun buffer => buffer.zipIdx.head?) buffers 0 Arbiter.maxCycle none with
    ⟨-, hall⟩ | ⟨k, found, msg, index, hk, hmsg, -, hscan, -⟩
  · exfalso
    cases buffer with
    | nil => exact hne rfl
    | cons msg rest =>
      have hlate := hall _ hbuffer msg 0 rfl
      exact absurd (heligible _ hbuffer msg (by simp)) (Nat.not_lt_of_le hlate)
  · rw [Nat.zero_add] at hscan
    exact ⟨⟨k, index⟩, found, msg, hscan, hk, hhead found msg index hmsg⟩

/-- The round robin arbiter finds every message of a candidate that was sent before the clock ran
out. -/
theorem RRArbiter.finds (candidates : List Nat) : (RRArbiter candidates).Finds fun msg =>
    msg.cycle < Arbiter.maxCycle ∧ msg.owner ∈ candidates := by
  rintro st cycle buffers heligible ⟨buffer, hbuffer, hne⟩
  rcases @RRState.elect_cases candidates _ (fun b hb msg hmsg => (heligible b hb msg hmsg).1)
      candidates.length st with ⟨-, hidle⟩ | ⟨k, place, msg, -, -, -, hplace, hold, -⟩
  · exfalso
    obtain ⟨msg, hmsg⟩ := List.exists_mem_of_ne_nil buffer hne
    obtain ⟨k, hk, hle, hahead⟩ := RRState.exists_ahead (heligible buffer hbuffer msg hmsg).2 st
    exact hidle k hk hle buffer hbuffer msg hmsg hahead.symm
  · obtain ⟨found, hfound, pre, post, rfl, hindex, -⟩ := hold.first
    exact ⟨place, _, msg, hplace, hfound, by simp [hindex]⟩

namespace UnifiedBusController

variable {cfg : UnifiedBusConfig} {s s' : UnifiedBusController cfg}

/-- How the registers show the request and the response under way. -/
def Shows (s : UnifiedBusController cfg) :
    Option (BusMessage × Nat) → Option (BusMessage × Nat) → Prop
  | none, none => s.clkInSlot = 0 ∨ s.messageAvailable ∧ s.clkInSlot = cfg.requestLatency
  | some (msg, clk), none => s.messageAvailable ∧ s.electedMsg = msg ∧ s.clkInSlot = clk ∧ 1 ≤ clk
  | none, some (msg, clk) => s.messageAvailable ∧ s.electedMsg = msg ∧
      s.clkInSlot = cfg.requestLatency + clk ∧ 1 ≤ clk
  | some _, some _ => False

/-- The invariant of runs without losses. -/
structure Inv (s : UnifiedBusController cfg) : Prop where
  carrying : ∃ request response, s.requests.Carrying (cfg.requestLatency - 1) request ∧
    s.responses.Carrying (cfg.responseLatency - 1) response ∧ s.Shows request response
  carries : s.bus.Carries s.requests.taken s.requests.sent s.responses.taken s.responses.sent

/-- The counter goes on by one while it does not reach the end of the slot. -/
theorem finish_clk (havail : s.messageAvailable)
    (h : s.clkInSlot + 1 < cfg.requestLatency + cfg.responseLatency) :
    s.finish.clkInSlot = s.clkInSlot + 1 := by
  simp only [finish, havail, if_true]
  exact Nat.mod_eq_of_lt h

/-- Slot 0 keeps the invariant. -/
theorem Inv.requestSlot (hinv : s.Inv) {cycle : Nat} (hresp : 1 ≤ cfg.responseLatency)
    (hclk : s.clkInSlot = 0) (hlong : (s.elect cycle).2.isSome → 2 ≤ cfg.requestLatency) :
    (s.requestSlot cycle).finish.Inv := by
  obtain ⟨request, response, hreq, hres, hs⟩ := hinv.carrying
  have hnone : request = none ∧ response = none := by
    cases request with
    | none =>
      cases response with
      | none => exact ⟨rfl, rfl⟩
      | some q =>
        obtain ⟨-, -, hcount, hone⟩ := hs
        omega
    | some p =>
      cases response with
      | none =>
        obtain ⟨-, -, hcount, hone⟩ := hs
        omega
      | some q => exact hs.elim
  obtain ⟨rfl, rfl⟩ := hnone
  unfold UnifiedBusController.requestSlot
  split
  · next arbiter msg bus helect =>
    have htwo : 2 ≤ cfg.requestLatency := hlong (by simp [helect])
    obtain ⟨place, -, htake⟩ := Option.bind_eq_some_iff.1 (congrArg Prod.snd helect)
    refine ⟨⟨some (msg, 1), none, (hreq.take msg).advance (by omega), hres.idle, rfl, rfl, ?_, Nat.le_refl _⟩,
      hinv.carries.takeRequest htake _⟩
    rw [finish_clk rfl (by simp only [hclk]; omega), hclk]
  · exact ⟨⟨none, none, hreq.idle, hres.idle, .inl rfl⟩, hinv.carries⟩

/-- The slot of the broadcast keeps the invariant when every receiver accepts. -/
theorem Inv.broadcastSlot (hinv : s.Inv) (hresp : 1 ≤ cfg.responseLatency) (hne : s.clkInSlot ≠ 0)
    (hclk : s.clkInSlot + 1 = cfg.requestLatency)
    (hroom : s.electedMsg.isDemandRequest → s.bus.allAccept .request) : s.broadcastSlot.finish.Inv := by
  obtain ⟨request, response, hreq, hres, hs⟩ := hinv.carrying
  cases request with
  | none =>
    exfalso
    cases response with
    | none => rcases hs with h | ⟨-, h⟩ <;> omega
    | some q =>
      obtain ⟨-, -, hcount, hone⟩ := hs
      omega
  | some p =>
    cases response with
    | some q => exact hs.elim
    | none =>
      obtain ⟨havail, hmsg, hcount, -⟩ := hs
      have hend : p = (s.electedMsg, cfg.requestLatency - 1) := Prod.ext hmsg.symm (by omega)
      have hreq' : s.requests.Carrying (cfg.requestLatency - 1) (some (s.electedMsg, cfg.requestLatency - 1)) :=
        hend ▸ hreq
      have hok : ∃ bus, s.bus.broadcast s.electedMsg .request = (true, bus) := by
        unfold BusController.broadcast
        cases hdemand : s.electedMsg.isDemandRequest with
        | false => exact ⟨_, rfl⟩
        | true => exact ⟨_, by simp [hroom hdemand]; rfl⟩
      obtain ⟨bus, hb⟩ := hok
      have hslot : s.broadcastSlot = { s with bus := bus, requests := s.requests.send s.electedMsg } := by
        simp [UnifiedBusController.broadcastSlot, havail, hb]
      rw [hslot]
      refine ⟨⟨none, none, hreq'.send, hres.idle, .inr ⟨havail, ?_⟩⟩, hinv.carries.broadcast hb _⟩
      have hlt : s.clkInSlot + 1 < cfg.requestLatency + cfg.responseLatency := by omega
      exact (finish_clk (s := { s with bus := bus, requests := s.requests.send s.electedMsg }) havail hlt).trans hclk

/-- The slot of the forced election keeps the invariant. -/
theorem Inv.responseSlot (hinv : s.Inv) {cycle : Nat} (hreqLatency : 1 ≤ cfg.requestLatency)
    (hclk : s.clkInSlot = cfg.requestLatency)
    (hlong : (s.forceElect cycle).2.isSome → 2 ≤ cfg.responseLatency) :
    (s.responseSlot cycle).finish.Inv := by
  obtain ⟨request, response, hreq, hres, hs⟩ := hinv.carrying
  have hnone : request = none ∧ response = none := by
    cases request with
    | none =>
      cases response with
      | none => exact ⟨rfl, rfl⟩
      | some q =>
        obtain ⟨-, -, hcount, hone⟩ := hs
        omega
    | some p =>
      cases response with
      | none =>
        obtain ⟨-, -, hcount, -⟩ := hs
        obtain ⟨-, -, -, -, hle, -, -⟩ := hreq.passages
        omega
      | some q => exact hs.elim
  obtain ⟨rfl, rfl⟩ := hnone
  unfold UnifiedBusController.responseSlot
  split
  · next arbiter msg bus helect =>
    have htwo : 2 ≤ cfg.responseLatency := hlong (by simp [helect])
    obtain ⟨place, -, htake⟩ := Option.bind_eq_some_iff.1 (congrArg Prod.snd helect)
    refine ⟨⟨none, some (msg, 1), hreq.idle, (hres.take msg).advance (by omega), rfl, rfl, ?_, Nat.le_refl _⟩,
      hinv.carries.takeResponse htake _⟩
    rw [finish_clk rfl (by simp only; omega), hclk]
  · exact ⟨⟨none, none, hreq.idle, hres.idle, .inl rfl⟩, hinv.carries⟩

/-- The last slot keeps the invariant. -/
theorem Inv.sendSlot (hinv : s.Inv) (hne : s.clkInSlot ≠ 0) (hnotElect : s.clkInSlot ≠ cfg.requestLatency)
    (hresp : 1 ≤ cfg.responseLatency) (hclk : s.clkInSlot + 1 = cfg.requestLatency + cfg.responseLatency)
    (h : s.sendSlot.map finish = .ok s') : s'.Inv := by
  obtain ⟨request, response, hreq, hres, hs⟩ := hinv.carrying
  cases request with
  | some p =>
    cases response with
    | some q => exact hs.elim
    | none =>
      obtain ⟨-, -, hcount, -⟩ := hs
      obtain ⟨-, -, -, -, hle, -, -⟩ := hreq.passages
      omega
  | none =>
    cases response with
    | none => rcases hs with hzero | ⟨-, helect⟩ <;> contradiction
    | some q =>
      obtain ⟨havail, hmsg, hcount, -⟩ := hs
      have hend : q = (s.electedMsg, cfg.responseLatency - 1) := Prod.ext hmsg.symm (by omega)
      have hres' : s.responses.Carrying (cfg.responseLatency - 1)
          (some (s.electedMsg, cfg.responseLatency - 1)) := hend ▸ hres
      simp only [UnifiedBusController.sendSlot, havail, if_true] at h
      cases hsend : s.bus.send s.electedMsg .dataResponse with
      | error e => simp [hsend, Except.map] at h
      | ok bus =>
        simp only [hsend, Except.map, Except.ok.injEq] at h
        subst h
        exact ⟨⟨none, none, hreq.idle, hres'.send, .inl rfl⟩, hinv.carries.send hsend _⟩

/-- A step between the slots keeps the invariant. -/
theorem Inv.finish (hinv : s.Inv) (hne : s.clkInSlot ≠ 0) (hnotBroadcast : s.clkInSlot + 1 ≠ cfg.requestLatency)
    (hnotElect : s.clkInSlot ≠ cfg.requestLatency) (hresp : 1 ≤ cfg.responseLatency)
    (hnotSend : s.clkInSlot + 1 ≠ cfg.requestLatency + cfg.responseLatency) : s.finish.Inv := by
  obtain ⟨request, response, hreq, hres, hs⟩ := hinv.carrying
  cases request with
  | some p =>
    cases response with
    | some q => exact hs.elim
    | none =>
      obtain ⟨havail, hmsg, hcount, hone⟩ := hs
      obtain ⟨-, -, -, -, hle, -, -⟩ := hreq.passages
      refine ⟨⟨some (p.1, p.2 + 1), none, hreq.advance (by omega), hres.idle, havail, hmsg, ?_, by omega⟩,
        hinv.carries⟩
      rw [finish_clk havail (by omega), hcount]
  | none =>
    cases response with
    | none => rcases hs with hzero | ⟨-, helect⟩ <;> contradiction
    | some q =>
      obtain ⟨havail, hmsg, hcount, hone⟩ := hs
      obtain ⟨-, -, -, -, hle, -, -⟩ := hres.passages
      refine ⟨⟨none, some (q.1, q.2 + 1), hreq.idle, hres.advance (by omega), havail, hmsg, ?_, by omega⟩,
        hinv.carries⟩
      rw [finish_clk havail (by omega), hcount]
      omega

/-- One step that takes nothing in vain keeps the invariant. -/
theorem Inv.busStep (hinv : s.Inv) (hreq : 1 ≤ cfg.requestLatency) (hresp : 1 ≤ cfg.responseLatency)
    {cycle : Nat} (hlossless : s.Lossless (.step cycle)) (h : s.busStep cycle = .ok s') : s'.Inv := by
  obtain ⟨helect, hforce, hroom⟩ := hlossless
  unfold UnifiedBusController.busStep at h
  split at h
  · next hclk =>
    obtain rfl := Except.ok.inj h
    exact hinv.requestSlot hresp hclk (helect hclk)
  · next hne =>
    split at h
    · next hclk =>
      obtain rfl := Except.ok.inj h
      exact hinv.broadcastSlot hresp hne hclk (hroom hclk)
    · next hnotBroadcast =>
      split at h
      · next hclk =>
        obtain rfl := Except.ok.inj h
        exact hinv.responseSlot hreq hclk (hforce hclk)
      · next hnotElect =>
        split at h
        · next hclk => exact hinv.sendSlot hne hnotElect hresp hclk h
        · next hnotSend =>
          obtain rfl := Except.ok.inj h
          exact hinv.finish hne hnotBroadcast hnotElect hresp hnotSend

/-- The invariant of runs without losses. -/
theorem inv_inductive (hreq : 1 ≤ cfg.requestLatency) (hresp : 1 ≤ cfg.responseLatency) :
    ((system cfg).restrict Lossless).Inductive Inv where
  init s h := by
    obtain ⟨hfresh, -, hclk, -, -, hrequests, hresponses⟩ := h
    refine ⟨⟨none, none, hrequests ▸ Lane.carrying_init 0 _, hresponses ▸ Lane.carrying_init 0 _, .inl hclk⟩, ?_⟩
    rw [hrequests, hresponses]
    exact hfresh.carries
  step s label s' _ hinv h := by
    cases label with
    | traffic t =>
      obtain rfl := Except.ok.inj h.2
      exact ⟨hinv.carrying, hinv.carries.act t⟩
    | step cycle => exact hinv.busStep hreq hresp h.1 h.2

/-- A step leaves everything as it is exactly when it starts a slot and elects no request. -/
theorem unchanged_iff (hreq : 1 ≤ cfg.requestLatency) (hresp : 1 ≤ cfg.responseLatency) (cycle : Nat) :
    s.Unchanged cycle ↔ s.clkInSlot = 0 ∧ s.messageAvailable = false ∧ (s.elect cycle).2 = none := by
  have hcount : ∀ t : UnifiedBusController cfg, t.clkInSlot = s.clkInSlot → s.clkInSlot ≠ 0 →
      t.finish.clkInSlot ≠ s.clkInSlot := by
    intro t ht hne
    simp only [UnifiedBusController.finish, ht]
    split
    · intro heq
      have hmod := Nat.mod_lt (s.clkInSlot + 1) (show 0 < cfg.requestLatency + cfg.responseLatency by omega)
      rcases Nat.lt_or_ge (s.clkInSlot + 1) (cfg.requestLatency + cfg.responseLatency) with hlt | hge
      · rw [Nat.mod_eq_of_lt hlt] at heq
        omega
      · have hend : s.clkInSlot + 1 = cfg.requestLatency + cfg.responseLatency := by omega
        rw [hend, Nat.mod_self] at heq
        omega
    · exact fun heq => hne heq.symm
  constructor
  · rintro ⟨s', hstep, hbus, hclk, havail, -⟩
    unfold busStep at hstep
    split at hstep
    · next hzero =>
      obtain rfl := Except.ok.inj hstep
      unfold requestSlot at hbus havail
      split at hbus
      · next arbiter msg bus helect =>
        obtain ⟨place, -, htake⟩ := Option.bind_eq_some_iff.1 (congrArg Prod.snd helect)
        exact absurd hbus (takes_of_takeAt htake).ne
      · next arbiter helect =>
        simp only [helect] at havail
        exact ⟨hzero, havail.symm, congrArg Prod.snd helect⟩
    · next hne =>
      exfalso
      split at hstep
      · obtain rfl := Except.ok.inj hstep
        refine hcount _ ?_ hne hclk
        unfold broadcastSlot
        split
        · split <;> rfl
        · rfl
      · split at hstep
        · obtain rfl := Except.ok.inj hstep
          refine hcount _ ?_ hne hclk
          unfold responseSlot
          split <;> rfl
        · split at hstep
          · unfold sendSlot at hstep
            split at hstep
            · cases hsend : s.bus.send s.electedMsg .dataResponse with
              | error e => simp [hsend, Except.map] at hstep
              | ok bus =>
                simp only [hsend, Except.map, Except.ok.injEq] at hstep
                subst hstep
                exact hcount { s with bus := bus, messageAvailable := false, responses := s.responses.send s.electedMsg }
                  rfl hne hclk
            · obtain rfl := Except.ok.inj hstep
              exact hcount s rfl hne hclk
          · obtain rfl := Except.ok.inj hstep
            exact hcount s rfl hne hclk
  · rintro ⟨hzero, havail, helect⟩
    refine ⟨_, if_pos hzero, ?_⟩
    have hpair : s.elect cycle = ((s.elect cycle).1, none) := Prod.ext rfl helect
    rw [requestSlot, hpair]
    simp [UnifiedBusController.finish, hzero, havail]

/-- An arbiter that finds what waits elects a request exactly when one waits. -/
theorem elect_eq_none_iff {eligible : BusMessage → Prop} (hfinds : cfg.arbiter.Finds eligible)
    (hwaiting : ∀ itf ∈ s.bus.interfaces, ∀ msg ∈ itf.txRequestBuffer, eligible msg) (cycle : Nat) :
    (s.elect cycle).2 = none ↔ ¬ s.RequestWaits := by
  have hcontents : s.bus.contents (getCongregatedBuffers s.bus.indices .request) =
      s.bus.interfaces.map fun itf => itf.txRequestBuffer := contents_indices s.bus .request
  constructor
  · rintro hnone ⟨itf, hitf, hne⟩
    obtain ⟨place, buffer, msg, hplace, hbuffer, hmsg⟩ :=
      hfinds s.arbiter cycle (s.bus.contents (getCongregatedBuffers s.bus.indices .request))
        (by simpa [hcontents] using hwaiting) ⟨itf.txRequestBuffer, by simpa [hcontents] using ⟨itf, hitf, rfl⟩, hne⟩
    obtain ⟨bus, htake⟩ := exists_takeAt hbuffer hmsg
    have hsome : (s.elect cycle).2 = some (msg, bus) := Option.bind_eq_some_iff.2 ⟨place, hplace, htake⟩
    rw [hnone] at hsome
    cases hsome
  · intro hempty
    apply Option.eq_none_iff_forall_ne_some.2
    rintro ⟨msg, bus⟩ hsome
    obtain ⟨place, -, htake⟩ := Option.bind_eq_some_iff.1 hsome
    obtain ⟨buffer, hbuffer, hmsg⟩ := mem_of_takeAt htake
    rw [hcontents, List.mem_map] at hbuffer
    obtain ⟨itf, hitf, rfl⟩ := hbuffer
    exact hempty ⟨itf, hitf, List.ne_nil_of_mem hmsg⟩

/-- In runs that take no message in vain a state conserves messages exactly when a response never
waits alone at the start of a slot. -/
theorem unified_conserved_iff {eligible : BusMessage → Prop} (hreq : 1 ≤ cfg.requestLatency)
    (hresp : 1 ≤ cfg.responseLatency) (hfinds : cfg.arbiter.Finds eligible)
    (h : ((system cfg).restrict Lossless).Reachable s)
    (hwaiting : ∀ itf ∈ s.bus.interfaces, ∀ msg ∈ itf.txRequestBuffer, eligible msg) :
    s.Conserved ↔ (s.clkInSlot = 0 → s.messageAvailable = false → s.ResponseWaits → s.RequestWaits) := by
  have hinv := (inv_inductive hreq hresp).reachable h
  obtain ⟨request, response, hrequests, hresponses, -⟩ := hinv.carrying
  have hunchanged : ∀ cycle, s.Unchanged cycle ↔
      s.clkInSlot = 0 ∧ s.messageAvailable = false ∧ ¬ s.RequestWaits := by
    intro cycle
    rw [unchanged_iff hreq hresp, elect_eq_none_iff hfinds hwaiting]
  constructor
  · intro hconserved hclk havail hresponse
    by_contra hrequest
    exact hconserved.progress (.inr hresponse) 0 ((hunchanged 0).2 ⟨hclk, havail, hrequest⟩)
  · intro hcondition
    refine ⟨hrequests.conserves, hresponses.conserves, hinv.carries.requests, hinv.carries.responses,
      hinv.carries.delivered, hinv.carries.balanced, ?_⟩
    intro hwaits cycle hstays
    obtain ⟨hclk, havail, hrequest⟩ := (hunchanged cycle).1 hstays
    rcases hwaits with hwaits | hwaits
    · exact hrequest hwaits
    · exact hrequest (hcondition hclk havail hwaits)

/-- A unified bus with an FCFS arbiter. -/
abbrev fcfsConfig (requestLatency responseLatency : Nat) : UnifiedBusConfig :=
  ⟨requestLatency, responseLatency, FCFSArbiter⟩

/-- A unified bus with a round robin arbiter. -/
abbrev rrConfig (candidates : List Nat) (requestLatency responseLatency : Nat) : UnifiedBusConfig :=
  ⟨requestLatency, responseLatency, RRArbiter candidates⟩

/-- Two interfaces on a unified bus before any traffic. -/
def pairUnified (cfg : UnifiedBusConfig) : UnifiedBusController cfg where
  bus := { interfaces := [{ interfaceId := 0, bufferMaxSize := 8 }, { interfaceId := 1, bufferMaxSize := 8 }] }
  arbiter := cfg.arbiter.init

/-- The pair may start a run. -/
theorem pairUnified_init (cfg : UnifiedBusConfig) : (system cfg).init (pairUnified cfg) := by
  refine ⟨?_, rfl, rfl, rfl, rfl, rfl, rfl⟩
  simp [BusController.Fresh, pairUnified, BusInterface.fresh_mk]

/-- Traffic and steps of one slot: interface 0 sends a request and then a response to interface 1,
which pops the request and sends one of its own. -/
def pairRun : List Label :=
  [.traffic (.push 0 { addr := 64, owner := 0 } 1 .request),
    .traffic (.push 0 { addr := 64, owner := 0, toIds := [1] } 1 .dataResponse),
    .step 1, .step 2, .traffic (.peek 1), .traffic (.pop 1), .step 3, .step 4,
    .traffic (.push 1 { addr := 128, owner := 1 } 4 .request)]

/-- One request and one response are delivered, and a request waits, so that nothing is lost. -/
theorem unified_conserved_iff_pair : ∃ s : UnifiedBusController (rrConfig [0, 1] 2 2),
    s.requests.sent.length = 1 ∧ s.responses.sent.length = 1 ∧
      (s.bus.interfaces.map fun itf => itf.rxRequestBuffer.length) = [1, 0] ∧
      (s.bus.interfaces.map fun itf => itf.rxResponseBuffer.length) = [0, 1] ∧
      (s.bus.interfaces.map fun itf => itf.txRequestBuffer.length) = [0, 1] ∧ s.Conserved := by
  have hsome : (pairRun.foldlM (TransitionSystem.guarded Lossless fun s l => (exec s l).toOption)
      (pairUnified (rrConfig [0, 1] 2 2))).any fun s => decide (s.requests.sent.length = 1 ∧
        s.responses.sent.length = 1 ∧ (s.bus.interfaces.map fun itf => itf.rxRequestBuffer.length) = [1, 0] ∧
        (s.bus.interfaces.map fun itf => itf.rxResponseBuffer.length) = [0, 1] ∧
        (s.bus.interfaces.map fun itf => itf.txRequestBuffer.length) = [0, 1] ∧
        (∃ itf ∈ s.bus.interfaces, itf.txRequestBuffer ≠ []) ∧ ∀ itf ∈ s.bus.interfaces, ∀ msg ∈ itf.txRequestBuffer,
          msg.cycle < Arbiter.maxCycle ∧ msg.owner ∈ [0, 1]) := by
    decide
  obtain ⟨s, hs, htest⟩ := (Option.any_eq_true _ _).1 hsome
  obtain ⟨hrequest, hresponse, hrxRequest, hrxResponse, htx, hwaits, hwaiting⟩ := of_decide_eq_true htest
  have hstep : ∀ (s : UnifiedBusController (rrConfig [0, 1] 2 2)) l s', (exec s l).toOption = some s' →
      (system (rrConfig [0, 1] 2 2)).step s l s' := by
    intro s l s' h
    cases hexec : exec s l with
    | error e => simp [hexec, Except.toOption] at h
    | ok s₁ =>
      obtain rfl : s₁ = s' := by simpa [hexec, Except.toOption] using h
      exact hexec
  have hreach := TransitionSystem.Reachable.foldlM_guarded hstep (pairUnified_init _) hs
  have hiff := unified_conserved_iff (by decide) (by decide) (RRArbiter.finds [0, 1]) hreach hwaiting
  exact ⟨s, hrequest, hresponse, hrxRequest, hrxResponse, htx, hiff.2 fun _ _ _ => hwaits⟩

/-- A response that is pushed while no request waits is never looked at: the unified bus does not
conserve messages. -/
theorem not_conserved_of_response_only : ¬ ∀ requestLatency responseLatency : Nat, 1 ≤ requestLatency →
    1 ≤ responseLatency → ∀ s : UnifiedBusController (fcfsConfig requestLatency responseLatency),
      (system (fcfsConfig requestLatency responseLatency)).Reachable s → s.Conserved := by
  intro hclaim
  obtain ⟨history, s, hpath, htest⟩ := TransitionSystem.exists_path_of_run (fun _ _ _ h => h)
    (.init (pairUnified_init (fcfsConfig 2 2)))
    [.traffic (.push 0 { addr := 64, toIds := [1] } 1 .dataResponse), .step 1]
    (fun s => decide (s.clkInSlot = 0 ∧ s.messageAvailable = false ∧ (s.elect 2).2.isNone ∧
      ∃ itf ∈ s.bus.interfaces, itf.txResponseBuffer ≠ [])) (by decide)
  obtain ⟨hclk, havail, helect, hwaiting⟩ := of_decide_eq_true htest
  have hstuck : s.Unchanged 2 :=
    (unchanged_iff (by decide) (by decide) 2).2 ⟨hclk, havail, Option.isNone_iff_eq_none.1 helect⟩
  exact (hclaim 2 2 (by decide) (by decide) s hpath.reachable).progress (.inr hwaiting) 2 hstuck

end UnifiedBusController

end Octopus
