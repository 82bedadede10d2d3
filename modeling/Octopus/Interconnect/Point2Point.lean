import Octopus.Interconnect.Accounts
import Octopus.Lib.TransitionSystem

/-!
# The point-to-point controller

Two directions, each with one slot: a message is taken in slot 0 and sent in slot latency - 1,
the branches of one `if`. The lower direction takes what its arbiter picks, the upper direction
the head of the first transmit buffer that has one. The constructor sets the registers of the
lower direction only, so those of the upper direction start with any values.
-/

namespace Octopus

open CommunicationInterface BusController Lib

/-- The registers of a direction, with its history: the messages taken and sent that name a
destination. -/
structure P2PSlot where
  clkInSlot : Int := 0
  messageAvailable : Bool := false
  electedMsg : BusMessage := {}
  lane : Lane BusMessage := {}

namespace P2PSlot

/-- A message was taken into the slot. -/
def take (slot : P2PSlot) (msg : BusMessage) : P2PSlot :=
  { slot with
    messageAvailable := true
    electedMsg := msg
    lane := if msg.toIds = [] then slot.lane else slot.lane.take msg }

/-- The message in the slot was sent. -/
def sent (slot : P2PSlot) : P2PSlot :=
  { slot with lane := if slot.electedMsg.toIds = [] then slot.lane else slot.lane.send slot.electedMsg }

/-- The end of a step: the counter goes on, modulo the latency, while a message is there. -/
def advance (latency : Nat) (slot : P2PSlot) : P2PSlot :=
  { slot with
    clkInSlot := if slot.messageAvailable then (slot.clkInSlot + 1).tmod latency else 0
    lane := slot.lane.tick }

end P2PSlot

/-- The parameters of a point-to-point controller. -/
structure P2PConfig where
  requestLatency : Nat
  responseLatency : Nat
  lowerLevelIds : List Nat
  arbiter : Arbiter

/-- The state of a point-to-point controller. -/
structure Point2PointController (cfg : P2PConfig) where
  bus : BusController BusInterface
  arbiter : cfg.arbiter.State
  lower : P2PSlot := {}
  upper : P2PSlot := {}

namespace Point2PointController

variable {cfg : P2PConfig}

/-- The transmit buffers of the lower interfaces, requests before responses. -/
def buffersLower (cfg : P2PConfig) (bus : BusController BusInterface) : List BufferRef :=
  let indices := cfg.lowerLevelIds.filterMap (destinationIndex bus.ids)
  getCongregatedBuffers indices .request ++ getCongregatedBuffers indices .dataResponse

/-- The transmit buffers of the upper interface: the first that is not a lower one. -/
def buffersUpper (cfg : P2PConfig) (bus : BusController BusInterface) : List BufferRef :=
  let indices := (bus.ids.findIdx? fun id => !cfg.lowerLevelIds.contains id).toList
  getCongregatedBuffers indices .request ++ getCongregatedBuffers indices .dataResponse

/-- The place the arbiter picks in the lower buffers. -/
def lowerPlace (cycle : Nat) (s : Point2PointController cfg) : cfg.arbiter.State × Option BufferPlace :=
  cfg.arbiter.elect s.arbiter cycle (s.bus.contents (buffersLower cfg s.bus))

/-- The message the lower direction would take, with the bus it leaves. -/
def lowerElection (cycle : Nat) (s : Point2PointController cfg) :
    Option (BusMessage × BusController BusInterface) :=
  (s.lowerPlace cycle).2.bind (s.bus.takeAt (buffersLower cfg s.bus))

/-- The message the upper direction would take: the head of the first buffer that has one. -/
def upperElection (s : Point2PointController cfg) : Option (BusMessage × BusController BusInterface) :=
  ((s.bus.contents (buffersUpper cfg s.bus)).findIdx? fun buffer => !buffer.isEmpty).bind fun i =>
    s.bus.takeAt (buffersUpper cfg s.bus) ⟨i, 0⟩

/-- The election of a lower step. -/
def electLower (cycle : Nat) (s : Point2PointController cfg) : Point2PointController cfg :=
  match s.lowerElection cycle with
  | some (msg, bus) =>
    { s with bus := bus, arbiter := (s.lowerPlace cycle).1, lower := s.lower.take msg }
  | none =>
    { s with arbiter := (s.lowerPlace cycle).1, lower := { s.lower with messageAvailable := false } }

/-- The election of an upper step; without any buffer the loop leaves the registers. -/
def electUpper (s : Point2PointController cfg) : Point2PointController cfg :=
  match s.upperElection with
  | some (msg, bus) => { s with bus := bus, upper := s.upper.take msg }
  | none =>
    if buffersUpper cfg s.bus = [] then s
    else { s with upper := { s.upper with messageAvailable := false } }

/-- One step of the lower direction. -/
def lowerBusStep (cycle : Nat) (s : Point2PointController cfg) :
    Except BusExit (Point2PointController cfg) :=
  if s.lower.clkInSlot = 0 then
    let s := s.electLower cycle
    .ok { s with lower := s.lower.advance cfg.requestLatency }
  else if s.lower.clkInSlot = cfg.requestLatency - 1 && s.lower.messageAvailable then
    (s.bus.send s.lower.electedMsg .dataResponse).map fun bus =>
      { s with bus := bus, lower := s.lower.sent.advance cfg.requestLatency }
  else .ok { s with lower := s.lower.advance cfg.requestLatency }

/-- One step of the upper direction. -/
def upperBusStep (s : Point2PointController cfg) : Except BusExit (Point2PointController cfg) :=
  if s.upper.clkInSlot = 0 then
    let s := s.electUpper
    .ok { s with upper := s.upper.advance cfg.responseLatency }
  else if s.upper.clkInSlot = cfg.responseLatency - 1 && s.upper.messageAvailable then
    (s.bus.send s.upper.electedMsg .dataResponse).map fun bus =>
      { s with bus := bus, upper := s.upper.sent.advance cfg.responseLatency }
  else .ok { s with upper := s.upper.advance cfg.responseLatency }

/-- One step of the controller. -/
def busStep (cycle : Nat) (s : Point2PointController cfg) : Except BusExit (Point2PointController cfg) := do
  let s ← s.lowerBusStep cycle
  s.upperBusStep

/-- The steps of a run: traffic at the interfaces and the steps of the two directions. -/
inductive Label
  | traffic (t : Traffic)
  | lower (cycle : Nat)
  | upper

/-- One step of a run. -/
def exec (s : Point2PointController cfg) : Label → Except BusExit (Point2PointController cfg)
  | .traffic t => .ok { s with bus := s.bus.act t }
  | .lower cycle => s.lowerBusStep cycle
  | .upper => s.upperBusStep

/-- The runs of a point-to-point controller, from interfaces nothing has passed yet. -/
def system (cfg : P2PConfig) : TransitionSystem (Point2PointController cfg) Label where
  init s := s.bus.Fresh ∧ s.arbiter = cfg.arbiter.init ∧ s.lower = {} ∧
    s.upper.electedMsg = {} ∧ s.upper.lane = {}
  step s label s' := s.exec label = .ok s'

end Point2PointController

namespace P2PSlot

/-- What a step of a direction does to its slot, with the message it takes. -/
inductive Step (latency : Nat) (slot : P2PSlot) : Option BusMessage → P2PSlot → Prop
  | take (msg : BusMessage) : slot.clkInSlot = 0 → Step latency slot (some msg) ((slot.take msg).advance latency)
  | empty : slot.clkInSlot = 0 → Step latency slot none ({ slot with messageAvailable := false }.advance latency)
  | unset : slot.clkInSlot = 0 → slot.electedMsg.toIds = [] → Step latency slot none (slot.advance latency)
  | send : slot.clkInSlot ≠ 0 → slot.clkInSlot = latency - 1 → slot.messageAvailable →
      Step latency slot none (slot.sent.advance latency)
  | wait : slot.clkInSlot ≠ 0 → ¬ (slot.clkInSlot = latency - 1 ∧ slot.messageAvailable) →
      Step latency slot none (slot.advance latency)

/-- How the registers show the message a lane carries. A message without destinations, such as
the one the registers start with, counts as none. -/
def Shows (slot : P2PSlot) : Option (BusMessage × Nat) → Prop
  | none => slot.messageAvailable → slot.electedMsg.toIds = [] ∨ slot.clkInSlot = 0
  | some (msg, clk) => slot.messageAvailable ∧ slot.electedMsg = msg ∧ msg.toIds ≠ [] ∧
      slot.clkInSlot = clk ∧ 1 ≤ clk

/-- The invariant of a direction; `lossless` says that it never took a message in vain. -/
structure Accounts (latency : Nat) (lossless : Prop) (slot : P2PSlot) : Prop where
  carrying : 2 ≤ latency → ∃ o, slot.lane.Carrying (latency - 1) o ∧ slot.Shows o
  silent : latency = 1 → slot.lane.sent = [] ∧ slot.lane.held = [] ∧
    ∀ t ∈ slot.lane.taken, t.time < slot.lane.now
  losses : latency = 1 → (slot.lane.taken = [] ↔ lossless)

variable {latency : Nat} {slot slot' : P2PSlot} {took : Option BusMessage} {lossless : Prop}

/-- Another way to say that nothing was lost. -/
theorem Accounts.congr {lossless' : Prop} (h : slot.Accounts latency lossless)
    (hiff : lossless ↔ lossless') : slot.Accounts latency lossless' :=
  ⟨h.carrying, h.silent, fun hone => (h.losses hone).trans hiff⟩

/-- A slot that carries nothing, at its election. -/
theorem carrying_none_of_clk {d : Nat} {o : Option (BusMessage × Nat)} (hc : slot.lane.Carrying d o)
    (hs : slot.Shows o) (hclk : slot.clkInSlot = 0) : slot.lane.Carrying d none := by
  cases o with
  | none => exact hc
  | some p =>
    obtain ⟨-, -, -, hp, hone⟩ := hs
    omega

/-- The counter of a message under way goes on by one. -/
theorem tmod_succ {n : Nat} (h : n + 1 < latency) : ((n : Int) + 1).tmod latency = n + 1 := by
  apply Int.tmod_eq_of_lt <;> omega

/-- One step keeps the invariant when messages have the time to be sent. -/
theorem Step.carrying (h : Step latency slot took slot') (hlatency : 2 ≤ latency)
    (hinv : ∃ o, slot.lane.Carrying (latency - 1) o ∧ slot.Shows o) :
    ∃ o, slot'.lane.Carrying (latency - 1) o ∧ slot'.Shows o := by
  obtain ⟨o, hc, hs⟩ := hinv
  cases h with
  | take msg hclk =>
    have hnone := carrying_none_of_clk hc hs hclk
    by_cases hto : msg.toIds = []
    · refine ⟨none, ?_, fun _ => .inl hto⟩
      simpa [advance, P2PSlot.take, hto] using hnone.idle
    · refine ⟨some (msg, 1), ?_, rfl, rfl, hto, ?_, by omega⟩
      · simpa [advance, P2PSlot.take, hto] using (hnone.take msg).advance (by omega)
      · simp only [advance, P2PSlot.take, hclk, if_true]
        exact tmod_succ (n := 0) (by omega)
  | empty hclk => exact ⟨none, (carrying_none_of_clk hc hs hclk).idle, by simp [Shows, advance]⟩
  | unset hclk hto => exact ⟨none, (carrying_none_of_clk hc hs hclk).idle, fun _ => .inl hto⟩
  | send hne hclk havail =>
    cases o with
    | none =>
      have hto : slot.electedMsg.toIds = [] := (hs havail).resolve_right hne
      refine ⟨none, ?_, fun _ => .inl hto⟩
      simpa [advance, P2PSlot.sent, hto] using hc.idle
    | some p =>
      obtain ⟨-, helected, hto, hp, -⟩ := hs
      have hend : p = (slot.electedMsg, latency - 1) := Prod.ext helected.symm (by omega)
      have hc' : slot.lane.Carrying (latency - 1) (some (slot.electedMsg, latency - 1)) := hend ▸ hc
      refine ⟨none, ?_, fun _ => .inr ?_⟩
      · simpa [advance, P2PSlot.sent, helected, hto] using hc'.send
      · have hwrap : slot.clkInSlot + 1 = latency := by omega
        simp [advance, P2PSlot.sent, havail, hwrap]
  | wait hne hwait =>
    cases o with
    | none => exact ⟨none, hc.idle, fun havail => .inl ((hs havail).resolve_right hne)⟩
    | some p =>
      obtain ⟨havail, helected, hto, hp, hone⟩ := hs
      obtain ⟨-, -, -, -, hle, -, -⟩ := hc.passages
      have hlt : p.2 < latency - 1 := by
        have hneq : ¬ slot.clkInSlot = latency - 1 := fun heq => hwait ⟨heq, havail⟩
        omega
      refine ⟨some (p.1, p.2 + 1), hc.advance hlt, havail, helected, hto, ?_, by omega⟩
      simp only [advance, havail, hp, if_true]
      exact_mod_cast tmod_succ (n := p.2) (by omega)

/-- One step keeps the account of what was lost. -/
theorem Step.accounts (h : Step latency slot took slot') (hinv : slot.Accounts latency lossless) :
    slot'.Accounts latency (lossless ∧ ∀ msg ∈ took, msg.toIds = []) where
  carrying hlatency := h.carrying hlatency (hinv.carrying hlatency)
  silent hone := by
    obtain ⟨hsent, hheld, hpast⟩ := hinv.silent hone
    cases h with
    | take msg hclk =>
      by_cases hto : msg.toIds = []
      · have hlane : ((slot.take msg).advance latency).lane = slot.lane.tick := by
          simp [advance, P2PSlot.take, hto]
        rw [hlane]
        exact ⟨hsent, hheld, fun t ht => Nat.lt_succ_of_lt (hpast t ht)⟩
      · refine ⟨by simp [advance, P2PSlot.take, hto, hsent], by simp [advance, P2PSlot.take, hto, hheld], ?_⟩
        intro t ht
        simp only [advance, P2PSlot.take, hto, if_false, Lane.taken_tick, Lane.taken_take, List.mem_append,
          List.mem_singleton] at ht
        simp only [advance, P2PSlot.take, hto, if_false, Lane.now_tick, Lane.now_take]
        rcases ht with ht | rfl
        · exact Nat.lt_succ_of_lt (hpast t ht)
        · exact Nat.lt_succ_self _
    | send hne hclk => exact absurd hclk (by omega)
    | _ => exact ⟨hsent, hheld, fun t ht => Nat.lt_succ_of_lt (hpast t ht)⟩
  losses hone := by
    have hlosses := hinv.losses hone
    cases h with
    | take msg hclk =>
      by_cases hto : msg.toIds = []
      · simp [advance, P2PSlot.take, hto, hlosses]
      · simp [advance, P2PSlot.take, hto]
    | send hne hclk => exact absurd hclk (by omega)
    | _ => simp [advance, hlosses]

/-- What the history of a direction shows of a message that was taken. -/
def recorded : Option BusMessage → List BusMessage
  | some msg => if msg.toIds = [] then [] else [msg]
  | none => []

/-- A step adds to the history of its direction what it takes, if it names a destination. -/
theorem Step.items (h : Step latency slot took slot') : slot'.lane.taken.map Stamped.item =
    slot.lane.taken.map Stamped.item ++ recorded took := by
  cases h with
  | take msg =>
    by_cases hto : msg.toIds = []
    · simp [advance, P2PSlot.take, recorded, hto]
    · simp [advance, P2PSlot.take, recorded, hto]
  | send =>
    unfold advance P2PSlot.sent
    dsimp only
    split <;> simp [recorded]
  | _ => simp [advance, recorded]

/-- A direction conserves its messages exactly when none was taken in vain. -/
theorem Accounts.conserves_iff (h : slot.Accounts latency lossless) (hlatency : 1 ≤ latency) :
    slot.lane.Conserves (latency - 1) ↔ (2 ≤ latency ∨ lossless) := by
  rcases Nat.lt_or_ge latency 2 with hlt | hge
  · obtain rfl : latency = 1 := by omega
    obtain ⟨hsent, hheld, hpast⟩ := h.silent rfl
    rw [Nat.sub_self, Lane.conserves_zero_iff hsent hpast hheld, h.losses rfl]
    simp
  · obtain ⟨o, hc, -⟩ := h.carrying hge
    simp [hge, hc.conserves]

end P2PSlot

namespace Point2PointController

variable {cfg : P2PConfig} {s s' : Point2PointController cfg}

/-- The message a lower step takes. -/
def lowerTakes (cycle : Nat) (s : Point2PointController cfg) : Option BusMessage :=
  if s.lower.clkInSlot = 0 then (s.lowerElection cycle).map Prod.fst else none

/-- The message an upper step takes. -/
def upperTakes (s : Point2PointController cfg) : Option BusMessage :=
  if s.upper.clkInSlot = 0 then s.upperElection.map Prod.fst else none

/-- A step delivers through the bus what it adds to the history of its direction. -/
structure Delivers (bus bus' : BusController BusInterface) (slot slot' : P2PSlot) : Prop where
  ids : bus'.ids = bus.ids
  heard : ∀ i, ∃ new, bus'.heardBy i = bus.heardBy i ++ new ∧
    deliveries bus.ids .dataResponse slot'.lane.sent i =
      deliveries bus.ids .dataResponse slot.lane.sent i ++ new

/-- A step that sends nothing delivers nothing. -/
theorem delivers_of_sameHeard {bus bus' : BusController BusInterface} {slot slot' : P2PSlot}
    (h : SameHeard bus bus') (hsent : slot'.lane.sent = slot.lane.sent) : Delivers bus bus' slot slot' where
  ids := h.ids
  heard i := ⟨[], by simp [h.heard i], by simp [hsent]⟩

/-- Taking a message sends nothing. -/
theorem sent_take (slot : P2PSlot) (msg : BusMessage) (latency : Nat) :
    ((slot.take msg).advance latency).lane.sent = slot.lane.sent := by
  unfold P2PSlot.advance P2PSlot.take
  dsimp only
  split <;> rfl

/-- A step that sends delivers the message once for each entry of its destination list. -/
theorem delivers_of_send {bus bus' : BusController BusInterface} {slot : P2PSlot} {latency : Nat}
    (h : bus.send slot.electedMsg .dataResponse = .ok bus') :
    Delivers bus bus' slot (slot.sent.advance latency) where
  ids := (send_eq_ok h).1
  heard i := by
    refine ⟨_, (send_eq_ok h).2 i, ?_⟩
    by_cases hto : slot.electedMsg.toIds = []
    · simp [P2PSlot.advance, P2PSlot.sent, hto, copies]
    · simp [P2PSlot.advance, P2PSlot.sent, hto]

/-- What a step does to the transmit buffers: it takes at most one message out of them. -/
def Moves (bus bus' : BusController BusInterface) : Option BusMessage → Prop
  | none => KeepsTransmit bus bus'
  | some msg => ∃ type ∈ [MessageType.request, .dataResponse], Takes bus bus' type msg

/-- A message taken from the buffers of the interfaces. -/
theorem moves_of_takeAt {bus bus' : BusController BusInterface} {indices : List Nat} {place : BufferPlace}
    {msg : BusMessage} (h : bus.takeAt (getCongregatedBuffers indices .request ++
      getCongregatedBuffers indices .dataResponse) place = some (msg, bus')) : Moves bus bus' (some msg) := by
  obtain ⟨ref, href, htakes⟩ := takeAt_takes h
  refine ⟨ref.2, ?_, htakes⟩
  rcases List.mem_append.1 href with href | href
  · obtain ⟨i, -, rfl⟩ := List.mem_map.1 href
    simp
  · obtain ⟨i, -, rfl⟩ := List.mem_map.1 href
    simp

/-- What a lower step does. -/
theorem lowerBusStep_spec {cycle : Nat} (h : s.lowerBusStep cycle = .ok s') :
    P2PSlot.Step cfg.requestLatency s.lower (s.lowerTakes cycle) s'.lower ∧ s'.upper = s.upper ∧
      Delivers s.bus s'.bus s.lower s'.lower ∧ Moves s.bus s'.bus (s.lowerTakes cycle) := by
  unfold lowerBusStep at h
  split at h
  · next hclk =>
    obtain rfl := Except.ok.inj h
    unfold electLower
    split
    · next msg bus helection =>
      obtain ⟨place, -, htake⟩ := Option.bind_eq_some_iff.1 helection
      rw [show s.lowerTakes cycle = some msg by simp [lowerTakes, hclk, helection]]
      exact ⟨.take msg hclk, rfl, delivers_of_sameHeard (takeAt_sameHeard htake) (sent_take _ _ _),
        moves_of_takeAt htake⟩
    · next helection =>
      rw [show s.lowerTakes cycle = none by simp [lowerTakes, helection]]
      exact ⟨.empty hclk, rfl, delivers_of_sameHeard (.refl _) rfl, .refl _⟩
  · next hclk =>
    rw [show s.lowerTakes cycle = none from if_neg hclk]
    split at h
    · next hsend =>
      simp only [Bool.and_eq_true, decide_eq_true_eq] at hsend
      cases hbus : s.bus.send s.lower.electedMsg .dataResponse with
      | error e => simp [hbus, Except.map] at h
      | ok bus =>
        simp only [hbus, Except.map, Except.ok.injEq] at h
        subst h
        exact ⟨.send hclk hsend.1 hsend.2, rfl, delivers_of_send hbus, send_keeps hbus⟩
    · next hwait =>
      obtain rfl := Except.ok.inj h
      simp only [Bool.and_eq_true, decide_eq_true_eq] at hwait
      exact ⟨.wait hclk hwait, rfl, delivers_of_sameHeard (.refl _) rfl, .refl _⟩

/-- What an upper step does; the loop over no buffers at all leaves a message without destinations. -/
theorem upperBusStep_spec (h : s.upperBusStep = .ok s')
    (hunset : buffersUpper cfg s.bus = [] → s.upper.electedMsg.toIds = []) :
    P2PSlot.Step cfg.responseLatency s.upper s.upperTakes s'.upper ∧ s'.lower = s.lower ∧
      Delivers s.bus s'.bus s.upper s'.upper ∧ Moves s.bus s'.bus s.upperTakes ∧
      (buffersUpper cfg s.bus = [] → s'.upper.electedMsg.toIds = []) := by
  unfold upperBusStep at h
  split at h
  · next hclk =>
    obtain rfl := Except.ok.inj h
    unfold electUpper
    split
    · next msg bus helection =>
      obtain ⟨i, hfind, htake⟩ := Option.bind_eq_some_iff.1 helection
      rw [show s.upperTakes = some msg by simp [upperTakes, hclk, helection]]
      refine ⟨.take msg hclk, rfl, delivers_of_sameHeard (takeAt_sameHeard htake) (sent_take _ _ _),
        moves_of_takeAt htake, ?_⟩
      intro hnil
      simp [contents, hnil] at hfind
    · next helection =>
      rw [show s.upperTakes = none by simp [upperTakes, helection]]
      split
      · next hnil =>
        exact ⟨.unset hclk (hunset hnil), rfl, delivers_of_sameHeard (.refl _) rfl, .refl _, hunset⟩
      · next hne =>
        exact ⟨.empty hclk, rfl, delivers_of_sameHeard (.refl _) rfl, .refl _, hunset⟩
  · next hclk =>
    rw [show s.upperTakes = none from if_neg hclk]
    split at h
    · next hsend =>
      simp only [Bool.and_eq_true, decide_eq_true_eq] at hsend
      cases hbus : s.bus.send s.upper.electedMsg .dataResponse with
      | error e => simp [hbus, Except.map] at h
      | ok bus =>
        simp only [hbus, Except.map, Except.ok.injEq] at h
        subst h
        exact ⟨.send hclk hsend.1 hsend.2, rfl, delivers_of_send hbus, send_keeps hbus, hunset⟩
    · next hwait =>
      obtain rfl := Except.ok.inj h
      simp only [Bool.and_eq_true, decide_eq_true_eq] at hwait
      exact ⟨.wait hclk hwait, rfl, delivers_of_sameHeard (.refl _) rfl, .refl _, hunset⟩

/-- The upper buffers depend on the identifiers of the interfaces only. -/
theorem buffersUpper_congr {bus bus' : BusController BusInterface} (h : bus'.ids = bus.ids) :
    buffersUpper cfg bus' = buffersUpper cfg bus := by
  simp [buffersUpper, h]

/-- What every interface has received is what the two directions sent it, each in its order. -/
def Received (s : Point2PointController cfg) (i : Nat) : Prop :=
  let lower := deliveries s.bus.ids .dataResponse s.lower.lane.sent i
  let upper := deliveries s.bus.ids .dataResponse s.upper.lane.sent i
  (s.bus.heardBy i).Perm (lower ++ upper) ∧ lower.Sublist (s.bus.heardBy i) ∧ upper.Sublist (s.bus.heardBy i)

/-- What the directions took is what left the transmit buffers, apart from messages without a
destination, which they drop. -/
def Elected (bus : BusController BusInterface) (lower upper : List BusMessage) : Prop :=
  ∃ dropped : List BusMessage, (∀ msg ∈ dropped, msg.toIds = []) ∧
    bus.Accounts [.request, .dataResponse] (dropped ++ lower ++ upper)

/-- What is owed to the users: both directions conserve the messages they take, what they take is
what leaves the transmit buffers, the interfaces receive exactly what was sent and have it in their
receive buffers until they pop it, and a step never ends the program when the message in its slot
names interfaces of the bus. -/
structure Conserved (s : Point2PointController cfg) : Prop where
  lower : s.lower.lane.Conserves (cfg.requestLatency - 1)
  upper : s.upper.lane.Conserves (cfg.responseLatency - 1)
  elected : Elected s.bus (s.lower.lane.taken.map Stamped.item) (s.upper.lane.taken.map Stamped.item)
  received : ∀ i, s.Received i
  balanced : s.bus.Balanced
  lowerProceeds : ∀ cycle, (∀ d ∈ s.lower.electedMsg.toIds, d ∈ s.bus.ids) →
    ∃ s', s.lowerBusStep cycle = .ok s'
  upperProceeds : (∀ d ∈ s.upper.electedMsg.toIds, d ∈ s.bus.ids) → ∃ s', s.upperBusStep = .ok s'

/-- A step takes no message in vain: with latency 1 it finds none that names a destination. -/
def Lossless (cfg : P2PConfig) (p : Point2PointController cfg × Label) : Prop :=
  match p.2 with
  | .traffic _ => True
  | .lower cycle => 2 ≤ cfg.requestLatency ∨ ∀ msg ∈ p.1.lowerTakes cycle, msg.toIds = []
  | .upper => 2 ≤ cfg.responseLatency ∨ ∀ msg ∈ p.1.upperTakes, msg.toIds = []

/-- What leaves the transmit buffers enters the account: at the end of what was dropped or of what the
direction took. -/
theorem Elected.move {bus bus' : BusController BusInterface} {lower upper : List BusMessage}
    (h : Elected bus lower upper) {took : Option BusMessage} (hmoves : Moves bus bus' took) :
    Elected bus' (lower ++ P2PSlot.recorded took) upper ∧ Elected bus' lower (upper ++ P2PSlot.recorded took) := by
  obtain ⟨dropped, hdropped, haccounts⟩ := h
  cases took with
  | none =>
    have hsame : Elected bus' lower upper := ⟨dropped, hdropped, haccounts.keep hmoves⟩
    simpa [P2PSlot.recorded] using hsame
  | some msg =>
    obtain ⟨type, htype, htakes⟩ := hmoves
    have htaken : bus'.Accounts [.request, .dataResponse] ((dropped ++ lower ++ upper) ++ [msg]) := by
      have hone : [MessageType.request, .dataResponse].flatMap (single type msg) = [msg] := by
        rcases List.mem_pair.1 htype with rfl | rfl <;> rfl
      exact hone ▸ haccounts.take htakes
    by_cases hto : msg.toIds = []
    · have hsame : Elected bus' lower upper := by
        refine ⟨dropped ++ [msg], ?_, htaken.perm ?_⟩
        · intro other hother
          rcases List.mem_append.1 hother with hmem | hmem
          · exact hdropped other hmem
          · rwa [List.mem_singleton.1 hmem]
        · simp only [List.append_assoc]
          rw [← List.append_assoc lower upper [msg]]
          exact List.perm_append_comm.append_left dropped
      simpa [P2PSlot.recorded, hto] using hsame
    · rw [show P2PSlot.recorded (some msg) = [msg] from if_neg hto]
      refine ⟨⟨dropped, hdropped, htaken.perm ?_⟩, ⟨dropped, hdropped, ?_⟩⟩
      · simp only [List.append_assoc]
        exact (List.perm_append_comm.append_left lower).append_left dropped
      · rw [← List.append_assoc]
        exact htaken

/-- What leaves the transmit buffers keeps the receive side in balance. -/
theorem balanced_of_moves {bus bus' : BusController BusInterface} {took : Option BusMessage}
    (h : Moves bus bus' took) (hbalanced : bus.Balanced) : bus'.Balanced := by
  cases took with
  | none => exact KeepsTransmit.balanced h hbalanced
  | some msg =>
    obtain ⟨type, -, htakes⟩ := h
    exact htakes.balanced hbalanced

/-- What a run keeps, with the steps it took. -/
structure RunInv (cfg : P2PConfig) (history : List (Point2PointController cfg × Label))
    (s : Point2PointController cfg) : Prop where
  lower : s.lower.Accounts cfg.requestLatency
    (∀ p ∈ history, ∀ cycle, p.2 = .lower cycle → ∀ msg ∈ p.1.lowerTakes cycle, msg.toIds = [])
  upper : s.upper.Accounts cfg.responseLatency
    (∀ p ∈ history, p.2 = .upper → ∀ msg ∈ p.1.upperTakes, msg.toIds = [])
  elected : Elected s.bus (s.lower.lane.taken.map Stamped.item) (s.upper.lane.taken.map Stamped.item)
  received : ∀ i, s.Received i
  balanced : s.bus.Balanced
  unset : buffersUpper cfg s.bus = [] → s.upper.electedMsg.toIds = []

/-- Deliveries of the first direction keep the account of an interface. -/
theorem perm_append_left {α : Type*} {heard lower upper new : List α}
    (h : heard.Perm (lower ++ upper)) : (heard ++ new).Perm (lower ++ new ++ upper) := by
  have hswap : (upper ++ new).Perm (new ++ upper) := List.perm_append_comm
  have hmove := hswap.append_left lower
  rw [← List.append_assoc, ← List.append_assoc] at hmove
  exact (h.append_right new).trans hmove

/-- A step of the lower direction keeps the account of every interface. -/
theorem Received.lower {i : Nat} (h : s.Received i) (hd : Delivers s.bus s'.bus s.lower s'.lower)
    (hupper : s'.upper = s.upper) : s'.Received i := by
  obtain ⟨hperm, hlower, hup⟩ := h
  obtain ⟨new, hheard, hnew⟩ := hd.heard i
  simp only [Received, hd.ids, hupper, hheard, hnew]
  exact ⟨perm_append_left hperm, hlower.append_right new, hup.trans (List.sublist_append_left _ _)⟩

/-- A step of the upper direction keeps the account of every interface. -/
theorem Received.upper {i : Nat} (h : s.Received i) (hd : Delivers s.bus s'.bus s.upper s'.upper)
    (hlower : s'.lower = s.lower) : s'.Received i := by
  obtain ⟨hperm, hlow, hup⟩ := h
  obtain ⟨new, hheard, hnew⟩ := hd.heard i
  simp only [Received, hd.ids, hlower, hheard, hnew]
  refine ⟨?_, hlow.trans (List.sublist_append_left _ _), hup.append_right new⟩
  rw [← List.append_assoc]
  exact hperm.append_right new

/-- Every run keeps the invariant. -/
theorem runInv_of_path {history : List (Point2PointController cfg × Label)}
    (h : (system cfg).Path history s) : RunInv cfg history s := by
  induction h with
  | init hinit =>
    obtain ⟨hfresh, -, hlower, helected, hlane⟩ := hinit
    refine ⟨?_, ?_, ?_, ?_, hfresh.balanced, fun _ => by simp [helected]⟩
    · rw [hlower]
      exact ⟨fun _ => ⟨none, Lane.carrying_init 0 _, by simp [P2PSlot.Shows]⟩, by simp, by simp⟩
    · refine ⟨fun _ => ⟨none, hlane ▸ Lane.carrying_init 0 _, fun _ => .inl (by simp [helected])⟩, ?_, ?_⟩
      · simp [hlane]
      · simp [hlane]
    · exact ⟨[], by simp, by simpa [hlower, hlane] using hfresh.accounts _⟩
    · intro i
      simp [Received, hfresh.heardBy, hlower, hlane]
  | @step history s s' label _ hstep ih =>
    cases label with
    | traffic t =>
      obtain rfl : { s with bus := s.bus.act t } = s' := Except.ok.inj hstep
      have hsame := act_sameHeard s.bus t
      obtain ⟨dropped, hdropped, haccounts⟩ := ih.elected
      refine ⟨?_, ?_, ⟨dropped, hdropped, haccounts.act t⟩, ?_, ih.balanced.act t, ?_⟩
      · simpa using ih.lower
      · simpa using ih.upper
      · intro i
        simpa only [Received, hsame.ids, hsame.heard i] using ih.received i
      · simpa only [buffersUpper_congr hsame.ids] using ih.unset
    | lower cycle =>
      obtain ⟨hslot, hupper, hdelivers, hmoves⟩ := lowerBusStep_spec hstep
      refine ⟨?_, ?_, ?_, fun i => (ih.received i).lower hdelivers hupper, balanced_of_moves hmoves ih.balanced, ?_⟩
      · have haccounts := hslot.accounts ih.lower
        refine haccounts.congr ?_
        simp [and_comm]
      · simpa [hupper] using ih.upper
      · rw [hslot.items, hupper]
        exact (ih.elected.move hmoves).1
      · simpa only [buffersUpper_congr hdelivers.ids, hupper] using ih.unset
    | upper =>
      obtain ⟨hslot, hlower, hdelivers, hmoves, hunset⟩ := upperBusStep_spec hstep ih.unset
      refine ⟨?_, ?_, ?_, fun i => (ih.received i).upper hdelivers hlower, balanced_of_moves hmoves ih.balanced, ?_⟩
      · simpa [hlower] using ih.lower
      · have haccounts := hslot.accounts ih.upper
        refine haccounts.congr ?_
        simp [and_comm]
      · rw [hslot.items, hlower]
        exact (ih.elected.move hmoves).2
      · simpa only [buffersUpper_congr hdelivers.ids] using hunset

/-- A step of the controller is a step of each direction, the lower one first. -/
theorem path_of_busStep {history : List (Point2PointController cfg × Label)} {cycle : Nat}
    (h : (system cfg).Path history s) (hstep : s.busStep cycle = .ok s') :
    ∃ middle, (system cfg).Path ((middle, .upper) :: (s, .lower cycle) :: history) s' := by
  unfold busStep at hstep
  cases hlower : s.lowerBusStep cycle with
  | error e => simp [hlower, bind, Except.bind] at hstep
  | ok middle =>
    simp only [hlower, bind, Except.bind] at hstep
    have hfirst : (system cfg).step s (.lower cycle) middle := hlower
    have hsecond : (system cfg).step middle .upper s' := hstep
    exact ⟨middle, (h.step hfirst).step hsecond⟩

/-- A lower step never ends the program when its message names interfaces of the bus. -/
theorem lowerBusStep_proceeds (cycle : Nat)
    (h : ∀ d ∈ s.lower.electedMsg.toIds, d ∈ s.bus.ids) : ∃ s', s.lowerBusStep cycle = .ok s' := by
  obtain ⟨bus, hbus⟩ := exists_send_response h
  unfold lowerBusStep
  split
  · exact ⟨_, rfl⟩
  · split
    · exact ⟨_, by rw [hbus]; rfl⟩
    · exact ⟨_, rfl⟩

/-- An upper step never ends the program when its message names interfaces of the bus. -/
theorem upperBusStep_proceeds (h : ∀ d ∈ s.upper.electedMsg.toIds, d ∈ s.bus.ids) :
    ∃ s', s.upperBusStep = .ok s' := by
  obtain ⟨bus, hbus⟩ := exists_send_response h
  unfold upperBusStep
  split
  · exact ⟨_, rfl⟩
  · split
    · exact ⟨_, by rw [hbus]; rfl⟩
    · exact ⟨_, rfl⟩

/-- A direction takes nothing in vain exactly when each of its steps does. -/
theorem or_forall_iff {α : Type*} {P : Prop} {Q : α → Prop} {l : List α} :
    (P ∨ ∀ a ∈ l, Q a) ↔ ∀ a ∈ l, P ∨ Q a := by
  by_cases h : P <;> simp [h]

/-- The exact condition for a run to conserve what it takes: no step takes a message in vain. -/
theorem p2p_conserved_iff {history : List (Point2PointController cfg × Label)}
    (hreq : 1 ≤ cfg.requestLatency) (hresp : 1 ≤ cfg.responseLatency)
    (h : (system cfg).Path history s) : s.Conserved ↔ ∀ p ∈ history, Lossless cfg p := by
  have hinv := runInv_of_path h
  have hlossless : (∀ p ∈ history, Lossless cfg p) ↔
      (∀ p ∈ history, 2 ≤ cfg.requestLatency ∨
        ∀ cycle, p.2 = .lower cycle → ∀ msg ∈ p.1.lowerTakes cycle, msg.toIds = []) ∧
      ∀ p ∈ history, 2 ≤ cfg.responseLatency ∨ (p.2 = .upper → ∀ msg ∈ p.1.upperTakes, msg.toIds = []) := by
    rw [← forall₂_and]
    refine forall₂_congr fun p _ => ?_
    obtain ⟨q, label⟩ := p
    cases label <;> simp [Lossless]
  rw [hlossless, ← or_forall_iff, ← or_forall_iff, ← hinv.lower.conserves_iff hreq,
    ← hinv.upper.conserves_iff hresp]
  constructor
  · intro hc
    exact ⟨hc.lower, hc.upper⟩
  · rintro ⟨hlower, hupper⟩
    exact ⟨hlower, hupper, hinv.elected, hinv.received, hinv.balanced, lowerBusStep_proceeds,
      upperBusStep_proceeds⟩

/-- A controller between a lower interface 0 and an upper interface 1. -/
abbrev pairConfig (requestLatency responseLatency : Nat) : P2PConfig :=
  ⟨requestLatency, responseLatency, [0], FCFSArbiter⟩

/-- The pair of interfaces before any traffic. -/
def pairInit (requestLatency responseLatency : Nat) :
    Point2PointController (pairConfig requestLatency responseLatency) where
  bus := { interfaces := [{ interfaceId := 0, bufferMaxSize := 8 }, { interfaceId := 1, bufferMaxSize := 8 }] }
  arbiter := ()

/-- The pair starts a run. -/
theorem pairInit_path (requestLatency responseLatency : Nat) :
    (system (pairConfig requestLatency responseLatency)).Path [] (pairInit requestLatency responseLatency) := by
  refine .init ⟨?_, rfl, rfl, rfl, rfl⟩
  simp [BusController.Fresh, pairInit, BusInterface.fresh_mk]

/-- A request from the lower interface to the upper one, and two steps. -/
def pairRun : List Label :=
  [.traffic (.push 0 { addr := 64, toIds := [1], cycle := 1 } 1 .request), .lower 1, .lower 2]

/-- The upper interface pops the request and answers it. -/
def pairAnswer : List Label :=
  [.traffic (.peek 1), .traffic (.pop 1), .traffic (.push 1 { addr := 64, toIds := [0] } 3 .dataResponse),
    .upper, .upper]

/-- With latency 2 the run conserves the request, which was popped, and the answer, which waits. -/
theorem p2p_conserved_iff_pair : ∃ history, ∃ s : Point2PointController (pairConfig 2 2),
    (system (pairConfig 2 2)).Path history s ∧ s.lower.lane.sent.length = 1 ∧ s.upper.lane.sent.length = 1 ∧
      (s.bus.interfaces.map fun itf => (itf.consumed.length, itf.rxResponseBuffer.length)) = [(0, 1), (1, 0)] ∧
      (s.Conserved ↔ ∀ p ∈ history, Lossless (pairConfig 2 2) p) := by
  obtain ⟨history, s, hpath, htest⟩ := TransitionSystem.exists_path_of_run (fun _ _ _ h => h)
    (pairInit_path 2 2) (pairRun ++ pairAnswer) (fun s => decide (s.lower.lane.sent.length = 1 ∧
      s.upper.lane.sent.length = 1 ∧
      (s.bus.interfaces.map fun itf => (itf.consumed.length, itf.rxResponseBuffer.length)) = [(0, 1), (1, 0)]))
    (by decide)
  obtain ⟨hlower, hupper, hinterfaces⟩ := of_decide_eq_true htest
  exact ⟨history, s, hpath, hlower, hupper, hinterfaces, p2p_conserved_iff (by decide) (by decide) hpath⟩

/-- With latency 1 a request is taken and never sent: the controller does not conserve messages. -/
theorem not_conserved_of_latency_one : ¬ ∀ (cfg : P2PConfig) (s : Point2PointController cfg),
    1 ≤ cfg.requestLatency → 1 ≤ cfg.responseLatency → (system cfg).Reachable s → s.Conserved := by
  intro hclaim
  obtain ⟨history, s, hpath, hlane⟩ := TransitionSystem.exists_path_of_run (fun _ _ _ h => h)
    (pairInit_path 1 1) pairRun
    (fun s => decide (s.lower.lane.taken ≠ [] ∧ s.lower.lane.sent = [] ∧ s.lower.lane.held = [] ∧
      ∀ t ∈ s.lower.lane.taken, t.time < s.lower.lane.now)) (by decide)
  obtain ⟨htaken, hsent, hheld, hpast⟩ := of_decide_eq_true hlane
  have hlower := (hclaim _ s (Nat.le_refl 1) (Nat.le_refl 1) hpath.reachable).lower
  exact htaken ((Lane.conserves_zero_iff hsent hpast hheld).1 hlower)

end Point2PointController

end Octopus
