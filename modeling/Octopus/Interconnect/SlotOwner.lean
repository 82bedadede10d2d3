import Octopus.Interconnect.SplitBus

/-!
# The owners of the slots of a split bus

A split bus with TDM arbiters, under the clock of `Bus`. The request bus asks its arbiter when a
period begins, unless it is back-pressured or holds a message; each time it asks, the slot goes to
the next candidate. The comment in `requestBusStep` says that a back-pressured bus does not advance
the slot, and that a broadcast which some receiver has no room for stays in its slot.
-/

namespace Octopus

open CommunicationInterface BusController SplitBusController

/-- A split bus with its clock. -/
structure Bus (ι : Type) (cfg : SplitBusConfig) where
  busCycle : Nat := 1
  busCycleEdges : Nat := 1
  controller : SplitBusController ι cfg

/-- A configuration with a TDM arbiter on each bus. -/
abbrev tdmConfig (candidates : List Nat) (requestLatency responseLatency : Nat) (responseReserve : Int) :
    SplitBusConfig where
  requestLatency := requestLatency
  responseLatency := responseLatency
  responseReserve := responseReserve
  requestArbiter := TDMArbiter.arbiter candidates requestLatency
  responseArbiter := TDMArbiter.arbiter candidates responseLatency

namespace Bus

variable {ι : Type} [CommunicationInterface ι]

section

variable {cfg : SplitBusConfig}

/-- The bus as the constructor leaves it. -/
def start (cfg : SplitBusConfig) (interfaces : List ι) : Bus ι cfg where
  controller :=
    { bus := { interfaces := interfaces }
      requestArbiter := cfg.requestArbiter.init
      responseArbiter := cfg.responseArbiter.init }

/-- One call of the clock: a step of the controller at each falling edge. -/
def cycleProcess (b : Bus ι cfg) : Except BusExit (Bus ι cfg) :=
  if b.busCycleEdges % 2 = 1 then
    (b.controller.busStep b.busCycle).map fun c =>
      { busCycle := b.busCycle + 1, busCycleEdges := b.busCycleEdges + 1, controller := c }
  else .ok { b with busCycleEdges := b.busCycleEdges + 1 }

/-- What happens in a run: traffic at the interfaces, and calls of the clock. -/
inductive Label
  | traffic (t : Traffic)
  | cycleProcess

/-- Whether a core sees a label: what its own interface does, and the clock. -/
def Label.seenBy (i : Nat) : Label → Bool
  | .traffic (.push j _ _ _) | .traffic (.peek j) | .traffic (.pop j) => j == i
  | .cycleProcess => true

/-- One step of a run. -/
def exec (b : Bus ι cfg) : Label → Except BusExit (Bus ι cfg)
  | .traffic t => .ok { b with controller := { b.controller with bus := b.controller.bus.act t } }
  | .cycleProcess => b.cycleProcess

end

end Bus

section

variable {ι : Type} [CommunicationInterface ι] {candidates : List Nat} {requestLatency responseLatency : Nat}
  {responseReserve : Int}

variable {s s' : SplitBusController ι (tdmConfig candidates requestLatency responseLatency responseReserve)}
  {b b' : Bus ι (tdmConfig candidates requestLatency responseLatency responseReserve)} {cycle : Nat} {label : Bus.Label}

namespace SplitBusController

/-- The index of the candidate that owns the current slot of the request bus. -/
def candidateIndex (s : SplitBusController ι (tdmConfig candidates requestLatency responseLatency responseReserve)) : Nat :=
  s.requestArbiter

/-- Whether the request bus asks its arbiter in this cycle, and a period begins. -/
def asks (s : SplitBusController ι (tdmConfig candidates requestLatency responseLatency responseReserve)) (cycle : Nat) : Bool :=
  decide (cycle % requestLatency = 0) && !s.responseBackpressured &&
    (decide (s.request.clkInSlot = 0) && !s.request.messageAvailable)

/-- An election moves the arbiter, and finds a message only when a period begins. -/
theorem electRequest_tdm (s : SplitBusController ι (tdmConfig candidates requestLatency responseLatency responseReserve))
    (cycle : Nat) :
    (s.electRequest cycle).candidateIndex = TDMArbiter.selectCandidate candidates requestLatency s.candidateIndex cycle ∧
      ((s.electRequest cycle).request = s.request ∨
        cycle % requestLatency = 0 ∧ ∃ msg, (s.electRequest cycle).request = s.request.take msg) := by
  rw [electRequest]
  by_cases hperiod : cycle % requestLatency = 0
  · dsimp only [TDMArbiter.arbiter]
    rw [if_neg (not_not.2 hperiod)]
    split
    · next msg bus _ => exact ⟨rfl, .inr ⟨hperiod, msg, rfl⟩⟩
    · exact ⟨rfl, .inl rfl⟩
  · have hstay : TDMArbiter.selectCandidate candidates requestLatency s.candidateIndex cycle = s.candidateIndex :=
      if_neg hperiod
    dsimp only [TDMArbiter.arbiter]
    rw [if_pos hperiod, hstay]
    exact ⟨rfl, .inl rfl⟩

/-- The election of a step passes to the next candidate if the bus asks its arbiter. -/
theorem candidateIndex_afterElectRequest (hback : s.responseBackpressured = false) (cycle : Nat) :
    (s.afterElectRequest cycle).candidateIndex =
      if s.asks cycle then (s.candidateIndex + 1) % candidates.length else s.candidateIndex := by
  rw [afterElectRequest, asks, hback, Bool.not_false, Bool.and_true]
  split
  · next hfree =>
    rw [(s.electRequest_tdm cycle).1, hfree, Bool.and_true, TDMArbiter.selectCandidate]
    simp only [decide_eq_true_eq]
  · next hfree =>
    rw [Bool.not_eq_true] at hfree
    rw [hfree, Bool.and_false]
    rfl

/-- A step passes to the next candidate if the bus asks its arbiter. -/
theorem candidateIndex_requestBusStep
    (s : SplitBusController ι (tdmConfig candidates requestLatency responseLatency responseReserve)) (cycle : Nat) :
    (s.requestBusStep cycle).candidateIndex =
      if s.asks cycle then (s.candidateIndex + 1) % candidates.length else s.candidateIndex := by
  have hstep := s.requestStep cycle
  generalize s.requestBusStep cycle = s' at hstep
  cases hstep with
  | backpressured hback =>
    have hasks : s.asks cycle = false := by rw [asks, hback, Bool.not_true, Bool.and_false, Bool.false_and]
    rw [hasks]
    rfl
  | delivered hback => exact candidateIndex_afterElectRequest hback cycle
  | refused hback => exact candidateIndex_afterElectRequest hback cycle
  | advanced hback => exact candidateIndex_afterElectRequest hback cycle

/-- The response bus leaves the request bus alone. -/
theorem request_responseBusStep (h : s.responseBusStep cycle = .ok s') :
    s'.request = s.request ∧ s'.candidateIndex = s.candidateIndex := by
  have helect : (s.afterElectResponse cycle).request = s.request ∧
      (s.afterElectResponse cycle).candidateIndex = s.candidateIndex := by
    rw [afterElectResponse]
    split
    · unfold electResponse
      dsimp only
      split
      · exact ⟨rfl, rfl⟩
      · exact ⟨rfl, rfl⟩
    · exact ⟨rfl, rfl⟩
  cases responseStep h with
  | delivered => exact helect
  | advanced => exact helect

/-- The steps that were held stay in the history. -/
theorem held_of_requestBusStep (h : (s.requestBusStep cycle).request.lane.held = []) : s.request.lane.held = [] := by
  have helect : (s.afterElectRequest cycle).request.lane.held = s.request.lane.held := by
    rw [afterElectRequest]
    split
    · rcases (s.electRequest_tdm cycle).2 with hsame | ⟨-, msg, htake⟩
      · rw [hsame]
      · rw [htake]
        rfl
    · rfl
  have hstep := s.requestStep cycle
  generalize s.requestBusStep cycle = s' at hstep h
  cases hstep with
  | backpressured => exact absurd h (by simp [BusSlot.hold, Lib.Lane.hold])
  | refused => exact absurd h (by simp [BusSlot.hold, Lib.Lane.hold])
  | delivered => exact helect.symm.trans h
  | advanced => exact helect.symm.trans h

/-- A message in its slot: it has made a step in each cycle of its period. -/
structure Aligned (requestLatency : Nat) (slot : BusSlot) (cycle : Nat) : Prop where
  carrying : slot.messageAvailable → slot.clkInSlot = cycle % requestLatency ∧ 0 < slot.clkInSlot
  free : slot.messageAvailable = false → slot.clkInSlot = 0

/-- A step that is not held leaves the message in its slot, and asks the arbiter when a period begins. -/
theorem Aligned.requestBusStep (h : Aligned requestLatency s.request cycle)
    (hheld : (s.requestBusStep cycle).request.lane.held = []) :
    Aligned requestLatency (s.requestBusStep cycle).request (cycle + 1) ∧
      (s.asks cycle ↔ cycle % requestLatency = 0) := by
  have hasks : s.responseBackpressured = false → (s.asks cycle ↔ cycle % requestLatency = 0) := by
    intro hback
    simp only [asks, hback, Bool.not_false, Bool.and_true, Bool.and_eq_true, decide_eq_true_eq, Bool.not_eq_true']
    refine ⟨fun hask => hask.1, fun hperiod => ⟨hperiod, ?_⟩⟩
    have havail : s.request.messageAvailable = false := by
      by_contra havail
      rw [Bool.not_eq_false] at havail
      have := h.carrying havail
      omega
    exact ⟨h.free havail, havail⟩
  have helect : (s.afterElectRequest cycle).request.messageAvailable →
      (s.afterElectRequest cycle).request.clkInSlot = cycle % requestLatency := by
    rw [afterElectRequest]
    split
    · next hfree =>
      rw [Bool.and_eq_true, decide_eq_true_eq, Bool.not_eq_true'] at hfree
      rcases (s.electRequest_tdm cycle).2 with hsame | ⟨hperiod, msg, htake⟩
      · rw [hsame]
        exact fun havail => (h.carrying havail).1
      · rw [htake]
        exact fun _ => hfree.1.trans hperiod.symm
    · exact fun havail => (h.carrying havail).1
  have hstep := s.requestStep cycle
  generalize s.requestBusStep cycle = s' at hstep hheld
  cases hstep with
  | backpressured => exact absurd hheld (by simp [BusSlot.hold, Lib.Lane.hold])
  | refused => exact absurd hheld (by simp [BusSlot.hold, Lib.Lane.hold])
  | delivered hback =>
    exact ⟨⟨fun havail => by simp [BusSlot.deliver] at havail, fun _ => rfl⟩, hasks hback⟩
  | advanced hback hlast =>
    refine ⟨⟨fun havail => ?_, fun havail => ?_⟩, hasks hback⟩
    · have hclk := helect havail
      have hnext : (cycle + 1) % requestLatency = cycle % requestLatency + 1 := by
        have hne : cycle % requestLatency + 1 ≠ requestLatency := fun heq => hlast ⟨havail, by rw [hclk]; exact heq⟩
        rw [← Nat.mod_add_mod]
        rcases Nat.eq_zero_or_pos requestLatency with hzero | hpos
        · rw [hzero, Nat.mod_zero]
        · have := Nat.mod_lt cycle hpos
          exact Nat.mod_eq_of_lt (by omega)
      have hadvance : (s.afterElectRequest cycle).request.advance.clkInSlot = cycle % requestLatency + 1 := by
        rw [BusSlot.advance, ← hclk]
        exact if_pos havail
      exact ⟨hadvance.trans hnext.symm, by rw [hadvance]; exact Nat.succ_pos _⟩
    · rw [BusSlot.advance]
      exact if_neg (by simpa [BusSlot.advance] using havail)

end SplitBusController

namespace Bus

/-- The slot that a step opens: its cycle and its owner. -/
def slot? (b : Bus ι (tdmConfig candidates requestLatency responseLatency responseReserve)) : Label → Option (Nat × Nat)
  | .traffic _ => none
  | .cycleProcess =>
    if decide (b.busCycleEdges % 2 = 1) && b.controller.asks b.busCycle then
      some (b.busCycle, TDMArbiter.candidate candidates ((b.controller.requestBusStep b.busCycle).candidateIndex))
    else none

/-- A run along labels: the slots it opens, in order, and the state it ends in. -/
def run (b : Bus ι (tdmConfig candidates requestLatency responseLatency responseReserve)) :
    List Label → Except BusExit (List (Nat × Nat) × Bus ι (tdmConfig candidates requestLatency responseLatency responseReserve))
  | [] => .ok ([], b)
  | label :: labels =>
    match b.exec label with
    | .error e => .error e
    | .ok b' => (run b' labels).map fun r => ((b.slot? label).toList ++ r.1, r.2)

/-- The cycles of the slots that a core owns. -/
def ownedBy (core : Nat) (slots : List (Nat × Nat)) : List Nat :=
  (slots.filter fun slot => slot.2 == core).map (·.1)

/-- The cycles from one to another in which a period begins. -/
def boundaries (requestLatency first last : Nat) : List Nat :=
  (List.range' first (last - first)).filter fun cycle => cycle % requestLatency = 0

/-- What a step of a run does to the slots: it opens one, which is the next candidate's, or none. -/
theorem exec_cases (h : b.exec label = .ok b') :
    (b.slot? label = some (b.busCycle, TDMArbiter.candidate candidates ((b.controller.candidateIndex + 1) % candidates.length)) ∧
      b'.controller.candidateIndex = (b.controller.candidateIndex + 1) % candidates.length) ∨
    (b.slot? label = none ∧ b'.controller.candidateIndex = b.controller.candidateIndex) := by
  cases label with
  | traffic t =>
    obtain rfl := Except.ok.inj h
    exact .inr ⟨rfl, rfl⟩
  | cycleProcess =>
    rw [exec, cycleProcess] at h
    rw [slot?]
    split at h
    · next hedge =>
      obtain ⟨c, hc, rfl⟩ := Lib.map_eq_ok.1 h
      have hindex := (request_responseBusStep hc).2
      rw [hedge, candidateIndex_requestBusStep]
      rw [candidateIndex_requestBusStep] at hindex
      by_cases hasks : b.controller.asks b.busCycle = true
      · rw [if_pos hasks] at hindex ⊢
        exact .inl ⟨if_pos (by simpa using hasks), hindex⟩
      · rw [if_neg hasks] at hindex
        exact .inr ⟨if_neg (by simpa using hasks), hindex⟩
    · next hedge =>
      obtain rfl := Except.ok.inj h
      exact .inr ⟨if_neg (by simp [hedge]), rfl⟩

/-- What a run along a label and then along others consists of. -/
theorem run_cons {labels : List Label} {slots : List (Nat × Nat)} (h : b.run (label :: labels) = .ok (slots, b')) :
    ∃ next rest, b.exec label = .ok next ∧ next.run labels = .ok (rest, b') ∧ slots = (b.slot? label).toList ++ rest := by
  rw [run] at h
  cases hexec : b.exec label with
  | error e => simp [hexec] at h
  | ok next =>
    rw [hexec] at h
    obtain ⟨⟨rest, last⟩, hrun, heq⟩ := Lib.map_eq_ok.1 h
    obtain ⟨rfl, rfl⟩ := Prod.mk.inj heq
    exact ⟨next, rest, rfl, hrun, rfl⟩

/-- The slots of a run go to the candidates in turn. -/
theorem run_turns {labels : List Label} {slots : List (Nat × Nat)} (h : b.run labels = .ok (slots, b')) :
    slots = (slots.map (·.1)).mapIdx fun k cycle =>
      (cycle, TDMArbiter.candidate candidates ((b.controller.candidateIndex + k + 1) % candidates.length)) := by
  induction labels generalizing b slots with
  | nil =>
    obtain ⟨rfl, rfl⟩ := Prod.mk.inj (Except.ok.inj h)
    rfl
  | cons label labels ih =>
    obtain ⟨next, rest, hexec, hrun, rfl⟩ := run_cons h
    have hrest := ih hrun
    rcases exec_cases hexec with ⟨hslot, hindex⟩ | ⟨hslot, hindex⟩
    · rw [hindex] at hrest
      rw [hslot, Option.toList_some, List.singleton_append, List.map_cons, List.mapIdx_cons, Nat.add_zero]
      congr 1
      refine hrest.trans (congrArg (List.mapIdx · _) ?_)
      funext k cycle
      rw [Nat.add_assoc, Nat.mod_add_mod, show b.controller.candidateIndex + 1 + (k + 1) =
        b.controller.candidateIndex + (k + 1) + 1 by omega]
    · rw [hindex] at hrest
      rw [hslot, Option.toList_none, List.nil_append]
      exact hrest

/-- The steps that were held stay in the history of a run. -/
theorem held_of_exec (h : b.exec label = .ok b') (hheld : b'.controller.request.lane.held = []) :
    b.controller.request.lane.held = [] := by
  cases label with
  | traffic t =>
    obtain rfl := Except.ok.inj h
    exact hheld
  | cycleProcess =>
    rw [exec, cycleProcess] at h
    split at h
    · obtain ⟨c, hc, rfl⟩ := Lib.map_eq_ok.1 h
      dsimp only at hheld
      rw [(request_responseBusStep hc).1] at hheld
      exact held_of_requestBusStep hheld
    · obtain rfl := Except.ok.inj h
      exact hheld

/-- A run in which no step was held at its end had none held at its start. -/
theorem held_of_run {labels : List Label} {slots : List (Nat × Nat)} (h : b.run labels = .ok (slots, b'))
    (hheld : b'.controller.request.lane.held = []) : b.controller.request.lane.held = [] := by
  induction labels generalizing b slots with
  | nil =>
    obtain ⟨-, rfl⟩ := Prod.mk.inj (Except.ok.inj h)
    exact hheld
  | cons label labels ih =>
    obtain ⟨next, rest, hexec, hrun, -⟩ := run_cons h
    exact held_of_exec hexec (ih hrun)

/-- A bus that has asked its arbiter in each cycle that began a period. -/
structure InStep (b : Bus ι (tdmConfig candidates requestLatency responseLatency responseReserve)) : Prop where
  pos : 1 ≤ b.busCycle
  aligned : Aligned requestLatency b.controller.request b.busCycle
  index : b.controller.candidateIndex = (b.busCycle - 1) / requestLatency % candidates.length

/-- The slots between two cycles when no period is skipped. -/
def slotsBetween (candidates : List Nat) (requestLatency first last : Nat) : List (Nat × Nat) :=
  (boundaries requestLatency first last).map fun cycle =>
    (cycle, TDMArbiter.candidate candidates (cycle / requestLatency % candidates.length))

/-- The slots of one more cycle. -/
theorem slotsBetween_cons {first last : Nat} (h : first + 1 ≤ last) :
    slotsBetween candidates requestLatency first last =
      (if first % requestLatency = 0 then
        [(first, TDMArbiter.candidate candidates (first / requestLatency % candidates.length))] else []) ++
      slotsBetween candidates requestLatency (first + 1) last := by
  rw [slotsBetween, slotsBetween, boundaries, boundaries, show last - first = last - (first + 1) + 1 by omega,
    List.range'_succ, List.filter_cons]
  split
  · next hperiod =>
    rw [if_pos (of_decide_eq_true hperiod), List.map_cons, List.singleton_append]
  · next hperiod =>
    rw [if_neg (of_decide_eq_false (Bool.not_eq_true _ ▸ hperiod)), List.nil_append]

/-- A step that is not held opens the slot of its cycle, and keeps the bus in step. -/
theorem InStep.exec (h : b.InStep) (hexec : b.exec label = .ok b') (hheld : b'.controller.request.lane.held = []) :
    b'.InStep ∧ b.busCycle ≤ b'.busCycle ∧
      ∀ last, b'.busCycle ≤ last → slotsBetween candidates requestLatency b.busCycle last =
        (b.slot? label).toList ++ slotsBetween candidates requestLatency b'.busCycle last := by
  cases label with
  | traffic t =>
    obtain rfl := Except.ok.inj hexec
    exact ⟨⟨h.pos, h.aligned, h.index⟩, le_rfl, fun _ _ => rfl⟩
  | cycleProcess =>
    rw [Bus.exec, cycleProcess] at hexec
    split at hexec
    · next hedge =>
      obtain ⟨c, hc, rfl⟩ := Lib.map_eq_ok.1 hexec
      obtain ⟨hrequest, hindex⟩ := request_responseBusStep hc
      dsimp only at hheld
      rw [hrequest] at hheld
      obtain ⟨haligned, hasks⟩ := h.aligned.requestBusStep hheld
      obtain ⟨t, ht⟩ : ∃ t, b.busCycle = t + 1 := ⟨b.busCycle - 1, by have := h.pos; omega⟩
      have hnext : (b.controller.requestBusStep b.busCycle).candidateIndex = b.busCycle / requestLatency % candidates.length := by
        rw [candidateIndex_requestBusStep, h.index, ht, Nat.add_sub_cancel, Nat.succ_div, ← ht]
        split_ifs with hask hdvd hdvd
        · rw [Nat.mod_add_mod]
        · exact absurd (Nat.dvd_of_mod_eq_zero (hasks.1 hask)) hdvd
        · exact absurd (hasks.2 (Nat.mod_eq_zero_of_dvd hdvd)) hask
        · rfl
      refine ⟨⟨Nat.le_add_left 1 _, by rw [hrequest]; exact haligned, by rw [hindex, hnext, Nat.add_sub_cancel]⟩,
        Nat.le_succ _, fun last hlast => ?_⟩
      rw [slotsBetween_cons hlast, slot?, hedge, hnext]
      congr 1
      by_cases hperiod : b.busCycle % requestLatency = 0
      · rw [if_pos hperiod, if_pos (by simpa using hasks.2 hperiod)]
        rfl
      · rw [if_neg hperiod, if_neg (by simpa using fun hask => hperiod (hasks.1 hask))]
        rfl
    · next hedge =>
      obtain rfl := Except.ok.inj hexec
      refine ⟨⟨h.pos, h.aligned, h.index⟩, le_rfl, fun _ _ => ?_⟩
      rw [slot?, if_neg (by simp [hedge])]
      rfl

/-- A run in which no step is held opens a slot in each cycle that begins a period. -/
theorem InStep.run (h : b.InStep) {labels : List Label} {slots : List (Nat × Nat)} (hrun : b.run labels = .ok (slots, b'))
    (hheld : b'.controller.request.lane.held = []) :
    b.busCycle ≤ b'.busCycle ∧ slots = slotsBetween candidates requestLatency b.busCycle b'.busCycle := by
  induction labels generalizing b slots with
  | nil =>
    obtain ⟨rfl, rfl⟩ := Prod.mk.inj (Except.ok.inj hrun)
    exact ⟨le_rfl, by simp [slotsBetween, boundaries]⟩
  | cons label labels ih =>
    obtain ⟨next, rest, hexec, hrest, rfl⟩ := run_cons hrun
    obtain ⟨hnext, hle, hslots⟩ := h.exec hexec (held_of_run hrest hheld)
    obtain ⟨hle', rfl⟩ := ih hnext hrest
    exact ⟨hle.trans hle', (hslots _ hle').symm⟩

omit [CommunicationInterface ι] in
/-- The bus is in step at its start. -/
theorem inStep_start (interfaces : List ι) :
    (start (tdmConfig candidates requestLatency responseLatency responseReserve) interfaces).InStep where
  pos := le_rfl
  aligned := ⟨fun h => by simp [start] at h, fun _ => rfl⟩
  index := by
    rw [start, Nat.sub_self, Nat.zero_div, Nat.zero_mod]
    rfl

/--
The slots of the request bus go to the candidates in turn, one at each cycle that begins a period and
in which the bus asks its arbiter: runs that open their slots in the same cycles give them to the same
cores. A run in which no step is held opens one in each cycle that begins a period, so that the owner
depends on the cycle and the candidates alone.
-/
theorem slots_by_turns {interfaces interfaces' : List ι} {labels labels' : List Label} {slots slots' : List (Nat × Nat)}
    (h : (start (tdmConfig candidates requestLatency responseLatency responseReserve) interfaces).run labels = .ok (slots, b))
    (h' : (start (tdmConfig candidates requestLatency responseLatency responseReserve) interfaces').run labels' =
      .ok (slots', b')) :
    (slots = (slots.map (·.1)).mapIdx fun k cycle =>
      (cycle, TDMArbiter.candidate candidates ((k + 1) % candidates.length))) ∧
    (slots.map (·.1) = slots'.map (·.1) → ∀ core, ownedBy core slots = ownedBy core slots') ∧
    (b.controller.request.lane.held = [] → slots = slotsBetween candidates requestLatency 1 b.busCycle) := by
  have hturns : ∀ k, (0 + k + 1) % candidates.length = (k + 1) % candidates.length := fun k => by rw [Nat.zero_add]
  have hfirst := run_turns h
  have hsecond := run_turns h'
  refine ⟨?_, fun hcycles core => ?_, fun hheld => ((inStep_start interfaces).run h hheld).2⟩
  · refine hfirst.trans (congrArg (List.mapIdx · _) ?_)
    funext k cycle
    exact congrArg (fun index => (cycle, TDMArbiter.candidate candidates index)) (hturns k)
  · rw [← hcycles] at hsecond
    rw [hfirst.trans hsecond.symm]

end Bus

end

namespace Bus

/-- Two cores on a split bus with slots of one cycle and room for one message in each buffer. -/
abbrev pair : Bus BusInterface (tdmConfig [0, 1] 1 1 0) :=
  start _ [{ interfaceId := 0, bufferMaxSize := 1 }, { interfaceId := 1, bufferMaxSize := 1 }]

/-- Four cycles in which no core does anything. -/
abbrev idle : List Label := .replicate 8 .cycleProcess

/-- Four cycles in the first of which the other core has a response to send. -/
abbrev responding : List Label :=
  .traffic (.push 1 { addr := 64, owner := 1, toIds := [0] } 1 .dataResponse) :: idle

/-- Four cycles in which the other core makes two requests that no one takes in. -/
abbrev requesting : List Label :=
  .traffic (.push 1 { addr := 64, owner := 1 } 1 .request) :: .cycleProcess ::
    .traffic (.push 1 { addr := 128, owner := 1 } 2 .request) :: .replicate 7 .cycleProcess

/-- The slots of a run of the pair. -/
abbrev slotsOf (labels : List Label) : Except BusExit (List (Nat × Nat)) :=
  (pair.run labels).map (·.1)

/-- In a run without traffic no step is held, and the first core owns every second cycle. -/
theorem slots_by_turns_idle : ∃ slots b, pair.run idle = .ok (slots, b) ∧ slots = slotsBetween [0, 1] 1 1 b.busCycle ∧
    ownedBy 0 slots = [2, 4] := by
  have htest : (pair.run idle).toOption.any fun r =>
      decide (r.2.controller.request.lane.held = [] ∧ ownedBy 0 r.1 = [2, 4]) := by decide
  cases hrun : pair.run idle with
  | error e => simp [hrun, Except.toOption] at htest
  | ok r =>
    obtain ⟨hheld, howned⟩ := of_decide_eq_true (by simpa [hrun, Except.toOption] using htest)
    exact ⟨r.1, r.2, rfl, (slots_by_turns hrun hrun).2.2 hheld, howned⟩

/-- What the other core sends takes slots from the first core, which does the same in all three runs: a response
that back-pressures the bus in the first cycle, or a request that is held because no one has room for it. -/
theorem slots_interfere :
    responding.filter (Label.seenBy 0) = idle.filter (Label.seenBy 0) ∧
    requesting.filter (Label.seenBy 0) = idle.filter (Label.seenBy 0) ∧
    (slotsOf idle).map (ownedBy 0) = .ok [2, 4] ∧ (slotsOf responding).map (ownedBy 0) = .ok [3] ∧
    (slotsOf requesting).map (ownedBy 0) = .ok [2] :=
  ⟨rfl, rfl, by decide, by decide, by decide⟩

end Bus

end Octopus
