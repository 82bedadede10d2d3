import Octopus.Logger.Timeline
import Mathlib.Algebra.Group.Nat.Defs
import Mathlib.Logic.Basic
import Mathlib.Logic.Function.Basic

/-!
# The latency report

The logger binds a message to its core when the core adds the request, records the events of bound
messages, and prints a row of the report when the core stamps its exit. For each core it keeps the order
in which requests were added: the row of the oldest one says for how long it was the oldest.

Logging is on, and the trace, the debug dumps and the end of a run, which no row depends on, are left out.
The maps that `initializeStats` fills with zeros hold zeros from the start.
-/

namespace Octopus

namespace Logger

/-- The identity of a request and what the components noted about it. -/
structure EventMeta where
  reqId : Nat
  addr : Nat
  trace : Nat
  llcState : Int := -2
  llcGate : Int := 0
  llcStallState : Int := -2
  arrayAhead : Nat := 0
  arrayAheadWrites : Nat := 0
  deriving DecidableEq, Repr

/-- What a component may note about a request. -/
inductive Annot
  | llcState
  | llcGate
  | arrayAhead
  | arrayAheadWrites
  | llcStallState
  deriving DecidableEq, Repr

/-- A grant of the response bus to a core. -/
structure GrantRec where
  issue : Nat
  emit : Nat
  grant : Nat
  miss : Bool
  deriving DecidableEq, Repr

/-- A row of the latency report. -/
structure Row where
  reqId : Nat
  addr : Nat
  trace : Nat
  cpuLat : Nat
  stages : Stages
  total : Nat
  effective : Nat
  oldest : Nat
  llcState : Int
  llcGate : Int
  ahead : Nat
  aheadRefills : Nat
  arrayAhead : Nat
  arrayAheadWrites : Nat
  llcStallState : Int
  deriving DecidableEq, Repr

/-- What the logger keeps for a core. `rows` is its report file. -/
structure CoreLog where
  clkCount : Nat := 0
  issueOrder : List (Nat × Bool) := []
  oldestStart : Nat := 0
  lastCheckpoint : Nat := 0
  worstStages : Stages := {}
  worstLatency : Nat := 0
  worstOldestLatency : Nat := 0
  maxEffectiveLatency : Nat := 0
  averageLatency : Nat := 0
  numRequest : Nat := 0
  grantHist : List GrantRec := []
  rows : List Row := []

/-- Mark the first entry of a request as retired. -/
def markRetired (msgId : Nat) : List (Nat × Bool) → List (Nat × Bool)
  | [] => []
  | e :: q => if e.1 = msgId then (e.1, true) :: q else e :: markRetired msgId q

/-- Take a retiring request off the issue order. If it was the oldest one, the entries behind it that have
retired go too, and the next one is the oldest from now on; the result says for how long it was the oldest.
-/
def CoreLog.retire (c : CoreLog) (msgId : Nat) (rx : Int) : Nat × CoreLog :=
  match c.issueOrder with
  | [] => (0, c)
  | front :: q =>
    if front.1 = msgId then
      let q := q.dropWhile fun e => e.2
      ((rx - c.oldestStart).toNat,
        { c with issueOrder := q, oldestStart := if q.isEmpty then c.oldestStart else rx.toNat })
    else (0, { c with issueOrder := markRetired msgId (front :: q) })

/-- Taking a request off the issue order leaves the report as it is. -/
theorem CoreLog.retire_rows (c : CoreLog) (msgId : Nat) (rx : Int) : (c.retire msgId rx).2.rows = c.rows := by
  rw [CoreLog.retire]
  cases c.issueOrder with
  | nil => rfl
  | cons front q =>
    dsimp only
    by_cases hfront : front.1 = msgId
    · rw [if_pos hfront]
    · rw [if_neg hfront]

/-- The grants to younger requests of the core between the emit of a request and its own grant. -/
def CoreLog.ahead (c : CoreLog) (m : Milestones) : List GrantRec :=
  if 0 ≤ m.respb ∧ 0 ≤ m.llce then
    c.grantHist.filter fun g => decide (m.issue < g.issue ∧ m.llce < g.grant ∧ (g.grant : Int) < m.respb)
  else []

/-- Note the grant of a request, for the last 512 grants. -/
def CoreLog.pushGrant (c : CoreLog) (m : Milestones) : List GrantRec :=
  if 0 ≤ m.respb then
    let gh := c.grantHist ++ [{
      issue := m.issue.toNat
      emit := (if 0 ≤ m.llce then m.llce else m.respb).toNat
      grant := m.respb.toNat
      miss := m.miss }]
    if 512 < gh.length then gh.tail else gh
  else c.grantHist

/-- Print the row of a request and account for it. -/
def CoreLog.report (c : CoreLog) (msgId : Nat) (m : Milestones) (info : EventMeta) : CoreLog :=
  let effective := (m.rx - max (c.lastCheckpoint : Int) m.issue).toNat
  let (oldest, c) := c.retire msgId m.rx
  { c with
    worstStages := m.stages.logMax c.worstStages
    worstLatency := max m.total.toNat c.worstLatency
    maxEffectiveLatency := max effective c.maxEffectiveLatency
    worstOldestLatency := max oldest c.worstOldestLatency
    rows := c.rows ++ [{
      reqId := info.reqId
      addr := info.addr
      trace := info.trace
      cpuLat := cd m.issue info.trace
      stages := m.stages
      total := m.total.toNat
      effective
      oldest
      llcState := info.llcState
      llcGate := info.llcGate
      ahead := (c.ahead m).length
      aheadRefills := (c.ahead m).countP GrantRec.miss
      arrayAhead := info.arrayAhead
      arrayAheadWrites := info.arrayAheadWrites
      llcStallState := info.llcStallState }]
    grantHist := c.pushGrant m
    averageLatency := c.averageLatency + effective
    numRequest := c.numRequest + 1
    lastCheckpoint := m.rx.toNat }

/-- One row is printed, with the stages and the total latency of the timeline. -/
theorem CoreLog.report_rows (c : CoreLog) (msgId : Nat) (m : Milestones) (info : EventMeta) :
    ∃ row, (c.report msgId m info).rows = c.rows ++ [row] ∧ row.stages = m.stages ∧ row.total = m.total.toNat :=
  ⟨_, congrArg (· ++ [_]) (c.retire_rows msgId m.rx), rfl, rfl⟩

end Logger

/-- The logger: the timelines of the messages in flight with their cores and identities, what it keeps for
each core, and the tally of its self check. -/
structure Logger where
  eventLog : Nat → List Logger.LogEvent := fun _ => []
  eventCore : Nat → Option Nat := fun _ => none
  eventMeta : Nat → Option Logger.EventMeta := fun _ => none
  core : Nat → Logger.CoreLog := fun _ => {}
  evtOk : Nat := 0
  evtFail : Nat := 0
  evtNoresp : Nat := 0

namespace Logger

/-- Set the clock of a core. -/
def setClkCount (l : Logger) (coreId clk : Nat) : Logger :=
  { l with core := Function.update l.core coreId { l.core coreId with clkCount := clk } }

/-- Bind a request to its core. It is the oldest from its issue if nothing older is in the system. -/
def addRequest (l : Logger) (cpuId msgId addr cycle : Nat) : Logger :=
  let c := l.core cpuId
  let q := c.issueOrder ++ [(msgId, false)]
  { l with
    eventCore := Function.update l.eventCore msgId (some cpuId)
    eventMeta := Function.update l.eventMeta msgId (some { reqId := msgId, addr, trace := cycle })
    core := Function.update l.core cpuId { c with
      issueOrder := q
      oldestStart := if q.length = 1 then c.clkCount else c.oldestStart } }

/-- Note something about a request; the first stall verdict of the LLC stays. -/
def annotate (l : Logger) (msgId : Nat) (key : Annot) (value : Int) : Logger :=
  match l.eventMeta msgId with
  | none => l
  | some info =>
    let info :=
      match key with
      | .llcState => { info with llcState := value }
      | .llcGate => { info with llcGate := value }
      | .arrayAhead => { info with arrayAhead := value.toNat }
      | .arrayAheadWrites => { info with arrayAheadWrites := value.toNat }
      | .llcStallState => if info.llcStallState = -2 then { info with llcStallState := value } else info
    { l with eventMeta := Function.update l.eventMeta msgId (some info) }

/-- Check the timeline of a request and print its row. -/
def finalizeEvents (l : Logger) (msgId : Nat) : Logger :=
  let ev := l.eventLog msgId
  let m := milestones ev
  if ev.isEmpty ∨ m.issue < 0 ∨ m.rx < 0 then l
  else
    let l := if m.tiled then { l with evtOk := l.evtOk + 1 } else { l with evtFail := l.evtFail + 1 }
    match l.eventMeta msgId with
    | none => l
    | some info =>
      let coreId := (l.eventCore msgId).getD 0
      { l with
        evtNoresp := if m.noresp then l.evtNoresp + 1 else l.evtNoresp
        core := Function.update l.core coreId ((l.core coreId).report msgId m info) }

/-- The row of a bound request whose core stamped its entry and its exit. -/
theorem finalizeEvents_eq {l : Logger} {msgId coreId : Nat} {info : EventMeta} {m : Milestones}
    (hcore : l.eventCore msgId = some coreId) (hinfo : l.eventMeta msgId = some info)
    (hm : milestones (l.eventLog msgId) = m) (hissue : 0 ≤ m.issue) (hrx : 0 ≤ m.rx) :
    l.finalizeEvents msgId =
      { l with
        evtOk := if m.tiled then l.evtOk + 1 else l.evtOk
        evtFail := if m.tiled then l.evtFail else l.evtFail + 1
        evtNoresp := if m.noresp then l.evtNoresp + 1 else l.evtNoresp
        core := Function.update l.core coreId ((l.core coreId).report msgId m info) } := by
  have hev : l.eventLog msgId ≠ [] := by
    intro hnil
    rw [← hm, hnil] at hissue
    exact absurd hissue (by decide)
  have hgo : ¬ ((l.eventLog msgId).isEmpty = true ∨ m.issue < 0 ∨ m.rx < 0) := by
    rw [List.isEmpty_iff]
    exact not_or.2 ⟨hev, not_or.2 ⟨Int.not_lt.2 hissue, Int.not_lt.2 hrx⟩⟩
  rw [finalizeEvents, hm]
  dsimp only
  rw [if_neg hgo]
  cases htiled : m.tiled with
  | true =>
    rw [if_pos rfl]
    simp only [hinfo, hcore, Option.getD_some, if_true]
  | false =>
    rw [if_neg Bool.false_ne_true]
    simp only [hinfo, hcore, Option.getD_some, Bool.false_eq_true, if_false]

/-- Record an event of a bound message. The exit of the core ends the timeline. -/
def event (l : Logger) (msgId : Nat) (role : Role) (compId : Nat) (phase : Phase) : Logger :=
  match l.eventCore msgId with
  | none => l
  | some coreId =>
    let stamp : LogEvent := { compId, role, phase, cycle := (l.core coreId).clkCount }
    let l := { l with eventLog := Function.update l.eventLog msgId (l.eventLog msgId ++ [stamp]) }
    if role = .cpu ∧ phase = .exit then
      let l := l.finalizeEvents msgId
      { l with
        eventLog := Function.update l.eventLog msgId []
        eventCore := Function.update l.eventCore msgId none
        eventMeta := Function.update l.eventMeta msgId none }
    else l

end Logger

end Octopus
