import Mathlib.Algebra.Ring.Int.Defs

/-!
# The timeline of a request

Each component that a request passes stamps an event with its role and a phase. When the core stamps its
exit, the logger reads milestones off the timeline: it checks that the steps between them add up to the
total latency, and prints differences of milestones as the stage columns of the report.

A milestone that was never stamped is `-1`. Cycles are natural numbers, and a difference of cycles is the
64-bit number that is printed, which is right as long as the clock of a core does not run backwards.
-/

namespace Octopus.Logger

/-- The component that stamped an event. -/
inductive Role
  | cpu
  | l1
  | reqBus
  | respBus
  | llc
  | memBus
  | dram
  | unknown
  | svcBus
  | array
  | llcQueue
  | fsm
  deriving DecidableEq, Repr

/-- The phase of a request at a component. -/
inductive Phase
  | enter
  | service
  | exit
  deriving DecidableEq, Repr

/-- A stamp on the timeline of a request, by the clock of the core that issued it. -/
structure LogEvent where
  compId : Nat
  role : Role
  phase : Phase
  cycle : Nat
  deriving DecidableEq, Repr

/-- The cycles a role stamped a phase at, in order. -/
def stamps (ev : List LogEvent) (r : Role) (p : Phase) : List Nat :=
  (ev.filter fun e => e.role == r && e.phase == p).map LogEvent.cycle

/-- A milestone, `-1` if it is absent. -/
def milestone (cycle : Option Nat) : Int := (cycle.map Int.ofNat).getD (-1)

/-- The first or the last stamp of a role and a phase. -/
def find (ev : List LogEvent) (r : Role) (p : Phase) (last : Bool) : Int :=
  milestone (if last then (stamps ev r p).getLast? else (stamps ev r p).head?)

/-- The stamp of a role and a phase at an index. -/
def nth (ev : List LogEvent) (r : Role) (p : Phase) (idx : Nat) : Int := milestone (stamps ev r p)[idx]?

/-- The milestones of a request. -/
structure Milestones where
  issue : Int
  rx : Int
  l1a : Int
  reqb : Int
  llca : Int
  llcs : Int
  llce : Int
  respb : Int
  memout : Int
  memin : Int
  dre : Int
  drx : Int
  deriving DecidableEq, Repr

/-- The last stamp of an L1 in a phase before a cycle, or what stood there before. -/
def responder (ev : List LogEvent) (p : Phase) (respb before : Int) : Int :=
  let found := (ev.filter fun e => e.role == .l1 && e.phase == p && decide ((e.cycle : Int) < respb)).getLast?
  (found.map fun e => (e.cycle : Int)).getD before

/-- Read the milestones off a timeline. If the LLC never emitted a response, the last L1 that served the
request before the response bus granted it stands in for the LLC. -/
def milestones (ev : List LogEvent) : Milestones :=
  let llca := find ev .llc .enter false
  let llcs := find ev .llc .service false
  let llce := find ev .llc .exit true
  let respb := find ev .respBus .exit true
  let substitute := decide (llce < 0) && decide (0 ≤ respb)
  let llcs := if substitute then responder ev .service respb llcs else llcs
  { issue := find ev .cpu .enter false
    rx := find ev .cpu .exit true
    l1a := find ev .l1 .enter false
    reqb := find ev .reqBus .exit false
    llca := if substitute && decide (0 ≤ llcs) then llcs else llca
    llcs
    llce := if substitute then responder ev .exit respb llce else llce
    respb
    memout := nth ev .memBus .exit 0
    memin := nth ev .memBus .exit 1
    dre := find ev .dram .enter false
    drx := find ev .dram .exit true }

/-- The stage columns of the report. -/
structure Stages where
  l1Stall : Nat := 0
  reqBus : Nat := 0
  l2Stall : Nat := 0
  l2Access : Nat := 0
  respBus : Nat := 0
  l2DramBus : Nat := 0
  dram : Nat := 0
  l1Access : Nat := 0
  deriving DecidableEq, Repr

/-- The columns, as they are printed. -/
def Stages.columns (s : Stages) : List Nat :=
  [s.l1Stall, s.reqBus, s.l2Stall, s.l2Access, s.respBus, s.l2DramBus, s.dram, s.l1Access]

/-- Keep the greater value of every column. -/
def Stages.logMax (s worst : Stages) : Stages where
  l1Stall := max s.l1Stall worst.l1Stall
  reqBus := max s.reqBus worst.reqBus
  l2Stall := max s.l2Stall worst.l2Stall
  l2Access := max s.l2Access worst.l2Access
  respBus := max s.respBus worst.respBus
  l2DramBus := max s.l2DramBus worst.l2DramBus
  dram := max s.dram worst.dram
  l1Access := max s.l1Access worst.l1Access

/-- The clamped difference of two milestones, `0` if one is absent. -/
def cd (a b : Int) : Nat := if 0 ≤ a ∧ 0 ≤ b ∧ b < a then (a - b).toNat else 0

namespace Milestones

/-- The total latency. -/
def total (m : Milestones) : Int := m.rx - m.issue

/-- The milestones between the issue and the delivery, in the order of the stages. -/
def inner (m : Milestones) : List Int :=
  [m.l1a, m.reqb, m.llca, m.memout, m.dre, m.drx, m.memin, m.llcs, m.llce, m.respb]

/-- The milestones that are present, in the order of the stages. -/
def mil (m : Milestones) : List Int := m.issue :: (m.inner.filter fun x => decide (0 ≤ x)) ++ [m.rx]

/-- The differences of consecutive milestones. -/
def steps (m : Milestones) : List Int := (m.mil.zip m.mil.tail).map fun p => p.2 - p.1

/-- The self check: the steps are nonnegative and add up to the total. -/
def tiled (m : Milestones) : Bool := m.steps.all (fun d => decide (0 ≤ d)) && m.steps.sum == m.total

/-- Whether the request went to memory. -/
def miss (m : Milestones) : Bool := decide (0 ≤ m.memout)

/-- Whether nobody emitted a response that the response bus granted. -/
def noresp (m : Milestones) : Bool := decide (m.llce < 0) && decide (0 ≤ m.llca) && decide (0 ≤ m.respb)

/-- The stage columns. -/
def stages (m : Milestones) : Stages where
  l1Stall := cd m.l1a m.issue
  reqBus := cd m.reqb m.l1a
  l2Stall := cd m.llca m.reqb
  l2Access :=
    if m.noresp then cd m.respb m.llca
    else if m.miss then cd m.llcs m.memin
    else cd m.llcs m.llca
  respBus := if m.noresp then 0 else cd m.respb m.llce
  l2DramBus :=
    if m.miss then
      if 0 ≤ m.dre ∧ 0 ≤ m.drx then cd m.dre m.llca + cd m.memin m.drx else cd m.memout m.llca
    else 0
  dram :=
    if m.miss then
      if 0 ≤ m.dre ∧ 0 ≤ m.drx then cd m.drx m.dre else cd m.memin m.memout
    else 0
  l1Access := cd m.rx (max m.l1a m.respb)

end Milestones

end Octopus.Logger
