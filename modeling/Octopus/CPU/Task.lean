import Octopus.Message
import Mathlib.Data.List.AList

/-!
# A core that runs a periodic task

A task program replaces the access trace of a core: a body of compute budgets and accesses that is run
again in every period. The core expands the body into the samples of one job, issues them, waits for
their data and finishes the job, which reports it, skips the periods it overran and schedules the next.

Doubles are a parameter: what `rnd` draws is compared with a read ratio and scaled to a number of lines.
Counters and cycles are natural numbers. `nextReqId` and `finiteCoresRunning` are shared by all cores.
-/

namespace Octopus

/-- The double arithmetic on a draw, which is a 53-bit numerator over `2 ^ 53`. -/
structure Doubles (δ : Type) where
  /-- The draw is at least a ratio. -/
  atLeast : UInt64 → δ → Bool
  /-- The draw times a number of lines, rounded down. -/
  scaled : UInt64 → Nat → Nat

/-- A row of the body of a task. -/
inductive Phase (δ : Type)
  | compute (cycles : Nat)
  | readOne (addr : Nat)
  | writeOne (addr : Nat)
  | linear (base count stride : Nat) (rdRatio : δ)
  | random (base range count : Nat) (rdRatio : δ)

/-- A task program, as `loadTask` leaves it: the period is positive, and a negative number of jobs makes
a generator that runs freely. -/
structure Task (δ : Type) where
  period : Nat
  deadlineRel : Nat
  start : Nat
  jobsTotal : Int
  numberOfOoORequests : Nat
  body : List (Phase δ)
  period_pos : 0 < period

/-- An access of a job, with the compute budget in front of it and the cycle it was loaded in. `cycle`
is the ready cycle of the message. -/
structure TraceSample where
  computeTime : Nat
  readCycle : Nat := 0
  cycle : Nat := 0
  msg : Message
  deriving DecidableEq

/-- A row of the job report. -/
structure JobReport where
  job : Nat
  release : Nat
  finish : Nat
  deadline : Nat
  miss : Bool
  accesses : Nat
  skippedPeriods : Nat
  meanAccessLat : Nat
  maxAccessLat : Nat
  deriving DecidableEq, Repr

/-- A core in periodic task mode. `jobReports` is its report file and `pushed` the samples that its
interface took. -/
structure CPU (δ : Type) where
  task : Task δ
  id : Nat
  clkCycle : Nat := 1
  lastReceivedMsgCycle : Nat := 0
  sentRequests : Nat := 0
  simulationDone : Bool := false
  sampleInProgress : Option TraceSample := none
  jobIndex : Nat := 0
  jobRelease : Nat := 0
  jobDeadline : Nat := 0
  trailingCompute : Nat := 0
  missedDeadlines : Nat := 0
  jobAccesses : Nat := 0
  jobLatSum : Nat := 0
  jobLatMax : Nat := 0
  issueCycle : AList fun _ : Nat => Nat := ∅
  jobFirstAccess : Bool := true
  jobSamples : List TraceSample := []
  jobNext : Nat := 0
  rng : UInt64 := 0
  nextReqId : Nat := 0
  finiteCoresRunning : Int := 0
  jobReports : List JobReport := []
  pushed : List TraceSample := []

/-- The state of an expansion: the compute budget since the last access, the samples, the generator and
the next request id. -/
structure Expansion where
  compute : Nat := 0
  samples : List TraceSample := []
  rng : UInt64
  nextReqId : Nat

namespace CPU

variable {δ : Type}

/-- The deterministic generator of a core: its next state and the numerator of the draw. -/
def rnd (rng : UInt64) : UInt64 × UInt64 :=
  let rng := rng + 0x9E3779B97F4A7C15
  let z := (rng ^^^ (rng >>> 30)) * 0xBF58476D1CE4E5B9
  let z := (z ^^^ (z >>> 27)) * 0x94D049BB133111EB
  (rng, (z ^^^ (z >>> 31)) >>> 11)

/-- One access of the body, behind the compute budget gathered so far. -/
def access (owner addr : Nat) (write : Bool) (e : Expansion) : Expansion :=
  { e with
    samples := e.samples ++ [{
      computeTime := e.compute
      msg := {
        msgId := e.nextReqId
        addr
        complementaryValue := if write then 1 else 0
        owner
        toIds := [owner] } }]
    compute := 0
    nextReqId := e.nextReqId + 1 }

/-- One row of the body. The two draws of a random access are taken from left to right, an order that
the language leaves open. -/
def expandPhase (doubles : Doubles δ) (owner : Nat) (e : Expansion) : Phase δ → Expansion
  | .compute cycles => { e with compute := e.compute + cycles }
  | .readOne addr => access owner addr false e
  | .writeOne addr => access owner addr true e
  | .linear base count stride rdRatio =>
    (List.range count).foldl (fun e i =>
      let (rng, draw) := rnd e.rng
      access owner (base + i * stride) (doubles.atLeast draw rdRatio) { e with rng }) e
  | .random base range count rdRatio =>
    let lines := max 1 (range / 64)
    (List.range count).foldl (fun e _ =>
      let (rng, line) := rnd e.rng
      let (rng, draw) := rnd rng
      access owner (base + doubles.scaled line lines * 64) (doubles.atLeast draw rdRatio) { e with rng }) e

/-- Expand the body into the samples of the next job. -/
def expandJob (doubles : Doubles δ) (cpu : CPU δ) : CPU δ :=
  let e := cpu.task.body.foldl (expandPhase doubles cpu.id) { rng := cpu.rng, nextReqId := cpu.nextReqId }
  { cpu with
    jobSamples := e.samples
    jobNext := 0
    jobFirstAccess := true
    jobAccesses := e.samples.length
    jobLatSum := 0
    jobLatMax := 0
    trailingCompute := e.compute
    rng := e.rng
    nextReqId := e.nextReqId }

/-- The core has nothing more to issue. -/
def coreDone (cpu : CPU δ) : CPU δ :=
  { cpu with
    simulationDone := true
    finiteCoresRunning := if 0 ≤ cpu.task.jobsTotal then cpu.finiteCoresRunning - 1 else cpu.finiteCoresRunning }

/-- Add a row to the job report. -/
def jobReport (cpu : CPU δ) (finish deadline : Nat) (miss : Bool) (skippedPeriods : Nat) : CPU δ :=
  { cpu with
    jobReports := cpu.jobReports ++ [{
      job := cpu.jobIndex
      release := cpu.jobRelease
      finish
      deadline
      miss
      accesses := cpu.jobAccesses
      skippedPeriods
      meanAccessLat := if cpu.jobAccesses = 0 then 0 else cpu.jobLatSum / cpu.jobAccesses
      maxAccessLat := cpu.jobLatMax }] }

/-- How many periods from `k` on have no window left at the finish of a job. -/
def skipped (task : Task δ) (finishCycle k : Nat) : Nat :=
  if task.start + k * task.period + task.period ≤ finishCycle ∧ (k : Int) < task.jobsTotal then
    skipped task finishCycle (k + 1) + 1
  else 0
termination_by (task.jobsTotal - k).toNat
decreasing_by omega

/-- A job finished: report it, then schedule the next one behind the periods it overran, or end the
core. -/
def finishJob (doubles : Doubles δ) (cpu : CPU δ) (finishCycle : Nat) : CPU δ :=
  if cpu.task.jobsTotal < 0 then
    let cpu := { cpu.jobReport finishCycle 0 false 0 with jobIndex := cpu.jobIndex + 1 }
    if cpu.finiteCoresRunning = 0 then cpu.coreDone
    else expandJob doubles { cpu with jobRelease := finishCycle }
  else
    let miss := decide (cpu.jobDeadline < finishCycle)
    let skipped := skipped cpu.task finishCycle (cpu.jobIndex + 1)
    let cpu := { cpu with missedDeadlines := cpu.missedDeadlines + skipped }
    let cpu := cpu.jobReport finishCycle cpu.jobDeadline miss skipped
    let cpu := { cpu with jobIndex := cpu.jobIndex + (1 + skipped) }
    if cpu.task.jobsTotal ≤ cpu.jobIndex then cpu.coreDone
    else
      expandJob doubles { cpu with
        jobRelease := max finishCycle (cpu.task.start + cpu.jobIndex * cpu.task.period)
        jobDeadline := cpu.task.start + cpu.jobIndex * cpu.task.period + cpu.task.deadlineRel }

/-- The core before its first cycle. -/
def init (doubles : Doubles δ) (task : Task δ) (id nextReqId : Nat) (finiteCoresRunning : Int) : CPU δ :=
  expandJob doubles {
    task
    id
    rng := 0x9E3779B97F4A7C15 ^^^ (UInt64.ofNat id * 0x1234567)
    jobRelease := task.start
    jobDeadline := task.start + task.deadlineRel
    nextReqId
    finiteCoresRunning }

/-- Issue the sample in progress, if its compute budget has elapsed, a slot is free and the interface
accepts it. -/
def issue (cpu : CPU δ) (sample : TraceSample) (accepts : Bool) : CPU δ :=
  let cpu := { cpu with sampleInProgress := some sample }
  if cpu.sentRequests < cpu.task.numberOfOoORequests then
    let base := if cpu.jobFirstAccess then cpu.jobRelease else cpu.lastReceivedMsgCycle
    let issueCycle := base + sample.computeTime
    if issueCycle ≤ cpu.clkCycle then
      let sample := { sample with
        cycle := max issueCycle sample.readCycle
        msg := { sample.msg with kind := .demand } }
      if accepts then
        { cpu with
          pushed := cpu.pushed ++ [sample]
          sampleInProgress := none
          issueCycle := cpu.issueCycle.insert sample.msg.msgId cpu.clkCycle
          sentRequests := cpu.sentRequests + 1
          jobFirstAccess := false }
      else { cpu with sampleInProgress := some sample }
    else cpu
  else cpu

/-- A cycle of the job: load the next sample and issue it, or finish the job once all its data is back. -/
def periodicLogic (doubles : Doubles δ) (cpu : CPU δ) (accepts : Bool) : CPU δ :=
  if cpu.clkCycle < cpu.jobRelease then cpu
  else
    match cpu.sampleInProgress, cpu.jobSamples[cpu.jobNext]? with
    | some sample, _ => cpu.issue sample accepts
    | none, some sample =>
      { cpu with jobNext := cpu.jobNext + 1 }.issue { sample with readCycle := cpu.clkCycle } accepts
    | none, none =>
      if cpu.sentRequests = 0 then
        let doneAt := (if cpu.jobAccesses = 0 then cpu.jobRelease else cpu.lastReceivedMsgCycle) + cpu.trailingCompute
        if cpu.clkCycle < doneAt then cpu else finishJob doubles cpu doneAt
      else cpu

/-- Take the response to a message off the interface. The program exits if none was awaited. -/
def checkReceiveBuffer (cpu : CPU δ) : Option Nat → Option (CPU δ)
  | none => some cpu
  | some msgId =>
    let cpu :=
      match cpu.issueCycle.lookup msgId with
      | some issued =>
        let lat := cpu.clkCycle - issued
        { cpu with
          jobLatSum := cpu.jobLatSum + lat
          jobLatMax := max lat cpu.jobLatMax
          issueCycle := cpu.issueCycle.erase msgId }
      | none => cpu
    if cpu.sentRequests = 0 then none
    else some { cpu with sentRequests := cpu.sentRequests - 1, lastReceivedMsgCycle := cpu.clkCycle }

/-- What a cycle brings: a response, whether the interface accepts a message, and what the other cores
made of the shared counters. -/
structure Input where
  response : Option Nat
  accepts : Bool
  nextReqId : Nat
  finiteCoresRunning : Int

/-- One cycle of the core. -/
def cycleProcess (doubles : Doubles δ) (cpu : CPU δ) (i : Input) : Option (CPU δ) :=
  let cpu := { cpu with nextReqId := i.nextReqId, finiteCoresRunning := i.finiteCoresRunning }
  if cpu.simulationDone then some cpu
  else do
    let cpu ← checkReceiveBuffer cpu i.response
    let cpu := periodicLogic doubles cpu i.accepts
    return { cpu with clkCycle := cpu.clkCycle + 1 }

end CPU

end Octopus
