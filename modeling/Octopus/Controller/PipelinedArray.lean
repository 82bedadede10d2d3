import Mathlib.Data.List.Count
import Mathlib.Data.List.Range
import Octopus.Lib.TransitionSystem

/-!
# The pipelined data array

Accesses wait on one list. A cycle admits the oldest of them, as many as there are ports, completes those
whose latency has elapsed, and then enqueues accesses and flushes lines while it processes messages.
Completing an access may enqueue others. What an access does is left out; it is known by its number, in
the order of arrival, and by its line.
-/

namespace Octopus

/-- The parameters of a pipelined array without an arbiter. -/
structure PipelineConfig where
  m_data_access_latency : Nat
  m_data_array_ports : Nat

/-- `DataArrayOp`: an access on the list. -/
structure PipelinedAccess where
  op_id : Nat
  key : Nat
  admitted : Bool := false
  ready_cycle : Nat := 0
  deriving DecidableEq, Repr

/-- The completion of an access, in its cycle, by a flush of its line or not. -/
structure AccessCompletion where
  op_id : Nat
  cycle : Nat
  flushed : Bool
  deriving DecidableEq, Repr

/-- Where the controller is in `cycleProcess`. -/
inductive PipelinePhase
  /-- Between two cycles. -/
  | between
  /-- The loop of `pipelineStep`. -/
  | stepping
  /-- `processLogic`. -/
  | logic
  /-- The loop of `pipelineFlushLine`. -/
  | flushing (key : Nat)
  deriving DecidableEq, Repr

/-- The list of a controller, with the admissions and the completions so far. -/
structure PipelinedArray where
  m_cache_cycle : Nat := 1
  m_array_admitted_this_cycle : Nat := 0
  m_array_op_seq : Nat := 0
  m_array_ops : List PipelinedAccess := []
  phase : PipelinePhase := .between
  /-- The admitted accesses, each with its cycle. -/
  admissions : List (Nat × Nat) := []
  completions : List AccessCompletion := []
  deriving Repr

/-- The steps of a controller. What firing an access enqueues is told by the lines of the new accesses. -/
inductive PipelineLabel
  /-- `pipelineStep` begins: the ports are free, and the oldest accesses are admitted. -/
  | cycle
  /-- `pipelineStep` completes the first access that is due, or ends. -/
  | fire (spawned : List Nat)
  /-- An access arrives. -/
  | enqueue (key : Nat)
  /-- A line is flushed. -/
  | flushLine (key : Nat)
  /-- `pipelineFlushLine` completes the first access to its line, or ends. -/
  | flush (spawned : List Nat)
  /-- The cycle ends. -/
  | endCycle
  deriving Repr

namespace PipelinedArray

variable (cfg : PipelineConfig)

/-- `arrayElect` without an arbiter: the oldest waiting access. -/
def arrayElect (s : PipelinedArray) : Option PipelinedAccess := s.m_array_ops.find? fun op => !op.admitted

/-- Admit the first waiting access of a list. -/
def markFirst (ready : Nat) : List PipelinedAccess → List PipelinedAccess
  | [] => []
  | op :: ops =>
    if op.admitted then op :: markFirst ready ops else { op with admitted := true, ready_cycle := ready } :: ops

/-- The loop of `arrayAdmit`, for the ports that are left. -/
def admitUpTo : Nat → PipelinedArray → PipelinedArray
  | 0, s => s
  | ports + 1, s =>
    match s.arrayElect with
    | none => s
    | some op => admitUpTo ports { s with
        m_array_ops := markFirst (s.m_cache_cycle + cfg.m_data_access_latency) s.m_array_ops
        m_array_admitted_this_cycle := s.m_array_admitted_this_cycle + 1
        admissions := s.admissions ++ [(op.op_id, s.m_cache_cycle)] }

/-- `arrayAdmit`. -/
def arrayAdmit (s : PipelinedArray) : PipelinedArray :=
  admitUpTo cfg (cfg.m_data_array_ports - s.m_array_admitted_this_cycle) s

/-- `arrayEnqueue`: an access may be admitted in the cycle in which it arrives. -/
def arrayEnqueue (s : PipelinedArray) (key : Nat) : PipelinedArray :=
  arrayAdmit cfg { s with
    m_array_op_seq := s.m_array_op_seq + 1
    m_array_ops := s.m_array_ops ++ [{ op_id := s.m_array_op_seq + 1, key := key }] }

/-- The first access that passes a test leaves the list and is fired; without one the loop ends. -/
def completeFirst (s : PipelinedArray) (p : PipelinedAccess → Bool) (flushed : Bool) (spawned : List Nat) : PipelinedArray :=
  match s.m_array_ops.find? p with
  | none => { s with phase := .logic }
  | some op =>
    spawned.foldl (arrayEnqueue cfg) { s with
      m_array_ops := s.m_array_ops.eraseP p
      completions := s.completions ++ [⟨op.op_id, s.m_cache_cycle, flushed⟩] }

/-- Whether an access is due. -/
def isDue (s : PipelinedArray) (op : PipelinedAccess) : Bool := op.admitted && op.ready_cycle ≤ s.m_cache_cycle

/-- A step of a controller, where it applies. -/
def step (s : PipelinedArray) : PipelineLabel → Option PipelinedArray
  | .cycle =>
    if s.phase = .between then some (arrayAdmit cfg { s with m_array_admitted_this_cycle := 0, phase := .stepping }) else none
  | .fire spawned => if s.phase = .stepping then some (s.completeFirst cfg s.isDue false spawned) else none
  | .enqueue key => if s.phase = .logic then some (s.arrayEnqueue cfg key) else none
  | .flushLine key => if s.phase = .logic then some { s with phase := .flushing key } else none
  | .flush spawned =>
    match s.phase with
    | .flushing key => some (s.completeFirst cfg (fun op => op.key == key) true spawned)
    | _ => none
  | .endCycle => if s.phase = .logic then some { s with phase := .between, m_cache_cycle := s.m_cache_cycle + 1 } else none

/-- The lines of the accesses that arrive in a step; a completion enqueues some only if there is one. -/
def arriving (s : PipelinedArray) : PipelineLabel → List Nat
  | .enqueue key => [key]
  | .fire spawned => if s.m_array_ops.any s.isDue then spawned else []
  | .flush spawned =>
    match s.phase with
    | .flushing key => if s.m_array_ops.any fun op => op.key == key then spawned else []
    | _ => []
  | _ => []

/-- The lines of the accesses of a run, in the order of arrival. -/
def arrived (history : List (PipelinedArray × PipelineLabel)) : List Nat :=
  history.reverse.flatMap fun x => x.1.arriving x.2

/-- The runs of a controller. -/
def system : Lib.TransitionSystem PipelinedArray PipelineLabel where
  init s := s = {}
  step s l s' := s.step cfg l = some s'

end PipelinedArray

end Octopus
