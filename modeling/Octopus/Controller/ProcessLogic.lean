import Octopus.FRFCFSBuffer
import Octopus.LineController
import Octopus.Lib.TransitionSystem

/-!
# The processing loop of a cache controller

`CacheController::cycleProcess`: deferred accesses of the data array complete, messages enter the
processing queue, and `processLogic` takes ready messages until none is left or one is refused.
What the loop consults and calls (the protocol, the data handler, the pending requests) is a
parameter, with the few facts about it that the order of the messages rests on.
-/

namespace Octopus

/-- What a processed message leaves behind: messages of a Stall cell and accesses parked for the data array. -/
structure Processed (ε : Type) where
  env : ε
  stalled : List Message
  parked : List Message

/-- A line whose write-back is pending, with the identifier of its Replacement. -/
structure PendingWB where
  msgId : Nat
  addr : Nat

/-- How a controller takes its messages in: `addRequests2ProcessingQueue` of `BaseController`, or that of
`CacheControllerDirectory`. -/
inductive Intake
  | base
  | directory
  deriving DecidableEq, Repr

/-- What the processing loop consults and calls; `ε` is the state of all that. -/
structure ControllerCore (ε : Type) where
  m_id : Nat
  m_shared_memory_id : Nat
  intake : Intake
  getAddressKey : Nat → Nat
  /-- The bound of the processing queue, if it has one. -/
  processing_queue_size : Option Nat
  /-- The number of outstanding misses, if it is bounded. -/
  m_num_mshr : Option Nat
  m_line_interlock : Bool
  getRequestState : ε → Message → FRFCFSState × Message
  isAddressTracked : ε → Nat → Bool
  /-- The keys of `m_pending_requests`. -/
  pendingKeys : ε → List Nat
  /-- Whether `deferForDataArray` defers a message, the interlock apart. -/
  touchesBusyArray : ε → Message → Bool
  processRequest : ε → Message → Except Exit (Processed ε)
  /-- The parked actions of a message. -/
  fireActions : ε → Message → Except Exit (Processed ε)
  addressOfLinePendingWB : ε → Option (PendingWB × ε)
  updateCycle : ε → ε
  /-- A message is ready or it is not. -/
  ready_or_nonReady : ∀ e m, (getRequestState e m).1 = .ready ∨ (getRequestState e m).1 = .nonReady
  /-- Asking for the state of a message edits no demand request and makes none. -/
  edit : ∀ e m, (getRequestState e m).2 = m ∨
    m.isDemandRequest = false ∧ (getRequestState e m).2.isDemandRequest = false
  edit_addr : ∀ e m, (getRequestState e m).2.addr = m.addr
  /-- A message that stalls is put back as it is, and a demand request that is ready does not stall. -/
  stalled_demand : ∀ {e m r}, processRequest e m = .ok r → ∀ x ∈ r.stalled, x.isDemandRequest = true →
    x = m ∧ (getRequestState e m).1 ≠ .ready
  fired_stalled : ∀ {e m r}, fireActions e m = .ok r → r.stalled = []
  /-- The accesses a message parks are accesses to its line. -/
  parked_key : ∀ {e m r}, processRequest e m = .ok r ∨ fireActions e m = .ok r → ∀ x ∈ r.parked,
    getAddressKey x.addr = getAddressKey m.addr
  /-- A message changes the state of its own line only. -/
  frame : ∀ {e m r}, processRequest e m = .ok r ∨ fireActions e m = .ok r → ∀ x,
    getAddressKey x.addr ≠ getAddressKey m.addr → (getRequestState r.env x).1 = (getRequestState e x).1
  frame_pendingWB : ∀ {e w e'}, addressOfLinePendingWB e = some (w, e') → ∀ x,
    (getRequestState e' x).1 = (getRequestState e x).1
  frame_cycle : ∀ e x, (getRequestState (updateCycle e) x).1 = (getRequestState e x).1

/-- The kinds of a deferred access. -/
inductive DataArrayOpKind
  | message
  | actions
  deriving DecidableEq, Repr

/-- An access that waits for the data array: a whole message, or the array actions of one. -/
structure DataArrayOp where
  kind : DataArrayOpKind
  msg : Message
  deriving DecidableEq, Repr

/-- Where a controller is in its cycle. -/
inductive ControllerPhase
  /-- Deferred accesses complete, until the messages of the cycle are taken in. -/
  | waiting
  /-- The accesses to a line that leaves the array complete. -/
  | flushing (key : Nat)
  /-- The loop of `processLogic`. -/
  | looping
  deriving DecidableEq, Repr

/-- A controller with two histories: the messages taken in from below and those processed. -/
structure CacheController (ε : Type) where
  env : ε
  m_processing_queue : FRFCFSBuffer
  m_array_ops : List DataArrayOp
  phase : ControllerPhase
  arrived : List Message
  processed : List Message

/-- The steps of a controller. -/
inductive ControllerLabel
  /-- A cycle begins. -/
  | cycle
  /-- The access that the arbiter elects, or whose latency has elapsed, completes. -/
  | fire (k : Nat)
  /-- The messages at the two interfaces are taken in. -/
  | intake (upper lower : Option Message)
  /-- The oldest access to a line that leaves the array completes. -/
  | flush
  /-- One round of the loop of `processLogic`. -/
  | iterate

namespace ControllerCore

variable {ε : Type} (C : ControllerCore ε)

/-- `lineHasDeferredOp`. -/
def lineHasDeferredOp (ops : List DataArrayOp) (addr : Nat) : Bool :=
  ops.any fun op => C.getAddressKey op.msg.addr == C.getAddressKey addr

/-- What a scan of the processing queue consults. -/
def scan (e : ε) (ops : List DataArrayOp) : FRFCFSBuffer.Scan where
  sameLine a b := C.getAddressKey a == C.getAddressKey b
  hold m := C.m_line_interlock && C.lineHasDeferredOp ops m.addr
  checkState m _ := C.getRequestState e m

/-- `canAdmitRequest`: only a demand request that opens a new miss needs a free register. -/
def canAdmitRequest (e : ε) (msg : Message) : Bool :=
  if !msg.isDemandRequest then true
  else if C.isAddressTracked e msg.addr then true
  else if (C.pendingKeys e).contains (C.getAddressKey msg.addr) then true
  else if C.m_num_mshr.any fun n => n ≤ (C.pendingKeys e).length then false
  else true

/-- `deferForDataArray`; both models of the array defer under the interlock only. -/
def deferForDataArray (e : ε) (msg : Message) : Bool := C.m_line_interlock && C.touchesBusyArray e msg

/-- The Stall cells put their messages back; the run ends if one finds no room. -/
def stall (q : FRFCFSBuffer) : List Message → Option FRFCFSBuffer
  | [] => some q
  | msg :: rest => (q.pushBack msg .nonReady false).bind fun q' => stall q' rest

/-- A processed message takes effect. -/
def effect (s : CacheController ε) : Except Exit (Processed ε) → Option (CacheController ε)
  | .error _ => none
  | .ok r =>
    (stall s.m_processing_queue r.stalled).map fun q =>
      { s with
        env := r.env
        m_processing_queue := q
        m_array_ops := s.m_array_ops ++ r.parked.map fun msg => ⟨.actions, msg⟩ }

/-- `processRequest` and the actions that it asks for. -/
def execute (s : CacheController ε) (msg : Message) : Option (CacheController ε) :=
  effect { s with processed := s.processed ++ [msg] } (C.processRequest s.env msg)

/-- A deferred access completes; a message whose row stalls by now goes back to the processing queue. -/
def complete (s : CacheController ε) (op : DataArrayOp) : Option (CacheController ε) :=
  match op.kind with
  | .message =>
    match C.getRequestState s.env op.msg with
    | (.ready, msg) => C.execute s msg
    | (_, msg) => (s.m_processing_queue.pushBack msg .nonReady true).map fun q => { s with m_processing_queue := q }
  | .actions => effect s (C.fireActions s.env op.msg)

/-- `pipelineFire`: a deferred access leaves the list and completes; the queue is scanned again. -/
def pipelineFire (s : CacheController ε) (k : Nat) : Option (CacheController ε) :=
  s.m_array_ops[k]?.bind fun op =>
    (C.complete { s with m_array_ops := s.m_array_ops.eraseIdx k } op).map fun s' =>
      { s' with m_processing_queue := s'.m_processing_queue.markDirty }

/-- The part of `addRequests2ProcessingQueue` for the upper interface. Under a directory a message for
another controller is dropped, data go to the front, and anything else is queued with the readiness that it
has when it is taken in. -/
def intakeUpper (s : CacheController ε) (msg : Message) : CacheController ε :=
  let msg := { msg with source := .upperInterconnect }
  match C.intake with
  | .base => { s with m_processing_queue := s.m_processing_queue.pushFrontOrdered msg }
  | .directory =>
    if C.m_id ∉ msg.toIds then s
    else
      -- the callback may edit the copy that is queued
      let checked := C.getRequestState s.env msg
      if checked.2.data.isSome then { s with m_processing_queue := s.m_processing_queue.pushFront checked.2 }
      else
        { s with
          m_processing_queue :=
            (s.m_processing_queue.pushBack checked.2 checked.1 !checked.2.isDemandRequest).getD s.m_processing_queue }

/-- The part of `addRequests2ProcessingQueue` for the lower interface; a refused request stays there, and
under a directory a message for another controller is dropped. -/
def intakeLower (s : CacheController ε) (msg : Message) : CacheController ε :=
  let msg := { msg with source := .lowerInterconnect }
  if C.intake = .directory ∧ C.m_id ∉ msg.toIds then s
  else
    match s.m_processing_queue.pushBack msg .nonReady !msg.isDemandRequest with
    | none => s
    | some q => { s with m_processing_queue := q, arrived := s.arrived ++ [msg] }

/-- `checkReplacements`: a pending write-back becomes a Replacement, and its line leaves the array. -/
def checkReplacements (s : CacheController ε) : CacheController ε :=
  match C.addressOfLinePendingWB s.env with
  | none => { s with phase := .looping }
  | some (w, e) =>
    let msg : Message :=
      { msgId := w.msgId, addr := w.addr, owner := C.m_id, toIds := [C.m_shared_memory_id], source := .self, kind := .evict }
    match s.m_processing_queue.pushBack msg .nonReady true with
    | none => { s with phase := .flushing (C.getAddressKey w.addr) }
    | some q => { s with env := e, m_processing_queue := q, phase := .flushing (C.getAddressKey w.addr) }

/-- One round of the loop of `processLogic`. -/
def iterate (s : CacheController ε) : Option (CacheController ε) :=
  match s.m_processing_queue.getFirstReady (C.scan s.env s.m_array_ops) with
  | (none, q) => some { s with m_processing_queue := q, phase := .waiting }
  | (some msg, q) =>
    if !C.canAdmitRequest s.env msg then
      -- the second check of the source, behind the deferral, meets the same state
      some { s with m_processing_queue := (q.pushBack msg .nonReady false).getD q, phase := .waiting }
    else if C.deferForDataArray s.env msg then
      some { s with m_processing_queue := q, m_array_ops := s.m_array_ops ++ [⟨.message, msg⟩] }
    else C.execute { s with m_processing_queue := q } msg

/-- A step of a controller; `none` where it does not apply or ends the run. -/
def step (s : CacheController ε) : ControllerLabel → Option (CacheController ε)
  | .cycle => if s.phase = .waiting then some { s with env := C.updateCycle s.env } else none
  | .fire k =>
    if s.phase = .waiting then C.pipelineFire s k else none
  | .intake upper lower =>
    if s.phase = .waiting then
      let s' := upper.elim s (C.intakeUpper s)
      some (C.checkReplacements (lower.elim s' (C.intakeLower s')))
    else none
  | .flush =>
    match s.phase with
    | .flushing key =>
      match s.m_array_ops.findIdx? fun op => C.getAddressKey op.msg.addr == key with
      | none => some { s with phase := .looping }
      | some k => C.pipelineFire s k
    | _ => none
  | .iterate => if s.phase = .looping then C.iterate s else none

/-- The first state: nothing queued, deferred or processed. -/
def start (e : ε) : CacheController ε where
  env := e
  m_processing_queue := { maxSize := C.processing_queue_size }
  m_array_ops := []
  phase := .waiting
  arrived := []
  processed := []

/-- The runs of a controller. -/
def system : Lib.TransitionSystem (CacheController ε) ControllerLabel where
  init s := ∃ e, s = C.start e
  step s l s' := C.step s l = some s'

section Intake

variable {C} {s : CacheController ε}

/-- A message from above is dropped, or it enters the queue at some place, as it is or as the callback
leaves it. -/
theorem intakeUpper_cases (s : CacheController ε) (msg : Message) : C.intakeUpper s msg = s ∨
    ∃ pre post x, s.m_processing_queue.buffer = pre ++ post ∧
      C.intakeUpper s msg = { s with m_processing_queue :=
        { s.m_processing_queue with buffer := pre ++ x :: post, dirty := true } } ∧
      (x.item = { msg with source := .upperInterconnect } ∨
        x.item = (C.getRequestState s.env { msg with source := .upperInterconnect }).2) := by
  rw [intakeUpper]
  dsimp only
  cases C.intake with
  | base => exact .inr ⟨_, _, _, (List.take_append_drop _ _).symm, rfl, .inl rfl⟩
  | directory =>
    dsimp only
    by_cases hto : C.m_id ∉ msg.toIds
    · rw [if_pos hto]
      exact .inl rfl
    · rw [if_neg hto]
      by_cases hdata : (C.getRequestState s.env { msg with source := .upperInterconnect }).2.data.isSome
      · rw [if_pos hdata]
        exact .inr ⟨[], _, _, rfl, rfl, .inr rfl⟩
      · rw [if_neg hdata, FRFCFSBuffer.pushBack]
        split_ifs
        · exact .inl rfl
        · exact .inr ⟨_, [], _, (List.append_nil _).symm, rfl, .inr rfl⟩

/-- A message from below is dropped or refused, or it is queued behind the others. -/
theorem intakeLower_cases (s : CacheController ε) (msg : Message) : C.intakeLower s msg = s ∨
    C.intakeLower s msg = { s with
      m_processing_queue := { s.m_processing_queue with
        buffer := s.m_processing_queue.buffer ++ [⟨{ msg with source := .lowerInterconnect }, .nonReady⟩]
        dirty := true }
      arrived := s.arrived ++ [{ msg with source := .lowerInterconnect }] } := by
  rw [intakeLower, FRFCFSBuffer.pushBack]
  dsimp only
  split_ifs
  · exact .inl rfl
  · exact .inl rfl
  · exact .inr rfl

/-- Taking messages in changes the queue and the history of arrivals only. -/
theorem intake_frame (upper lower : Option Message) :
    let s' := upper.elim s (C.intakeUpper s)
    let t := lower.elim s' (C.intakeLower s')
    t.env = s.env ∧ t.m_array_ops = s.m_array_ops ∧ t.processed = s.processed ∧
      t.m_processing_queue.maxSize = s.m_processing_queue.maxSize := by
  have hupper : ∀ m, (C.intakeUpper s m).env = s.env ∧ (C.intakeUpper s m).m_array_ops = s.m_array_ops ∧
      (C.intakeUpper s m).processed = s.processed ∧
      (C.intakeUpper s m).m_processing_queue.maxSize = s.m_processing_queue.maxSize := by
    intro m
    obtain hsame | ⟨pre, post, x, -, hs, -⟩ := intakeUpper_cases (C := C) s m
    · rw [hsame]
      exact ⟨rfl, rfl, rfl, rfl⟩
    · rw [hs]
      exact ⟨rfl, rfl, rfl, rfl⟩
  have hlower : ∀ (t : CacheController ε) m, (C.intakeLower t m).env = t.env ∧
      (C.intakeLower t m).m_array_ops = t.m_array_ops ∧ (C.intakeLower t m).processed = t.processed ∧
      (C.intakeLower t m).m_processing_queue.maxSize = t.m_processing_queue.maxSize := by
    intro t m
    obtain hsame | hs := intakeLower_cases (C := C) t m
    · rw [hsame]
      exact ⟨rfl, rfl, rfl, rfl⟩
    · rw [hs]
      exact ⟨rfl, rfl, rfl, rfl⟩
  cases upper with
  | none =>
    cases lower with
    | none => exact ⟨rfl, rfl, rfl, rfl⟩
    | some m => exact hlower s m
  | some m =>
    obtain ⟨henv, hops, hprocessed, hmax⟩ := hupper m
    cases lower with
    | none => exact ⟨henv, hops, hprocessed, hmax⟩
    | some m' =>
      obtain ⟨henv', hops', hprocessed', hmax'⟩ := hlower (C.intakeUpper s m) m'
      exact ⟨henv'.trans henv, hops'.trans hops, hprocessed'.trans hprocessed, hmax'.trans hmax⟩

end Intake

end ControllerCore

end Octopus
