import Mathlib.Data.List.Induction
import Octopus.Lib.Codec
import Octopus.Logger.Timeline

/-!
# The raw event trace

Every event of every message becomes a record of 32 bytes. The logger collects records, appends them to
the file in chunks, and remembers for each chunk where it stands and which cycles and messages it spans.
When the trace is closed this index and a trailer follow the last chunk.
-/

namespace Octopus.Logger

/-- The number of a role in a record. -/
def Role.num : Role → UInt8
  | .cpu => 0
  | .l1 => 1
  | .reqBus => 2
  | .respBus => 3
  | .llc => 4
  | .memBus => 5
  | .dram => 6
  | .unknown => 7
  | .svcBus => 8
  | .array => 9
  | .llcQueue => 10
  | .fsm => 11

/-- The number of a phase in a record. -/
def Phase.num : Phase → UInt8
  | .enter => 0
  | .service => 1
  | .exit => 2

end Octopus.Logger

namespace Octopus.Trace

open Lib Logger

/-- `Logger::TraceRec`. -/
structure TraceRec where
  cycle : UInt64
  msg_id : UInt64
  addr : UInt64
  resource : UInt8
  phase : UInt8
  kind : UInt8
  core : UInt8
  comp : UInt16
  flags : UInt16
  deriving DecidableEq, Repr

/-- `Logger::TraceChunk`: where a chunk stands, its number of records, and what they span. -/
structure TraceChunk where
  offset : UInt64
  count : UInt64
  cmin : UInt64
  cmax : UInt64
  imin : UInt64
  imax : UInt64
  deriving DecidableEq, Repr

/-- The layout of a record: its fields side by side, without padding. -/
def traceRec : Codec TraceRec :=
  (Codec.uint64.pair <| Codec.uint64.pair <| Codec.uint64.pair <| Codec.uint8.pair <| Codec.uint8.pair <|
    Codec.uint8.pair <| Codec.uint8.pair <| Codec.uint16.pair Codec.uint16).equiv
    (fun (cycle, msg_id, addr, resource, phase, kind, core, comp, flags) =>
      ⟨cycle, msg_id, addr, resource, phase, kind, core, comp, flags⟩)
    (fun r => (r.cycle, r.msg_id, r.addr, r.resource, r.phase, r.kind, r.core, r.comp, r.flags))
    fun _ => rfl

/-- The layout of an index entry. -/
def traceChunk : Codec TraceChunk :=
  (Codec.uint64.pair <| Codec.uint64.pair <| Codec.uint64.pair <| Codec.uint64.pair <|
    Codec.uint64.pair Codec.uint64).equiv
    (fun (offset, count, cmin, cmax, imin, imax) => ⟨offset, count, cmin, cmax, imin, imax⟩)
    (fun c => (c.offset, c.count, c.cmin, c.cmax, c.imin, c.imax))
    fun _ => rfl

/-- A record has 32 bytes. -/
theorem traceRec_width : traceRec.width = 32 := rfl

/-- An index entry has 48 bytes. -/
theorem traceChunk_width : traceChunk.width = 48 := rfl

/-- `TRACE_MAGIC`. -/
def traceMagic : List UInt8 := [0x4F, 0x43, 0x54, 0x56, 0x32, 0, 0, 0]

/-- The number of records at which the collected ones are written. -/
def chunkSize : Nat := 65536

/-- The fields of a message that a record keeps. -/
structure Traced where
  msg_id : UInt64
  addr : UInt64
  kind : UInt8
  owner : UInt16
  deriving DecidableEq, Repr

/-- The calls that trace an event, each with the time of the clock manager. -/
inductive Call
  | trace (now : UInt64) (m : Traced) (role : Role) (comp : UInt32) (phase : Logger.Phase) (flags : UInt16)
  | traceFsm (now : UInt64) (m : Traced) (comp : UInt32) (oldState newState eventId : UInt32)
  deriving DecidableEq, Repr

/-- The record of a call; the cycle is that of the core clock. -/
def Call.record : Call → TraceRec
  | .trace now m role comp phase flags =>
    { cycle := now / 100 + 1, msg_id := m.msg_id, addr := m.addr, resource := role.num, phase := phase.num,
      kind := m.kind, core := m.owner.toUInt8, comp := comp.toUInt16, flags := flags }
  | .traceFsm now m comp oldState newState eventId =>
    { cycle := now / 100 + 1, msg_id := m.msg_id, addr := m.addr, resource := Role.fsm.num, phase := eventId.toUInt8,
      kind := m.kind, core := m.owner.toUInt8, comp := comp.toUInt16,
      flags := (((oldState &&& 0xff) <<< 8) ||| (newState &&& 0xff)).toUInt16 }

/-- The part of the logger that traces. -/
structure Tracer where
  /-- Whether `m_trace` is an open stream. -/
  isOpen : Bool
  /-- The bytes written to it. -/
  file : List UInt8
  m_trace_buf : List TraceRec
  m_trace_index : List TraceChunk
  m_trace_t0 : UInt64
  m_trace_t1 : UInt64
  deriving Repr

/-- A cycle window that a trace keeps; a window that does not end after it starts is ignored. -/
def windowOf (window : Option (UInt64 × UInt64)) : UInt64 × UInt64 :=
  match window with
  | some (a, b) => if a < b then (a, b) else (0, 0xFFFFFFFFFFFFFFFF)
  | none => (0, 0xFFFFFFFFFFFFFFFF)

/-- `Logger::traceOpen`, where a file is asked for and can be opened. -/
def traceOpen (window : Option (UInt64 × UInt64)) : Tracer where
  isOpen := true
  file := traceMagic
  m_trace_buf := []
  m_trace_index := []
  m_trace_t0 := (windowOf window).1
  m_trace_t1 := (windowOf window).2

/-- A record widens what its chunk spans. -/
def TraceChunk.span (c : TraceChunk) (r : TraceRec) : TraceChunk :=
  { c with
    cmin := if r.cycle < c.cmin then r.cycle else c.cmin
    cmax := if c.cmax < r.cycle then r.cycle else c.cmax
    imin := if r.msg_id < c.imin then r.msg_id else c.imin
    imax := if c.imax < r.msg_id then r.msg_id else c.imax }

/-- The index entry of records that are written at an offset. -/
def chunkOf (offset : Nat) (records : List TraceRec) : TraceChunk :=
  records.foldl TraceChunk.span
    ⟨UInt64.ofNat offset, UInt64.ofNat records.length, 0xFFFFFFFFFFFFFFFF, 0, 0xFFFFFFFFFFFFFFFF, 0⟩

namespace Tracer

/-- `Logger::traceFlush`. -/
def traceFlush (s : Tracer) : Tracer :=
  if s.isOpen = false ∨ s.m_trace_buf = [] then s
  else
    { s with
      file := s.file ++ traceRec.encodeAll s.m_trace_buf
      m_trace_index := s.m_trace_index ++ [chunkOf s.file.length s.m_trace_buf]
      m_trace_buf := [] }

/-- `Logger::trace` and `Logger::traceFsm`, which differ in the record they make. -/
def trace (s : Tracer) (call : Call) : Tracer :=
  if s.isOpen = false then s
  else if call.record.cycle < s.m_trace_t0 ∨ s.m_trace_t1 < call.record.cycle then s
  else
    let s' := { s with m_trace_buf := s.m_trace_buf ++ [call.record] }
    if chunkSize ≤ s'.m_trace_buf.length then s'.traceFlush else s'

/-- `Logger::traceClose`: the last chunk, the index and the trailer. -/
def traceClose (s : Tracer) : Tracer :=
  if s.isOpen = false then s
  else
    let s' := s.traceFlush
    { s' with
      isOpen := false
      file := s'.file ++ traceChunk.encodeAll s'.m_trace_index ++
        (Codec.uint64.encode (UInt64.ofNat s'.file.length) ++
          (Codec.uint64.encode (UInt64.ofNat s'.m_trace_index.length) ++ traceMagic)) }

end Tracer

/-- Whether a window keeps a record. -/
def inWindow (t0 t1 : UInt64) (r : TraceRec) : Bool := decide (t0 ≤ r.cycle) && decide (r.cycle ≤ t1)

/-- The trace after some calls. -/
def traced (window : Option (UInt64 × UInt64)) (calls : List Call) : Tracer :=
  calls.foldl Tracer.trace (traceOpen window)

/-- The records that a trace of some calls keeps. -/
def kept (window : Option (UInt64 × UInt64)) (calls : List Call) : List TraceRec :=
  (calls.map Call.record).filter (inWindow (windowOf window).1 (windowOf window).2)

section Chunks

/-- A chunk's entry keeps its place and its count. -/
theorem foldl_span (records : List TraceRec) (c : TraceChunk) :
    (records.foldl TraceChunk.span c).offset = c.offset ∧ (records.foldl TraceChunk.span c).count = c.count := by
  induction records generalizing c with
  | nil => exact ⟨rfl, rfl⟩
  | cons r records ih => exact ih (c.span r)

/-- The span of a chunk only grows. -/
theorem foldl_span_bounds (records : List TraceRec) (c : TraceChunk) :
    (records.foldl TraceChunk.span c).cmin ≤ c.cmin ∧ c.cmax ≤ (records.foldl TraceChunk.span c).cmax := by
  induction records generalizing c with
  | nil => exact ⟨UInt64.le_refl _, UInt64.le_refl _⟩
  | cons r records ih =>
    have htail := ih (c.span r)
    have hmin : (c.span r).cmin ≤ c.cmin := by
      simp only [TraceChunk.span]
      split
      · next hlt => exact UInt64.le_of_lt hlt
      · exact UInt64.le_refl _
    have hmax : c.cmax ≤ (c.span r).cmax := by
      simp only [TraceChunk.span]
      split
      · next hlt => exact UInt64.le_of_lt hlt
      · exact UInt64.le_refl _
    exact ⟨UInt64.le_trans htail.1 hmin, UInt64.le_trans hmax htail.2⟩

/-- A chunk spans the cycles of its records. -/
theorem cycle_mem_foldl_span (records : List TraceRec) (c : TraceChunk) (r : TraceRec) (hr : r ∈ records) :
    (records.foldl TraceChunk.span c).cmin ≤ r.cycle ∧ r.cycle ≤ (records.foldl TraceChunk.span c).cmax := by
  induction records generalizing c with
  | nil => simp at hr
  | cons r' records ih =>
    rw [List.mem_cons] at hr
    cases hr with
    | inl heq =>
      subst heq
      have htail := foldl_span_bounds records (c.span r)
      have hmin : (c.span r).cmin ≤ r.cycle := by
        simp only [TraceChunk.span]
        split
        · exact UInt64.le_refl _
        · next hge => exact UInt64.not_lt.1 hge
      have hmax : r.cycle ≤ (c.span r).cmax := by
        simp only [TraceChunk.span]
        split
        · exact UInt64.le_refl _
        · next hge => exact UInt64.not_lt.1 hge
      exact ⟨UInt64.le_trans htail.1 hmin, UInt64.le_trans hmax htail.2⟩
    | inr htail => exact ih (c.span r') htail

/-- The index of chunks that stand one behind the other from an offset on. -/
def indexFrom : Nat → List (List TraceRec) → List TraceChunk
  | _, [] => []
  | offset, records :: chunks => chunkOf offset records :: indexFrom (offset + 32 * records.length) chunks

/-- An entry for each chunk. -/
@[simp] theorem indexFrom_length (offset : Nat) (chunks : List (List TraceRec)) :
    (indexFrom offset chunks).length = chunks.length := by
  induction chunks generalizing offset with
  | nil => rfl
  | cons records chunks ih => simp [indexFrom, ih]

/-- A chunk at the end stands behind the records of the others. -/
theorem indexFrom_concat (offset : Nat) (chunks : List (List TraceRec)) (records : List TraceRec) :
    indexFrom offset (chunks ++ [records]) =
      indexFrom offset chunks ++ [chunkOf (offset + 32 * chunks.flatten.length) records] := by
  induction chunks generalizing offset with
  | nil => simp [indexFrom]
  | cons first chunks ih =>
    simp only [List.cons_append, indexFrom, ih, List.flatten_cons, List.length_append]
    congr 4
    omega

end Chunks

/-- What an open trace has written, chunk by chunk, and what it still collects. -/
structure Written (window : Option (UInt64 × UInt64)) (s : Tracer) (chunks : List (List TraceRec))
    (records : List TraceRec) : Prop where
  isOpen : s.isOpen = true
  file : s.file = traceMagic ++ traceRec.encodeAll chunks.flatten
  index : s.m_trace_index = indexFrom 8 chunks
  records : chunks.flatten ++ s.m_trace_buf = records
  full : ∀ chunk ∈ chunks, chunk.length = chunkSize
  buffer : s.m_trace_buf.length < chunkSize
  start : s.m_trace_t0 = (windowOf window).1
  stop : s.m_trace_t1 = (windowOf window).2

namespace Written

open Tracer

variable {window : Option (UInt64 × UInt64)} {s : Tracer} {chunks : List (List TraceRec)}
  {records : List TraceRec}

/-- A trace that was just opened has written nothing. -/
theorem opened (window : Option (UInt64 × UInt64)) : Written window (traceOpen window) [] [] where
  isOpen := rfl
  file := rfl
  index := rfl
  records := rfl
  full := by simp
  buffer := by simp [traceOpen, chunkSize]
  start := rfl
  stop := rfl

/-- The length of what is written. -/
theorem file_length (h : Written window s chunks records) : s.file.length = 8 + 32 * chunks.flatten.length := by
  rw [h.file, List.length_append, Codec.encodeAll_length, traceRec_width]
  rfl

/-- Writing the collected records when they fill a chunk leaves none behind. -/
theorem flush (h : Written window s chunks records) (r : TraceRec)
    (hfull : chunkSize ≤ (s.m_trace_buf ++ [r]).length) :
    Written window (traceFlush { s with m_trace_buf := s.m_trace_buf ++ [r] })
      (chunks ++ [s.m_trace_buf ++ [r]]) (records ++ [r]) := by
  have hlength := h.file_length
  have hbuffer := h.buffer
  have hflush : traceFlush { s with m_trace_buf := s.m_trace_buf ++ [r] } =
      { s with
        file := s.file ++ traceRec.encodeAll (s.m_trace_buf ++ [r])
        m_trace_index := s.m_trace_index ++ [chunkOf s.file.length (s.m_trace_buf ++ [r])]
        m_trace_buf := [] } := by
    simp [traceFlush, h.isOpen]
  rw [hflush]
  constructor
  case isOpen => exact h.isOpen
  case file => simp [h.file]
  case index => rw [h.index, hlength, indexFrom_concat]
  case records => simp [← h.records]
  case full =>
    intro chunk hchunk
    rw [List.mem_append, List.mem_singleton] at hchunk
    cases hchunk with
    | inl hold => exact h.full chunk hold
    | inr hnew =>
      rw [hnew]
      simp only [List.length_append, List.length_singleton] at hfull ⊢
      omega
  case buffer => simp [chunkSize]
  case start => exact h.start
  case stop => exact h.stop

/-- Collecting a record that does not fill the chunk. -/
theorem collect (h : Written window s chunks records) (r : TraceRec)
    (hroom : ¬ chunkSize ≤ (s.m_trace_buf ++ [r]).length) :
    Written window { s with m_trace_buf := s.m_trace_buf ++ [r] } chunks (records ++ [r]) where
  isOpen := h.isOpen
  file := h.file
  index := h.index
  records := by simp [← h.records]
  full := h.full
  buffer := Nat.lt_of_not_le hroom
  start := h.start
  stop := h.stop

/-- The window keeps a record exactly when the tracer does not turn it away. -/
theorem inWindow_iff (h : Written window s chunks records) (r : TraceRec) :
    inWindow (windowOf window).1 (windowOf window).2 r = true ↔
      ¬ (r.cycle < s.m_trace_t0 ∨ s.m_trace_t1 < r.cycle) := by
  simp [inWindow, h.start, h.stop]

/-- One call appends its record, if the window keeps it. -/
theorem trace (h : Written window s chunks records) (call : Call) :
    ∃ chunks', Written window (s.trace call) chunks' (records ++ kept window [call]) := by
  have hopen : ¬ s.isOpen = false := by simp [h.isOpen]
  by_cases hout : call.record.cycle < s.m_trace_t0 ∨ s.m_trace_t1 < call.record.cycle
  · have hkept : kept window [call] = [] := by
      have hwindow := h.inWindow_iff call.record
      simp_all [kept]
    rw [Tracer.trace, if_neg hopen, if_pos hout, hkept, List.append_nil]
    exact ⟨chunks, h⟩
  · have hkept : kept window [call] = [call.record] := by
      have hwindow := (h.inWindow_iff call.record).2 hout
      simp [kept, hwindow]
    rw [Tracer.trace, if_neg hopen, if_neg hout, hkept]
    by_cases hfull : chunkSize ≤ (s.m_trace_buf ++ [call.record]).length
    · rw [if_pos hfull]
      exact ⟨_, h.flush call.record hfull⟩
    · rw [if_neg hfull]
      exact ⟨_, h.collect call.record hfull⟩

end Written

/-- What a run keeps is kept call by call. -/
theorem kept_append (window : Option (UInt64 × UInt64)) (calls calls' : List Call) :
    kept window (calls ++ calls') = kept window calls ++ kept window calls' := by
  simp [kept]

/-- An open trace holds the records that its window keeps, in the order of the calls: the written ones in
full chunks, the others still collected. -/
theorem written_traced (window : Option (UInt64 × UInt64)) (calls : List Call) :
    ∃ chunks, Written window (traced window calls) chunks (kept window calls) := by
  induction calls using List.reverseRecOn with
  | nil => exact ⟨[], Written.opened window⟩
  | append_singleton calls call ih =>
    cases ih with
    | intro chunks h =>
      have hnext := h.trace call
      rw [← kept_append] at hnext
      simpa [traced, List.foldl_append] using hnext

/-- A closed trace is its magic, its chunks, their index and the trailer. -/
structure Closed (file : List UInt8) (chunks : List (List TraceRec)) : Prop where
  small : ∀ chunk ∈ chunks, 0 < chunk.length ∧ chunk.length ≤ chunkSize
  layout : file = traceMagic ++ traceRec.encodeAll chunks.flatten ++ traceChunk.encodeAll (indexFrom 8 chunks) ++
    (Codec.uint64.encode (UInt64.ofNat (8 + 32 * chunks.flatten.length)) ++
      (Codec.uint64.encode (UInt64.ofNat chunks.length) ++ traceMagic))

/-- A trace without collected records: everything kept stands in its chunks. -/
structure Flushed (s : Tracer) (chunks : List (List TraceRec)) (records : List TraceRec) : Prop where
  small : ∀ chunk ∈ chunks, 0 < chunk.length ∧ chunk.length ≤ chunkSize
  file : s.file = traceMagic ++ traceRec.encodeAll chunks.flatten
  index : s.m_trace_index = indexFrom 8 chunks
  records : chunks.flatten = records

namespace Written

variable {window : Option (UInt64 × UInt64)} {s : Tracer} {chunks : List (List TraceRec)}
  {records : List TraceRec}

/-- A full chunk is small enough. -/
theorem small (h : Written window s chunks records) (chunk : List TraceRec) (hchunk : chunk ∈ chunks) :
    0 < chunk.length ∧ chunk.length ≤ chunkSize := by
  have hlength := h.full chunk hchunk
  simp only [chunkSize] at hlength ⊢
  omega

/-- The last flush leaves a trace as it is, or writes what was collected as the last chunk. -/
theorem flushed (h : Written window s chunks records) :
    ∃ chunks', Flushed s.traceFlush chunks' records := by
  by_cases hempty : s.m_trace_buf = []
  · have hflush : s.traceFlush = s := by
      simp [Tracer.traceFlush, hempty]
    have hrecords := h.records
    rw [hempty, List.append_nil] at hrecords
    rw [hflush]
    exact ⟨chunks, h.small, h.file, h.index, hrecords⟩
  · have hflush : s.traceFlush =
        { s with
          file := s.file ++ traceRec.encodeAll s.m_trace_buf
          m_trace_index := s.m_trace_index ++ [chunkOf s.file.length s.m_trace_buf]
          m_trace_buf := [] } := by
      simp [Tracer.traceFlush, h.isOpen, hempty]
    have hlast : 0 < s.m_trace_buf.length ∧ s.m_trace_buf.length ≤ chunkSize :=
      ⟨List.length_pos_iff.2 hempty, Nat.le_of_lt h.buffer⟩
    rw [hflush]
    exists chunks ++ [s.m_trace_buf]
    constructor
    case small =>
      intro chunk hchunk
      rw [List.mem_append, List.mem_singleton] at hchunk
      cases hchunk with
      | inl hold => exact h.small chunk hold
      | inr hnew => rwa [hnew]
    case file => simp [h.file]
    case index => rw [indexFrom_concat, h.index, h.file_length]
    case records => simp [← h.records]

end Written

/-- Closing a trace writes what was still collected, the index and the trailer. -/
theorem closed_traced (window : Option (UInt64 × UInt64)) (calls : List Call) :
    ∃ chunks, Closed (traced window calls).traceClose.file chunks ∧ chunks.flatten = kept window calls := by
  have hrun := written_traced window calls
  cases hrun with
  | intro chunks h =>
    have hopen : ¬ (traced window calls).isOpen = false := by simp [h.isOpen]
    have hflushed := h.flushed
    cases hflushed with
    | intro chunks' h' =>
      have hend : (traced window calls).traceFlush.file.length = 8 + 32 * chunks'.flatten.length := by
        rw [h'.file, List.length_append, Codec.encodeAll_length, traceRec_width]
        rfl
      exists chunks'
      constructor
      · constructor
        case small => exact h'.small
        case layout =>
          rw [Tracer.traceClose, if_neg hopen]
          simp only [hend, h'.index, indexFrom_length]
          rw [h'.file]
      · exact h'.records

/-- The records of full chunks. -/
theorem flatten_length_of_full (chunks : List (List TraceRec)) (hfull : ∀ chunk ∈ chunks, chunk.length = chunkSize) :
    chunks.flatten.length = chunkSize * chunks.length := by
  induction chunks with
  | nil => rfl
  | cons chunk chunks ih =>
    rw [List.flatten_cons, List.length_append, hfull chunk List.mem_cons_self,
      ih fun other hother => hfull other (List.mem_cons_of_mem _ hother), List.length_cons, Nat.mul_succ,
      Nat.add_comm]

/-- Chunks that are not empty have as many records at least. -/
theorem length_le_flatten_length (chunks : List (List TraceRec)) (hpos : ∀ chunk ∈ chunks, 0 < chunk.length) :
    chunks.length ≤ chunks.flatten.length := by
  induction chunks with
  | nil => exact Nat.le_refl _
  | cons chunk chunks ih =>
    have hhead := hpos chunk List.mem_cons_self
    have htail := ih fun other hother => hpos other (List.mem_cons_of_mem _ hother)
    rw [List.flatten_cons, List.length_append, List.length_cons]
    omega

/-- An open trace has written the records that fill whole chunks. -/
theorem traced_length (window : Option (UInt64 × UInt64)) (calls : List Call) :
    (traced window calls).file.length = 8 + 32 * (chunkSize * ((kept window calls).length / chunkSize)) := by
  have hrun := written_traced window calls
  cases hrun with
  | intro chunks h =>
    have hfull := flatten_length_of_full chunks h.full
    have hrecords := congrArg List.length h.records
    rw [List.length_append, hfull] at hrecords
    have hcount : (kept window calls).length / chunkSize = chunks.length := by
      rw [← hrecords, Nat.mul_add_div (by decide), Nat.div_eq_of_lt h.buffer, Nat.add_zero]
    rw [h.file_length, hfull, hcount]

/-- A closed trace has at most one index entry for each of its records. -/
theorem closed_length_le (window : Option (UInt64 × UInt64)) (calls : List Call) :
    (traced window calls).traceClose.file.length ≤ 32 + 80 * calls.length := by
  have hclosed := closed_traced window calls
  cases hclosed with
  | intro chunks h =>
    have hchunks := length_le_flatten_length chunks fun chunk hchunk => (h.1.small chunk hchunk).1
    have hkept : chunks.flatten.length ≤ calls.length := by
      rw [h.2, kept, ← List.length_map Call.record]
      exact List.length_filter_le _ _
    have hwidth : ∀ n : UInt64, (Codec.uint64.encode n).length = 8 := fun n => Codec.uint64.encode_length n
    have hmagic : traceMagic.length = 8 := rfl
    rw [h.1.layout]
    simp only [List.length_append, Codec.encodeAll_length, traceRec_width, traceChunk_width, indexFrom_length, hwidth,
      hmagic]
    omega

end Octopus.Trace
