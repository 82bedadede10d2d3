import Octopus.Controller.DataArray
import Octopus.Controller.ProcessLogic

/-!
# A cache of many lines under the processing loop

A controller's lines share the data array, the room of the cache, the pending requests and the
write-back buffer. What the controller keeps of one line and what a message does to it is a
parameter: a private cache or a last-level cache, under a snooping protocol or a directory.
-/

namespace Octopus

/--
What a controller does with one line: `κ` is what it keeps of the line and `π` what it parks until
the data array is free.
-/
structure LineLogic (κ π : Type) where
  /-- How the controller takes its messages in. -/
  intake : Intake
  start : κ
  /-- The pending requests of the line. -/
  pending : κ → List Message
  location : κ → Option LineLocation
  /-- The line leaves the array for the write-back buffer. -/
  moveLine2WB : κ → κ
  getRequestState : κ → Message → FRFCFSState × Message
  /-- Whether `deferForDataArray` defers a message, the interlock apart. -/
  touchesBusyArray : DataArray → κ → Message → Bool
  process : DataArray → κ → Message → Except Exit (Outcome κ π)
  /-- What was parked runs. -/
  fire : DataArray → κ → π → Except Exit (Outcome κ π)
  parkedMsg : π → Message
  /-- Whether the row of a message records it as a pending request. -/
  asks : κ → Message → Bool
  /-- Whether the row of a message writes a block of bytes. -/
  fills : κ → Message → Bool
  /-- Whether what was parked writes a block of bytes. -/
  parkedFills : π → Bool
  ready_or_nonReady : ∀ c m, (getRequestState c m).1 = .ready ∨ (getRequestState c m).1 = .nonReady
  edit : ∀ c m, (getRequestState c m).2 = m ∨
    m.isDemandRequest = false ∧ (getRequestState c m).2.isDemandRequest = false
  edit_addr : ∀ c m, (getRequestState c m).2.addr = m.addr
  /-- A message that stalls is put back as it is, and a demand request that is ready does not stall. -/
  stalled_demand : ∀ {d c m o}, process d c m = .ok o → ∀ x ∈ o.emitted, x.port = .processingQueue →
    x.msg.isDemandRequest = true → x.msg = m ∧ (getRequestState c m).1 ≠ .ready
  fired_stalled : ∀ {d c p o}, fire d c p = .ok o → ∀ x ∈ o.emitted, x.port ≠ .processingQueue
  /-- The accesses a message parks are accesses to its line. -/
  parked_addr : ∀ {d c m o}, process d c m = .ok o → ∀ p ∈ o.parked, (parkedMsg p).addr = m.addr
  fired_addr : ∀ {d c p o}, fire d c p = .ok o → ∀ q ∈ o.parked, (parkedMsg q).addr = (parkedMsg p).addr
  /-- A line that leaves the array keeps its bits. -/
  state_moveLine2WB : ∀ c m, getRequestState (moveLine2WB c) m = getRequestState c m
  pending_start : pending start = []
  location_start : location start = none
  pending_moveLine2WB : ∀ c, pending (moveLine2WB c) = pending c
  array_moveLine2WB : ∀ c, location (moveLine2WB c) ≠ some .array
  /-- A line gets its first pending request from a row that records one. -/
  pending_process : ∀ {d c m o}, process d c m = .ok o → pending o.line ≠ [] → pending c ≠ [] ∨ asks c m = true
  pending_fire : ∀ {d c p o}, fire d c p = .ok o → pending o.line ≠ [] → pending c ≠ []
  /-- A line enters the array from a holding register, with its bytes. -/
  array_process : ∀ {d c m o}, process d c m = .ok o → location o.line = some .array →
    location c = some .array ∨ location c = some .mshr ∧ fills c m = true
  array_fire : ∀ {d c p o}, fire d c p = .ok o → location o.line = some .array →
    location c = some .array ∨ location c = some .mshr ∧ parkedFills p = true
  /-- No message enters its line in the write-back buffer. -/
  pwb_process : ∀ {d c m o}, process d c m = .ok o → location o.line = some .pwb → location c = some .pwb
  pwb_fire : ∀ {d c p o}, fire d c p = .ok o → location o.line = some .pwb → location c = some .pwb

/-- The parameters of a cache. -/
structure CacheConfig where
  controller : ControllerConfig
  array : ArrayConfig
  processing_queue_size : Option Nat
  m_num_mshr : Option Nat
  m_pwb_size : Option Nat
  /-- The line that makes room in the array for a new one, if the set is full. The choice may depend on all
  that was done before, for which the number of lines that have entered the array stands. -/
  victim : Nat → List Nat → Nat → Option Nat

/-- What a controller keeps for its lines, which it knows by their address keys. -/
structure CacheLines (κ π : Type) where
  line : Nat → κ
  /-- What the lines have parked, oldest first. -/
  parked : Nat → List π
  /-- The keys of `m_pending_requests`. -/
  pendingKeys : List Nat
  /-- The lines in the array. -/
  array : List Nat
  /-- How often a line has entered the array. -/
  fills : Nat
  /-- The keys of `m_pending_write_back_regs`. -/
  pwb : List Nat
  m_pwb_pending_issue : List Nat
  data : DataArray
  nextReqId : Nat

namespace CacheLines

variable {κ π : Type} (L : LineLogic κ π) (cfg : CacheConfig)

/-- `getAddressKey`: the address of the block. -/
def getAddressKey (addr : Nat) : Nat := addr - addr % cfg.controller.blockSize

/-- A key enters or leaves a list of keys. -/
def setKey (keys : List Nat) (key : Nat) (isIn : Bool) : List Nat :=
  if isIn then if key ∈ keys then keys else keys ++ [key] else keys.erase key

/-- A line enters the array, and the victim it displaces moves to the write-back buffer. -/
def enterArray (e : CacheLines κ π) (key : Nat) : CacheLines κ π :=
  match cfg.victim e.fills e.array key with
  | none => { e with array := e.array ++ [key], fills := e.fills + 1 }
  | some v =>
    { e with
      line := Function.update e.line v (L.moveLine2WB (e.line v))
      array := e.array.erase v ++ [key]
      fills := e.fills + 1
      pwb := setKey e.pwb v true
      m_pwb_pending_issue := e.m_pwb_pending_issue ++ [v] }

/-- A line after a message, put back among the others. -/
def setLine (e : CacheLines κ π) (key : Nat) (o : Outcome κ π) : CacheLines κ π :=
  let e' := { e with
    line := Function.update e.line key o.line
    parked := Function.update e.parked key (e.parked key ++ o.parked)
    pendingKeys := setKey e.pendingKeys key (L.pending o.line != [])
    pwb := setKey e.pwb key (L.location o.line == some .pwb)
    data := o.array }
  if L.location o.line = some .array then
    if key ∈ e.array then e' else e'.enterArray L cfg key
  else { e' with array := e'.array.erase key }

/-- What a message leaves for the loop. -/
def processed (e : CacheLines κ π) (key : Nat) (o : Outcome κ π) : Processed (CacheLines κ π) where
  env := e.setLine L cfg key o
  stalled := (o.emitted.filter fun m => m.port = .processingQueue).map (·.msg)
  parked := o.parked.map L.parkedMsg

/-- `processRequest` and the actions it asks for. -/
def processRequest (e : CacheLines κ π) (msg : Message) : Except Exit (Processed (CacheLines κ π)) :=
  (L.process e.data (e.line (getAddressKey cfg msg.addr)) msg).map
    (e.processed L cfg (getAddressKey cfg msg.addr))

/-- The oldest access that a message has parked completes. -/
def fireActions (e : CacheLines κ π) (msg : Message) : Except Exit (Processed (CacheLines κ π)) :=
  let key := getAddressKey cfg msg.addr
  match (e.parked key).find? fun p => L.parkedMsg p == msg with
  | none => .ok ⟨e, [], []⟩
  | some p =>
    let e' := { e with parked := Function.update e.parked key ((e.parked key).eraseP fun p => L.parkedMsg p == msg) }
    (L.fire e.data (e.line key) p).map (e'.processed L cfg key)

/-- `addressOfLinePendingWB`: the oldest pending write-back leaves the list. -/
def addressOfLinePendingWB (e : CacheLines κ π) : Option (PendingWB × CacheLines κ π) :=
  match e.m_pwb_pending_issue with
  | [] => none
  | v :: rest => some (⟨e.nextReqId, v⟩, { e with m_pwb_pending_issue := rest, nextReqId := e.nextReqId + 1 })

/-- An empty cache. -/
def start : CacheLines κ π where
  line _ := L.start
  parked _ := []
  pendingKeys := []
  array := []
  fills := 0
  pwb := []
  m_pwb_pending_issue := []
  data := {}
  nextReqId := 0

/-- The readiness of a message, by its line. -/
def getRequestState (e : CacheLines κ π) (m : Message) : FRFCFSState × Message :=
  L.getRequestState (e.line (getAddressKey cfg m.addr)) m

section Laws

variable {L cfg} {e e' : CacheLines κ π} {key : Nat} {m x : Message} {o : Outcome κ π} {r : Processed (CacheLines κ π)}

/-- A line that makes room leaves the array and is otherwise as before. -/
theorem line_enterArray (e : CacheLines κ π) (key x : Nat) : (e.enterArray L cfg key).line x = e.line x ∨
    (e.enterArray L cfg key).line x = L.moveLine2WB (e.line x) := by
  rw [enterArray]
  split
  · exact .inl rfl
  · next v hv =>
    by_cases hx : x = v
    · exact .inr (by simp [hx])
    · exact .inl (by simp [hx])

/-- A line that a message is put back beside is as before, or it has left the array. -/
theorem line_setLine {x : Nat} (hne : x ≠ key) : (e.setLine L cfg key o).line x = e.line x ∨
    (e.setLine L cfg key o).line x = L.moveLine2WB (e.line x) := by
  have hx : Function.update e.line key o.line x = e.line x := Function.update_of_ne hne _ _
  rw [setLine]
  dsimp only
  split_ifs
  · exact .inl hx
  · rw [← hx]
    exact line_enterArray _ key x
  · exact .inl hx

/-- A line after a message, put back, keeps the readiness of the messages to other lines. -/
theorem getRequestState_setLine (hne : getAddressKey cfg m.addr ≠ key) :
    (e.setLine L cfg key o).getRequestState L cfg m = e.getRequestState L cfg m := by
  simp only [getRequestState]
  rcases @line_setLine _ _ L cfg e key o _ hne with h | h
  · rw [h]
  · rw [h, L.state_moveLine2WB]

/-- A processed message, from what it did to its line. -/
theorem processRequest_eq_ok (h : e.processRequest L cfg m = .ok r) :
    ∃ o, L.process e.data (e.line (getAddressKey cfg m.addr)) m = .ok o ∧
      r = e.processed L cfg (getAddressKey cfg m.addr) o := by
  obtain ⟨o, ho, hr⟩ := Lib.map_eq_ok.1 h
  exact ⟨o, ho, hr.symm⟩

/-- A completed access, from what it did to its line. -/
theorem fireActions_eq_ok (h : e.fireActions L cfg m = .ok r) :
    r = ⟨e, [], []⟩ ∨ ∃ p parked o, (e.parked (getAddressKey cfg m.addr)).find? (L.parkedMsg · == m) = some p ∧
      L.parkedMsg p = m ∧ L.fire e.data (e.line (getAddressKey cfg m.addr)) p = .ok o ∧
      r = ({ e with parked := parked } : CacheLines κ π).processed L cfg (getAddressKey cfg m.addr) o := by
  rw [fireActions] at h
  split at h
  · exact .inl (Except.ok.inj h).symm
  · next p hp =>
    right
    have hmsg : L.parkedMsg p = m := by simpa using List.find?_some hp
    obtain ⟨o, ho, hr⟩ := Lib.map_eq_ok.1 h
    exact ⟨p, _, o, hp, hmsg, ho, hr.symm⟩

/-- A pending write-back that is taken changes no line. -/
theorem addressOfLinePendingWB_eq_some {w : PendingWB} (h : e.addressOfLinePendingWB = some (w, e')) :
    ∃ rest, e' = { e with m_pwb_pending_issue := rest, nextReqId := e.nextReqId + 1 } := by
  rw [addressOfLinePendingWB] at h
  split at h
  · simp at h
  · exact ⟨_, (Prod.mk.inj (Option.some.inj h)).2.symm⟩

/-- What stalls is what a message put back into the queue. -/
theorem mem_stalled (hx : x ∈ (e.processed L cfg key o).stalled) :
    ∃ y ∈ o.emitted, y.port = .processingQueue ∧ y.msg = x := by
  obtain ⟨y, hy, rfl⟩ := List.mem_map.1 hx
  obtain ⟨hy, hport⟩ := List.mem_filter.1 hy
  exact ⟨y, hy, by simpa using hport, rfl⟩

end Laws

/-- The processing loop's view of a cache. -/
def core : ControllerCore (CacheLines κ π) where
  m_id := cfg.controller.id
  m_shared_memory_id := cfg.controller.sharedMemoryId
  intake := L.intake
  getAddressKey := getAddressKey cfg
  processing_queue_size := cfg.processing_queue_size
  m_num_mshr := cfg.m_num_mshr
  m_line_interlock := cfg.array.m_line_interlock
  getRequestState := getRequestState L cfg
  isAddressTracked e addr := (L.location (e.line (getAddressKey cfg addr))).isSome
  pendingKeys := pendingKeys
  touchesBusyArray e msg := L.touchesBusyArray e.data (e.line (getAddressKey cfg msg.addr)) msg
  processRequest := processRequest L cfg
  fireActions := fireActions L cfg
  addressOfLinePendingWB := addressOfLinePendingWB
  updateCycle e := { e with data := { e.data with m_cycle := e.data.m_cycle + 1 } }
  ready_or_nonReady _ _ := L.ready_or_nonReady _ _
  edit _ _ := L.edit _ _
  edit_addr _ _ := L.edit_addr _ _
  stalled_demand := by
    intro e m r h x hx hdemand
    obtain ⟨o, ho, rfl⟩ := processRequest_eq_ok h
    obtain ⟨y, hy, hport, rfl⟩ := mem_stalled hx
    exact L.stalled_demand ho y hy hport hdemand
  fired_stalled := by
    intro e m r h
    obtain rfl | ⟨p, parked, o, -, -, ho, rfl⟩ := fireActions_eq_ok h
    · rfl
    · refine List.eq_nil_iff_forall_not_mem.2 fun x hx => ?_
      obtain ⟨y, hy, hport, -⟩ := mem_stalled hx
      exact L.fired_stalled ho y hy hport
  parked_key := by
    rintro e m r (h | h) x hx
    · obtain ⟨o, ho, rfl⟩ := processRequest_eq_ok h
      obtain ⟨p, hp, rfl⟩ := List.mem_map.1 hx
      rw [L.parked_addr ho p hp]
    · obtain rfl | ⟨p, parked, o, -, rfl, ho, rfl⟩ := fireActions_eq_ok h
      · simp at hx
      · obtain ⟨q, hq, rfl⟩ := List.mem_map.1 hx
        rw [L.fired_addr ho q hq]
  frame := by
    rintro e m r (h | h) x hx
    · obtain ⟨o, ho, rfl⟩ := processRequest_eq_ok h
      exact congrArg Prod.fst (getRequestState_setLine hx)
    · obtain rfl | ⟨p, parked, o, -, -, ho, rfl⟩ := fireActions_eq_ok h
      · rfl
      · exact congrArg Prod.fst (getRequestState_setLine hx)
  frame_pendingWB := by
    intro e w e' h x
    obtain ⟨rest, rfl⟩ := addressOfLinePendingWB_eq_some h
    rfl
  frame_cycle _ _ := rfl

end CacheLines

end Octopus
