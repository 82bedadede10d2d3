import Octopus.Controller.Order
import Octopus.Protocols.MSIProtocol

/-!
# A private cache under the processing loop

The processing loop of a private cache that runs MSI over any number of lines. Each line has its
controller; what the lines share is the room of the array, the pending requests and the lines whose
write-back is pending. The data array has latency 0, so no access is deferred.
-/

namespace Octopus

/-- The parameters of a private cache. -/
structure L1Config where
  controller : ControllerConfig
  processing_queue_size : Option Nat
  m_num_mshr : Option Nat
  /-- The line that makes room in the array for a new one, if the set is full. The choice may depend on all
  that was done before, for which the number of lines that have entered the array stands. -/
  victim : Nat → List Nat → Nat → Option Nat

/-- What a private cache keeps for its lines, which it knows by their address keys. -/
structure L1Lines where
  line : Nat → LineController MSIState
  /-- The keys of `m_pending_requests`. -/
  pendingKeys : List Nat
  /-- The lines in the array. -/
  array : List Nat
  /-- How often a line has entered the array. -/
  fills : Nat
  m_pwb_pending_issue : List Nat
  nextReqId : Nat

namespace L1Lines

variable (cfg : L1Config)

/-- `getAddressKey`: the address of the block. -/
def getAddressKey (addr : Nat) : Nat := addr - addr % cfg.controller.blockSize

/-- The line bits that the protocol reads. -/
def bits (e : L1Lines) (addr : Nat) : GenericCacheLine MSIState :=
  (e.line (getAddressKey cfg addr)).slot.readLineBits msiProtocol.initial

/-- `getRequestState`; an exit in the callback ends the run like the same exit in `processRequest`. -/
def getRequestState (e : L1Lines) (msg : Message) : FRFCFSState × Message :=
  match msiProtocol.getRequestState cfg.controller.id (e.bits cfg msg.addr) msg with
  | .ok checked => checked
  | .error _ => (.ready, msg)

/-- A line enters the array, and the victim it displaces moves to the write-back buffer. -/
def enterArray (e : L1Lines) (key : Nat) : L1Lines :=
  match cfg.victim e.fills e.array key with
  | none => { e with array := e.array ++ [key], fills := e.fills + 1 }
  | some v =>
    { e with
      line := Function.update e.line v { e.line v with slot := (e.line v).slot.moveLine2WB }
      array := e.array.erase v ++ [key]
      fills := e.fills + 1
      m_pwb_pending_issue := e.m_pwb_pending_issue ++ [v] }

/-- The controller of a line after a message, put back among the others. -/
def setLine (e : L1Lines) (key : Nat) (c : LineController MSIState) : L1Lines :=
  let e' := { e with
    line := Function.update e.line key c
    pendingKeys := if c.pending = [] then e.pendingKeys.erase key
      else if key ∈ e.pendingKeys then e.pendingKeys else e.pendingKeys ++ [key] }
  if (c.slot.map Resident.location) = some .array then
    if key ∈ e.array then e' else e'.enterArray cfg key
  else { e' with array := e'.array.erase key }

/-- `processRequest` and the actions it asks for. -/
def processRequest (e : L1Lines) (msg : Message) : Except Exit (Processed L1Lines) :=
  match msiProtocol.process cfg.controller (e.line (getAddressKey cfg msg.addr)) msg with
  | .error x => .error x
  | .ok (c, out) =>
    .ok ⟨e.setLine cfg (getAddressKey cfg msg.addr) c,
      (out.filter fun m => m.port = .processingQueue).map (·.msg), []⟩

/-- `addressOfLinePendingWB`: the oldest pending write-back leaves the list. -/
def addressOfLinePendingWB (e : L1Lines) : Option (PendingWB × L1Lines) :=
  match e.m_pwb_pending_issue with
  | [] => none
  | v :: rest => some (⟨e.nextReqId, v⟩, { e with m_pwb_pending_issue := rest, nextReqId := e.nextReqId + 1 })

/-- An empty cache. -/
def start : L1Lines := ⟨fun _ => {}, [], [], 0, [], 0⟩

section Laws

variable {cfg} {e : L1Lines} {msg : Message}

/-- MSI reads a message as it is. -/
theorem getRequestState_snd : (e.getRequestState cfg msg).2 = msg := by
  rw [getRequestState, L1Protocol.getRequestState]
  cases hread : MSIProtocol.readEvent cfg.controller.id msg <;> simp [msiProtocol, hread, Except.map]

/-- A message is ready or it is not. -/
theorem ready_or_nonReady : (e.getRequestState cfg msg).1 = .ready ∨ (e.getRequestState cfg msg).1 = .nonReady := by
  rw [getRequestState, L1Protocol.getRequestState]
  cases hread : MSIProtocol.readEvent cfg.controller.id msg with
  | error x => simp [msiProtocol, hread, Except.map]
  | ok event =>
    cases hstall : msiSplitBusSnooping.hasAction (e.bits cfg msg.addr).state event .stall <;>
      simp [msiProtocol, hread, Except.map, hstall]

/-- What an action puts back into the processing queue is the message of a Stall cell. -/
theorem execAction_stalled {c c' : LineController MSIState} {a : ControllerAction MSIState} {out : List Emission}
    {x : Emission} (h : c.execAction cfg.controller a = .ok (c', out)) (hx : x ∈ out)
    (hport : x.port = .processingQueue) : a = .stall x.msg := by
  have hother : ∀ {c₁ : LineController MSIState} {out₁ : List Emission},
      (.ok (c₁, out₁) : LineController.Result MSIState) = .ok (c', out) → (∀ y ∈ out₁, y.port ≠ .processingQueue) → False := by
    intro c₁ out₁ heq hout
    obtain ⟨-, rfl⟩ := Prod.mk.inj (Except.ok.inj heq)
    exact hout x hx hport
  rw [LineController.execAction.eq_def] at h
  cases a with
  | stall msg =>
    obtain ⟨-, rfl⟩ := Prod.mk.inj (Except.ok.inj h)
    obtain rfl := List.mem_singleton.1 hx
    rfl
  | removePending msg =>
    simp only [LineController.removePendingAndRespond] at h
    split_ifs at h
    split at h
    · simp at h
    · exact (hother h (by simp)).elim
  | hitAction msg => exact (hother h (by simp)).elim
  | addPending msg => exact (hother h (by simp)).elim
  | sendBusMsg msg => exact (hother h (by simp)).elim
  | writeBack msg => exact (hother h (by simp)).elim
  | updateCacheLine msg line =>
    simp only [LineController.updateCacheLine] at h
    split at h
    · exact (hother h (by simp)).elim
    · split_ifs at h
      · exact (hother h (by simp)).elim
      · split at h
        · exact (hother h (by simp)).elim
        · simp at h
  | modifyData msg =>
    simp only [LineController.modifyData] at h
    split at h
    · exact (hother h (by simp)).elim
    · split at h
      · exact (hother h (by simp)).elim
      · split at h
        · simp at h
        · exact (hother h (by simp)).elim
  | saveReqForWriteBack msg => exact (hother h (by simp)).elim
  | noAction => exact (hother h (by simp)).elim
  | sendInvMsg msg => exact (hother h (by simp)).elim
  | removeSavedReq => exact (hother h (by simp)).elim

/-- What a list of actions puts back into the processing queue are the messages of Stall cells. -/
theorem execActions_stalled {c c' : LineController MSIState} {actions : List (ControllerAction MSIState)}
    {out : List Emission} {x : Emission} (h : c.execActions cfg.controller actions = .ok (c', out)) (hx : x ∈ out)
    (hport : x.port = .processingQueue) : .stall x.msg ∈ actions := by
  induction actions generalizing c out with
  | nil =>
    obtain ⟨-, rfl⟩ := Prod.mk.inj (Except.ok.inj h)
    simp at hx
  | cons a rest ih =>
    rw [LineController.execActions] at h
    split at h
    · simp at h
    · next c₁ out₁ ha =>
      split at h
      · simp at h
      · next c₂ out₂ hrest =>
        obtain ⟨rfl, rfl⟩ := Prod.mk.inj (Except.ok.inj h)
        rcases List.mem_append.1 hx with hx | hx
        · rw [execAction_stalled ha hx hport]
          exact List.mem_cons_self
        · exact List.mem_cons_of_mem a (ih hrest hx)

/-- A Stall action of a row puts back the message the row is for. -/
theorem handleAction_stall {actions : List ActionId} {line : GenericCacheLine MSIState} {next : MSIState}
    {built : List (ControllerAction MSIState)} {x : Message}
    (h : MSIProtocol.handleAction cfg.controller msiSplitBusSnooping actions msg line next = .ok built)
    (hx : .stall x ∈ built) : x = msg ∧ ActionId.stall ∈ actions := by
  have hfold : ∀ (actions : List ActionId) (start : List (ControllerAction MSIState)) built,
      actions.foldlM (MSIProtocol.addAction cfg.controller msg) start = .ok built → .stall x ∈ built →
      .stall x ∈ start ∨ x = msg ∧ ActionId.stall ∈ actions := by
    intro actions
    induction actions with
    | nil =>
      intro start built hbuilt hmem
      obtain rfl := Except.ok.inj hbuilt
      exact .inl hmem
    | cons a actions ih =>
      intro start built hbuilt hmem
      rw [List.foldlM_cons] at hbuilt
      cases hadd : MSIProtocol.addAction cfg.controller msg start a with
      | error e => simp [hadd, bind, Except.bind] at hbuilt
      | ok start' =>
        rw [hadd] at hbuilt
        rcases ih start' built hbuilt hmem with hmem | ⟨rfl, hmem⟩
        · cases a <;> simp only [MSIProtocol.addAction, reduceCtorEq, Except.ok.injEq] at hadd <;> subst hadd <;>
            simp_all
          · split_ifs at hmem <;> simp_all
        · exact .inr ⟨rfl, List.mem_cons_of_mem a hmem⟩
  rcases hfold actions _ built h hx with hstart | hstall
  · split_ifs at hstart <;> simp at hstart
  · exact hstall

/-- What a processed message puts back into the queue is itself, on a Stall cell. -/
theorem processRequest_stalled {r : Processed L1Lines} (h : e.processRequest cfg msg = .ok r) {x : Message}
    (hx : x ∈ r.stalled) : x = msg ∧ (e.getRequestState cfg msg).1 ≠ .ready := by
  rw [processRequest] at h
  split at h
  · simp at h
  · next c out hprocess =>
    obtain rfl := Except.ok.inj h
    obtain ⟨m, hm, rfl⟩ := List.mem_map.1 hx
    obtain ⟨hm, hport⟩ := List.mem_filter.1 hm
    rw [L1Protocol.process] at hprocess
    split at hprocess
    · simp at hprocess
    · next actions hactions =>
      have hstall := execActions_stalled hprocess hm (by simpa using hport)
      rw [L1Protocol.processRequest] at hactions
      rw [getRequestState, L1Protocol.getRequestState, bits]
      split at hactions
      · simp at hactions
      · next event msg' hread =>
        obtain ⟨hmsg, hmem⟩ := handleAction_stall hactions hstall
        have hread' : msg' = msg := by
          cases hevent : MSIProtocol.readEvent cfg.controller.id msg with
          | error y => simp [msiProtocol, hevent, Except.map] at hread
          | ok event' => simp_all [msiProtocol, Except.map]
        refine ⟨hmsg.trans hread', ?_⟩
        simp [Fsm.hasAction, hmem]

/-- Moving a line to the write-back buffer keeps its bits. -/
theorem bits_enterArray {key addr : Nat} : (e.enterArray cfg key).bits cfg addr = e.bits cfg addr := by
  rw [enterArray]
  split
  · rfl
  · next v hv =>
    simp only [bits, Function.update_apply]
    split_ifs with heq
    · rw [heq]
      cases (e.line v).slot <;> simp [Slot.moveLine2WB, Slot.readLineBits]
    · rfl

/-- A line whose controller is put back changes the bits of that line only. -/
theorem bits_setLine {key addr : Nat} {c : LineController MSIState} (hne : getAddressKey cfg addr ≠ key) :
    (e.setLine cfg key c).bits cfg addr = e.bits cfg addr := by
  have hline : ∀ keys array, ({ e with line := Function.update e.line key c, pendingKeys := keys, array := array } :
      L1Lines).bits cfg addr = e.bits cfg addr := fun _ _ => by simp [bits, hne]
  rw [setLine]
  dsimp only
  split_ifs
  all_goals first
    | exact hline _ _
    | exact bits_enterArray.trans (hline _ _)

/-- The state of a message depends on the bits of its line. -/
theorem getRequestState_congr {e' : L1Lines} (h : e'.bits cfg msg.addr = e.bits cfg msg.addr) :
    e'.getRequestState cfg msg = e.getRequestState cfg msg := by
  rw [getRequestState, getRequestState, h]

end Laws

/-- The processing loop's view of a private cache. -/
def core (cfg : L1Config) : ControllerCore L1Lines where
  m_id := cfg.controller.id
  m_shared_memory_id := cfg.controller.sharedMemoryId
  intake := .base
  getAddressKey := getAddressKey cfg
  processing_queue_size := cfg.processing_queue_size
  m_num_mshr := cfg.m_num_mshr
  m_line_interlock := false
  getRequestState := getRequestState cfg
  isAddressTracked e addr := (e.line (getAddressKey cfg addr)).slot.isSome
  pendingKeys := pendingKeys
  touchesBusyArray _ _ := false
  processRequest := processRequest cfg
  fireActions e _ := .ok ⟨e, [], []⟩
  addressOfLinePendingWB := addressOfLinePendingWB
  updateCycle e := e
  ready_or_nonReady _ _ := ready_or_nonReady
  edit _ _ := .inl getRequestState_snd
  edit_addr _ _ := congrArg Message.addr getRequestState_snd
  stalled_demand h _ hx _ := processRequest_stalled h hx
  fired_stalled h := by
    obtain rfl := Except.ok.inj h
    rfl
  parked_key := by
    rintro e m r (h | h) x hx
    · rw [processRequest] at h
      split at h
      · simp at h
      · obtain rfl := Except.ok.inj h
        simp at hx
    · obtain rfl := Except.ok.inj h
      simp at hx
  frame := by
    rintro e m r (h | h) x hx
    · rw [processRequest] at h
      split at h
      · simp at h
      · obtain rfl := Except.ok.inj h
        rw [getRequestState_congr (bits_setLine hx)]
    · obtain rfl := Except.ok.inj h
      rfl
  frame_pendingWB := by
    intro e w e' h x
    rw [addressOfLinePendingWB] at h
    split at h
    · simp at h
    · obtain ⟨-, rfl⟩ := Prod.mk.inj (Option.some.inj h)
      exact congrArg Prod.fst (getRequestState_congr rfl)
  frame_cycle _ _ := rfl

end L1Lines

end Octopus
