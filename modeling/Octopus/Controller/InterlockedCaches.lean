import Octopus.Controller.Interlock
import Octopus.Controller.PrivateCaches
import Octopus.Controller.Service
import Octopus.Protocols.LLCProtocol

/-!
# The line interlock of the MSI caches

The private cache and the last-level cache of snooping MSI, with an array that takes time. Neither
protocol edits a message, and neither makes a message from above wait; so the interlock keeps the
messages of a line in order, and a deferred message is never put back.
-/

namespace Octopus

namespace LLCMSIProtocol

variable {τ : Type} {cfg : ControllerConfig} {msg : Message}

/-- What an action of a cell adds; a Stall cell ends the run. -/
theorem addAction_fromRow {built built' : List (ControllerAction τ) × GenericCacheLine τ} {a : LLCActionId}
    {update : GenericCacheLine τ} (hbuilt : ∀ x ∈ built.1, x.FromRow False msg update)
    (h : addAction cfg msg built a = .ok built') : ∀ x ∈ built'.1, x.FromRow False msg update := by
  have hother : ∀ x : ControllerAction τ, (∀ addr, x.addr? = some addr → addr = msg.addr) → (∀ y, x ≠ .stall y) →
      (∀ y l, x ≠ .updateCacheLine y l) → x.FromRow False msg update := fun x => .other x
  cases a with
  | stall | fault => simp [addAction] at h
  | sendExeclusiveData =>
    obtain rfl := Except.ok.inj h
    exact hbuilt
  | sendData | getData | setOwner | clearOwner | saveData | issueInv =>
    obtain rfl := Except.ok.inj h
    simp only [List.mem_append, List.mem_cons, List.not_mem_nil, or_false]
    intro x hx
    grind [ControllerAction.addr?]
  | writeBack =>
    obtain rfl := Except.ok.inj h
    simp only [List.mem_append, List.mem_cons, List.not_mem_nil, or_false]
    rintro x (hx | rfl)
    · exact hbuilt x hx
    · refine hother _ (fun addr haddr => ?_) (by simp) (by simp)
      cases hdata : msg.data <;> simp [ControllerAction.addr?, hdata, Message.copyData] at haddr <;> exact haddr.symm

/-- The actions of a row of the MSI last-level cache. -/
theorem handleAction_fromRow {fsm : Fsm τ LLCEventId LLCActionId} {actions : List LLCActionId}
    {line : GenericCacheLine τ} {next : τ} {as : List (ControllerAction τ)}
    (h : handleAction cfg fsm actions msg line next = .ok as) :
    ∃ update, ∀ a ∈ as, a.FromRow False msg update := by
  rw [handleAction] at h
  split at h
  · simp at h
  · next built line' hbuilt =>
    obtain rfl := Except.ok.inj h
    refine ⟨fsm.updated line' next, ?_⟩
    rw [List.forall_mem_append, List.forall_mem_singleton]
    refine ⟨?_, .update⟩
    exact foldlM_keeps (I := fun b : List (ControllerAction τ) × GenericCacheLine τ =>
      ∀ a ∈ b.1, a.FromRow False msg (fsm.updated line' next)) (by simp)
      (fun a _ b b' hb => addAction_fromRow hb) hbuilt

end LLCMSIProtocol

namespace LLCProtocol

variable {τ : Type}

/-- What a cache needs of a last-level protocol: a row has the actions of a row. -/
def HasRows (P : LLCProtocol τ) : Prop :=
  ∀ {cfg actions msg line next as}, P.handleAction cfg P.fsm actions msg line next = .ok as →
    ∃ update, ∀ a ∈ as, a.FromRow False msg update

/-- MSI has the rows of a protocol. -/
theorem msi_hasRows : llcMSIProtocol.HasRows := LLCMSIProtocol.handleAction_fromRow

/-- A line is kept as it is. -/
theorem view_start : id ({} : LineController τ) = {} := rfl

/-- Moving a line to the write-back buffer moves the line that is kept. -/
theorem view_moveLine2WB (c : LineController τ) :
    id { c with slot := c.slot.moveLine2WB } = { id c with slot := (id c).slot.moveLine2WB } := rfl

/-- An action touches its line as its kind says. -/
theorem exec_effect {cfg : ControllerConfig} {acfg : ArrayConfig} {firing : Bool} {d : DataArray} {c : LineController τ}
    {a : ControllerAction τ} {o : Outcome (LineController τ) ParkedAction}
    (h : LineController.execTimed cfg acfg firing d c a = .ok o) :
    LineController.Effect cfg (id c) (some a).toList (o.mapLine id) := LineController.execTimed_effect h

/-- A parked action touches its line as its kind says. -/
theorem fire_effect {cfg : ControllerConfig} {acfg : ArrayConfig} {d : DataArray} {c : LineController τ} {p : ParkedAction}
    {o : Outcome (LineController τ) ParkedAction} (h : LineController.fireParked cfg acfg d c p = .ok o) :
    LineController.FireEffect (id c) p (o.mapLine id) := LineController.fireParked_effect h

/-- A last-level cache on a line, under a snooping protocol. -/
def lines (P : LLCProtocol τ) (hP : P.HasRows) (cfg : ControllerConfig) (acfg : ArrayConfig) :
    LineRows τ (LineController τ) (ControllerAction τ) cfg acfg where
  intake := .base
  start := {}
  view := id
  base := some
  exec := LineController.execTimed cfg acfg
  fire := LineController.fireParked cfg acfg
  moveLine2WB c := { c with slot := c.slot.moveLine2WB }
  processRequest c := P.processRequest cfg (c.slot.readLineBits P.initial)
  getRequestState c m := (P.getRequestState cfg.id (c.slot.readLineBits P.initial) m).toOption.getD (.ready, m)
  needsDataArray c m := (P.needsDataArray cfg.id (c.slot.readLineBits P.initial) m).toOption.getD false
  view_start := view_start
  view_moveLine2WB c := view_moveLine2WB c
  state_moveLine2WB c m := by rw [Slot.readLineBits_moveLine2WB]
  row_moveLine2WB c m := by rw [Slot.readLineBits_moveLine2WB]
  exec_effect := @exec_effect τ cfg acfg
  fire_effect := @fire_effect τ cfg acfg
  ready_or_nonReady c m := by
    rw [getRequestState]
    split
    · exact .inl rfl
    · exact .inl rfl
    · dsimp only [Except.toOption, Option.getD_some]
      split_ifs
      · exact .inl rfl
      · exact .inr rfl
      · exact .inl rfl
  edit c m := by
    rw [getRequestState]
    split <;> exact .inl rfl
  edit_addr c m := by
    rw [getRequestState]
    split <;> rfl
  row := by
    intro c m as h
    rw [processRequest] at h
    have hmsg : ((P.getRequestState cfg.id (c.slot.readLineBits P.initial) m).toOption.getD (.ready, m)).2 = m := by
      rw [getRequestState]
      split <;> rfl
    rw [hmsg]
    split at h
    · simp at h
    · simp at h
    · obtain ⟨update, hrow⟩ := hP h
      refine ⟨update, fun a ha => ?_⟩
      rw [List.filterMap_some] at ha
      exact (hrow a ha).mono False.elim

end LLCProtocol

namespace LineRows

variable {σ κ α : Type} {cfg : CacheConfig} (R : LineRows σ κ α cfg.controller cfg.array)

/-- The row of a message in the state of its line. -/
def rowOf (e : CacheLines κ ParkedAction) (m : Message) : Except Exit (List α) :=
  R.processRequest (e.line (CacheLines.getAddressKey cfg m.addr)) m

/-- A line that a message is put back beside keeps its rows. -/
theorem rowOf_setLine {e : CacheLines κ ParkedAction} {key : Nat} {o : Outcome κ ParkedAction} {m : Message}
    (hne : CacheLines.getAddressKey cfg m.addr ≠ key) :
    R.rowOf (e.setLine R.logic cfg key o) m = R.rowOf e m := by
  rw [rowOf, rowOf]
  rcases @CacheLines.line_setLine _ _ R.logic cfg e key o _ hne with h | h
  · rw [h]
  · rw [h]
    exact R.row_moveLine2WB _ m

/-- A protocol that edits no message and makes none from above wait obeys the interlock. -/
theorem interlocks (hlock : cfg.array.m_line_interlock = true) (hedit : ∀ c m, (R.getRequestState c m).2 = m)
    (hupper : ∀ c m, m.source = .upperInterconnect → (R.getRequestState c m).1 = .ready) :
    (CacheLines.core R.logic cfg).Interlocks R.rowOf where
  lock := hlock
  unedited _ _ := hedit _ _
  upper_ready _ _ := hupper _ _
  frame := by
    rintro e m r (h | h) x hx
    · obtain ⟨o, -, rfl⟩ := CacheLines.processRequest_eq_ok h
      exact R.rowOf_setLine hx
    · obtain rfl | ⟨p, parked, o, -, -, -, rfl⟩ := CacheLines.fireActions_eq_ok h
      · rfl
      · exact R.rowOf_setLine hx
  frame_pendingWB := by
    intro e w e' h x
    obtain ⟨rest, rfl⟩ := CacheLines.addressOfLinePendingWB_eq_some h
    rfl
  frame_cycle _ _ := rfl

end LineRows

/-- The private cache of MSI on a line. -/
abbrev msiPrivate (cfg : CacheConfig) : LineRows MSIState (LineController MSIState) (ControllerAction MSIState)
    cfg.controller cfg.array :=
  msiProtocol.lines L1Protocol.msi_hasRows cfg.controller cfg.array

/-- The last-level cache of MSI on a line. -/
abbrev msiShared (cfg : CacheConfig) : LineRows LLCMSIState (LineController LLCMSIState) (ControllerAction LLCMSIState)
    cfg.controller cfg.array :=
  llcMSIProtocol.lines LLCProtocol.msi_hasRows cfg.controller cfg.array

/-- The private cache obeys the interlock: a message from the bus stalls in no state. -/
theorem msiPrivate_interlocks {cfg : CacheConfig} (hlock : cfg.array.m_line_interlock = true) :
    (CacheLines.core (msiPrivate cfg).logic cfg).Interlocks (msiPrivate cfg).rowOf := by
  have hstall : ∀ s : MSIState, ∀ e, e ∉ [EventId.load, .store, .replacement] →
      msiSplitBusSnooping.hasAction s e .stall = false := by decide
  refine LineRows.interlocks _ hlock (fun c m => ?_) fun c m hsource => ?_
  · change ((msiProtocol.getRequestState cfg.controller.id _ m).toOption.getD (.ready, m)).2 = m
    rw [L1Protocol.getRequestState]
    cases hread : MSIProtocol.readEvent cfg.controller.id m <;> simp [msiProtocol, hread, Except.map, Except.toOption]
  · change ((msiProtocol.getRequestState cfg.controller.id _ m).toOption.getD (.ready, m)).1 = .ready
    rw [L1Protocol.getRequestState]
    cases hread : MSIProtocol.readEvent cfg.controller.id m with
    | error x => simp [msiProtocol, hread, Except.map, Except.toOption]
    | ok e =>
      have he : e ∉ [EventId.load, .store, .replacement] := by
        simp only [MSIProtocol.readEvent, hsource] at hread
        split_ifs at hread <;> obtain rfl := Except.ok.inj hread <;> decide
      simp [msiProtocol, hread, Except.map, Except.toOption, hstall _ e he]

/-- The last-level cache obeys the interlock: data from the memory is always ready. -/
theorem msiShared_interlocks {cfg : CacheConfig} (hlock : cfg.array.m_line_interlock = true) :
    (CacheLines.core (msiShared cfg).logic cfg).Interlocks (msiShared cfg).rowOf := by
  refine LineRows.interlocks _ hlock (fun c m => ?_) fun c m hsource => ?_
  · change ((llcMSIProtocol.getRequestState cfg.controller.id _ m).toOption.getD (.ready, m)).2 = m
    rw [LLCProtocol.getRequestState]
    split <;> rfl
  · change ((llcMSIProtocol.getRequestState cfg.controller.id _ m).toOption.getD (.ready, m)).1 = .ready
    rw [LLCProtocol.getRequestState]
    cases hdata : m.data with
    | none => simp [LLCMSIProtocol.readEvent, hsource, hdata, Except.toOption]
    | some bytes => simp [LLCMSIProtocol.readEvent, hsource, hdata, Except.toOption]

namespace ControllerCore

variable {ε ρ : Type} (C : ControllerCore ε) (row : ε → Message → ρ)

/-- What the interlock is for, in a state of a run with its histories. -/
structure KeepsLines (h : Released ε ρ) : Prop where
  /-- A line has one whole message at most on the list of the data array. -/
  one : ∀ key, (h.state.m_array_ops.filter fun op => op.kind = .message ∧ C.getAddressKey op.msg.addr = key).length ≤ 1
  /-- While it is there, the next message that is carried out on the line is that one. -/
  next : ∀ op ∈ h.state.m_array_ops, op.kind = .message → ∀ l m, C.carriesOut h.state l = some (.message, m) →
    C.getAddressKey m.addr = C.getAddressKey op.msg.addr → m = op.msg
  /-- It finds its row ready, so it is not put back. -/
  ready : ∀ op ∈ h.state.m_array_ops, op.kind = .message → (C.getRequestState h.state.env op.msg).1 = .ready
  /-- The messages of a line run in the order of their release, each the row that it was released with. -/
  order : ∀ key, C.onLine key h.released = C.onLine key (h.carriedOut ++ waiting row h.state.env h.state.m_array_ops)
  /-- What is carried out is what the controller processes. -/
  carried : h.carriedOut.map Prod.fst = h.state.processed

variable {C row}

/-- Two accesses to one line of which one is a whole message are the same. -/
theorem Serial.eq_of_line {h : Released ε ρ} (hs : C.Serial row h) {a b : DataArrayOp} (ha : a ∈ h.state.m_array_ops)
    (hb : b ∈ h.state.m_array_ops) (hkind : a.kind = .message) (hkey : C.getAddressKey a.msg.addr = C.getAddressKey b.msg.addr) :
    a = b := by
  obtain ⟨pre, post, hops⟩ := List.append_of_mem ha
  have halone := hs.alone
  simp only [hops, List.pairwise_append, List.pairwise_cons] at halone
  obtain ⟨-, ⟨hpost, -⟩, hpre⟩ := halone
  rw [hops, List.mem_append, List.mem_cons] at hb
  rcases hb with hb | hb | hb
  · exact absurd hkey.symm (hpre b hb a List.mem_cons_self (.inr hkind))
  · exact hb.symm
  · exact absurd hkey (hpost b hb (.inl hkind))

/-- A run that keeps the messages of a line apart keeps its lines. -/
theorem Serial.keepsLines (hC : C.Interlocks row) {h : Released ε ρ} (hs : C.Serial row h)
    (hr : (C.history row).Reachable h) : C.KeepsLines row h where
  one key := by
    have hpair := (hs.alone.filter fun op => op.kind = .message ∧ C.getAddressKey op.msg.addr = key)
    generalize hops : (h.state.m_array_ops.filter fun op => op.kind = .message ∧ C.getAddressKey op.msg.addr = key) = ops
      at hpair
    rcases ops with _ | ⟨a, _ | ⟨b, rest⟩⟩
    · exact Nat.zero_le 1
    · exact le_rfl
    · have hmem : ∀ x ∈ a :: b :: rest, x.kind = .message ∧ C.getAddressKey x.msg.addr = key := by
        intro x hx
        rw [← hops] at hx
        simpa using (List.mem_filter.1 hx).2
      obtain ⟨ha, hakey⟩ := hmem a (by simp)
      obtain ⟨-, hbkey⟩ := hmem b (by simp)
      exact absurd (hakey.trans hbkey.symm) ((List.pairwise_cons.1 hpair).1 b (by simp) (.inl ha))
  next op hop hkind l m hcarries hkey := by
    have hfired : ∀ op', op' ∈ h.state.m_array_ops → C.completes h.state.env op' = some (.message, m) → m = op.msg := by
      intro op' hop' hcompletes
      rw [completes] at hcompletes
      split at hcompletes
      · split at hcompletes
        · next msg hstate =>
          have hmsg : msg = op'.msg := by rw [← hC.unedited h.state.env op'.msg, hstate]
          obtain rfl : msg = m := by simpa using hcompletes
          rw [hmsg] at hkey ⊢
          rw [hs.eq_of_line hop hop' hkind hkey.symm]
        · simp at hcompletes
      · simp at hcompletes
    cases l with
    | cycle => simp [carriesOut] at hcarries
    | intake upper lower => simp [carriesOut] at hcarries
    | fire k =>
      obtain ⟨op', hop', hcompletes⟩ := Option.bind_eq_some_iff.1 hcarries
      exact hfired op' (List.mem_of_getElem? hop') hcompletes
    | flush =>
      rw [carriesOut] at hcarries
      split at hcarries
      · obtain ⟨k, -, hk⟩ := Option.bind_eq_some_iff.1 hcarries
        obtain ⟨op', hop', hcompletes⟩ := Option.bind_eq_some_iff.1 hk
        exact hfired op' (List.mem_of_getElem? hop') hcompletes
      · simp at hcarries
    | iterate =>
      -- a message that the loop takes finds no access to its line
      rw [carriesOut] at hcarries
      split at hcarries
      · next msg q hpop =>
        split_ifs at hcarries
        obtain rfl : msg = m := by simpa using hcarries
        exact absurd hkey.symm ((hs.popped hC hpop).2.1 op hop)
      · simp at hcarries
  ready := hs.ready
  order := hs.order
  carried := carriedOut_processed hr

/-- An interlocked controller keeps its lines in every run. -/
theorem Interlocks.keepsLines (hC : C.Interlocks row) {h : Released ε ρ} (hr : (C.history row).Reachable h) :
    C.KeepsLines row h :=
  ((Serial.serial_inductive hC).reachable hr).keepsLines hC hr

end ControllerCore

/--
With the interlock on, the private cache and the last-level cache of MSI keep their lines in every
run, whatever the latency of the array, its ports, its arbiter and the arrivals.
-/
theorem line_interlock (cfg : CacheConfig) (hlock : cfg.array.m_line_interlock = true) :
    (∀ h, ((CacheLines.core (msiPrivate cfg).logic cfg).history (msiPrivate cfg).rowOf).Reachable h →
      (CacheLines.core (msiPrivate cfg).logic cfg).KeepsLines (msiPrivate cfg).rowOf h) ∧
    ∀ h, ((CacheLines.core (msiShared cfg).logic cfg).history (msiShared cfg).rowOf).Reachable h →
      (CacheLines.core (msiShared cfg).logic cfg).KeepsLines (msiShared cfg).rowOf h :=
  ⟨fun _ => (msiPrivate_interlocks hlock).keepsLines, fun _ => (msiShared_interlocks hlock).keepsLines⟩

/-- A step of a controller with its histories. -/
def ControllerCore.historyStep {ε ρ : Type} (C : ControllerCore ε) (row : ε → Message → ρ)
    (h : ControllerCore.Released ε ρ) (l : ControllerLabel) : Except Unit (ControllerCore.Released ε ρ) :=
  match C.step h.state l with
  | none => .error ()
  | some s => .ok ⟨s, h.released ++ C.releasedBy row h.state l, h.carriedOut ++ C.carriedOutBy row h.state l⟩

/-- A step of the function is a step of the histories. -/
theorem ControllerCore.historyStep_eq_ok {ε ρ : Type} {C : ControllerCore ε} {row : ε → Message → ρ}
    {h h' : ControllerCore.Released ε ρ} {l : ControllerLabel} (hs : C.historyStep row h l = .ok h') :
    (C.history row).step h l h' := by
  rw [ControllerCore.historyStep] at hs
  split at hs
  · simp at hs
  · next s hstep =>
    obtain rfl := Except.ok.inj hs
    exact ⟨hstep, rfl, rfl⟩

open L1Lines (request granted filled cycleOf) in
/-- A Load hit that finds the array busy with a fill, a second one behind it, and two cycles until the first fires. -/
def deferredRun : List ControllerLabel :=
  cycleOf none (some (request 0 1 0)) 2 ++ cycleOf (some (granted 0 1 0)) none 2 ++ cycleOf (some (filled 1 0)) none 2 ++
    cycleOf none (some (request 0 2 0)) 2 ++ cycleOf none (some (request 0 3 0)) 1 ++
    [.cycle, .cycle, .fire 0] ++ cycleOf none none 2

/-- A cache whose array is busy for two cycles after an access, with the interlock on. -/
def busyArray : CacheConfig where
  controller := ⟨0, 10, 8, true⟩
  array := ⟨2, false, true⟩
  processing_queue_size := none
  m_num_mshr := none
  m_pwb_size := none
  victim _ _ _ := none

/-- The Load hit has fired, and the one that waited for the line behind it is deferred in its turn. -/
theorem line_interlock_deferred : ∃ h : ControllerCore.Released (CacheLines (LineController MSIState) ParkedAction)
      (Except Exit (List (ControllerAction MSIState))),
    (h.state.m_array_ops.map (fun op => (op.kind, op.msg.msgId)) = [(.message, 3)] ∧
      h.state.processed.map Message.msgId = [1, 1, 1, 2]) ∧
      (CacheLines.core (msiPrivate busyArray).logic busyArray).KeepsLines (msiPrivate busyArray).rowOf h := by
  have hinit : ((CacheLines.core (msiPrivate busyArray).logic busyArray).history (msiPrivate busyArray).rowOf).Path []
      ⟨(CacheLines.core (msiPrivate busyArray).logic busyArray).start (CacheLines.start (msiPrivate busyArray).logic),
        [], []⟩ := .init ⟨_, rfl⟩
  obtain ⟨_, h, hpath, htest⟩ := Lib.TransitionSystem.exists_path_of_run
    (fun _ _ _ hs => ControllerCore.historyStep_eq_ok hs) hinit deferredRun
    (fun h => h.state.m_array_ops.map (fun op => (op.kind, op.msg.msgId)) == [(.message, 3)] &&
      h.state.processed.map Message.msgId == [1, 1, 1, 2]) (by decide)
  exact ⟨h, by simpa using htest, (line_interlock busyArray rfl).1 h hpath.reachable⟩

end Octopus
