import Octopus.Controller.LineRows
import Octopus.Protocols.MSIDirectory
import Octopus.Protocols.MSIProtocol

/-!
# The private caches under the processing loop

The snooping protocols MSI, MESI and MOESI and those under a directory, each as a protocol on the
lines of a cache. An exit while a message is asked about ends the run like the same exit while it is
processed.
-/

namespace Octopus

/-- The update of a line that a row ends in a state with. -/
def Fsm.updated {σ ε α : Type} (fsm : Fsm σ ε α) (line : GenericCacheLine σ) (next : σ) : GenericCacheLine σ :=
  { line with valid := fsm.isValidState next, state := next }

/-- A line that leaves the array keeps its bits. -/
theorem Slot.readLineBits_moveLine2WB {σ : Type} (slot : Slot σ) (initial : σ) :
    slot.moveLine2WB.readLineBits initial = slot.readLineBits initial := by
  cases slot <;> rfl

namespace MSIProtocol

variable {σ : Type} {cfg : ControllerConfig} {msg : Message}

/-- What an action of a cell adds. -/
theorem addAction_fromRow {built built' : List (ControllerAction σ)} {a : ActionId} {stalls : Prop}
    {update : GenericCacheLine σ} (hstalls : a = .stall → stalls) (hbuilt : ∀ x ∈ built, x.FromRow stalls msg update)
    (h : addAction cfg msg built a = .ok built') : ∀ x ∈ built', x.FromRow stalls msg update := by
  have hother : ∀ x : ControllerAction σ, x.addr? = some msg.addr → (∀ y, x ≠ .stall y) →
      (∀ y l, x ≠ .updateCacheLine y l) → x.FromRow stalls msg update := by
    intro x haddr
    exact .other x fun addr haddr' => (Option.some.inj (haddr.symm.trans haddr')).symm
  cases a with
  | fault => simp [addAction] at h
  | stall =>
    obtain rfl := Except.ok.inj h
    rw [List.forall_mem_append, List.forall_mem_singleton]
    exact ⟨hbuilt, .stall (hstalls rfl)⟩
  | hit =>
    obtain rfl := Except.ok.inj h
    intro x hx
    rcases List.mem_append.1 hx with hx | hx
    · exact hbuilt x hx
    · split_ifs at hx
      all_goals
        rcases List.mem_pair.1 hx with rfl | rfl
        · exact hother _ rfl (by simp) (by simp)
        · exact hother _ rfl (by simp) (by simp)
  | removeSavedReq =>
    obtain rfl := Except.ok.inj h
    exact hbuilt
  | getS | getM | putM | data2Req | data2Both | saveReq =>
    obtain rfl := Except.ok.inj h
    simp only [List.mem_append, List.mem_cons, List.not_mem_nil, or_false]
    rintro x hx
    grind [ControllerAction.addr?, busRequest, supplyMessage]

/-- The actions of a row of MSI. -/
theorem handleAction_fromRow {fsm : Fsm σ EventId ActionId} {actions : List ActionId} {line : GenericCacheLine σ}
    {next : σ} {as : List (ControllerAction σ)} (h : handleAction cfg fsm actions msg line next = .ok as) :
    ∀ a ∈ as, a.FromRow (.stall ∈ actions) msg (fsm.updated line next) := by
  refine foldlM_keeps ?_ (fun a ha b b' hb => addAction_fromRow (fun hstall => hstall ▸ ha) hb) h
  split_ifs
  · simp
  · simpa using .update

end MSIProtocol

namespace MESIProtocol

variable {σ : Type} {cfg : ControllerConfig} {msg : Message}

/-- The actions of a row of MESI. -/
theorem handleAction_fromRow {fsm : Fsm σ EventId ActionId} {actions : List ActionId} {line : GenericCacheLine σ}
    {next : σ} {as : List (ControllerAction σ)} (h : handleAction cfg fsm actions msg line next = .ok as) :
    ∀ a ∈ as, a.FromRow (.stall ∈ actions) msg (fsm.updated line next) := by
  rw [handleAction] at h
  split at h
  · simp at h
  · next built hbuilt =>
    have hrow : ∀ a ∈ built, a.FromRow (.stall ∈ actions) msg (fsm.updated line next) := fun a ha =>
      (MSIProtocol.handleAction_fromRow hbuilt a ha).mono List.mem_of_mem_erase
    obtain rfl := Except.ok.inj h
    split_ifs
    · rw [List.forall_mem_append, List.forall_mem_singleton]
      exact ⟨hrow, .other _ (by simp [ControllerAction.addr?]) (by simp) (by simp)⟩
    · exact hrow

end MESIProtocol

namespace L1Protocol

variable {σ : Type}

/-- What a cache needs of a protocol: reading keeps a demand request, and a row has the actions of a row. -/
structure HasRows (P : L1Protocol σ) : Prop where
  reads : ∀ {id m e m'}, P.readEvent id m = .ok (e, m') → m'.addr = m.addr ∧
    (m' = m ∨ m.isDemandRequest = false ∧ m'.isDemandRequest = false)
  rows : ∀ {cfg actions msg line next as}, P.handleAction cfg P.fsm actions msg line next = .ok as →
    ∀ a ∈ as, a.FromRow (.stall ∈ actions) msg (P.fsm.updated line next)

/-- MSI reads a message as it is. -/
theorem msi_hasRows : msiProtocol.HasRows where
  reads := by
    intro id m e m' h
    cases hread : MSIProtocol.readEvent id m with
    | error x => simp [msiProtocol, hread, Except.map] at h
    | ok event =>
      obtain ⟨-, rfl⟩ : event = e ∧ m = m' := by simpa [msiProtocol, hread, Except.map] using h
      exact ⟨rfl, .inl rfl⟩
  rows := MSIProtocol.handleAction_fromRow

/-- MESI and MOESI edit data only. -/
theorem mesi_reads {id : Nat} {m m' : Message} {e : EventId} (h : MESIProtocol.readEvent id m = .ok (e, m')) :
    m'.addr = m.addr ∧ (m' = m ∨ m.isDemandRequest = false ∧ m'.isDemandRequest = false) := by
  rw [MESIProtocol.readEvent] at h
  split at h
  · simp at h
  · next hread =>
    split_ifs at h
    · obtain ⟨-, rfl⟩ := Prod.mk.inj (Except.ok.inj h)
      have hsource : m.source ≠ .lowerInterconnect := by
        intro hsource
        simp only [MSIProtocol.readEvent, hsource] at hread
        split_ifs at hread <;> simp at hread
      exact ⟨rfl, .inr (by simp [Message.isDemandRequest, hsource])⟩
    · obtain ⟨-, rfl⟩ := Prod.mk.inj (Except.ok.inj h)
      exact ⟨rfl, .inl rfl⟩
  · obtain ⟨-, rfl⟩ := Prod.mk.inj (Except.ok.inj h)
    exact ⟨rfl, .inl rfl⟩

/-- MESI has the rows of a protocol. -/
theorem mesi_hasRows : mesiProtocol.HasRows := ⟨mesi_reads, MESIProtocol.handleAction_fromRow⟩

/-- MOESI has the rows of a protocol. -/
theorem moesi_hasRows : moesiProtocol.HasRows := ⟨mesi_reads, MESIProtocol.handleAction_fromRow⟩

/-- A private cache on a line, under a snooping protocol. -/
def lines (P : L1Protocol σ) (hP : P.HasRows) (cfg : ControllerConfig) (acfg : ArrayConfig) :
    LineRows σ (LineController σ) (ControllerAction σ) cfg acfg where
  intake := .base
  start := {}
  view := id
  base := some
  exec := LineController.execTimed cfg acfg
  fire := LineController.fireParked cfg acfg
  moveLine2WB c := { c with slot := c.slot.moveLine2WB }
  processRequest c := P.processRequest cfg (c.slot.readLineBits P.initial)
  getRequestState c m := (P.getRequestState cfg.id (c.slot.readLineBits P.initial) m).toOption.getD (.ready, m)
  needsDataArray c m := (P.needsDataArray cfg.id (c.slot.readLineBits P.initial) m).toOption.getD false
  view_start := rfl
  view_moveLine2WB _ := rfl
  state_moveLine2WB c m := by rw [Slot.readLineBits_moveLine2WB]
  row_moveLine2WB c m := by rw [Slot.readLineBits_moveLine2WB]
  exec_effect h := LineController.execTimed_effect h
  fire_effect h := LineController.fireParked_effect h
  ready_or_nonReady c m := by
    rw [getRequestState]
    cases hread : P.readEvent cfg.id m with
    | error x => exact .inl rfl
    | ok r =>
      dsimp only [Except.toOption, Option.getD_some]
      split_ifs
      · exact .inr rfl
      · exact .inl rfl
  edit c m := by
    rw [getRequestState]
    cases hread : P.readEvent cfg.id m with
    | error x => exact .inl rfl
    | ok r => exact (hP.reads hread).2
  edit_addr c m := by
    rw [getRequestState]
    cases hread : P.readEvent cfg.id m with
    | error x => rfl
    | ok r => exact (hP.reads hread).1
  row := by
    intro c m as h
    rw [processRequest] at h
    rw [getRequestState]
    cases hread : P.readEvent cfg.id m with
    | error x => simp [hread] at h
    | ok r =>
      rw [hread] at h
      refine ⟨P.fsm.updated (c.slot.readLineBits P.initial)
        (P.fsm.getNextState (c.slot.readLineBits P.initial).state r.1), fun a ha => ?_⟩
      rw [List.filterMap_some] at ha
      refine (hP.rows h a ha).mono fun hstall => ?_
      simp [Except.toOption, Fsm.hasAction, hstall]

end L1Protocol

namespace DirectoryAction

variable {σ : Type}

/-- The controller action that every controller has. -/
def base? : DirectoryAction σ → Option (ControllerAction σ)
  | .base a => some a
  | _ => none

end DirectoryAction

namespace DirectoryController

variable {σ : Type} {cfg : ControllerConfig} {acfg : ArrayConfig} {firing : Bool} {d : DataArray}
  {c : DirectoryController σ} {o : Outcome (DirectoryController σ) ParkedAction}

/-- A directory controller with another line. -/
def withLine (c : DirectoryController σ) (l : LineController σ) : DirectoryController σ := { c with line := l }

/-- Carry out one controller action on a line of an array. -/
def execTimed (cfg : ControllerConfig) (acfg : ArrayConfig) (firing : Bool) (d : DataArray)
    (c : DirectoryController σ) : DirectoryAction σ → Except Exit (Outcome (DirectoryController σ) ParkedAction)
  | .base a => (LineController.execTimed cfg acfg firing d c.line a).map (·.mapLine c.withLine)
  | a => (c.execAction cfg a).map fun r => { line := r.1, array := d, emitted := r.2 }

/-- What was parked runs when its access completes. -/
def fireParked (cfg : ControllerConfig) (acfg : ArrayConfig) (d : DataArray) (c : DirectoryController σ)
    (p : ParkedAction) : Except Exit (Outcome (DirectoryController σ) ParkedAction) :=
  (LineController.fireParked cfg acfg d c.line p).map (·.mapLine c.withLine)

/-- An action of a directory keeps the line, or drops its pending requests. -/
theorem execAction_other {a : DirectoryAction σ} (ha : a.base? = none) {r : DirectoryController σ × List Emission}
    (h : c.execAction cfg a = .ok r) : (∀ x ∈ r.2, x.port ≠ .processingQueue) ∧
      (r.1.line.pending ≠ [] → c.line.pending ≠ []) ∧ r.1.line.slot = c.line.slot := by
  rw [execAction.eq_def] at h
  cases a with
  | base a => simp [DirectoryAction.base?] at ha
  | sendForwardMessage msg =>
    obtain rfl := Except.ok.inj h
    refine ⟨?_, id, rfl⟩
    split_ifs <;> simp
  | removePendingNoResponse msg =>
    simp only [removePendingNoResponse] at h
    split_ifs at h
    obtain rfl := Except.ok.inj h
    exact ⟨by simp, by simp, rfl⟩
  | setACKNumber msg | decrementACK msg | incrementSharers msg | decrementSharers msg | setSharers msg =>
    obtain rfl := Except.ok.inj h
    simp

/-- One action. -/
theorem execTimed_effect {a : DirectoryAction σ} (h : execTimed cfg acfg firing d c a = .ok o) :
    LineController.Effect cfg c.line a.base?.toList (o.mapLine line) := by
  cases hbase : a.base? with
  | some b =>
    obtain rfl : a = .base b := by
      cases a <;> simp [DirectoryAction.base?] at hbase
      rw [hbase]
    rw [execTimed] at h
    cases hrun : LineController.execTimed cfg acfg firing d c.line b with
    | error e => simp [hrun, Except.map] at h
    | ok o' =>
      rw [hrun] at h
      obtain rfl := Except.ok.inj h
      exact LineController.execTimed_effect hrun
  | none =>
    have hrun : (c.execAction cfg a).map (fun r => ({ line := r.1, array := d, emitted := r.2 } :
        Outcome (DirectoryController σ) ParkedAction)) = .ok o := by
      cases a <;> first | exact h | simp [DirectoryAction.base?] at hbase
    cases hexec : c.execAction cfg a with
    | error e => simp [hexec, Except.map] at hrun
    | ok r =>
      rw [hexec] at hrun
      obtain rfl := Except.ok.inj hrun
      obtain ⟨hqueued, hpending, hslot⟩ := execAction_other hbase hexec
      have hloc : r.1.line.slot.lineLocation = c.line.slot.lineLocation := congrArg Slot.lineLocation hslot
      exact ⟨fun x hx hport => absurd hport (hqueued x hx), by simp [Outcome.mapLine], fun hne => .inl (hpending hne),
        fun harray => .inl (hloc ▸ harray), fun hmshr => .inl (hloc ▸ hmshr), fun hpwb => hloc ▸ hpwb⟩

/-- What was parked, when its access completes. -/
theorem fireParked_effect {p : ParkedAction} (h : fireParked cfg acfg d c p = .ok o) :
    LineController.FireEffect c.line p (o.mapLine line) := by
  rw [fireParked] at h
  cases hrun : LineController.fireParked cfg acfg d c.line p with
  | error e => simp [hrun, Except.map] at h
  | ok o' =>
    rw [hrun] at h
    obtain rfl := Except.ok.inj h
    exact LineController.fireParked_effect hrun

end DirectoryController

namespace MSIDirectory

variable {σ : Type} {cfg : ControllerConfig} {ackCounter : Option Int} {msg : Message}

/-- What an action of a cell adds. -/
theorem addAction_fromRow {built built' : List (DirectoryAction σ)} {a : DirectoryActionId} {stalls : Prop}
    {update : GenericCacheLine σ} (hstalls : a = .stall → stalls)
    (hbuilt : ∀ x ∈ built.filterMap DirectoryAction.base?, x.FromRow stalls msg update)
    (h : addAction cfg ackCounter msg built a = .ok built') :
    ∀ x ∈ built'.filterMap DirectoryAction.base?, x.FromRow stalls msg update := by
  have hother : ∀ x : ControllerAction σ, x.addr? = some msg.addr → (∀ y, x ≠ .stall y) →
      (∀ y l, x ≠ .updateCacheLine y l) → x.FromRow stalls msg update := by
    intro x haddr
    exact .other x fun addr haddr' => (Option.some.inj (haddr.symm.trans haddr')).symm
  cases a with
  | fault => simp [addAction] at h
  | stall =>
    obtain rfl := Except.ok.inj h
    simp only [List.filterMap_append, List.forall_mem_append]
    exact ⟨hbuilt, by simpa [DirectoryAction.base?] using .stall (hstalls rfl)⟩
  | hit =>
    obtain rfl := Except.ok.inj h
    simp only [List.filterMap_append, List.forall_mem_append]
    refine ⟨hbuilt, fun x hx => ?_⟩
    rw [hitActions] at hx
    split_ifs at hx <;> simp [DirectoryAction.base?] at hx <;> grind [ControllerAction.addr?]
  | putE | putOData | setAck =>
    obtain rfl := Except.ok.inj h
    exact hbuilt
  | getS | getM | putS | putMData | data2Both | data2Req | invAck2Req | invAckData | ackDec | ackNumSet | saveReq =>
    obtain rfl := Except.ok.inj h
    simp only [List.filterMap_append, List.filterMap_cons, List.filterMap_nil, DirectoryAction.base?, List.mem_append,
      List.mem_cons, List.not_mem_nil, or_false]
    intro x hx
    grind [ControllerAction.addr?, busMessage, writeBackMessage, supplyMessage]

/-- The actions of a row of MSI under a directory. -/
theorem handleAction_fromRow {fsm : Fsm σ DirectoryEventId DirectoryActionId} {actions : List DirectoryActionId}
    {line : GenericCacheLine σ} {next : σ} {as : List (DirectoryAction σ)}
    (h : handleAction cfg fsm ackCounter actions msg line next = .ok as) :
    ∀ a ∈ as.filterMap DirectoryAction.base?, a.FromRow (.stall ∈ actions) msg (fsm.updated line next) := by
  refine foldlM_keeps ?_ (fun a ha b b' hb => addAction_fromRow (fun hstall => hstall ▸ ha) hb) h
  split_ifs
  · simp
  · simpa [DirectoryAction.base?] using .update

/-- An action about the block of a message, added before or after the others. -/
theorem fromRow_bus {stalls : Prop} {update : GenericCacheLine σ} {x : Message} (hx : x.addr = msg.addr) :
    (ControllerAction.sendBusMsg x).FromRow stalls msg update ∧
      (ControllerAction.writeBack x).FromRow stalls msg update :=
  ⟨.other _ (by simp [ControllerAction.addr?, hx]) (by simp) (by simp),
    .other _ (by simp [ControllerAction.addr?, hx]) (by simp) (by simp)⟩

end MSIDirectory

namespace MESIDirectory

variable {σ : Type} {cfg : ControllerConfig} {ackCounter : Option Int} {msg : Message}

/-- The actions of a row of MESI under a directory. -/
theorem handleAction_fromRow {fsm : Fsm σ DirectoryEventId DirectoryActionId} {actions : List DirectoryActionId}
    {line : GenericCacheLine σ} {next : σ} {as : List (DirectoryAction σ)}
    (h : handleAction cfg fsm ackCounter actions msg line next = .ok as) :
    ∀ a ∈ as.filterMap DirectoryAction.base?, a.FromRow (.stall ∈ actions) msg (fsm.updated line next) := by
  rw [handleAction] at h
  cases hbuilt : MSIDirectory.handleAction cfg fsm ackCounter (actions.erase .putE) msg line next with
  | error e => simp [hbuilt, Except.map] at h
  | ok built =>
    rw [hbuilt] at h
    have hrow : ∀ a ∈ built.filterMap DirectoryAction.base?,
        a.FromRow (.stall ∈ actions) msg (fsm.updated line next) := fun a ha =>
      (MSIDirectory.handleAction_fromRow hbuilt a ha).mono List.mem_of_mem_erase
    obtain rfl := Except.ok.inj h
    split_ifs
    · rw [List.filterMap_append, List.forall_mem_append]
      refine ⟨hrow, ?_⟩
      have hputE : (MSIDirectory.busMessage cfg msg requestTypePutE cfg.sharedMemoryId .unknown).addr = msg.addr := rfl
      simpa [DirectoryAction.base?] using (MSIDirectory.fromRow_bus hputE).1
    · exact hrow

end MESIDirectory

namespace MOESIDirectory

variable {σ : Type} {cfg : ControllerConfig} {ackCounter : Option Int} {msg : Message}

/-- The actions of a row of MOESI under a directory. -/
theorem handleAction_fromRow {fsm : Fsm σ DirectoryEventId DirectoryActionId} {actions : List DirectoryActionId}
    {line : GenericCacheLine σ} {next : σ} {as : List (DirectoryAction σ)}
    (h : handleAction cfg fsm ackCounter actions msg line next = .ok as) :
    ∀ a ∈ as.filterMap DirectoryAction.base?, a.FromRow (.stall ∈ actions) msg (fsm.updated line next) := by
  rw [handleAction] at h
  cases hbuilt : MESIDirectory.handleAction cfg fsm ackCounter
      (actions.filter fun a => a != .putOData && a != .setAck && a != .data2Req) msg line next with
  | error e => simp [hbuilt, Except.map] at h
  | ok built =>
    rw [hbuilt] at h
    have hrow : ∀ a ∈ built.filterMap DirectoryAction.base?,
        a.FromRow (.stall ∈ actions) msg (fsm.updated line next) := fun a ha =>
      (MESIDirectory.handleAction_fromRow hbuilt a ha).mono List.mem_of_mem_filter
    have hsupply : ∀ x : Message, x.addr = msg.addr →
        (ControllerAction.writeBack x).FromRow (.stall ∈ actions) msg (fsm.updated line next) :=
      fun x hx => (MSIDirectory.fromRow_bus hx).2
    obtain rfl := Except.ok.inj h
    intro a ha
    split_ifs at ha <;>
      simp only [List.filterMap_append, List.filterMap_cons, List.filterMap_nil, DirectoryAction.base?, List.mem_append,
        List.mem_cons, List.not_mem_nil, or_false] at ha <;>
      grind [supplyMessage, MSIDirectory.writeBackMessage]

end MOESIDirectory

namespace DirectoryProtocol

variable {σ : Type}

/-- What a cache needs of a protocol under a directory: a row has the actions of a row. -/
def HasRows (P : DirectoryProtocol σ) : Prop :=
  ∀ {cfg ackCounter actions msg line next as}, P.handleAction cfg P.fsm ackCounter actions msg line next = .ok as →
    ∀ a ∈ as.filterMap DirectoryAction.base?, a.FromRow (.stall ∈ actions) msg (P.fsm.updated line next)

/-- MSI under a directory has the rows of a protocol. -/
theorem msi_hasRows : msiDirectoryProtocol.HasRows := MSIDirectory.handleAction_fromRow

/-- MESI under a directory has the rows of a protocol. -/
theorem mesi_hasRows : mesiDirectoryProtocol.HasRows := MESIDirectory.handleAction_fromRow

/-- MOESI under a directory has the rows of a protocol. -/
theorem moesi_hasRows : moesiDirectoryProtocol.HasRows := MOESIDirectory.handleAction_fromRow

/-- A private cache on a line, under a directory; its protocols report no row to the data array. -/
def lines (P : DirectoryProtocol σ) (hP : P.HasRows) (cfg : ControllerConfig) (acfg : ArrayConfig) :
    LineRows σ (DirectoryController σ) (DirectoryAction σ) cfg acfg where
  intake := .directory
  start := {}
  view := DirectoryController.line
  base := DirectoryAction.base?
  exec := DirectoryController.execTimed cfg acfg
  fire := DirectoryController.fireParked cfg acfg
  moveLine2WB c := c.withLine { c.line with slot := c.line.slot.moveLine2WB }
  processRequest c := P.processRequest cfg c.ackCounter (c.line.slot.readLineBits P.initial)
  getRequestState c m :=
    ((P.getRequestState cfg c.ackCounter (c.line.slot.readLineBits P.initial) m).toOption.getD .ready, m)
  needsDataArray _ _ := false
  view_start := rfl
  view_moveLine2WB _ := rfl
  state_moveLine2WB c m := by simp [DirectoryController.withLine, Slot.readLineBits_moveLine2WB]
  row_moveLine2WB c m := by simp [DirectoryController.withLine, Slot.readLineBits_moveLine2WB]
  exec_effect h := DirectoryController.execTimed_effect h
  fire_effect h := DirectoryController.fireParked_effect h
  ready_or_nonReady c m := by
    rw [getRequestState]
    cases hread : P.readEvent cfg c.ackCounter m with
    | error x => exact .inl rfl
    | ok e =>
      dsimp only [Except.toOption, Option.getD_some]
      split_ifs
      · exact .inr rfl
      · exact .inl rfl
  edit _ _ := .inl rfl
  edit_addr _ _ := rfl
  row := by
    intro c m as h
    rw [processRequest] at h
    rw [getRequestState]
    cases hread : P.readEvent cfg c.ackCounter m with
    | error x => simp [hread] at h
    | ok e =>
      rw [hread] at h
      refine ⟨P.fsm.updated (c.line.slot.readLineBits P.initial)
        (P.fsm.getNextState (c.line.slot.readLineBits P.initial).state e), fun a ha => ?_⟩
      refine (hP h a ha).mono fun hstall => ?_
      simp [Except.toOption, Fsm.hasAction, hstall]

end DirectoryProtocol

namespace LineController

variable {σ : Type} {cfg : ControllerConfig} {acfg : ArrayConfig} {firing : Bool} {d : DataArray} {m b : Message}

/-- The row of a request for a new line records the request. -/
theorem execAll_request {c : LineController σ} {update : GenericCacheLine σ} (hdata : m.data = none) :
    ∃ o, execAll (execTimed cfg acfg firing) d c [.updateCacheLine m update, .addPending m, .sendBusMsg b] = .ok o ∧
      o.line.pending ≠ [] := by
  simp [execAll, execTimed, writesData, hdata, updateCacheLine, execAction, addToPendingRequests, Except.map]

end LineController

namespace DirectoryController

variable {σ : Type} {cfg : ControllerConfig} {acfg : ArrayConfig} {firing : Bool} {d : DataArray} {m b : Message}

/-- The row of a request for a new line records the request. -/
theorem execAll_request {c : DirectoryController σ} {update : GenericCacheLine σ} (hdata : m.data = none) :
    ∃ o, execAll (execTimed cfg acfg firing) d c
        [.base (.updateCacheLine m update), .base (.addPending m), .base (.sendBusMsg b)] = .ok o ∧
      o.line.line.pending ≠ [] := by
  simp [execAll, execTimed, LineController.execTimed, LineController.writesData, hdata, LineController.updateCacheLine,
    LineController.execAction, LineController.addToPendingRequests, Except.map, Outcome.mapLine, withLine]

end DirectoryController

/-- A demand request is a Load or a Store of the processor without bytes. -/
theorem Message.isDemandRequest_iff {m : Message} : m.isDemandRequest = true ↔
    m.source = .lowerInterconnect ∧ m.data = none ∧ (m.complementaryValue = 0 ∨ m.complementaryValue = 1) := by
  simp [Message.isDemandRequest, and_assoc]

/-- A demand request for a line that the cache does not track is recorded. -/
def LineLogic.RecordsDemands {κ π : Type} (L : LineLogic κ π) : Prop :=
  ∀ d c m, m.isDemandRequest = true → L.location c = none → ∃ o, L.process d c m = .ok o ∧ L.pending o.line ≠ []

/-- A slot without a location is empty. -/
theorem Slot.eq_none_of_lineLocation {σ : Type} {slot : Slot σ} (h : slot.lineLocation = none) : slot = none := by
  simpa [Slot.lineLocation] using h

namespace L1Protocol

variable {σ : Type} {cfg : ControllerConfig} {acfg : ArrayConfig}

/-- The row of a demand request for a line that is not tracked: the line, the request and the bus. -/
def Requests (P : L1Protocol σ) : Prop :=
  ∀ cfg m, m.isDemandRequest = true → ∃ update b, P.processRequest cfg ⟨false, P.initial, none⟩ m =
    .ok [.updateCacheLine m update, .addPending m, .sendBusMsg b]

/-- MSI requests the line. -/
theorem msi_requests : msiProtocol.Requests := by
  intro cfg m h
  obtain ⟨hsource, -, hcv | hcv⟩ := Message.isDemandRequest_iff.1 h
  all_goals
    simp only [processRequest, msiProtocol, MSIProtocol.readEvent, hsource, hcv, Except.map]
    exact ⟨_, _, rfl⟩

/-- MESI requests the line. -/
theorem mesi_requests : mesiProtocol.Requests := by
  intro cfg m h
  obtain ⟨hsource, -, hcv | hcv⟩ := Message.isDemandRequest_iff.1 h
  all_goals
    simp only [processRequest, mesiProtocol, MESIProtocol.readEvent, MSIProtocol.readEvent, hsource, hcv]
    exact ⟨_, _, rfl⟩

/-- MOESI requests the line. -/
theorem moesi_requests : moesiProtocol.Requests := by
  intro cfg m h
  obtain ⟨hsource, -, hcv | hcv⟩ := Message.isDemandRequest_iff.1 h
  all_goals
    simp only [processRequest, moesiProtocol, MESIProtocol.readEvent, MSIProtocol.readEvent, hsource, hcv]
    exact ⟨_, _, rfl⟩

/-- A snooping private cache records a demand request. -/
theorem recordsDemands {P : L1Protocol σ} (hP : P.HasRows) (hrequests : P.Requests) :
    (P.lines hP cfg acfg).logic.RecordsDemands := by
  intro d c m hdemand hloc
  obtain ⟨update, b, hrow⟩ := hrequests cfg m hdemand
  have hslot : c.slot = none := Slot.eq_none_of_lineLocation hloc
  have hrow' : (P.lines hP cfg acfg).processRequest c m =
      .ok [.updateCacheLine m update, .addPending m, .sendBusMsg b] := by
    change P.processRequest cfg (c.slot.readLineBits P.initial) m = _
    rw [hslot]
    exact hrow
  change ∃ o, (P.lines hP cfg acfg).process d c m = .ok o ∧ o.line.pending ≠ []
  rw [LineRows.process, hrow']
  exact LineController.execAll_request (Message.isDemandRequest_iff.1 hdemand).2.1

end L1Protocol

namespace DirectoryProtocol

variable {σ : Type} {cfg : ControllerConfig} {acfg : ArrayConfig}

/-- The row of a demand request for a line that is not tracked: the line, the request and the home. -/
def Requests (P : DirectoryProtocol σ) : Prop :=
  ∀ cfg ackCounter m, m.isDemandRequest = true → ∃ update b,
    P.processRequest cfg ackCounter ⟨false, P.initial, none⟩ m =
      .ok [.base (.updateCacheLine m update), .base (.addPending m), .base (.sendBusMsg b)]

/-- MSI requests the line. -/
theorem msi_requests : msiDirectoryProtocol.Requests := by
  intro cfg ackCounter m h
  obtain ⟨hsource, -, hcv | hcv⟩ := Message.isDemandRequest_iff.1 h
  all_goals
    simp only [processRequest, msiDirectoryProtocol, MSIDirectory.readEvent, hsource, hcv]
    exact ⟨_, _, rfl⟩

/-- MESI requests the line. -/
theorem mesi_requests : mesiDirectoryProtocol.Requests := by
  intro cfg ackCounter m h
  obtain ⟨hsource, -, hcv | hcv⟩ := Message.isDemandRequest_iff.1 h
  all_goals
    simp only [processRequest, mesiDirectoryProtocol, MESIDirectory.readEvent, MSIDirectory.readEvent, hsource, hcv,
      reduceCtorEq, false_and, if_false]
    exact ⟨_, _, rfl⟩

/-- MOESI requests the line. -/
theorem moesi_requests : moesiDirectoryProtocol.Requests := by
  intro cfg ackCounter m h
  obtain ⟨hsource, -, hcv | hcv⟩ := Message.isDemandRequest_iff.1 h
  all_goals
    simp only [processRequest, moesiDirectoryProtocol, MOESIDirectory.readEvent, MESIDirectory.readEvent,
      MSIDirectory.readEvent, hsource, hcv, reduceCtorEq, false_and, if_false]
    exact ⟨_, _, rfl⟩

/-- A private cache under a directory records a demand request. -/
theorem recordsDemands {P : DirectoryProtocol σ} (hP : P.HasRows) (hrequests : P.Requests) :
    (P.lines hP cfg acfg).logic.RecordsDemands := by
  intro d c m hdemand hloc
  obtain ⟨update, b, hrow⟩ := hrequests cfg c.ackCounter m hdemand
  have hslot : c.line.slot = none := Slot.eq_none_of_lineLocation hloc
  have hrow' : (P.lines hP cfg acfg).processRequest c m =
      .ok [.base (.updateCacheLine m update), .base (.addPending m), .base (.sendBusMsg b)] := by
    change P.processRequest cfg c.ackCounter (c.line.slot.readLineBits P.initial) m = _
    rw [hslot]
    exact hrow
  change ∃ o, (P.lines hP cfg acfg).process d c m = .ok o ∧ o.line.line.pending ≠ []
  rw [LineRows.process, hrow']
  exact DirectoryController.execAll_request (Message.isDemandRequest_iff.1 hdemand).2.1

end DirectoryProtocol

/-- The protocols of a private cache. -/
inductive PrivateProtocol
  | msi
  | mesi
  | moesi
  | msiDirectory
  | mesiDirectory
  | moesiDirectory
  deriving DecidableEq, Repr

namespace PrivateProtocol

/-- What the controller of a private cache keeps of a line. -/
def Line : PrivateProtocol → Type
  | .msi => LineController MSIState
  | .mesi => LineController MESIState
  | .moesi => LineController MOESIState
  | .msiDirectory => DirectoryController MSIDirectoryState
  | .mesiDirectory => DirectoryController MESIDirectoryState
  | .moesiDirectory => DirectoryController MOESIDirectoryState

/-- What a private cache does with a line. -/
def logic (cfg : CacheConfig) : (p : PrivateProtocol) → LineLogic p.Line ParkedAction
  | .msi => (msiProtocol.lines L1Protocol.msi_hasRows cfg.controller cfg.array).logic
  | .mesi => (mesiProtocol.lines L1Protocol.mesi_hasRows cfg.controller cfg.array).logic
  | .moesi => (moesiProtocol.lines L1Protocol.moesi_hasRows cfg.controller cfg.array).logic
  | .msiDirectory => (msiDirectoryProtocol.lines DirectoryProtocol.msi_hasRows cfg.controller cfg.array).logic
  | .mesiDirectory => (mesiDirectoryProtocol.lines DirectoryProtocol.mesi_hasRows cfg.controller cfg.array).logic
  | .moesiDirectory => (moesiDirectoryProtocol.lines DirectoryProtocol.moesi_hasRows cfg.controller cfg.array).logic

/-- Every private cache records a demand request for a line that it does not track. -/
theorem recordsDemands (p : PrivateProtocol) (cfg : CacheConfig) : (p.logic cfg).RecordsDemands := by
  cases p with
  | msi => exact L1Protocol.recordsDemands L1Protocol.msi_hasRows L1Protocol.msi_requests
  | mesi => exact L1Protocol.recordsDemands L1Protocol.mesi_hasRows L1Protocol.mesi_requests
  | moesi => exact L1Protocol.recordsDemands L1Protocol.moesi_hasRows L1Protocol.moesi_requests
  | msiDirectory => exact DirectoryProtocol.recordsDemands DirectoryProtocol.msi_hasRows DirectoryProtocol.msi_requests
  | mesiDirectory =>
    exact DirectoryProtocol.recordsDemands DirectoryProtocol.mesi_hasRows DirectoryProtocol.mesi_requests
  | moesiDirectory =>
    exact DirectoryProtocol.recordsDemands DirectoryProtocol.moesi_hasRows DirectoryProtocol.moesi_requests

end PrivateProtocol

end Octopus
