import Octopus.Controller.ActionEffects

/-!
# The stores of a row

A store that misses is saved with its request, and the row that answers the request writes its bytes
into the line. `modifyData` asks the data array once more at that point: an array that the row itself
has just closed drops the bytes, and the saved store with them.
-/

namespace Octopus

namespace ControllerAction

variable {σ : Type}

/-- Whether an action accesses the data array, apart from `modifyData`: it writes a block, or it reads the line. -/
def accessesArray (cfg : ControllerConfig) : ControllerAction σ → Bool
  | .hitAction msg | .removePending msg | .writeBack msg => msg.data.isNone
  | .updateCacheLine msg line => LineController.writesData cfg msg line
  | _ => false

/-- The block that an action writes. -/
def block? (cfg : ControllerConfig) : ControllerAction σ → Option (List UInt8)
  | .updateCacheLine msg line =>
    if LineController.writesData cfg msg line then msg.data.map (·.take cfg.blockSize) else none
  | _ => none

/-- An action that answers no request and writes no store. -/
inductive Quiet : ControllerAction σ → Prop
  | addPending (msg : Message) : Quiet (.addPending msg)
  | sendBusMsg (msg : Message) : Quiet (.sendBusMsg msg)
  | writeBack (msg : Message) : Quiet (.writeBack msg)
  | updateCacheLine (msg : Message) (line : GenericCacheLine σ) : Quiet (.updateCacheLine msg line)
  | saveReqForWriteBack (msg : Message) : Quiet (.saveReqForWriteBack msg)
  | noAction : Quiet .noAction
  | stall (msg : Message) : Quiet (.stall msg)
  | removeSavedReq : Quiet .removeSavedReq

/-- The action that answers a message: the message itself, or the pending requests of its line. -/
def answer (msg : Message) : ControllerAction σ :=
  if msg.source = .lowerInterconnect then .hitAction msg else .removePending msg

/--
The row of a Hit cell: the update of the line, the answer and the store. A supply before them and the
drop of the parked requests behind them stand only in rows that bring the bytes of the line.
-/
structure HitRow (msg : Message) (as : List (ControllerAction σ)) : Prop where
  shape : ∃ front update back, as = front ++ .updateCacheLine msg update :: answer msg :: .modifyData msg :: back ∧
    (front = [] ∨ ∃ w, front = [.writeBack w] ∧ w.data.isSome) ∧ (back = [] ∨ back = [.removeSavedReq]) ∧
    (msg.data = none → update.valid = true)

end ControllerAction

namespace LineController

variable {σ : Type} (cfg : ControllerConfig) (acfg : ArrayConfig)

/-- A response answers a store: one that its request has saved, or the message itself, which hits. -/
inductive Answers (c : LineController σ) (msg : Message) (x : Emission) : Message → Prop
  | saved {q : Message} : c.modifying.lookup x.msg.msgId = some q → Answers c msg x q
  | hit : msg.source = .lowerInterconnect → msg.data.isSome → Answers c msg x msg

/-- A store has its bytes in the line, over the block that its row has brought or over the bytes of the line. -/
def Written (c : LineController σ) (as : List (ControllerAction σ)) (q : Message) (c' : LineController σ) : Prop :=
  ∃ block, (as.findSome? (·.block? cfg)).or c.slot.readCacheLine = some block ∧
    c'.slot.readCacheLine = some (overwrite block (q.addr % cfg.blockSize) ((q.data.getD []).take q.dataSize))

/-- A list of actions writes every store that it answers, and it drops no saved store that it does not write. -/
structure KeepsStores (c : LineController σ) (msg : Message) (as : List (ControllerAction σ))
    (o : Outcome (LineController σ) ParkedAction) : Prop where
  answered : ∀ x ∈ o.emitted, x.port = .lower → x.type = .dataResponse → ∀ q, c.Answers msg x q → c.Written cfg as q o.line
  dropped : ∀ id q, c.modifying.lookup id = some q → o.line.modifying.lookup id = none → c.Written cfg as q o.line

/--
A row closes the data array before it writes its store: the array takes time, the line is not in the
write-back buffer, and another action of the row accesses the array.
-/
def closesArrayOnStore (c : LineController σ) (as : List (ControllerAction σ)) : Bool :=
  (acfg.m_data_access_latency != 0) && (c.slot.lineLocation != some .pwb) && as.any (·.accessesArray cfg) &&
    as.any fun
      | .modifyData msg => (c.storeOf msg).isSome
      | _ => false

/-- A row answers a store under another identifier than its own, or a store under the identifier of another. -/
def misnamesStore (c : LineController σ) (as : List (ControllerAction σ)) : Bool :=
  as.any fun
    | .removePending msg => c.pending.any fun q => (c.modifying.lookup q.msgId).isSome && q.msgId != msg.msgId
    | .hitAction msg => msg.data.isSome && (c.modifying.lookup msg.msgId).any (· != msg)
    | _ => false

section Quiet

variable {cfg acfg} {firing : Bool} {d : DataArray} {c c' : LineController σ} {msg : Message} {kind : ParkedKind}
  {as bs : List (ControllerAction σ)} {a : ControllerAction σ} {o o' : Outcome (LineController σ) ParkedAction}

/-- A list of actions, taken apart behind its first action. -/
theorem execAll_cons_eq_ok {κ π α : Type} {exec : DataArray → κ → α → Except Exit (Outcome κ π)} {d : DataArray} {c : κ}
    {a : α} {as : List α} {o : Outcome κ π} (h : execAll exec d c (a :: as) = .ok o) :
    ∃ o₁ o₂, exec d c a = .ok o₁ ∧ execAll exec o₁.array o₁.line as = .ok o₂ ∧
      o = { o₂ with emitted := o₁.emitted ++ o₂.emitted, parked := o₁.parked ++ o₂.parked } := by
  rw [execAll] at h
  split at h
  · simp at h
  · next o₁ ho₁ =>
    split at h
    · simp at h
    · next o₂ ho₂ => exact ⟨o₁, o₂, ho₁, ho₂, (Except.ok.inj h).symm⟩

/-- A list of actions, taken apart between two of its parts. -/
theorem execAll_append_eq_ok {κ π α : Type} {exec : DataArray → κ → α → Except Exit (Outcome κ π)} {d : DataArray}
    {c : κ} {as bs : List α} {o : Outcome κ π} (h : execAll exec d c (as ++ bs) = .ok o) :
    ∃ o₁ o₂, execAll exec d c as = .ok o₁ ∧ execAll exec o₁.array o₁.line bs = .ok o₂ ∧
      o = { o₂ with emitted := o₁.emitted ++ o₂.emitted, parked := o₁.parked ++ o₂.parked } := by
  induction as generalizing d c o with
  | nil => exact ⟨_, o, rfl, h, by simp⟩
  | cons a rest ih =>
    rw [List.cons_append] at h
    obtain ⟨o₁, o₂, ha, hrest, rfl⟩ := execAll_cons_eq_ok h
    obtain ⟨o₃, o₄, has, hbs, rfl⟩ := ih hrest
    exact ⟨{ o₃ with emitted := o₁.emitted ++ o₃.emitted, parked := o₁.parked ++ o₃.parked }, o₄,
      by simp only [execAll, ha, has], hbs, by simp⟩

/-- What leaves the stores of a line alone: it answers no request, drops no saved store, and parks no answer. -/
structure Spares (c : LineController σ) (o : Outcome (LineController σ) ParkedAction) : Prop where
  silent : ∀ x ∈ o.emitted, x.port = .lower → x.type ≠ .dataResponse
  saved : ∀ id, o.line.modifying.lookup id = none → c.modifying.lookup id = none
  parked : ∀ p ∈ o.parked, p.kind = .writeBack ∨ p.kind = .writeCacheLineData

/-- Nothing that is answered or dropped has to be written. -/
theorem Spares.keepsStores (h : Spares c o) : KeepsStores cfg c msg as o where
  answered x hx hport htype := absurd htype (h.silent x hx hport)
  dropped id q hq hnone := by simp [h.saved id hnone] at hq

/-- One after the other. -/
theorem Spares.trans (h : Spares c o) (h' : Spares o.line o') :
    Spares c { o' with emitted := o.emitted ++ o'.emitted, parked := o.parked ++ o'.parked } where
  silent x hx := (List.mem_append.1 hx).elim (h.silent x) (h'.silent x)
  saved id hnone := h.saved id (h'.saved id hnone)
  parked p hp := (List.mem_append.1 hp).elim (h.parked p) (h'.parked p)

/-- A saved request saves its store too, and keeps those of the others. -/
theorem lookup_addToPendingRequests {r : LineController σ × List Emission} (h : c.addToPendingRequests msg = .ok r)
    {id : Nat} (hnone : r.1.modifying.lookup id = none) : c.modifying.lookup id = none := by
  obtain rfl := Except.ok.inj h
  simp only [List.lookup_eq_none_iff] at hnone ⊢
  intro e he
  split_ifs at hnone
  · by_cases hid : e.1 = msg.msgId
    · rw [hid]
      exact hnone (msg.msgId, msg) List.mem_cons_self
    · exact hnone e (List.mem_cons_of_mem _ (List.mem_filter.2 ⟨he, by simpa using hid⟩))
  · exact hnone e he

/-- A write of bytes, waiting or not. -/
theorem writeCacheLineData_spares (h : writeCacheLineData cfg acfg firing d c' msg = .ok o)
    (hsaved : c'.modifying = c.modifying) : Spares c o := by
  rw [writeCacheLineData] at h
  by_cases hready : checkReadinessOfCache acfg firing d c'.slot = true
  · rw [if_pos hready] at h
    split at h
    · simp at h
    · rw [← Except.ok.inj h]
      exact ⟨by simp, by simp [hsaved], by simp⟩
  · rw [if_neg hready] at h
    rw [← Except.ok.inj h]
    exact ⟨by simp, by simp [hsaved], by simp⟩

/-- A write-back, waiting or not. -/
theorem writeBackTimed_spares (h : writeBackTimed cfg acfg firing d c msg = .ok o) : Spares c o := by
  obtain rfl | ⟨r, array, hrun, rfl⟩ := reading_eq_ok h
  · exact ⟨by simp, fun _ => id, by simp⟩
  · obtain rfl := Except.ok.inj hrun
    exact ⟨by simp, fun _ => id, by simp⟩

/-- A quiet action. -/
theorem execTimed_spares (ha : a.Quiet) (h : execTimed cfg acfg firing d c a = .ok o) : Spares c o := by
  cases ha with
  | addPending msg =>
    obtain ⟨r, hrun⟩ : ∃ r, c.addToPendingRequests msg = .ok r := ⟨_, rfl⟩
    have hout : r.2 = [] := by rw [← Except.ok.inj hrun]
    have ho : o = { line := r.1, array := d, emitted := r.2 } := by
      simp only [execTimed, execAction, hrun, Except.map] at h
      exact (Except.ok.inj h).symm
    rw [ho]
    exact ⟨by simp [hout], fun id => lookup_addToPendingRequests hrun, by simp⟩
  | writeBack msg => exact writeBackTimed_spares h
  | updateCacheLine msg line =>
    simp only [execTimed] at h
    split_ifs at h with hwrites
    · exact writeCacheLineData_spares h rfl
    · rw [updateCacheLine] at h
      split at h
      · obtain rfl := Except.ok.inj h
        exact ⟨by simp, fun _ => id, by simp⟩
      · split_ifs at h
        · obtain rfl := Except.ok.inj h
          exact ⟨by simp, fun _ => id, by simp⟩
        · split at h
          · obtain rfl := Except.ok.inj h
            exact ⟨by simp, fun _ => id, by simp⟩
          · simp [Except.map] at h
  | sendBusMsg msg | saveReqForWriteBack msg | noAction | stall msg | removeSavedReq =>
    obtain rfl := Except.ok.inj h
    exact ⟨by simp, fun _ => id, by simp⟩

/-- A row without an answer. -/
theorem execAll_spares (has : ∀ a ∈ as, a.Quiet) (h : execAll (execTimed cfg acfg firing) d c as = .ok o) :
    Spares c o := by
  induction as generalizing d c o with
  | nil =>
    obtain rfl := Except.ok.inj h
    exact ⟨by simp, fun _ => id, by simp⟩
  | cons a rest ih =>
    obtain ⟨o₁, o₂, ha, hrest, rfl⟩ := execAll_cons_eq_ok h
    rw [List.forall_mem_cons] at has
    exact (execTimed_spares has.1 ha).trans (ih has.2 hrest)

/-- What was parked, unless it is an answer. -/
theorem fireParked_spares {p : ParkedAction} (hp : p.kind = .writeBack ∨ p.kind = .writeCacheLineData)
    (h : fireParked cfg acfg d c p = .ok o) : Spares c o := by
  rw [fireParked] at h
  rcases hp with hkind | hkind
  · simp only [hkind] at h
    exact writeBackTimed_spares h
  · simp only [hkind] at h
    exact writeCacheLineData_spares h rfl

end Quiet

section Hit

variable {cfg acfg} {firing : Bool} {d : DataArray} {c : LineController σ} {msg : Message} {as : List (ControllerAction σ)}
  {line : GenericCacheLine σ} {o : Outcome (LineController σ) ParkedAction}

/-- In the occupancy model an access may run if its line is ready. -/
theorem checkReadinessOfCache_occupancy (hocc : acfg.m_data_array_pipelined = false) (slot : Slot σ) :
    checkReadinessOfCache acfg firing d slot = slot.isReady acfg d := by
  simp [checkReadinessOfCache, ArrayConfig.pipelinedArray, hocc]

/-- A line is as ready as another one that is kept in the same place. -/
theorem isReady_congr {slot slot' : Slot σ} (h : slot.lineLocation = slot'.lineLocation) :
    slot.isReady acfg d = slot'.isReady acfg d := by
  simp [Slot.isReady, Slot.inRegister, h]

/-- The array is open as long as its accesses take no time. -/
def IsOpen (acfg : ArrayConfig) (d : DataArray) : Prop := acfg.m_data_access_latency = 0 → d.m_ready_cycle ≤ d.m_cycle

/-- An access that takes no time leaves the array open. -/
theorem isOpen_occupy (h : IsOpen acfg d) : IsOpen acfg (d.occupy acfg) := by
  intro hzero
  rw [DataArray.occupy]
  split_ifs
  · exact h hzero
  · simp [hzero]

/-- An open array is ready. -/
theorem IsOpen.isReady (h : IsOpen acfg d) (hzero : acfg.m_data_access_latency = 0) (slot : Slot σ) :
    slot.isReady acfg d = true := by
  simp [Slot.isReady, DataArray.isReady, h hzero]

/-- An action that reads the line leaves an open array open. -/
theorem reading_isOpen {kind : ParkedKind} {run : Result σ} (hopen : IsOpen acfg d)
    (h : reading acfg firing d c msg kind run = .ok o) : IsOpen acfg o.array := by
  rw [reading] at h
  by_cases hwait : (msg.data.isNone && !checkReadinessOfCache acfg firing d c.slot) = true
  · rw [if_pos hwait] at h
    obtain rfl := Except.ok.inj h
    exact hopen
  · rw [if_neg hwait] at h
    obtain ⟨r, -, rfl⟩ := Lib.map_eq_ok.1 h
    dsimp only
    split_ifs
    · exact isOpen_occupy hopen
    · exact hopen

/-- A write of bytes leaves an open array open. -/
theorem writeCacheLineData_isOpen (hopen : IsOpen acfg d) (h : writeCacheLineData cfg acfg firing d c msg = .ok o) :
    IsOpen acfg o.array := by
  rw [writeCacheLineData] at h
  by_cases hready : checkReadinessOfCache acfg firing d c.slot = true
  · rw [if_pos hready] at h
    split at h
    · simp at h
    · rw [← Except.ok.inj h]
      dsimp only
      split_ifs
      · exact hopen
      · exact isOpen_occupy hopen
  · rw [if_neg hready] at h
    rw [← Except.ok.inj h]
    exact hopen

/-- An action leaves an open array open. -/
theorem execTimed_isOpen {a : ControllerAction σ} (hopen : IsOpen acfg d)
    (h : execTimed cfg acfg firing d c a = .ok o) : IsOpen acfg o.array := by
  cases a with
  | hitAction msg | removePending msg | writeBack msg => exact reading_isOpen hopen h
  | updateCacheLine msg line =>
    simp only [execTimed] at h
    by_cases hwrites : writesData cfg msg line = true
    · rw [if_pos hwrites] at h
      exact writeCacheLineData_isOpen hopen h
    · rw [if_neg hwrites] at h
      obtain ⟨r, -, rfl⟩ := Lib.map_eq_ok.1 h
      exact hopen
  | modifyData msg =>
    simp only [execTimed] at h
    by_cases hready : c.slot.isReady acfg d = true
    · rw [if_pos hready] at h
      obtain ⟨r, -, rfl⟩ := Lib.map_eq_ok.1 h
      dsimp only
      split_ifs
      · exact isOpen_occupy hopen
      · exact hopen
    · rw [if_neg hready] at h
      obtain rfl := Except.ok.inj h
      exact hopen
  | addPending msg | sendBusMsg msg | saveReqForWriteBack msg | noAction | stall msg | sendInvMsg msg | removeSavedReq =>
    obtain rfl := Except.ok.inj h
    exact hopen

/-- A list of actions leaves an open array open. -/
theorem execAll_isOpen (hopen : IsOpen acfg d) (h : execAll (execTimed cfg acfg firing) d c as = .ok o) :
    IsOpen acfg o.array := by
  induction as generalizing d c o with
  | nil =>
    obtain rfl := Except.ok.inj h
    exact hopen
  | cons a rest ih =>
    obtain ⟨o₁, o₂, ha, hrest, rfl⟩ := execAll_cons_eq_ok h
    have hopen' := ih (execTimed_isOpen hopen ha) hrest
    exact hopen'

/-- What was parked leaves an open array open. -/
theorem fireParked_isOpen {p : ParkedAction} (hopen : IsOpen acfg d) (h : fireParked cfg acfg d c p = .ok o) :
    IsOpen acfg o.array := by
  rw [fireParked] at h
  split at h
  · exact reading_isOpen hopen h
  · exact reading_isOpen hopen h
  · exact reading_isOpen hopen h
  · exact writeCacheLineData_isOpen hopen h

/-- What an action beside the answer leaves alone: all of the line but the parked requests, and the array. -/
structure Beside (d : DataArray) (c : LineController σ) (o : Outcome (LineController σ) ParkedAction) : Prop where
  slot : o.line.slot = c.slot
  pending : o.line.pending = c.pending
  modifying : o.line.modifying = c.modifying
  array : o.array = d
  parked : o.parked = []
  silent : ∀ x ∈ o.emitted, x.port ≠ .lower

/-- The supply before an answer carries the bytes of its message. -/
theorem beside_front {front : List (ControllerAction σ)}
    (hfront : front = [] ∨ ∃ w : Message, front = [.writeBack w] ∧ w.data.isSome)
    (h : execAll (execTimed cfg acfg firing) d c front = .ok o) : Beside d c o := by
  rcases hfront with rfl | ⟨w, rfl, hdata⟩
  · obtain rfl := Except.ok.inj h
    exact ⟨rfl, rfl, rfl, rfl, rfl, by simp⟩
  · obtain ⟨o₁, o₂, hrun, hnil, rfl⟩ := execAll_cons_eq_ok h
    obtain rfl := Except.ok.inj hnil
    have hbytes : (addressSavedRequests cfg c w).data.isNone = false := by
      rw [addressSavedRequests]
      split <;> simpa using hdata
    simp only [execTimed, writeBackTimed, reading, hbytes, Bool.false_and, Bool.false_eq_true, if_false] at hrun
    obtain rfl := Except.ok.inj hrun
    exact ⟨rfl, rfl, rfl, rfl, rfl, by simp⟩

/-- The parked requests are dropped behind an answer. -/
theorem beside_back {back : List (ControllerAction σ)} (hback : back = [] ∨ back = [.removeSavedReq])
    (h : execAll (execTimed cfg acfg firing) d c back = .ok o) : Beside d c o := by
  rcases hback with rfl | rfl
  · obtain rfl := Except.ok.inj h
    exact ⟨rfl, rfl, rfl, rfl, rfl, by simp⟩
  · obtain ⟨o₁, o₂, hrun, hnil, rfl⟩ := execAll_cons_eq_ok h
    obtain rfl := Except.ok.inj hnil
    obtain rfl := Except.ok.inj hrun
    exact ⟨rfl, rfl, rfl, rfl, rfl, by simp⟩

/-- What the update of a line that is found and ready leaves behind. -/
structure Updated (cfg : ControllerConfig) (acfg : ArrayConfig) (d : DataArray) (c : LineController σ) (msg : Message)
    (line : GenericCacheLine σ) (o : Outcome (LineController σ) ParkedAction) : Prop where
  emitted : o.emitted = []
  parked : o.parked = []
  pending : o.line.pending = c.pending
  modifying : o.line.modifying = c.modifying
  gone : line.valid = false → o.line.slot = none
  found : line.valid = true → o.line.slot.isSome
  bytes : line.valid = true → o.line.slot.readCacheLine =
    ((ControllerAction.updateCacheLine msg line).block? cfg).or c.slot.readCacheLine
  pwb : line.valid = true → c.slot.lineLocation = some .pwb → o.line.slot.lineLocation = some .pwb
  frame : line.valid = true → writesData cfg msg line = false →
    o.array = d ∧ o.line.slot.lineLocation = c.slot.lineLocation
  isOpen : IsOpen acfg d → IsOpen acfg o.array

/-- The update of a line that is found and ready. -/
theorem execTimed_updated (hocc : acfg.m_data_array_pipelined = false) (hslot : c.slot.isSome)
    (hready : c.slot.isReady acfg d = true)
    (h : execTimed cfg acfg firing d c (.updateCacheLine msg line) = .ok o) : Updated cfg acfg d c msg line o := by
  obtain ⟨r, hr⟩ := Option.isSome_iff_exists.1 hslot
  simp only [execTimed] at h
  by_cases hwrites : writesData cfg msg line = true
  · obtain ⟨bytes, hbytes⟩ : ∃ bytes, msg.data = some bytes := by
      simp only [writesData, Bool.and_eq_true] at hwrites
      exact Option.isSome_iff_exists.1 hwrites.1.1
    have hvalid : line.valid = true := by simp_all [writesData]
    have hready' : ((c.slot.updateLineBits line).getD c.slot).isReady acfg d = true := by
      rw [isReady_congr (lineLocation_updateLineBits hvalid), hready]
    rw [if_pos hwrites, writeCacheLineData, checkReadinessOfCache_occupancy hocc, if_pos hready'] at h
    simp only [hr, Slot.updateLineBits, Option.map_some, hvalid, if_true, Option.getD_some, Slot.updateLineData] at h
    obtain rfl := Except.ok.inj h
    refine ⟨rfl, rfl, rfl, rfl, by simp [hvalid], by simp, fun _ => ?_, fun _ hpwb => ?_, by simp [hwrites], fun hopen => ?_⟩
    · simp [ControllerAction.block?, hwrites, hbytes, Slot.readCacheLine]
    · have hpwb' : r.location = .pwb := by simpa [hr, Slot.lineLocation] using hpwb
      simp [Slot.lineLocation, hpwb']
    · dsimp only
      split_ifs
      · exact hopen
      · exact isOpen_occupy hopen
  · rw [if_neg hwrites] at h
    have hbits : c.updateCacheLine cfg msg line =
        .ok ({ c with slot := if line.valid then some { r with state := line.state, ownerId := line.ownerId } else none }, []) := by
      rw [updateCacheLine]
      split
      · simp [hr, Slot.updateLineBits]
      · next bytes hbytes =>
        have hshort : (!line.valid || decide (msg.dataSize < cfg.blockSize)) = true := by
          cases hvalid : line.valid <;> simp_all [writesData]
        rw [if_pos hshort]
        simp [hr, Slot.updateLineBits]
    rw [hbits] at h
    obtain rfl := Except.ok.inj h
    refine ⟨rfl, rfl, rfl, rfl, by simp +contextual, by simp +contextual, ?_, ?_, ?_, id⟩
    · simp +contextual [ControllerAction.block?, hwrites, Slot.readCacheLine, hr]
    · simp +contextual [Slot.lineLocation, hr]
    · simp +contextual [Slot.lineLocation, hr]

/-- What the answer of a row leaves behind. -/
structure Answered (acfg : ArrayConfig) (d : DataArray) (c : LineController σ) (msg : Message)
    (o : Outcome (LineController σ) ParkedAction) : Prop where
  slot : o.line.slot = c.slot
  modifying : o.line.modifying = c.modifying
  ids : ∀ x ∈ o.emitted, (msg.source = .lowerInterconnect ∧ x.msg.msgId = msg.msgId) ∨
    msg.source ≠ .lowerInterconnect ∧ ∃ q ∈ c.pending, x.msg.msgId = q.msgId
  frame : msg.data.isSome → o.array = d
  isOpen : IsOpen acfg d → IsOpen acfg o.array

/-- An answer that runs at once. -/
theorem execTimed_answered (hocc : acfg.m_data_array_pipelined = false)
    (hready : msg.data = none → c.slot.isReady acfg d = true)
    (h : execTimed cfg acfg firing d c (.answer msg) = .ok o) : o.parked = [] ∧ Answered acfg d c msg o := by
  have hnow : (msg.data.isNone && !checkReadinessOfCache acfg firing d c.slot) = false := by
    rw [checkReadinessOfCache_occupancy hocc]
    cases hdata : msg.data with
    | none => simp [hready hdata]
    | some bytes => rfl
  have hframe : msg.data.isSome → (if msg.data.isNone && c.slot.isSome then d.occupy acfg else d) = d := by
    intro hdata
    rw [if_neg]
    simp [Option.isSome_iff_ne_none.1 hdata]
  have hopen : IsOpen acfg d → IsOpen acfg (if msg.data.isNone && c.slot.isSome then d.occupy acfg else d) := by
    intro hopen
    split_ifs
    · exact isOpen_occupy hopen
    · exact hopen
  rw [ControllerAction.answer] at h
  split_ifs at h with hsource
  · simp only [execTimed, hitTimed, reading, hnow, Bool.false_eq_true, if_false] at h
    obtain rfl := Except.ok.inj h
    refine ⟨rfl, rfl, rfl, fun x hx => .inl ⟨hsource, ?_⟩, hframe, hopen⟩
    rw [List.mem_singleton.1 hx]
    dsimp only [withLineData]
    split <;> rfl
  · simp only [execTimed, removePendingTimed, reading, hnow, Bool.false_eq_true, if_false] at h
    obtain ⟨r, hrun, rfl⟩ := Lib.map_eq_ok.1 h
    rw [removePendingAndRespond] at hrun
    split_ifs at hrun
    split at hrun
    · simp at hrun
    · obtain rfl := Except.ok.inj hrun
      refine ⟨rfl, rfl, rfl, fun x hx => .inr ⟨hsource, ?_⟩, hframe, hopen⟩
      obtain ⟨q, hq, rfl⟩ := List.mem_map.1 hx
      exact ⟨q, hq, rfl⟩

/-- A row without a store writes none. -/
theorem modifyData_of_storeOf_eq_none (h : c.storeOf msg = none) : c.modifyData cfg msg = .ok (c, []) := by
  rw [storeOf] at h
  rw [modifyData]
  cases hlookup : c.modifying.lookup msg.msgId with
  | some m => simp [hlookup] at h
  | none =>
    simp only [hlookup] at h ⊢
    by_cases hlower : msg.source = .lowerInterconnect ∧ msg.data.isSome = true
    · simp [hlower] at h
    · rw [if_neg hlower]

/-- The store of a row goes into the block. -/
theorem modifyData_of_storeOf_eq_some {r : Resident σ} {q : Message} (hr : c.slot = some r) (h : c.storeOf msg = some q) :
    c.modifyData cfg msg = (r.data.elim (.error .unallocatedLine) fun block => .ok ({ c with
      slot := some { r with data := some (overwrite block (q.addr % cfg.blockSize) ((q.data.getD []).take q.dataSize)) }
      modifying := c.modifying.filter fun e => e.1 ≠ msg.msgId }, [])) := by
  rw [storeOf] at h
  rw [modifyData]
  cases hlookup : c.modifying.lookup msg.msgId with
  | some m =>
    simp only [hlookup, Option.some.injEq] at h
    subst h
    simp only [hr]
    cases r.data <;> rfl
  | none =>
    simp only [hlookup] at h ⊢
    by_cases hlower : msg.source = .lowerInterconnect ∧ msg.data.isSome = true
    · rw [if_pos hlower, Option.some.injEq] at h
      subst h
      simp only [if_pos hlower, hr]
      cases r.data <;> rfl
    · simp [hlower] at h

/-- The store that a row writes into a line that is found and ready. -/
theorem execTimed_modifyData (hready : c.slot.isReady acfg d = true) (hslot : c.slot.isSome)
    (h : execTimed cfg acfg firing d c (.modifyData msg) = .ok o) :
    (c.storeOf msg = none → o.line = c) ∧ ∀ q, c.storeOf msg = some q → ∃ block, c.slot.readCacheLine = some block ∧
      o.line.slot.readCacheLine = some (overwrite block (q.addr % cfg.blockSize) ((q.data.getD []).take q.dataSize)) ∧
      o.line.modifying = c.modifying.filter fun e => e.1 ≠ msg.msgId := by
  obtain ⟨r, hr⟩ := Option.isSome_iff_exists.1 hslot
  simp only [execTimed] at h
  rw [if_pos hready] at h
  obtain ⟨result, hrun, rfl⟩ := Lib.map_eq_ok.1 h
  cases hstore : c.storeOf msg with
  | none =>
    obtain rfl := Except.ok.inj ((modifyData_of_storeOf_eq_none hstore).symm.trans hrun)
    exact ⟨fun _ => rfl, by simp⟩
  | some q =>
    rw [modifyData_of_storeOf_eq_some hr hstore] at hrun
    cases hdata : r.data with
    | none => simp [hdata] at hrun
    | some block =>
      rw [hdata, Option.elim_some] at hrun
      obtain rfl := Except.ok.inj hrun
      refine ⟨by simp, fun q' hq' => ?_⟩
      obtain rfl := Option.some.inj hq'
      exact ⟨block, by simp [hr, Slot.readCacheLine, hdata], by simp [Slot.readCacheLine], rfl⟩

/-- A store emits nothing and parks nothing. -/
theorem execTimed_modifyData_silent (h : execTimed cfg acfg firing d c (.modifyData msg) = .ok o) :
    o.emitted = [] ∧ o.parked = [] ∧ (c.slot = none → o.line.slot = none) := by
  simp only [execTimed] at h
  by_cases hready : c.slot.isReady acfg d = true
  · rw [if_pos hready] at h
    obtain ⟨r, hrun, rfl⟩ := Lib.map_eq_ok.1 h
    refine ⟨(modifyData_keeps hrun).1, rfl, fun hnone => ?_⟩
    have hloc := (modifyData_keeps hrun).2.2
    simpa [hnone, Slot.lineLocation] using hloc
  · rw [if_neg hready] at h
    obtain rfl := Except.ok.inj h
    exact ⟨rfl, rfl, id⟩

/-- A store drops no other than the one saved under its identifier. -/
theorem execTimed_modifyData_saved (h : execTimed cfg acfg firing d c (.modifyData msg) = .ok o) {id : Nat}
    (hnone : o.line.modifying.lookup id = none) : c.modifying.lookup id = none ∨ id = msg.msgId := by
  have hmodifying : o.line.modifying = c.modifying ∨ o.line.modifying = c.modifying.filter fun e => e.1 ≠ msg.msgId := by
    simp only [execTimed] at h
    by_cases hready : c.slot.isReady acfg d = true
    · rw [if_pos hready] at h
      obtain ⟨r, hrun, rfl⟩ := Lib.map_eq_ok.1 h
      simp only [modifyData] at hrun
      split at hrun
      · obtain rfl := Except.ok.inj hrun
        exact .inl rfl
      · split at hrun
        · obtain rfl := Except.ok.inj hrun
          exact .inr rfl
        · split at hrun
          · simp at hrun
          · obtain rfl := Except.ok.inj hrun
            exact .inr rfl
    · rw [if_neg hready] at h
      obtain rfl := Except.ok.inj h
      exact .inr rfl
  rcases hmodifying with hsame | hfilter
  · rw [← hsame]
    exact .inl hnone
  · rw [hfilter] at hnone
    by_cases hid : id = msg.msgId
    · exact .inr hid
    · refine .inl (List.lookup_eq_none_iff.2 fun e he => ?_)
      by_cases hkey : e.1 = msg.msgId
      · simp [hkey, hid]
      · exact List.lookup_eq_none_iff.1 hnone e (List.mem_filter.2 ⟨he, by simpa using hkey⟩)

/-- The row of a hit, run step by step. -/
theorem hitRow_outcome (hocc : acfg.m_data_array_pipelined = false) (hrow : ControllerAction.HitRow msg as)
    (hslot : c.slot.isSome) (hready : c.slot.isReady acfg d = true) (h : execAll (execTimed cfg acfg firing) d c as = .ok o) :
    ∃ update o₁ o₂ o₃, ((.updateCacheLine msg update) ∈ as ∧ .answer msg ∈ as ∧ .modifyData msg ∈ as) ∧
      as.findSome? (·.block? cfg) = (ControllerAction.updateCacheLine msg update).block? cfg ∧
      (msg.data = none → update.valid = true) ∧ Updated cfg acfg d c msg update o₁ ∧
      execTimed cfg acfg firing o₁.array o₁.line (.answer msg) = .ok o₂ ∧
      execTimed cfg acfg firing o₂.array o₂.line (.modifyData msg) = .ok o₃ ∧
      o.line.slot = o₃.line.slot ∧ o.line.modifying = o₃.line.modifying ∧ o.parked = o₂.parked ∧
      ∀ x ∈ o.emitted, x.port = .lower → x ∈ o₂.emitted := by
  obtain ⟨front, update, back, rfl, hfront, hback, hvalid⟩ := hrow.shape
  obtain ⟨o₀, r₀, h₀, hrest₀, rfl⟩ := execAll_append_eq_ok h
  obtain ⟨o₁, r₁, h₁, hrest₁, rfl⟩ := execAll_cons_eq_ok hrest₀
  obtain ⟨o₂, r₂, h₂, hrest₂, rfl⟩ := execAll_cons_eq_ok hrest₁
  obtain ⟨o₃, o₄, h₃, h₄, rfl⟩ := execAll_cons_eq_ok hrest₂
  have hbefore := beside_front hfront h₀
  have hbehind := beside_back hback h₄
  have hupdated := execTimed_updated hocc (by rw [hbefore.slot]; exact hslot)
    (by rw [hbefore.slot, hbefore.array]; exact hready) h₁
  obtain ⟨hemitted, hparked, -⟩ := execTimed_modifyData_silent h₃
  refine ⟨update, o₁, o₂, o₃, ⟨by simp, by simp, by simp⟩, ?_, hvalid, ?_, h₂, h₃, hbehind.slot, hbehind.modifying, ?_, ?_⟩
  · have hfront' : front.findSome? (·.block? cfg) = none := by
      rcases hfront with rfl | ⟨w, rfl, -⟩ <;> rfl
    have hback' : back.findSome? (·.block? cfg) = none := by
      rcases hback with rfl | rfl <;> rfl
    have hanswer : (ControllerAction.answer msg : ControllerAction σ).block? cfg = none := by
      rw [ControllerAction.answer]
      split_ifs <;> rfl
    have hmodify : (ControllerAction.modifyData msg : ControllerAction σ).block? cfg = none := rfl
    rw [List.findSome?_append, hfront', Option.none_or, List.findSome?_cons]
    cases (ControllerAction.updateCacheLine msg update).block? cfg with
    | some bytes => rfl
    | none => simp [hanswer, hmodify, hback']
  · exact ⟨hupdated.emitted, hupdated.parked, hupdated.pending.trans hbefore.pending,
      hupdated.modifying.trans hbefore.modifying, hupdated.gone, hupdated.found, hbefore.slot ▸ hupdated.bytes,
      hbefore.slot ▸ hupdated.pwb, by rw [← hbefore.slot, ← hbefore.array]; exact hupdated.frame,
      by rw [← hbefore.array]; exact hupdated.isOpen⟩
  · simp [hbefore.parked, hupdated.parked, hparked, hbehind.parked]
  · intro x hx hport
    simp only [List.mem_append, hupdated.emitted, hemitted, List.not_mem_nil, false_or] at hx
    rcases hx with hx | hx | hx
    · exact absurd hport (hbefore.silent x hx)
    · exact hx
    · exact absurd hport (hbehind.silent x hx)

/-- An answer never waits for the array. -/
theorem hitRow_parked (hocc : acfg.m_data_array_pipelined = false) (hrow : ControllerAction.HitRow msg as)
    (hslot : c.slot.isSome) (hready : c.slot.isReady acfg d = true) (h : execAll (execTimed cfg acfg firing) d c as = .ok o) :
    o.parked = [] := by
  obtain ⟨update, o₁, o₂, o₃, -, -, hvalid, hupdated, h₂, -, -, -, hparked, -⟩ := hitRow_outcome hocc hrow hslot hready h
  rw [hparked]
  refine (execTimed_answered hocc (fun hdata => ?_) h₂).1
  obtain ⟨harray, hloc⟩ := hupdated.frame (hvalid hdata) (by simp [writesData, hdata])
  rw [harray, isReady_congr hloc]
  exact hready

/--
The row of a hit writes its store, if the line is found and ready and stays, unless the row closes the
array before.
-/
theorem hitRow_keepsStores (hocc : acfg.m_data_array_pipelined = false) (hrow : ControllerAction.HitRow msg as)
    (hslot : c.slot.isSome) (hready : c.slot.isReady acfg d = true) (hopen : IsOpen acfg d)
    (hcloses : closesArrayOnStore cfg acfg c as = false) (hnames : misnamesStore c as = false)
    (h : execAll (execTimed cfg acfg firing) d c as = .ok o) (hresident : o.line.slot.isSome) :
    KeepsStores cfg c msg as o := by
  obtain ⟨update, o₁, o₂, o₃, ⟨hupdate, hanswer, hmodify⟩, hblock, hvalid, hupdated, h₂, h₃, hslot₃, hmodifying₃, -,
    hemitted⟩ := hitRow_outcome hocc hrow hslot hready h
  have hready₁ : msg.data = none → o₁.line.slot.isReady acfg o₁.array = true := by
    intro hdata
    obtain ⟨harray, hloc⟩ := hupdated.frame (hvalid hdata) (by simp [writesData, hdata])
    rw [harray, isReady_congr hloc]
    exact hready
  have hanswered := (execTimed_answered hocc hready₁ h₂).2
  -- a line that the row gives up is gone at the end
  have hkept : update.valid = true := by
    by_contra hgone
    have hnone := hupdated.gone (by simpa using hgone)
    rw [hslot₃, (execTimed_modifyData_silent h₃).2.2 (hanswered.slot.trans hnone)] at hresident
    simp at hresident
  have hsaved : o₂.line.modifying = c.modifying := hanswered.modifying.trans hupdated.modifying
  have hstore : o₂.line.storeOf msg = c.storeOf msg := by rw [storeOf, storeOf, hsaved]
  have hwritten : ∀ q, c.storeOf msg = some q → Written cfg c as q o.line := by
    intro q hq
    -- the array is still open when the store is written
    have hready₂ : o₂.line.slot.isReady acfg o₂.array = true := by
      rw [hanswered.slot]
      by_cases hzero : acfg.m_data_access_latency = 0
      · exact (hanswered.isOpen (hupdated.isOpen hopen)).isReady hzero _
      by_cases hpwb : c.slot.lineLocation = some .pwb
      · simp [Slot.isReady, Slot.inRegister, hupdated.pwb hkept hpwb]
      have haccess : ∀ a ∈ as, a.accessesArray cfg = false := by
        by_contra haccess
        push Not at haccess
        obtain ⟨a, ha, haccess⟩ := haccess
        have hcloses' : closesArrayOnStore cfg acfg c as = true := by
          simp only [closesArrayOnStore, Bool.and_eq_true, bne_iff_ne, List.any_eq_true]
          exact ⟨⟨⟨hzero, hpwb⟩, a, ha, by simpa using haccess⟩, _, hmodify, by simp [hq]⟩
        simp [hcloses'] at hcloses
      have hdata : msg.data.isSome := by
        have hreads := haccess _ hanswer
        rw [ControllerAction.answer] at hreads
        split_ifs at hreads <;> simpa [ControllerAction.accessesArray, Option.isSome_iff_ne_none] using hreads
      obtain ⟨harray, hloc⟩ := hupdated.frame hkept (haccess _ hupdate)
      rw [hanswered.frame hdata, harray, isReady_congr hloc]
      exact hready
    have hfound : o₂.line.slot.isSome := by
      rw [hanswered.slot]
      exact hupdated.found hkept
    obtain ⟨block, hbefore, hafter, -⟩ := (execTimed_modifyData hready₂ hfound h₃).2 q (hstore.trans hq)
    refine ⟨block, ?_, by rw [hslot₃]; exact hafter⟩
    rw [hblock, ← hupdated.bytes hkept, ← hanswered.slot]
    exact hbefore
  constructor
  · intro x hx hport _ q hq
    refine hwritten q ?_
    rcases hanswered.ids x (hemitted x hx hport) with ⟨hsource, hid⟩ | ⟨hsource, p, hp, hid⟩
    · -- a hit: its own bytes, and no other store under its identifier
      have hhit : .hitAction msg ∈ as := by simpa [ControllerAction.answer, hsource] using hanswer
      have hname := List.any_eq_false.1 hnames _ hhit
      cases hq with
      | saved hlookup => rw [storeOf, ← hid, hlookup]
      | hit _ hdata =>
        rw [storeOf]
        cases hlookup : c.modifying.lookup msg.msgId with
        | none => simp [hsource, hdata]
        | some q => simpa [hdata, hlookup] using hname
    · -- a pending request: it is answered under its own identifier
      have hpending : .removePending msg ∈ as := by simpa [ControllerAction.answer, hsource] using hanswer
      have hname := List.any_eq_false.1 hnames _ hpending
      cases hq with
      | saved hlookup =>
        rw [hid] at hlookup
        rw [hupdated.pending] at hp
        have hsame : p.msgId = msg.msgId := by
          by_contra hne
          exact hname (List.any_eq_true.2 ⟨p, hp, by simp [hlookup, hne]⟩)
        rw [storeOf, ← hsame, hlookup]
      | hit hlower _ => exact absurd hlower hsource
  · intro id q hq hnone
    rw [hmodifying₃] at hnone
    rcases execTimed_modifyData_saved h₃ hnone with hnone' | rfl
    · rw [hsaved, hq] at hnone'
      simp at hnone'
    · exact hwritten q (by rw [storeOf, hq])

end Hit

end LineController

end Octopus
