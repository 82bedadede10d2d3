import Octopus.Snoop.Skeleton

/-!
# A private cache refines its skeleton

The controller actions of a cell, carried out one by one on bytes, messages and side buffers,
have the effect that the skeleton gives the cell as a whole. The argument is generic in the
table: it asks that every cell is one of thirteen action lists, that only the first state is
invalid, and that a line has bytes in every state whose rows send them.
-/

namespace Octopus.Snoop

open LineController

variable {σ : Type}

/-- The request a message stands for. -/
def reqOf (msg : Message) : Req := ⟨msg.complementaryValue, msg.owner⟩

/-- The skeleton of a private cache's line. -/
def absCore (initial : σ) (c : LineController σ) : Core σ where
  state := (c.slot.readLineBits initial).state
  saved := c.saved.map reqOf

/-- The skeleton of a delivery. -/
def absFlight (f : Flight) : Supply := ⟨f.dest, f.msg.owner, f.msg.complementaryValue == 2⟩

/-- The skeleton of what a private cache emits. -/
def absCoreOut (out : List Emission) : CoreOut where
  bus := (emitted .upper .request out).map reqOf
  data := (flights (emitted .upper .dataResponse out)).map absFlight
  stalled := (emitted .processingQueue .request out).map reqOf

/-- The action lists that occur in the tables of the private caches. -/
def l1Shapes : List (List ActionId) :=
  [[], [.stall], [.fault], [.hit], [.getS], [.getM], [.putM], [.data2Req], [.data2Both], [.saveReq],
    [.hit, .data2Req], [.hit, .data2Both], [.hit, .removeSavedReq]]

/-- The events that bring the line's bytes. -/
def isDataEvent (e : EventId) : Bool := e == .ownData || e == .ownDataExeclusive

/-- What the simulation asks of a private cache's protocol; `holds` are the states with bytes. -/
structure LawfulL1 (P : L1Protocol σ) (holds : σ → Bool) : Prop where
  /-- Data is read as data, whatever else is in the message. -/
  readEvent_data : ∀ id msg, msg.source = .upperInterconnect → msg.data.isSome →
    ∃ e msg', P.readEvent id msg = .ok (e, msg') ∧ isDataEvent e ∧ msg'.data = msg.data ∧
      msg'.dataSize = msg.dataSize ∧ msg'.owner = msg.owner ∧ msg'.source = msg.source
  /-- Any other message is read as in MSI and left as it is. -/
  readEvent_other : ∀ id msg, ¬ (msg.source = .upperInterconnect ∧ msg.data.isSome) →
    P.readEvent id msg = (MSIProtocol.readEvent id msg).map fun e => (e, msg)
  handleAction_eq : ∀ cfg s e msg line next,
    P.handleAction cfg P.fsm (P.fsm.getActions s e) msg line next =
      MESIProtocol.handleAction cfg P.fsm (P.fsm.getActions s e) msg line next
  actions_mem : ∀ s e, P.fsm.getActions s e ∈ l1Shapes
  initial_invalid : P.fsm.isValidState P.initial = false
  eq_initial : ∀ s, P.fsm.isValidState s = false → s = P.initial
  holds_initial : holds P.initial = false
  /-- A line gains its bytes from data only. -/
  holds_next : ∀ s e, holds (P.fsm.getNextState s e) → isDataEvent e = false → holds s
  /-- A row that sends the line for another reason than own data is a row of a state with bytes. -/
  holds_supply : ∀ s e, P.fsm.hasAction s e .data2Req ∨ P.fsm.hasAction s e .data2Both →
    isDataEvent e = false → holds s

/-- The controllers agree on what the protocol reads, and only responses were emitted. -/
structure Quiet (c c' : LineController σ) (out : List Emission) : Prop where
  bits : ∀ initial, c'.slot.readLineBits initial = c.slot.readLineBits initial
  location : c'.slot.map Resident.location = c.slot.map Resident.location
  bytes : c.slot.readCacheLine.isSome → c'.slot.readCacheLine.isSome
  saved : c'.saved = c.saved
  silent : ∀ e ∈ out, e.port = .lower ∧ e.type = .dataResponse

/-- Quiet actions emit nothing but responses. -/
theorem Quiet.emitted_eq_nil {c c' : LineController σ} {out : List Emission} (h : Quiet c c' out)
    {port : Port} {type : MessageType} (hne : (port, type) ≠ (Port.lower, MessageType.dataResponse)) :
    emitted port type out = [] := by
  rw [emitted, List.filterMap_eq_nil_iff]
  intro e he
  obtain ⟨hport, htype⟩ := h.silent e he
  rw [hport, htype]
  simpa [Prod.ext_iff, eq_comm] using hne

/-- Answering a request from the line leaves the line alone. -/
theorem hitAction_quiet {c c' : LineController σ} {msg : Message} {out : List Emission}
    (h : c.hitAction msg = .ok (c', out)) : Quiet c c' out := by
  obtain ⟨rfl, rfl⟩ : c = c' ∧ _ = out := by simpa [hitAction] using h
  exact ⟨fun _ => rfl, rfl, id, rfl, by simp⟩

/-- Answering the pending requests leaves the line alone. -/
theorem removePendingAndRespond_quiet {c c' : LineController σ} {msg : Message} {out : List Emission}
    (h : c.removePendingAndRespond msg = .ok (c', out)) : Quiet c c' out := by
  rw [removePendingAndRespond] at h
  split at h
  · simp at h
  · split at h
    · simp at h
    · obtain ⟨rfl, rfl⟩ := Prod.mk.inj (Except.ok.inj h)
      exact ⟨fun _ => rfl, rfl, id, rfl, by simp⟩

/-- Recording a pending request leaves the line alone. -/
theorem addToPendingRequests_quiet {c c' : LineController σ} {msg : Message} {out : List Emission}
    (h : c.addToPendingRequests msg = .ok (c', out)) : Quiet c c' out := by
  obtain ⟨rfl, rfl⟩ := Prod.mk.inj (Except.ok.inj h)
  exact ⟨fun _ => rfl, rfl, id, rfl, by simp⟩

/-- Writing a store's bytes leaves the line's bits alone. -/
theorem modifyData_quiet {cfg : ControllerConfig} {c c' : LineController σ} {msg : Message}
    {out : List Emission} (h : c.modifyData cfg msg = .ok (c', out)) : Quiet c c' out := by
  rw [modifyData] at h
  dsimp only at h
  split at h
  · obtain ⟨rfl, rfl⟩ := Prod.mk.inj (Except.ok.inj h)
    exact ⟨fun _ => rfl, rfl, id, rfl, by simp⟩
  · split at h
    · next hslot =>
      obtain ⟨rfl, rfl⟩ := Prod.mk.inj (Except.ok.inj h)
      exact ⟨fun _ => rfl, rfl, id, rfl, by simp⟩
    · next r hslot =>
      split at h
      · simp at h
      · obtain ⟨rfl, rfl⟩ := Prod.mk.inj (Except.ok.inj h)
        exact ⟨fun _ => by simp [hslot, Slot.readLineBits], by simp [hslot],
          fun _ => by simp [Slot.readCacheLine], rfl, by simp⟩

/-- What `updateCacheLine` leaves: the new bits, and bytes if the message brought a block. -/
structure Updated (cfg : ControllerConfig) (c c' : LineController σ) (msg : Message)
    (line : GenericCacheLine σ) : Prop where
  pending : c'.pending = c.pending
  saved : c'.saved = c.saved
  invalid : line.valid = false → c'.slot = none
  bits : line.valid = true → ∀ initial, c'.slot.readLineBits initial = line
  bytes : line.valid = true → c.slot.readCacheLine.isSome → c'.slot.readCacheLine.isSome
  filled : line.valid = true → msg.data.isSome → cfg.blockSize ≤ msg.dataSize →
    c'.slot.readCacheLine.isSome
  location : line.valid = true → (msg.data.isSome → cfg.blockSize ≤ msg.dataSize) →
    c'.slot.map Resident.location =
      Home.locationAfter (c.slot.map Resident.location) msg.data.isSome

/-- Writing only the bits of a line. -/
theorem writeBits_updated {cfg : ControllerConfig} (c : LineController σ) {msg : Message}
    (line : GenericCacheLine σ)
    (hsize : line.valid = true → msg.data.isSome → msg.dataSize < cfg.blockSize) :
    Updated cfg c { c with slot := (c.slot.updateLineBits line).getD (c.slot.writeLine2MSHR line) }
      msg line where
  pending := rfl
  saved := rfl
  invalid hv := by
    cases c.slot <;> simp [Slot.updateLineBits, Slot.writeLine2MSHR, hv]
  bits hv initial := by
    obtain ⟨valid, state, ownerId⟩ := line
    cases c.slot <;> simp_all [Slot.updateLineBits, Slot.writeLine2MSHR, Slot.readLineBits]
  bytes hv := by
    cases c.slot <;> simp [Slot.updateLineBits, Slot.readCacheLine, hv]
  filled hv hdata hle := absurd (hsize hv hdata) (by omega)
  location hv hle := by
    have hnone : msg.data.isSome = false := by
      by_contra hdata
      rw [Bool.not_eq_false] at hdata
      have := hsize hv hdata
      have := hle hdata
      omega
    rw [hnone]
    cases hslot : c.slot with
    | none => simp [Slot.updateLineBits, Slot.writeLine2MSHR, Home.locationAfter, hv]
    | some r =>
      obtain ⟨location, state, ownerId, data⟩ := r
      cases location <;> simp [Slot.updateLineBits, Home.locationAfter, hv]

/-- `updateCacheLine` emits nothing and does what `Updated` says. -/
theorem updateCacheLine_updated {cfg : ControllerConfig} {c c' : LineController σ} {msg : Message}
    {line : GenericCacheLine σ} {out : List Emission}
    (h : c.updateCacheLine cfg msg line = .ok (c', out)) : out = [] ∧ Updated cfg c c' msg line := by
  rw [updateCacheLine] at h
  split at h
  · next hdata =>
    obtain ⟨rfl, rfl⟩ := Prod.mk.inj (Except.ok.inj h)
    exact ⟨rfl, writeBits_updated c line fun _ hsome => by simp [hdata] at hsome⟩
  · next bytes hdata =>
    split at h
    · next hsmall =>
      obtain ⟨rfl, rfl⟩ := Prod.mk.inj (Except.ok.inj h)
      exact ⟨rfl, writeBits_updated c line fun hv _ => by simpa [hv] using hsmall⟩
    · next hfull =>
      have hv : line.valid = true := by
        by_contra hv
        exact hfull (by simp [hv])
      split at h
      · next slot hslot =>
        obtain ⟨rfl, rfl⟩ := Prod.mk.inj (Except.ok.inj h)
        obtain ⟨valid, state, ownerId⟩ := line
        obtain rfl : valid = true := hv
        cases hc : c.slot with
        | none => simp [hc, Slot.updateLineBits, Slot.updateLineData] at hslot
        | some r =>
          obtain rfl : _ = slot := by
            simpa [hc, Slot.updateLineBits, Slot.updateLineData] using hslot
          refine ⟨rfl, rfl, rfl, by simp, fun _ _ => by simp [Slot.readLineBits],
            fun _ _ => by simp [Slot.readCacheLine], fun _ _ _ => by simp [Slot.readCacheLine],
            fun _ _ => ?_⟩
          obtain ⟨location, rstate, rowner, data⟩ := r
          cases location <;> simp [hc, Home.locationAfter, hdata]
      · simp at h

/-- What `performWriteBack` emits for a message of `supplyMessage`, in the skeleton's terms. -/
theorem performWriteBack_supplies {t : Topology} {i : Fin t.n} {c c' : LineController σ}
    {msg : Message} {both : Bool} {out : List Emission}
    (h : c.performWriteBack (t.l1Config i)
      (MSIProtocol.supplyMessage (t.l1Config i) msg both) = .ok (c', out)) :
    c' = { c with saved := [] } ∧
      absCoreOut out =
        { data :=
            supplies t.llcId i both (msg.complementaryValue == 2) (c.saved.map reqOf) msg.owner } := by
  obtain ⟨rfl, rfl⟩ := Prod.mk.inj (Except.ok.inj h)
  refine ⟨rfl, ?_⟩
  have hline : ∀ m : Message, (c.withLineData m).owner = m.owner ∧
      (c.withLineData m).toIds = m.toIds ∧
      (c.withLineData m).complementaryValue = m.complementaryValue := by
    intro m
    rw [withLineData]
    split <;> simp
  cases hsaved : c.saved with
  | nil =>
    simp [absCoreOut, emitted, flights, supplies, supplyTo, absFlight, addressSavedRequests, hsaved,
      hline, MSIProtocol.supplyMessage, Topology.l1Config]
  | cons first rest =>
    cases both <;>
      simp [absCoreOut, emitted, flights, supplies, supplyTo, absFlight, addressSavedRequests,
        hsaved, hline, MSIProtocol.supplyMessage, Topology.l1Config, reqOf, Function.comp_def]

/-- The data message of a supply carries a block when the line or the trigger does. -/
theorem performWriteBack_data {cfg : ControllerConfig} {c c' : LineController σ} {msg : Message}
    {out : List Emission} (h : c.performWriteBack cfg msg = .ok (c', out)) (hsize : cfg.blockSize ≤ 64)
    (hdata : msg.data.isSome ∧ cfg.blockSize ≤ msg.dataSize ∨
      msg.data = none ∧ c.slot.readCacheLine.isSome) :
    ∀ e ∈ out, e.port = .upper ∧ e.type = .dataResponse ∧ e.msg.data.isSome ∧
      cfg.blockSize ≤ e.msg.dataSize := by
  obtain ⟨rfl, rfl⟩ := Prod.mk.inj (Except.ok.inj h)
  have haddr : (addressSavedRequests cfg c msg).data = msg.data ∧
      (addressSavedRequests cfg c msg).dataSize = msg.dataSize := by
    rw [addressSavedRequests]
    split <;> simp
  intro e he
  obtain rfl := List.mem_singleton.1 he
  refine ⟨rfl, rfl, ?_⟩
  dsimp only
  rw [withLineData]
  rcases hdata with ⟨hsome, hle⟩ | ⟨hnone, hline⟩
  · obtain ⟨bytes, hbytes⟩ := Option.isSome_iff_exists.1 hsome
    simp [haddr, hbytes, hle]
  · obtain ⟨bytes, hbytes⟩ := Option.isSome_iff_exists.1 hline
    simp [haddr, hnone, hbytes, hsize]

/-- What a controller action after the line update does to the parked requests and the bus. -/
def tailEffect (saved : List Message) : ControllerAction σ → Option (List Message × List Message)
  | .hitAction _ | .removePending _ | .addPending _ | .modifyData _ => some (saved, [])
  | .sendBusMsg msg => some (saved, [msg])
  | .saveReqForWriteBack msg => some (saved ++ [msg], [])
  | .removeSavedReq => some ([], [])
  | _ => none

/-- The effect of a list of controller actions after the line update. -/
def tailEffects (saved : List Message) : List (ControllerAction σ) → Option (List Message × List Message)
  | [] => some (saved, [])
  | a :: rest =>
    match tailEffect saved a with
    | none => none
    | some (saved', bus) => (tailEffects saved' rest).map fun r => (r.1, bus ++ r.2)

/-- Running two lists of actions in a row. -/
theorem execActions_cons {cfg : ControllerConfig} {c c₂ : LineController σ} {a : ControllerAction σ}
    {rest : List (ControllerAction σ)} {out : List Emission}
    (h : c.execActions cfg (a :: rest) = .ok (c₂, out)) :
    ∃ c₁ out₁ out₂, c.execAction cfg a = .ok (c₁, out₁) ∧ c₁.execActions cfg rest = .ok (c₂, out₂) ∧
      out = out₁ ++ out₂ := by
  rw [execActions] at h
  split at h
  · simp at h
  · next c₁ out₁ ha =>
    split at h
    · simp at h
    · next c₂ out₂ hrest =>
      obtain ⟨rfl, rfl⟩ := Prod.mk.inj (Except.ok.inj h)
      exact ⟨c₁, out₁, out₂, ha, hrest, rfl⟩

/-- Emissions of a concatenation. -/
theorem emitted_append (port : Port) (type : MessageType) (out out' : List Emission) :
    emitted port type (out ++ out') = emitted port type out ++ emitted port type out' := by
  simp [emitted]

/-- The skeleton of a concatenation. -/
theorem absCoreOut_append (out out' : List Emission) :
    absCoreOut (out ++ out') =
      { bus := (absCoreOut out).bus ++ (absCoreOut out').bus
        data := (absCoreOut out).data ++ (absCoreOut out').data
        stalled := (absCoreOut out).stalled ++ (absCoreOut out').stalled } := by
  simp [absCoreOut, emitted_append, flights]

/-- What an action after the line update keeps and emits. -/
structure TailStep (c c' : LineController σ) (out : List Emission) (saved bus : List Message) : Prop where
  bits : ∀ initial, c'.slot.readLineBits initial = c.slot.readLineBits initial
  bytes : c.slot.readCacheLine.isSome → c'.slot.readCacheLine.isSome
  saved : c'.saved = saved
  bus : emitted .upper .request out = bus
  noData : emitted .upper .dataResponse out = []
  noStall : emitted .processingQueue .request out = []

/-- A quiet action is a tail step without effect. -/
theorem Quiet.tailStep {c c' : LineController σ} {out : List Emission} (h : Quiet c c' out) :
    TailStep c c' out c.saved [] where
  bits := h.bits
  bytes := h.bytes
  saved := h.saved
  bus := h.emitted_eq_nil (by simp)
  noData := h.emitted_eq_nil (by simp)
  noStall := h.emitted_eq_nil (by simp)

/-- One action after the line update does what `tailEffect` says. -/
theorem execAction_tail {cfg : ControllerConfig} {c c' : LineController σ} {a : ControllerAction σ}
    {out : List Emission} {saved bus : List Message} (ha : tailEffect c.saved a = some (saved, bus))
    (h : c.execAction cfg a = .ok (c', out)) : TailStep c c' out saved bus := by
  cases a <;> simp only [tailEffect, Option.some.injEq, Prod.mk.injEq, reduceCtorEq] at ha <;>
    obtain ⟨rfl, rfl⟩ := ha <;> rw [execAction] at h
  case removePending => exact (removePendingAndRespond_quiet h).tailStep
  case hitAction => exact (hitAction_quiet h).tailStep
  case addPending => exact (addToPendingRequests_quiet h).tailStep
  case modifyData => exact (modifyData_quiet h).tailStep
  all_goals
    obtain ⟨rfl, rfl⟩ := Prod.mk.inj (Except.ok.inj h)
    constructor <;> simp [emitted]

/-- A list of actions after the line update does what `tailEffects` says. -/
theorem execActions_tail {cfg : ControllerConfig} {c c' : LineController σ}
    {actions : List (ControllerAction σ)} {out : List Emission} {saved bus : List Message}
    (ha : tailEffects c.saved actions = some (saved, bus))
    (h : c.execActions cfg actions = .ok (c', out)) : TailStep c c' out saved bus := by
  induction actions generalizing c out bus with
  | nil =>
    obtain ⟨rfl, rfl⟩ : c.saved = saved ∧ [] = bus := by simpa [tailEffects] using ha
    obtain ⟨rfl, rfl⟩ := Prod.mk.inj (Except.ok.inj h)
    constructor <;> simp [emitted]
  | cons a rest ih =>
    obtain ⟨c₁, out₁, out₂, h₁, h₂, rfl⟩ := execActions_cons h
    rw [tailEffects] at ha
    split at ha
    · simp at ha
    · next saved₁ bus₁ heff =>
      have hstep := execAction_tail heff h₁
      obtain ⟨⟨saved₂, bus₂⟩, hrest, heq⟩ := Option.map_eq_some_iff.1 ha
      obtain ⟨rfl, rfl⟩ : saved₂ = saved ∧ bus₁ ++ bus₂ = bus := by simpa using heq
      have htail := ih (by rw [hstep.saved]; exact hrest) h₂
      exact ⟨fun initial => (htail.bits initial).trans (hstep.bits initial),
        fun hb => htail.bytes (hstep.bytes hb), htail.saved,
        by rw [emitted_append, hstep.bus, htail.bus],
        by rw [emitted_append, hstep.noData, htail.noData, List.append_nil],
        by rw [emitted_append, hstep.noStall, htail.noStall, List.append_nil]⟩

/-- The message that a `SaveReq` action parks. -/
def parked (msg : Message) : Message :=
  { msgId := msg.msgId, addr := msg.addr, complementaryValue := msg.complementaryValue,
    owner := msg.owner }

/-- The bus messages among the actions of a cell. -/
def busMessages (cfg : ControllerConfig) (msg : Message) (actions : List ActionId) : List Message :=
  actions.filterMap fun
    | .getS => some (MSIProtocol.busRequest cfg msg requestTypeGetS .getS)
    | .getM => some (MSIProtocol.busRequest cfg msg requestTypeGetM .getM)
    | .putM => some (MSIProtocol.busRequest cfg msg requestTypePutM .putM)
    | _ => none

/-- The bus messages of a cell are its bus requests. -/
theorem busMessages_map_reqOf (cfg : ControllerConfig) (msg : Message) (actions : List ActionId) :
    (busMessages cfg msg actions).map reqOf = busRequests cfg.id actions := by
  rw [busMessages, busRequests, List.map_filterMap]
  congr
  funext a
  cases a <;> rfl

/-- Bus messages carry no data. -/
theorem busMessages_data {cfg : ControllerConfig} {msg m : Message} {actions : List ActionId}
    (h : m ∈ busMessages cfg msg actions) : m.data = none := by
  obtain ⟨a, -, ha⟩ := List.mem_filterMap.1 h
  cases a <;> simp at ha <;> subst ha <;> rfl

/-- The write-back at the front of a row's controller actions, if any. -/
def supplyActions (cfg : ControllerConfig) (actions : List ActionId) (msg : Message) :
    List (ControllerAction σ) :=
  if ActionId.data2Req ∈ actions then [.writeBack (MSIProtocol.supplyMessage cfg msg false)]
  else if ActionId.data2Both ∈ actions then [.writeBack (MSIProtocol.supplyMessage cfg msg true)]
  else []

/-- A row's controller actions: the supply, the line update, and actions with a known effect. -/
theorem handleAction_eq (cfg : ControllerConfig) (fsm : Fsm σ EventId ActionId) {actions : List ActionId}
    (msg : Message) (line : GenericCacheLine σ) (next : σ) (hshape : actions ∈ l1Shapes)
    (hfault : ActionId.fault ∉ actions) (hstall : ActionId.stall ∉ actions) :
    ∃ tail, MESIProtocol.handleAction cfg fsm actions msg line next =
        .ok (supplyActions cfg actions msg ++
          .updateCacheLine msg { line with valid := fsm.isValidState next, state := next } :: tail) ∧
      ∀ saved, tailEffects saved tail =
        some (if ActionId.saveReq ∈ actions then saved ++ [parked msg]
          else if ActionId.removeSavedReq ∈ actions then [] else saved,
          busMessages cfg msg actions) := by
  simp only [l1Shapes, List.mem_cons, List.not_mem_nil, or_false] at hshape
  rcases hshape with rfl | rfl | rfl | rfl | rfl | rfl | rfl | rfl | rfl | rfl | rfl | rfl | rfl
  case inr.inl => simp at hstall
  case inr.inr.inl => simp at hfault
  all_goals
    refine ⟨_, rfl, fun saved => ?_⟩
    cases hsource : msg.source <;> simp [tailEffects, tailEffect, busMessages, parked]

/-- What a private cache emits is well formed: supplies carry a block, requests carry nothing. -/
def EmissionOk (blockSize : Nat) (e : Emission) : Prop :=
  (e.port = .upper → e.type = .dataResponse → e.msg.data.isSome ∧ blockSize ≤ e.msg.dataSize) ∧
    (e.port = .upper → e.type = .request → e.msg.data = none)

/-- A message is among those emitted on its port and channel. -/
theorem mem_emitted {m : Emission} {out : List Emission} {port : Port} {type : MessageType} (hm : m ∈ out)
    (hport : m.port = port) (htype : m.type = type) : m.msg ∈ emitted port type out :=
  List.mem_filterMap.2 ⟨m, hm, by simp [hport, htype]⟩

/-- The supply at the front of a row, in the skeleton's terms. -/
theorem execActions_supply {t : Topology} {i : Fin t.n} {c c' : LineController σ} {msg : Message}
    {actions : List ActionId} {rest : List (ControllerAction σ)} {out : List Emission}
    (hbytes : ActionId.data2Req ∈ actions ∨ ActionId.data2Both ∈ actions →
      msg.data.isSome ∧ t.blockSize ≤ msg.dataSize ∨ msg.data = none ∧ c.slot.readCacheLine.isSome)
    (h : c.execActions (t.l1Config i) (supplyActions (t.l1Config i) actions msg ++ rest) = .ok (c', out)) :
    ∃ c₁ out₁ out₂, c₁.execActions (t.l1Config i) rest = .ok (c', out₂) ∧ out = out₁ ++ out₂ ∧
      c₁ = { c with
        saved := if ActionId.data2Req ∈ actions ∨ ActionId.data2Both ∈ actions then [] else c.saved } ∧
      absCoreOut out₁ =
        { data :=
            if ActionId.data2Req ∈ actions then
              supplies t.llcId i false (msg.complementaryValue == 2) (c.saved.map reqOf) msg.owner
            else if ActionId.data2Both ∈ actions then
              supplies t.llcId i true (msg.complementaryValue == 2) (c.saved.map reqOf) msg.owner
            else [] } ∧
      ∀ e ∈ out₁, EmissionOk t.blockSize e := by
  have hone : ∀ both : Bool, (ActionId.data2Req ∈ actions ∨ ActionId.data2Both ∈ actions) →
      c.execActions (t.l1Config i)
        (.writeBack (MSIProtocol.supplyMessage (t.l1Config i) msg both) :: rest) = .ok (c', out) →
      ∃ c₁ out₁ out₂, c₁.execActions (t.l1Config i) rest = .ok (c', out₂) ∧ out = out₁ ++ out₂ ∧
        c₁ = { c with saved := [] } ∧
        absCoreOut out₁ =
          { data :=
              supplies t.llcId i both (msg.complementaryValue == 2) (c.saved.map reqOf) msg.owner } ∧
        ∀ e ∈ out₁, EmissionOk t.blockSize e := by
    intro both hmem h
    obtain ⟨c₁, out₁, out₂, h₁, h₂, rfl⟩ := execActions_cons h
    obtain ⟨hc₁, habs⟩ := performWriteBack_supplies h₁
    refine ⟨c₁, out₁, out₂, h₂, rfl, hc₁, habs, fun e he => ?_⟩
    obtain ⟨-, htype, hdata⟩ := performWriteBack_data h₁ t.blockSize_le (hbytes hmem) e he
    exact ⟨fun _ _ => hdata, fun _ hreq => by simp [htype] at hreq⟩
  by_cases hreq : ActionId.data2Req ∈ actions
  · simpa [supplyActions, hreq] using hone false (.inl hreq) (by simpa [supplyActions, hreq] using h)
  · by_cases hboth : ActionId.data2Both ∈ actions
    · simpa [supplyActions, hreq, hboth] using
        hone true (.inr hboth) (by simpa [supplyActions, hreq, hboth] using h)
    · refine ⟨c, [], out, by simpa [supplyActions, hreq, hboth] using h, rfl, ?_, ?_, by simp⟩
      · simp [hreq, hboth]
      · simp [hreq, hboth, absCoreOut, emitted, flights]

/-- A cell of a table with a Fault or Stall action has no other action. -/
theorem eq_of_mem_shape {actions : List ActionId} (hshape : actions ∈ l1Shapes) :
    (ActionId.fault ∈ actions → actions = [.fault]) ∧ (ActionId.stall ∈ actions → actions = [.stall]) := by
  revert actions
  decide

/-- A cell that parks its request does not supply. -/
theorem no_supply_of_saveReq {actions : List ActionId} (hshape : actions ∈ l1Shapes) :
    ActionId.saveReq ∈ actions → ActionId.data2Req ∉ actions ∧ ActionId.data2Both ∉ actions := by
  revert actions
  decide

/-- Processing a message whose event is known runs the actions of its cell. -/
theorem process_eq {P : L1Protocol σ} {holds : σ → Bool} (hP : LawfulL1 P holds)
    (cfg : ControllerConfig) (c : LineController σ) {msg msg' : Message} {e : EventId}
    (hread : P.readEvent cfg.id msg = .ok (e, msg')) :
    P.process cfg c msg =
      match MESIProtocol.handleAction cfg P.fsm (P.fsm.getActions (absCore P.initial c).state e) msg'
        (c.slot.readLineBits P.initial) (P.fsm.getNextState (absCore P.initial c).state e) with
      | Except.error e => .error e
      | .ok actions => c.execActions cfg actions := by
  rw [L1Protocol.process, L1Protocol.processRequest, hread, ← hP.handleAction_eq]
  rfl

/-- A private cache that processes a message takes the cell of its table in the skeleton. -/
theorem process_abs {P : L1Protocol σ} {holds : σ → Bool} (hP : LawfulL1 P holds) {t : Topology}
    {i : Fin t.n} {c c' : LineController σ} {msg msg' : Message} {e : EventId} {out : List Emission}
    (hread : P.readEvent i msg = .ok (e, msg'))
    (hdata : isDataEvent e → msg'.data.isSome ∧ t.blockSize ≤ msg'.dataSize)
    (hother : isDataEvent e = false → ∀ s, P.fsm.hasAction s e .data2Req ∨ P.fsm.hasAction s e .data2Both →
      msg'.data = none)
    (hholds : holds (absCore P.initial c).state → c.slot.readCacheLine.isSome)
    (h : P.process (t.l1Config i) c msg = .ok (c', out)) :
    (absCore P.initial c).process P.fsm t.llcId i e (reqOf msg') (msg'.complementaryValue == 2) =
        .ok (absCore P.initial c', absCoreOut out) ∧
      (holds (absCore P.initial c').state → c'.slot.readCacheLine.isSome) ∧
      (∀ m ∈ out, EmissionOk t.blockSize m) ∧
      ∀ m ∈ emitted .processingQueue .request out,
        m = msg' ∧ ActionId.stall ∈ P.fsm.getActions (absCore P.initial c).state e := by
  rw [process_eq hP (t.l1Config i) c hread] at h
  have hshape := hP.actions_mem (absCore P.initial c).state e
  obtain ⟨hfaultShape, hstallShape⟩ := eq_of_mem_shape hshape
  rw [Core.process]
  by_cases hfault : ActionId.fault ∈ P.fsm.getActions (absCore P.initial c).state e
  · rw [hfaultShape hfault] at h
    simp [MESIProtocol.handleAction, MSIProtocol.handleAction, MSIProtocol.addAction] at h
  by_cases hstall : ActionId.stall ∈ P.fsm.getActions (absCore P.initial c).state e
  · rw [hstallShape hstall] at h ⊢
    obtain ⟨rfl, rfl⟩ : c = c' ∧ [⟨.processingQueue, .request, msg'⟩] = out := by
      simpa [MESIProtocol.handleAction, MSIProtocol.handleAction, MSIProtocol.addAction, execActions,
        execAction] using h
    exact ⟨by simp [absCoreOut, emitted, flights], hholds, by simp [EmissionOk], by simp [emitted]⟩
  obtain ⟨tail, hactions, htail⟩ := handleAction_eq (t.l1Config i) P.fsm msg'
    (c.slot.readLineBits P.initial) (P.fsm.getNextState (absCore P.initial c).state e) hshape hfault hstall
  simp only [hactions] at h
  have hnext : (P.fsm.isValidState (P.fsm.getNextState (absCore P.initial c).state e) = false) →
      P.fsm.getNextState (absCore P.initial c).state e = P.initial := hP.eq_initial _
  set s := (absCore P.initial c).state
  have hbytes : ActionId.data2Req ∈ P.fsm.getActions s e ∨ ActionId.data2Both ∈ P.fsm.getActions s e →
      msg'.data.isSome ∧ t.blockSize ≤ msg'.dataSize ∨
        msg'.data = none ∧ c.slot.readCacheLine.isSome := by
    intro hmem
    have hact : P.fsm.hasAction s e .data2Req ∨ P.fsm.hasAction s e .data2Both := by
      simpa [Fsm.hasAction] using hmem
    cases he : isDataEvent e with
    | true => exact .inl (hdata he)
    | false => exact .inr ⟨hother he s hact, hholds (hP.holds_supply s e hact he)⟩
  obtain ⟨c₁, out₁, out₂, h₁, rfl, hc₁, habs₁, hok₁⟩ := execActions_supply hbytes h
  obtain ⟨c₂, outU, out₃, hupd, hrest, rfl⟩ := execActions_cons h₁
  obtain ⟨rfl, hU⟩ := updateCacheLine_updated hupd
  have hstep := execActions_tail (htail c₂.saved) hrest
  have hstate : (absCore P.initial c').state = P.fsm.getNextState s e := by
    change (c'.slot.readLineBits P.initial).state = _
    rw [hstep.bits]
    cases hv : P.fsm.isValidState (P.fsm.getNextState s e) with
    | true => rw [hU.bits hv]
    | false => rw [hU.invalid hv, hnext hv]; rfl
  have hsaved : (absCore P.initial c').saved =
      savedAfter (P.fsm.getActions s e) (absCore P.initial c).saved (reqOf msg') := by
    change c'.saved.map reqOf = _
    rw [hstep.saved, hU.saved, hc₁, savedAfter]
    by_cases hsave : ActionId.saveReq ∈ P.fsm.getActions s e
    · simp [hsave, no_supply_of_saveReq hshape hsave, absCore, parked, reqOf]
    · by_cases hremove : ActionId.removeSavedReq ∈ P.fsm.getActions s e
      · simp [hsave, hremove]
      · simp only [hsave, hremove, if_false, or_false]
        split_ifs <;> simp [absCore]
  have hnoStall : emitted .processingQueue .request (out₁ ++ ([] ++ out₃)) = [] := by
    have hstalled : (absCoreOut out₁).stalled = [] := by rw [habs₁]
    simpa [absCoreOut, emitted_append, hstep.noStall] using hstalled
  refine ⟨?_, fun hh => ?_, fun m hm => ?_, by rw [hnoStall]; simp⟩
  · have hout : absCoreOut (out₁ ++ ([] ++ out₃)) =
        { (absCoreOut out₁) with bus := busRequests i (P.fsm.getActions s e) } := by
      have hbus := busMessages_map_reqOf (t.l1Config i) msg' (P.fsm.getActions s e)
      have hbus₁ : (absCoreOut out₁).bus = [] := by rw [habs₁]
      have hstalled₁ : (absCoreOut out₁).stalled = [] := by rw [habs₁]
      have hbus₃ : (absCoreOut out₃).bus = busRequests i (P.fsm.getActions s e) := by
        rw [absCoreOut, hstep.bus, hbus]
        rfl
      have hdata₃ : (absCoreOut out₃).data = [] := by rw [absCoreOut, hstep.noData]; rfl
      have hstalled₃ : (absCoreOut out₃).stalled = [] := by rw [absCoreOut, hstep.noStall]; rfl
      rw [List.nil_append, absCoreOut_append, hbus₁, hbus₃, hdata₃, hstalled₃]
      simp [hstalled₁]
    rw [if_neg hfault, if_neg hstall, hout, habs₁, ← hstate, ← hsaved]
    rfl
  · rw [hstate] at hh
    have hv : P.fsm.isValidState (P.fsm.getNextState s e) = true := by
      by_contra hv
      rw [hnext (by simpa using hv), hP.holds_initial] at hh
      exact Bool.noConfusion hh
    refine hstep.bytes ?_
    cases he : isDataEvent e with
    | true => exact hU.filled hv (hdata he).1 (hdata he).2
    | false => exact hU.bytes hv (by rw [hc₁]; exact hholds (hP.holds_next s e hh he))
  · rcases List.mem_append.1 hm with hm | hm
    · exact hok₁ m hm
    · rw [List.nil_append] at hm
      refine ⟨fun hport htype => ?_, fun hport htype => ?_⟩
      · exact absurd (mem_emitted hm hport htype) (by simp [hstep.noData])
      · exact busMessages_data (hstep.bus ▸ mem_emitted hm hport htype)

/-- Carrying out an action never ends in a protocol fault. -/
theorem execAction_ne_fault {cfg : ControllerConfig} {c : LineController σ} (a : ControllerAction σ) :
    c.execAction cfg a ≠ .error .fault := by
  cases a <;> rw [execAction]
  case removePending =>
    rw [removePendingAndRespond]
    split
    · simp
    · split <;> simp
  case updateCacheLine =>
    rw [updateCacheLine]
    split
    · simp
    · split
      · simp
      · split <;> simp
  case modifyData =>
    rw [modifyData]
    dsimp only
    split
    · simp
    · split
      · simp
      · split <;> simp
  all_goals exact nofun

/-- Carrying out a list of actions never ends in a protocol fault. -/
theorem execActions_ne_fault {cfg : ControllerConfig} {c : LineController σ}
    (actions : List (ControllerAction σ)) : c.execActions cfg actions ≠ .error .fault := by
  induction actions generalizing c with
  | nil => exact nofun
  | cons a rest ih =>
    rw [execActions]
    split
    · next e he =>
      rintro ⟨rfl⟩
      exact execAction_ne_fault a he
    · next c' out _ =>
      split
      · next e he =>
        rintro ⟨rfl⟩
        exact ih he
      · exact nofun

/-- A private cache faults only on a Fault cell, where the skeleton faults too. -/
theorem process_abs_fault {P : L1Protocol σ} {holds : σ → Bool} (hP : LawfulL1 P holds)
    (cfg : ControllerConfig) (llc : Nat) (exclusive : Bool) {c : LineController σ} {msg msg' : Message}
    {e : EventId} (hread : P.readEvent cfg.id msg = .ok (e, msg'))
    (h : P.process cfg c msg = .error .fault) :
    (absCore P.initial c).process P.fsm llc cfg.id e (reqOf msg') exclusive = .error .fault := by
  rw [process_eq hP cfg c hread] at h
  have hshape := hP.actions_mem (absCore P.initial c).state e
  by_cases hfault : ActionId.fault ∈ P.fsm.getActions (absCore P.initial c).state e
  · rw [Core.process, if_pos hfault]
  exfalso
  by_cases hstall : ActionId.stall ∈ P.fsm.getActions (absCore P.initial c).state e
  · rw [(eq_of_mem_shape hshape).2 hstall] at h
    exact execActions_ne_fault _ h
  · obtain ⟨tail, hactions, -⟩ := handleAction_eq cfg P.fsm msg'
      (c.slot.readLineBits P.initial) (P.fsm.getNextState (absCore P.initial c).state e) hshape hfault hstall
    rw [hactions] at h
    exact execActions_ne_fault _ h

end Octopus.Snoop
