import Octopus.Snoop.CoreSimulation

/-!
# The last-level cache refines its skeleton

The counterpart of the private-cache simulation: every cell of a last-level table is one of
fifteen action lists, the line update stands among actions that do not touch the line, and the
responses, reads and invalidations are those of the skeleton.
-/

namespace Octopus.Snoop

open LineController

variable {τ : Type}

/-- The skeleton of the last-level cache's line. -/
def absHome (initial : τ) (c : LineController τ) : Home τ where
  state := (c.slot.readLineBits initial).state
  owner := (c.slot.readLineBits initial).ownerId
  location := c.slot.map Resident.location
  pending := c.pending.map Message.owner

/-- The skeleton of a message in the last-level cache's queue. -/
def absHomeMsg (msg : Message) : HomeMsg :=
  match msg.source with
  | .self => .replacement
  | .upperInterconnect => .fill msg.owner
  | .lowerInterconnect => if msg.data.isSome then .data msg.owner else .request (reqOf msg)

/-- The skeleton of what the last-level cache emits. -/
def absHomeOut (out : List Emission) : HomeOut where
  data := (flights (emitted .lower .dataResponse out)).map absFlight
  memory := (emitted .upper .request out).map Message.owner
  bus := (emitted .lower .serviceRequest out).map reqOf

/-- Emissions one after the other. -/
def HomeOut.append (o o' : HomeOut) : HomeOut where
  data := o.data ++ o'.data
  memory := o.memory ++ o'.memory
  bus := o.bus ++ o'.bus

/-- The skeleton of a concatenation. -/
theorem absHomeOut_append (out out' : List Emission) :
    absHomeOut (out ++ out') = (absHomeOut out).append (absHomeOut out') := by
  simp [absHomeOut, HomeOut.append, emitted_append, flights]

/-- The action lists that occur in the tables of the last-level caches. -/
def llcShapes : List (List LLCActionId) :=
  [[], [.stall], [.fault], [.getData], [.getData, .setOwner], [.sendData], [.sendData, .setOwner],
    [.sendExeclusiveData], [.sendExeclusiveData, .setOwner], [.issueInv], [.clearOwner], [.setOwner],
    [.saveData], [.writeBack], [.clearOwner, .writeBack]]

/-- The events that bring the line's bytes. -/
def isLLCDataEvent (e : LLCEventId) : Bool := e == .dataFromLowerInterface || e == .dataFromUpperInterface

/-- What the simulation asks of a last-level protocol; `holds` are the states with bytes. -/
structure LawfulLLC (P : LLCProtocol τ) (holds : τ → Bool) : Prop where
  handleAction_eq : ∀ cfg s e msg line next,
    P.handleAction cfg P.fsm (P.fsm.getActions s e) msg line next =
      LLCMESIProtocol.handleAction cfg P.fsm (P.fsm.getActions s e) msg line next
  actions_mem : ∀ s e, P.fsm.getActions s e ∈ llcShapes
  initial_invalid : P.fsm.isValidState P.initial = false
  eq_initial : ∀ s, P.fsm.isValidState s = false → s = P.initial
  holds_initial : holds P.initial = false
  /-- A line gains its bytes from data only. -/
  holds_next : ∀ s e, holds (P.fsm.getNextState s e) → isLLCDataEvent e = false → holds s
  /-- Responses answer a request from a line with bytes, or a fill. -/
  holds_respond : ∀ s e, P.fsm.hasAction s e .sendData ∨ P.fsm.hasAction s e .sendExeclusiveData →
    e = .dataFromUpperInterface ∨ holds s ∧ (e = .getS ∨ e = .getM)
  respond_valid : ∀ s e, P.fsm.hasAction s e .sendData ∨ P.fsm.hasAction s e .sendExeclusiveData →
    P.fsm.isValidState (P.fsm.getNextState s e)

/-- A message of the last-level cache's queue is well formed. -/
structure HomeMsgOk (t : Topology) (msg : Message) : Prop where
  size : msg.data.isSome → t.blockSize ≤ msg.dataSize
  self : msg.source = .self → msg.data = none ∧ msg.owner = t.llcId ∧ msg.complementaryValue = 0
  upper : msg.source = .upperInterconnect → msg.data.isSome ∧ msg.complementaryValue = 0

/-- What the last-level cache emits is well formed. -/
def HomeEmissionOk (t : Topology) (e : Emission) : Prop :=
  (e.port = .lower → e.type = .dataResponse → e.msg.data.isSome ∧ t.blockSize ≤ e.msg.dataSize) ∧
    (e.port = .lower → e.type = .serviceRequest → e.msg.data = none)

/-- What an action other than the line update does to the pending owners and emits. -/
def homeEffect (pending : List Nat) : ControllerAction τ → Option (List Nat × HomeOut)
  | .noAction | .writeBack _ => some (pending, {})
  | .addPending msg => some (pending ++ [msg.owner], {})
  | .sendBusMsg msg => some (pending, { memory := [msg.owner] })
  | .sendInvMsg msg => some (pending, { bus := [reqOf msg] })
  | .hitAction msg =>
    some (pending, { data := supplyTo msg.owner (msg.complementaryValue == 2) msg.toIds })
  | .removePending msg =>
    some ([], { data := pending.flatMap fun o => supplyTo o (msg.complementaryValue == 2) msg.toIds })
  | _ => none

/-- What the responses of an action need: a block in the message or in the line. -/
def RespondOk (t : Topology) (c : LineController τ) : ControllerAction τ → Prop
  | .hitAction msg => (msg.data.isSome → t.blockSize ≤ msg.dataSize) ∧
      (msg.data = none → c.slot.readCacheLine.isSome)
  | .sendInvMsg msg => msg.data = none
  | _ => True

/-- The addressee, owner and mark of a message do not depend on its bytes. -/
theorem withLineData_frame (c : LineController τ) (m : Message) :
    (c.withLineData m).owner = m.owner ∧ (c.withLineData m).toIds = m.toIds ∧
      (c.withLineData m).complementaryValue = m.complementaryValue := by
  rw [withLineData]
  split <;> simp

/-- A message that takes the line's bytes if it has none ends up with a block. -/
theorem withLineData_data {t : Topology} {c : LineController τ} {m : Message}
    (h : (m.data.isSome → t.blockSize ≤ m.dataSize) ∧ (m.data = none → c.slot.readCacheLine.isSome)) :
    (c.withLineData m).data.isSome ∧ t.blockSize ≤ (c.withLineData m).dataSize := by
  rw [withLineData]
  cases hm : m.data with
  | some bytes => simpa [hm] using h.1 (by simp [hm])
  | none =>
    obtain ⟨bytes, hbytes⟩ := Option.isSome_iff_exists.1 (h.2 hm)
    simp [hbytes, t.blockSize_le]

/-- An action other than the line update leaves the line and does what `homeEffect` says. -/
theorem execAction_home {t : Topology} {c c' : LineController τ} {a : ControllerAction τ}
    {out : List Emission} {pending : List Nat} {o : HomeOut}
    (ha : homeEffect (c.pending.map Message.owner) a = some (pending, o)) (hok : RespondOk t c a)
    (h : c.execAction t.llcConfig a = .ok (c', out)) :
    c'.slot = c.slot ∧ c'.pending.map Message.owner = pending ∧ absHomeOut out = o ∧
      ∀ e ∈ out, HomeEmissionOk t e := by
  cases a <;> simp only [homeEffect, Option.some.injEq, Prod.mk.injEq, reduceCtorEq] at ha <;>
    obtain ⟨rfl, rfl⟩ := ha <;> rw [execAction] at h
  case noAction =>
    obtain ⟨rfl, rfl⟩ := Prod.mk.inj (Except.ok.inj h)
    simp [absHomeOut, emitted, flights]
  case writeBack msg =>
    obtain ⟨rfl, rfl⟩ := Prod.mk.inj (Except.ok.inj h)
    simp [absHomeOut, emitted, flights, HomeEmissionOk]
  case addPending msg =>
    obtain ⟨rfl, rfl⟩ := Prod.mk.inj (Except.ok.inj h)
    simp [absHomeOut, emitted, flights]
  case sendBusMsg msg =>
    obtain ⟨rfl, rfl⟩ := Prod.mk.inj (Except.ok.inj h)
    simp [absHomeOut, emitted, flights, HomeEmissionOk]
  case sendInvMsg msg =>
    obtain ⟨rfl, rfl⟩ := Prod.mk.inj (Except.ok.inj h)
    have hnone : msg.data = none := hok
    simp [absHomeOut, emitted, flights, HomeEmissionOk, hnone]
  case hitAction msg =>
    obtain ⟨rfl, rfl⟩ := Prod.mk.inj (Except.ok.inj h)
    obtain ⟨ho, hto, hcv⟩ := withLineData_frame c msg
    refine ⟨rfl, rfl, ?_, ?_⟩
    · simp [absHomeOut, emitted, flights, supplyTo, absFlight, ho, hto, hcv]
    · intro e he
      obtain rfl := List.mem_singleton.1 he
      exact ⟨fun _ _ => withLineData_data hok, by simp⟩
  case removePending msg =>
    rw [removePendingAndRespond] at h
    split at h
    · simp at h
    · split at h
      · simp at h
      · next bytes _ =>
        obtain ⟨rfl, rfl⟩ := Prod.mk.inj (Except.ok.inj h)
        refine ⟨rfl, rfl, ?_, ?_⟩
        · simp [absHomeOut, emitted, flights, supplyTo, absFlight, List.filterMap_map, respondTo,
            Function.comp_def, List.map_flatMap, List.flatMap_map]
        · intro e he
          obtain ⟨r, -, rfl⟩ := List.mem_map.1 he
          exact ⟨fun _ _ => ⟨rfl, t.blockSize_le⟩, by simp⟩

/-- The effect of a list of actions other than the line update. -/
def homeEffects (pending : List Nat) : List (ControllerAction τ) → Option (List Nat × HomeOut)
  | [] => some (pending, {})
  | a :: rest =>
    match homeEffect pending a with
    | none => none
    | some (pending', o) => (homeEffects pending' rest).map fun r => (r.1, o.append r.2)

/-- Running a concatenation of actions. -/
theorem execActions_append {cfg : ControllerConfig} {c c₂ : LineController τ}
    {as bs : List (ControllerAction τ)} {out : List Emission}
    (h : c.execActions cfg (as ++ bs) = .ok (c₂, out)) :
    ∃ c₁ out₁ out₂, c.execActions cfg as = .ok (c₁, out₁) ∧ c₁.execActions cfg bs = .ok (c₂, out₂) ∧
      out = out₁ ++ out₂ := by
  induction as generalizing c out with
  | nil => exact ⟨c, [], out, rfl, h, rfl⟩
  | cons a as ih =>
    obtain ⟨c', out₁, out', ha, hrest, rfl⟩ := execActions_cons h
    obtain ⟨c₁, out₂, out₃, h₁, h₂, rfl⟩ := ih hrest
    exact ⟨c₁, out₁ ++ out₂, out₃, by simp [execActions, ha, h₁], h₂, by simp⟩

/-- A list of actions other than the line update leaves the line and does what `homeEffects` says. -/
theorem execActions_home {t : Topology} {c c' : LineController τ} {actions : List (ControllerAction τ)}
    {out : List Emission} {pending : List Nat} {o : HomeOut}
    (ha : homeEffects (c.pending.map Message.owner) actions = some (pending, o))
    (hok : ∀ a ∈ actions, RespondOk t c a) (h : c.execActions t.llcConfig actions = .ok (c', out)) :
    c'.slot = c.slot ∧ c'.pending.map Message.owner = pending ∧ absHomeOut out = o ∧
      ∀ e ∈ out, HomeEmissionOk t e := by
  induction actions generalizing c out o with
  | nil =>
    obtain ⟨rfl, rfl⟩ : c.pending.map Message.owner = pending ∧ {} = o := by
      simpa [homeEffects] using ha
    obtain ⟨rfl, rfl⟩ := Prod.mk.inj (Except.ok.inj h)
    simp [absHomeOut, emitted, flights]
  | cons a rest ih =>
    obtain ⟨c₁, out₁, out₂, h₁, h₂, rfl⟩ := execActions_cons h
    rw [homeEffects] at ha
    split at ha
    · simp at ha
    · next pending₁ o₁ heff =>
      obtain ⟨hslot, hpending, habs, hem⟩ := execAction_home heff (hok a List.mem_cons_self) h₁
      obtain ⟨⟨pending₂, o₂⟩, hrest, heq⟩ := Option.map_eq_some_iff.1 ha
      obtain ⟨rfl, rfl⟩ : pending₂ = pending ∧ o₁.append o₂ = o := by simpa using heq
      have hok' : ∀ b ∈ rest, RespondOk t c₁ b := by
        intro b hb
        have hb := hok b (List.mem_cons_of_mem a hb)
        cases b with
        | hitAction msg => exact ⟨hb.1, fun hnone => hslot ▸ hb.2 hnone⟩
        | sendInvMsg msg => exact hb
        | _ => trivial
      obtain ⟨hslot', hpending', habs', hem'⟩ := ih (by rw [hpending]; exact hrest) hok' h₂
      refine ⟨hslot'.trans hslot, hpending', by rw [absHomeOut_append, habs, habs'], fun e he => ?_⟩
      exact (List.mem_append.1 he).elim (hem e) (hem' e)

/-- A cell of a table with a Fault or Stall action has no other action. -/
theorem eq_of_mem_llcShape {actions : List LLCActionId} (hshape : actions ∈ llcShapes) :
    (LLCActionId.fault ∈ actions → actions = [.fault]) ∧
      (LLCActionId.stall ∈ actions → actions = [.stall]) := by
  revert actions
  decide

/-- A row's controller actions: the line update among actions with a known effect. -/
theorem llcHandleAction_eq (t : Topology) (fsm : Fsm τ LLCEventId LLCActionId)
    {actions : List LLCActionId} {msg : Message} (line : GenericCacheLine τ) (next : τ)
    (hmsg : HomeMsgOk t msg) (hshape : actions ∈ llcShapes) (hfault : LLCActionId.fault ∉ actions)
    (hstall : LLCActionId.stall ∉ actions) (hmark : LLCActionId.sendData ∈ actions →
      (msg.complementaryValue == 2) = false) (hself : Home.responds actions → msg.source ≠ .self) :
    ∃ before after, LLCMESIProtocol.handleAction t.llcConfig fsm actions msg line next =
        .ok (before ++ (.updateCacheLine msg
          { valid := fsm.isValidState next, state := next,
            ownerId := Home.ownerAfter actions line.ownerId msg.owner } :: after)) ∧
      (∀ pending, ∃ o₁ pending₁ o₂, homeEffects pending before = some (pending₁, o₁) ∧
        homeEffects pending₁ after =
          some (Home.pendingAfter actions (absHomeMsg msg) msg.owner pending, o₂) ∧
        o₁.append o₂ =
          { data :=
              (Home.answered actions (absHomeMsg msg) msg.owner pending).map fun owner =>
                ⟨msg.owner, owner, decide (LLCActionId.sendExeclusiveData ∈ actions)⟩
            memory := if LLCActionId.getData ∈ actions then [msg.owner] else []
            bus := if LLCActionId.issueInv ∈ actions then [⟨requestTypeInv, t.llcId⟩] else [] }) ∧
      ∀ a ∈ before ++ after, ∀ c : LineController τ,
        (Home.responds actions → msg.source = .lowerInterconnect → msg.data = none →
          c.slot.readCacheLine.isSome) → RespondOk t c a := by
  have hsize := hmsg.size
  have hfill : (absHomeMsg msg).isFill = decide (msg.source = .upperInterconnect) := by
    rw [absHomeMsg]
    split
    · simp [HomeMsg.isFill, *]
    · simp [HomeMsg.isFill, *]
    · split <;> simp [HomeMsg.isFill, *]
  simp only [llcShapes, List.mem_cons, List.not_mem_nil, or_false] at hshape
  simp only [Home.pendingAfter, Home.answered, hfill]
  rcases hshape with rfl | rfl | rfl | rfl | rfl | rfl | rfl | rfl | rfl | rfl | rfl | rfl | rfl |
    rfl | rfl
  case inr.inl => simp at hstall
  case inr.inr.inl => simp at hfault
  all_goals
    obtain ⟨valid, state, ownerId⟩ := line
    obtain ⟨msgId, addr, cv, cv2, owner, fromId, toIds, source, data, dataSize, kind⟩ := msg
    clear hfill hmsg
    cases source <;>
      first
        | refine ⟨_, _, rfl, fun pending => ⟨_, _, _, rfl, rfl, ?_⟩, ?_⟩
        | refine ⟨[], [_], rfl, fun pending => ⟨_, _, _, rfl, rfl, ?_⟩, ?_⟩
        | refine ⟨[.noAction], [_], rfl, fun pending => ⟨_, _, _, rfl, rfl, ?_⟩, ?_⟩
        | exact absurd rfl (hself rfl)
  all_goals
    simp only [List.mem_cons, List.not_mem_nil, or_false, reduceCtorEq, true_implies,
      false_implies] at hmark
  all_goals
    simp [HomeOut.append, Home.responds, supplyTo, reqOf, LLCMESIProtocol.exclusiveResponse, RespondOk,
      List.map_eq_flatMap, Topology.llcConfig, hmark]
  all_goals exact fun _ hline => ⟨hsize, hline⟩

/-- A message is read as the event of its skeleton. -/
theorem readEvent_abs {t : Topology} (initial : τ) (c : LineController τ) {msg : Message}
    (hmsg : HomeMsgOk t msg) :
    (absHome initial c).event t.llcId (absHomeMsg msg) =
      match LLCMSIProtocol.readEvent t.llcId (c.slot.readLineBits initial) msg with
      | Except.error e => .error e
      | .ok none => .error .invalidTransaction
      | .ok (some e) => .ok e := by
  rw [LLCMSIProtocol.readEvent, absHomeMsg]
  cases hsource : msg.source with
  | self => simp [(hmsg.self hsource).2.1, Home.event]
  | upperInterconnect => simp [(hmsg.upper hsource).1, Home.event]
  | lowerInterconnect =>
    cases hdata : msg.data with
    | some bytes => simp [Home.event]
    | none =>
      simp only [Option.isSome_none, Bool.false_eq_true, if_false, Home.event, reqOf]
      split_ifs <;> simp_all [absHome]

/-- What the event of a message says about the message. -/
theorem event_abs {t : Topology} {h : Home τ} {msg : Message} {e : LLCEventId} (hmsg : HomeMsgOk t msg)
    (hevent : h.event t.llcId (absHomeMsg msg) = .ok e) :
    (isLLCDataEvent e = msg.data.isSome) ∧
      (e = .dataFromUpperInterface → msg.source = .upperInterconnect) ∧
      (e = .getS ∨ e = .getM → msg.source = .lowerInterconnect ∧ (msg.complementaryValue == 2) = false) := by
  rw [absHomeMsg] at hevent
  cases hsource : msg.source with
  | self =>
    obtain rfl : LLCEventId.replacement = e := by simpa [hsource, Home.event] using hevent
    simp [(hmsg.self hsource).1, isLLCDataEvent]
  | upperInterconnect =>
    obtain rfl : LLCEventId.dataFromUpperInterface = e := by simpa [hsource, Home.event] using hevent
    simp [(hmsg.upper hsource).1, isLLCDataEvent]
  | lowerInterconnect =>
    cases hdata : msg.data with
    | some bytes =>
      obtain rfl : LLCEventId.dataFromLowerInterface = e := by
        simpa [hsource, hdata, Home.event] using hevent
      simp [isLLCDataEvent]
    | none =>
      simp only [hsource, hdata, Option.isSome_none, Bool.false_eq_true, if_false, Home.event,
        reqOf] at hevent
      split_ifs at hevent <;> simp only [Except.ok.injEq] at hevent <;>
        subst hevent <;> simp_all [isLLCDataEvent, requestTypeGetS, requestTypeGetM]

/-- Processing a message runs the actions of its cell. -/
theorem llcProcess_eq {P : LLCProtocol τ} {holds : τ → Bool} (hP : LawfulLLC P holds) {t : Topology}
    (c : LineController τ) {msg : Message} (hmsg : HomeMsgOk t msg) :
    P.process t.llcConfig c msg =
      match (absHome P.initial c).event t.llcId (absHomeMsg msg) with
      | Except.error e => .error e
      | .ok e =>
        match LLCMESIProtocol.handleAction t.llcConfig P.fsm
          (P.fsm.getActions (absHome P.initial c).state e) msg (c.slot.readLineBits P.initial)
          (P.fsm.getNextState (absHome P.initial c).state e) with
        | Except.error e => .error e
        | .ok actions => c.execActions t.llcConfig actions := by
  rw [readEvent_abs P.initial c hmsg, LLCProtocol.process, LLCProtocol.processRequest, Topology.llcConfig]
  dsimp only
  cases LLCMSIProtocol.readEvent t.llcId (c.slot.readLineBits P.initial) msg with
  | error e => rfl
  | ok event =>
    cases event with
    | none => rfl
    | some e =>
      dsimp only
      rw [hP.handleAction_eq]
      rfl

/-- The last-level cache that processes a message takes the cell of its table in the skeleton. -/
theorem llcProcess_abs {P : LLCProtocol τ} {holds : τ → Bool} (hP : LawfulLLC P holds) {t : Topology}
    {c c' : LineController τ} {msg : Message} {out : List Emission} (hmsg : HomeMsgOk t msg)
    (hholds : holds (absHome P.initial c).state → c.slot.readCacheLine.isSome)
    (h : P.process t.llcConfig c msg = .ok (c', out)) :
    (absHome P.initial c).process P.fsm t.llcId (absHomeMsg msg) =
        .ok (absHome P.initial c', absHomeOut out) ∧
      (holds (absHome P.initial c').state → c'.slot.readCacheLine.isSome) ∧
      ∀ e ∈ out, HomeEmissionOk t e := by
  rw [llcProcess_eq hP c hmsg] at h
  rw [Home.process]
  cases hevent : (absHome P.initial c).event t.llcId (absHomeMsg msg) with
  | error e => simp [hevent] at h
  | ok e =>
  rw [hevent] at h
  dsimp only at h ⊢
  have howner : (absHomeMsg msg).owner t.llcId = msg.owner := by
    rw [absHomeMsg]
    split
    · next hself => exact (hmsg.self hself).2.1.symm
    · rfl
    · split <;> rfl
  have hshape := hP.actions_mem (absHome P.initial c).state e
  obtain ⟨hfaultShape, hstallShape⟩ := eq_of_mem_llcShape hshape
  have hnext : P.fsm.isValidState (P.fsm.getNextState (absHome P.initial c).state e) = false →
      P.fsm.getNextState (absHome P.initial c).state e = P.initial := hP.eq_initial _
  rw [howner, Home.take]
  set s := (absHome P.initial c).state
  by_cases hfault : LLCActionId.fault ∈ P.fsm.getActions s e
  · rw [hfaultShape hfault] at h
    simp [LLCMESIProtocol.handleAction, LLCMSIProtocol.handleAction, LLCMSIProtocol.addAction] at h
  by_cases hstall : LLCActionId.stall ∈ P.fsm.getActions s e
  · rw [hstallShape hstall] at h
    simp [LLCMESIProtocol.handleAction, LLCMSIProtocol.handleAction, LLCMSIProtocol.addAction] at h
  obtain ⟨hdataEvent, hupper, hlower⟩ := event_abs hmsg hevent
  have hact : Home.responds (P.fsm.getActions s e) →
      P.fsm.hasAction s e .sendData ∨ P.fsm.hasAction s e .sendExeclusiveData := by
    intro hr
    simpa [Home.responds, Fsm.hasAction] using hr
  have hrespond : Home.responds (P.fsm.getActions s e) →
      e = .dataFromUpperInterface ∨ holds s ∧ (e = .getS ∨ e = .getM) :=
    fun hr => hP.holds_respond s e (hact hr)
  have hmark : LLCActionId.sendData ∈ P.fsm.getActions s e → (msg.complementaryValue == 2) = false := by
    intro hsend
    rcases hrespond (by simp [Home.responds, hsend]) with he | ⟨-, he⟩
    · simp [(hmsg.upper (hupper he)).2]
    · exact (hlower he).2
  have hself : Home.responds (P.fsm.getActions s e) → msg.source ≠ .self := by
    intro hr
    rcases hrespond hr with he | ⟨-, he⟩
    · simp [hupper he]
    · simp [(hlower he).1]
  obtain ⟨before, after, hactions, heffects, hok⟩ := llcHandleAction_eq t P.fsm
    (c.slot.readLineBits P.initial) (P.fsm.getNextState s e) hmsg hshape hfault hstall hmark hself
  simp only [hactions] at h
  obtain ⟨o₁, pending₁, o₂, heff₁, heff₂, ho⟩ := heffects (c.pending.map Message.owner)
  have hline : ∀ c₀ : LineController τ,
      (holds s → c₀.slot.readCacheLine.isSome) → Home.responds (P.fsm.getActions s e) →
      msg.source = .lowerInterconnect → msg.data = none → c₀.slot.readCacheLine.isSome := by
    intro c₀ hc₀ hr hsource _
    rcases hrespond hr with he | ⟨hs, -⟩
    · simp [hupper he] at hsource
    · exact hc₀ hs
  obtain ⟨c₁, out₁, out₂, h₁, h₂, rfl⟩ := execActions_append h
  obtain ⟨hslot₁, hpending₁, habs₁, hem₁⟩ := execActions_home heff₁
    (fun a ha => hok a (List.mem_append_left _ ha) c (hline c hholds)) h₁
  obtain ⟨c₂, outU, out₃, hupd, h₃, rfl⟩ := execActions_cons h₂
  obtain ⟨rfl, hU⟩ := updateCacheLine_updated hupd
  have hbytes₂ : holds s → Home.responds (P.fsm.getActions s e) → c₂.slot.readCacheLine.isSome := by
    intro hs hr
    exact hU.bytes (hP.respond_valid s e (hact hr)) (hslot₁ ▸ hholds hs)
  obtain ⟨hslot₃, hpending₃, habs₃, hem₃⟩ := execActions_home (by rw [hU.pending, hpending₁]; exact heff₂)
    (fun a ha => hok a (List.mem_append_right _ ha) c₂ fun hr =>
      hline c₂ (fun hs => hbytes₂ hs hr) hr) h₃
  have hbits : c'.slot.readLineBits P.initial =
      { valid := P.fsm.isValidState (P.fsm.getNextState s e), state := P.fsm.getNextState s e,
        ownerId :=
          if P.fsm.isValidState (P.fsm.getNextState s e) then
            Home.ownerAfter (P.fsm.getActions s e) (absHome P.initial c).owner msg.owner
          else none } := by
    rw [hslot₃]
    cases hv : P.fsm.isValidState (P.fsm.getNextState s e) with
    | true => rw [hU.bits hv]; simp [absHome, hv]
    | false => rw [hU.invalid hv, hP.eq_initial _ hv]; rfl
  have hlocation : c'.slot.map Resident.location =
      if P.fsm.isValidState (P.fsm.getNextState s e) then
        Home.locationAfter (absHome P.initial c).location (absHomeMsg msg).hasData
      else none := by
    have hd : (absHomeMsg msg).hasData = msg.data.isSome := by
      rw [absHomeMsg]
      split
      · next hs => simp [HomeMsg.hasData, (hmsg.self hs).1]
      · next hs => simp [HomeMsg.hasData, (hmsg.upper hs).1]
      · split <;> simp_all [HomeMsg.hasData]
    rw [hslot₃, hd]
    cases hv : P.fsm.isValidState (P.fsm.getNextState s e) with
    | true => simpa [hslot₁, absHome] using hU.location hv hmsg.size
    | false => rw [hU.invalid hv]; rfl
  refine ⟨?_, fun hh => ?_, fun m hm => ?_⟩
  · rw [if_neg hfault, if_neg hstall]
    have hout : absHomeOut (out₁ ++ ([] ++ out₃)) = o₁.append o₂ := by
      rw [List.nil_append, absHomeOut_append, habs₁, habs₃]
    rw [hout, ho]
    simp [absHome, hbits, hlocation, hpending₃]
  · have hs : (absHome P.initial c').state = P.fsm.getNextState s e := by simp [absHome, hbits]
    rw [hs] at hh
    have hv : P.fsm.isValidState (P.fsm.getNextState s e) = true := by
      by_contra hv
      rw [hnext (by simpa using hv), hP.holds_initial] at hh
      exact Bool.noConfusion hh
    rw [hslot₃]
    cases he : isLLCDataEvent e with
    | true => exact hU.filled hv (hdataEvent ▸ he) (hmsg.size (hdataEvent ▸ he))
    | false => exact hU.bytes hv (hslot₁ ▸ hholds (hP.holds_next s e hh he))
  · rw [List.nil_append] at hm
    exact (List.mem_append.1 hm).elim (hem₁ m) (hem₃ m)

/-- The last-level cache faults only on a Fault cell, where the skeleton faults too. -/
theorem llcProcess_abs_fault {P : LLCProtocol τ} {holds : τ → Bool} (hP : LawfulLLC P holds) {t : Topology}
    {c : LineController τ} {msg : Message} (hmsg : HomeMsgOk t msg)
    (h : P.process t.llcConfig c msg = .error .fault) :
    (absHome P.initial c).process P.fsm t.llcId (absHomeMsg msg) = .error .fault := by
  rw [llcProcess_eq hP c hmsg] at h
  rw [Home.process]
  cases hevent : (absHome P.initial c).event t.llcId (absHomeMsg msg) with
  | error e => simpa [hevent] using h
  | ok e =>
  rw [hevent] at h
  dsimp only at h ⊢
  have hshape := hP.actions_mem (absHome P.initial c).state e
  obtain ⟨hfaultShape, hstallShape⟩ := eq_of_mem_llcShape hshape
  rw [Home.take]
  set s := (absHome P.initial c).state
  by_cases hfault : LLCActionId.fault ∈ P.fsm.getActions s e
  · rw [if_pos hfault]
  exfalso
  by_cases hstall : LLCActionId.stall ∈ P.fsm.getActions s e
  · rw [hstallShape hstall] at h
    simp [LLCMESIProtocol.handleAction, LLCMSIProtocol.handleAction, LLCMSIProtocol.addAction] at h
  obtain ⟨actions, hactions⟩ : ∃ actions, LLCMESIProtocol.handleAction t.llcConfig P.fsm
      (P.fsm.getActions s e) msg (c.slot.readLineBits P.initial) (P.fsm.getNextState s e) =
        .ok actions := by
    simp only [llcShapes, List.mem_cons, List.not_mem_nil, or_false] at hshape
    rcases hshape with ha | ha | ha | ha | ha | ha | ha | ha | ha | ha | ha | ha | ha | ha | ha <;>
      simp only [ha, List.mem_cons, List.not_mem_nil, or_false, not_true_eq_false] at hfault hstall <;>
      rw [ha] <;> exact ⟨_, rfl⟩
  simp only [hactions] at h
  exact execActions_ne_fault _ h

end Octopus.Snoop
