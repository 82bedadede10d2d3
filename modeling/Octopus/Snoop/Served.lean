import Octopus.Snoop.Accounting

/-!
# Who waits for an answer

A private cache has pending requests exactly while the state of its line says that it waits for data, and the
last-level cache has pending reads at least while its state says that it waits for main memory. So data that
arrives always finds a request to answer, and a cache in a stable state owes its processor nothing. The argument
goes through the controller actions of a row, which change the pending requests and the line's bits only.
-/

namespace Octopus.Snoop

open Lib LineController

section Effects

variable {σ : Type} {cfg : ControllerConfig} {c c' : LineController σ} {out : List Emission}

/-- What an action does to the pending requests. -/
def pendingEffect (pending : List Message) : ControllerAction σ → List Message
  | .removePending _ => []
  | .addPending msg => pending ++ [msg]
  | _ => pending

/-- What an action does to the state of the line. -/
def stateEffect (initial state : σ) : ControllerAction σ → σ
  | .updateCacheLine _ line => if line.valid then line.state else initial
  | _ => state

/-- Writing a store's bytes leaves the pending requests and the line's state. -/
theorem modifyData_effect {msg : Message} (h : c.modifyData cfg msg = .ok (c', out)) :
    c'.pending = c.pending ∧ ∀ initial, (c'.slot.readLineBits initial).state = (c.slot.readLineBits initial).state := by
  refine ⟨?_, fun initial => by rw [(modifyData_quiet h).bits]⟩
  rw [modifyData] at h
  dsimp only at h
  split at h
  · rw [← (Prod.mk.inj (Except.ok.inj h)).1]
  split at h
  · rw [← (Prod.mk.inj (Except.ok.inj h)).1]
  split at h
  · simp at h
  · rw [← (Prod.mk.inj (Except.ok.inj h)).1]

/-- An action changes the pending requests and the state of the line as its effects say. -/
theorem execAction_effect {a : ControllerAction σ} (h : c.execAction cfg a = .ok (c', out)) :
    c'.pending = pendingEffect c.pending a ∧ ∀ initial,
      (c'.slot.readLineBits initial).state = stateEffect initial (c.slot.readLineBits initial).state a := by
  cases a with
  | removePending msg =>
    refine ⟨?_, fun initial => by rw [(removePendingAndRespond_quiet h).bits]; rfl⟩
    rw [execAction, removePendingAndRespond] at h
    split at h
    · simp at h
    split at h
    · simp at h
    · rw [← (Prod.mk.inj (Except.ok.inj h)).1]
      rfl
  | updateCacheLine msg line =>
    have hupdated := (updateCacheLine_updated h).2
    refine ⟨hupdated.pending, fun initial => ?_⟩
    rw [stateEffect]
    cases hvalid : line.valid with
    | true =>
      rw [hupdated.bits hvalid]
      rfl
    | false =>
      rw [hupdated.invalid hvalid]
      rfl
  | modifyData msg => exact modifyData_effect h
  | _ =>
    rw [← (Prod.mk.inj (Except.ok.inj h)).1]
    exact ⟨rfl, fun _ => rfl⟩

/-- A list of actions has the effects of its actions, one after the other. -/
theorem execActions_effect {actions : List (ControllerAction σ)} (h : c.execActions cfg actions = .ok (c', out)) :
    c'.pending = actions.foldl pendingEffect c.pending ∧ ∀ initial,
      (c'.slot.readLineBits initial).state =
        actions.foldl (stateEffect initial) (c.slot.readLineBits initial).state := by
  induction actions generalizing c out with
  | nil =>
    rw [← (Prod.mk.inj (Except.ok.inj h)).1]
    exact ⟨rfl, fun _ => rfl⟩
  | cons a actions ih =>
    cases execActions_cons h with
    | intro c₁ h =>
      cases h with
      | intro out₁ h =>
        cases h with
        | intro out₂ h =>
          have hfirst := execAction_effect h.1
          have hrest := ih h.2.1
          rw [hfirst.1] at hrest
          refine ⟨hrest.1, fun initial => ?_⟩
          rw [hrest.2 initial, hfirst.2 initial, List.foldl_cons]

end Effects

section Rows

variable {σ τ : Type}

/-- The pending requests of a private cache after a row of its table. -/
def pendingAfter (actions : List ActionId) (msg : Message) (pending : List Message) : List Message :=
  if ActionId.hit ∈ actions ∧ msg.source ≠ .lowerInterconnect then []
  else if ActionId.getS ∈ actions ∨ ActionId.getM ∈ actions then pending ++ [msg]
  else pending

/-- The effects of the controller actions of a row of a private cache. -/
theorem handleAction_effect (cfg : ControllerConfig) (fsm : Fsm σ EventId ActionId) {actions : List ActionId}
    (msg : Message) (line : GenericCacheLine σ) (next : σ) (hshape : actions ∈ l1Shapes)
    (hfault : ActionId.fault ∉ actions) (hstall : ActionId.stall ∉ actions) :
    ∃ built, MESIProtocol.handleAction cfg fsm actions msg line next = .ok built ∧
      (∀ pending, built.foldl pendingEffect pending = pendingAfter actions msg pending) ∧
      ∀ initial state, built.foldl (stateEffect initial) state = if fsm.isValidState next then next else initial := by
  simp only [l1Shapes, List.mem_cons, List.not_mem_nil, or_false] at hshape
  rcases hshape with rfl | rfl | rfl | rfl | rfl | rfl | rfl | rfl | rfl | rfl | rfl | rfl | rfl
  case inr.inl => simp at hstall
  case inr.inr.inl => simp at hfault
  all_goals
    refine ⟨_, rfl, fun pending => ?_, fun initial state => ?_⟩
    · cases hsource : msg.source <;> simp [pendingEffect, pendingAfter, hsource]
    · cases hsource : msg.source <;> simp [stateEffect]

/-- A private cache that processes a message has the pending requests and the state that its row says. -/
theorem process_effect {P : L1Protocol σ} {holds : σ → Bool} (hP : LawfulL1 P holds) {cfg : ControllerConfig}
    {c c' : LineController σ} {msg msg' : Message} {e : EventId} {out : List Emission}
    (hread : P.readEvent cfg.id msg = .ok (e, msg')) (h : P.process cfg c msg = .ok (c', out)) :
    ActionId.fault ∉ P.fsm.getActions (absCore P.initial c).state e ∧
      (ActionId.stall ∈ P.fsm.getActions (absCore P.initial c).state e ∧ c' = c ∨
        ActionId.stall ∉ P.fsm.getActions (absCore P.initial c).state e ∧
          c'.pending = pendingAfter (P.fsm.getActions (absCore P.initial c).state e) msg' c.pending ∧
          (absCore P.initial c').state = P.fsm.getNextState (absCore P.initial c).state e) := by
  rw [process_eq hP cfg c hread] at h
  have hshape := hP.actions_mem (absCore P.initial c).state e
  have hsingle := eq_of_mem_shape hshape
  by_cases hfault : ActionId.fault ∈ P.fsm.getActions (absCore P.initial c).state e
  · rw [hsingle.1 hfault] at h
    simp [MESIProtocol.handleAction, MSIProtocol.handleAction, MSIProtocol.addAction] at h
  refine ⟨hfault, ?_⟩
  by_cases hstall : ActionId.stall ∈ P.fsm.getActions (absCore P.initial c).state e
  · refine .inl ⟨hstall, ?_⟩
    rw [hsingle.2 hstall] at h
    have hsame : c = c' ∧ [⟨.processingQueue, .request, msg'⟩] = out := by
      simpa [MESIProtocol.handleAction, MSIProtocol.handleAction, MSIProtocol.addAction, execActions,
        execAction] using h
    exact hsame.1.symm
  · refine .inr ⟨hstall, ?_⟩
    cases handleAction_effect cfg P.fsm msg' (c.slot.readLineBits P.initial)
      (P.fsm.getNextState (absCore P.initial c).state e) hshape hfault hstall with
    | intro built hbuilt =>
      rw [hbuilt.1] at h
      have heffect := execActions_effect h
      refine ⟨heffect.1.trans (hbuilt.2.1 _), ?_⟩
      have hstate := (heffect.2 P.initial).trans (hbuilt.2.2 _ _)
      rw [absCore, hstate]
      cases hvalid : P.fsm.isValidState (P.fsm.getNextState (absCore P.initial c).state e) with
      | true => rfl
      | false => exact (hP.eq_initial _ hvalid).symm

/-- The effects of the controller actions of a row of the last-level cache. -/
theorem llcHandleAction_effect (cfg : ControllerConfig) (fsm : Fsm τ LLCEventId LLCActionId)
    {actions : List LLCActionId} (msg : Message) (line : GenericCacheLine τ) (next : τ)
    (hshape : actions ∈ llcShapes) (hfault : LLCActionId.fault ∉ actions) (hstall : LLCActionId.stall ∉ actions) :
    ∃ built, LLCMESIProtocol.handleAction cfg fsm actions msg line next = .ok built ∧
      (∀ pending, built.foldl pendingEffect pending =
        if LLCActionId.getData ∈ actions then pending ++ [msg]
        else if Home.responds actions = true ∧ msg.source ≠ .lowerInterconnect then []
        else pending) ∧
      ∀ initial state, built.foldl (stateEffect initial) state = if fsm.isValidState next then next else initial := by
  simp only [llcShapes, List.mem_cons, List.not_mem_nil, or_false] at hshape
  rcases hshape with rfl | rfl | rfl | rfl | rfl | rfl | rfl | rfl | rfl | rfl | rfl | rfl | rfl | rfl | rfl
  case inr.inl => simp at hstall
  case inr.inr.inl => simp at hfault
  all_goals
    refine ⟨_, rfl, fun pending => ?_, fun initial state => ?_⟩
    · cases hsource : msg.source <;> simp [pendingEffect, Home.responds]
    · cases hsource : msg.source <;> simp [stateEffect]

/-- The last-level cache that processes a message has the pending reads and the state that its row says. -/
theorem llcProcess_effect {P : LLCProtocol τ} {holds : τ → Bool} (hP : LawfulLLC P holds) {t : Topology}
    {c c' : LineController τ} {msg : Message} {out : List Emission} (hmsg : HomeMsgOk t msg)
    (h : P.process t.llcConfig c msg = .ok (c', out)) :
    ∃ e, (absHome P.initial c).event t.llcId (absHomeMsg msg) = .ok e ∧
      LLCActionId.fault ∉ P.fsm.getActions (absHome P.initial c).state e ∧
      LLCActionId.stall ∉ P.fsm.getActions (absHome P.initial c).state e ∧
      (c'.pending =
        if LLCActionId.getData ∈ P.fsm.getActions (absHome P.initial c).state e then c.pending ++ [msg]
        else if Home.responds (P.fsm.getActions (absHome P.initial c).state e) = true ∧
          msg.source ≠ .lowerInterconnect then []
        else c.pending) ∧
      (absHome P.initial c').state = P.fsm.getNextState (absHome P.initial c).state e := by
  rw [llcProcess_eq hP c hmsg] at h
  split at h
  · simp at h
  · next e hevent =>
    refine ⟨e, hevent, ?_⟩
    have hshape := hP.actions_mem (absHome P.initial c).state e
    have hsingle := eq_of_mem_llcShape hshape
    by_cases hfault : LLCActionId.fault ∈ P.fsm.getActions (absHome P.initial c).state e
    · rw [hsingle.1 hfault] at h
      simp [LLCMESIProtocol.handleAction, LLCMSIProtocol.handleAction, LLCMSIProtocol.addAction, bind,
        Except.bind] at h
    by_cases hstall : LLCActionId.stall ∈ P.fsm.getActions (absHome P.initial c).state e
    · rw [hsingle.2 hstall] at h
      simp [LLCMESIProtocol.handleAction, LLCMSIProtocol.handleAction, LLCMSIProtocol.addAction, bind,
        Except.bind] at h
    refine ⟨hfault, hstall, ?_⟩
    cases llcHandleAction_effect t.llcConfig P.fsm msg (c.slot.readLineBits P.initial)
      (P.fsm.getNextState (absHome P.initial c).state e) hshape hfault hstall with
    | intro built hbuilt =>
      rw [hbuilt.1] at h
      have heffect := execActions_effect h
      refine ⟨heffect.1.trans (hbuilt.2.1 _), ?_⟩
      have hstate := (heffect.2 P.initial).trans (hbuilt.2.2 _ _)
      rw [absHome, hstate]
      cases hvalid : P.fsm.isValidState (P.fsm.getNextState (absHome P.initial c).state e) with
      | true => rfl
      | false => exact (hP.eq_initial _ hvalid).symm

end Rows

/-- What the pending requests ask of the tables. -/
structure ServeLaws {σ τ : Type} (P : Protocols σ τ) (waits : σ → Bool) (fetches : τ → Bool) : Prop where
  waits_initial : waits P.l1.initial = false
  /-- A request makes the cache wait, an answer ends that, and nothing else does either. -/
  waits_next : ∀ s e, ActionId.fault ∉ P.l1.fsm.getActions s e → ActionId.stall ∉ P.l1.fsm.getActions s e →
    waits (P.l1.fsm.getNextState s e) =
      if ActionId.hit ∈ P.l1.fsm.getActions s e ∧ e ≠ .load ∧ e ≠ .store then false
      else if ActionId.getS ∈ P.l1.fsm.getActions s e ∨ ActionId.getM ∈ P.l1.fsm.getActions s e then true
      else waits s
  /-- Only a cache that waits is answered. -/
  waits_hit : ∀ s e, ActionId.hit ∈ P.l1.fsm.getActions s e → e = .load ∨ e = .store ∨ waits s = true
  /-- A cache that waits is not in a stable state. -/
  waits_stable : ∀ s, P.l1.fsm.isStable s = true → waits s = false
  fetches_initial : fetches P.llc.initial = false
  /-- A last-level cache that has answered a fill waits no longer. -/
  fetches_next : ∀ s e, fetches (P.llc.fsm.getNextState s e) = true →
    LLCActionId.fault ∉ P.llc.fsm.getActions s e → LLCActionId.stall ∉ P.llc.fsm.getActions s e →
    LLCActionId.getData ∈ P.llc.fsm.getActions s e ∨
      fetches s = true ∧ Home.responds (P.llc.fsm.getActions s e) = false
  /-- Requests are answered from the line, and fills where the cache waits for them. -/
  responds : ∀ s e, Home.responds (P.llc.fsm.getActions s e) = true →
    e = .getS ∨ e = .getM ∨ e = .dataFromUpperInterface ∧ fetches s = true

section Controllers

variable {t : Topology} {σ τ : Type} {P : Protocols σ τ} {holds : σ → Bool} {llcHolds : τ → Bool} {waits : σ → Bool}
  {fetches : τ → Bool}

/-- A message is read as a load or a store exactly if it comes from the processor. -/
theorem readEvent_request_iff (hP : LawfulL1 P.l1 holds) {cfg : ControllerConfig} {msg msg' : Message} {e : EventId}
    (h : P.l1.readEvent cfg.id msg = .ok (e, msg')) : msg'.source = .lowerInterconnect ↔ e = .load ∨ e = .store := by
  by_cases hsource : msg.source = .lowerInterconnect
  · have hread : P.l1.readEvent cfg.id msg = .ok (if msg.complementaryValue = 0 then .load else .store, msg) := by
      rw [hP.readEvent_other cfg.id msg (by simp [hsource])]
      simp [MSIProtocol.readEvent, hsource, Except.map]
    rw [hread, Except.ok.injEq, Prod.mk.injEq] at h
    rw [← h.1, ← h.2]
    refine ⟨fun _ => ?_, fun _ => hsource⟩
    split
    · exact .inl rfl
    · exact .inr rfl
  · have hother := readEvent_ne_request hP hsource h
    refine ⟨fun hlower => absurd hlower hother.2.2, fun he => ?_⟩
    cases he with
    | inl he => exact absurd he hother.1
    | inr he => exact absurd he hother.2.1

/-- A private cache that processes a message still has pending requests exactly while it waits. -/
theorem process_served (hP : LawfulL1 P.l1 holds) (hW : ServeLaws P waits fetches) {cfg : ControllerConfig}
    {c c' : LineController σ} {msg : Message} {out : List Emission} (h : P.l1.process cfg c msg = .ok (c', out))
    (hc : c.pending ≠ [] ↔ waits (absCore P.l1.initial c).state = true) :
    c'.pending ≠ [] ↔ waits (absCore P.l1.initial c').state = true := by
  cases hread : P.l1.readEvent cfg.id msg with
  | error e => simp [L1Protocol.process, L1Protocol.processRequest, hread] at h
  | ok read =>
    have heffect := process_effect hP (e := read.1) hread h
    have hrequest := readEvent_request_iff hP (e := read.1) hread
    cases heffect.2 with
    | inl hstall => rwa [hstall.2]
    | inr hrow =>
      have hnext := hW.waits_next _ _ heffect.1 hrow.1
      rw [hrow.2.1, hrow.2.2, hnext, pendingAfter]
      by_cases hhit : ActionId.hit ∈ P.l1.fsm.getActions (absCore P.l1.initial c).state read.1 ∧
          read.2.source ≠ .lowerInterconnect
      · have hne : read.1 ≠ .load ∧ read.1 ≠ .store := not_or.1 fun he => hhit.2 (hrequest.2 he)
        simp [hhit, hne]
      · have hne : ¬ (ActionId.hit ∈ P.l1.fsm.getActions (absCore P.l1.initial c).state read.1 ∧
            read.1 ≠ .load ∧ read.1 ≠ .store) := by
          intro hne
          exact hhit ⟨hne.1, fun hlower => not_or.2 hne.2 (hrequest.1 hlower)⟩
        rw [if_neg hhit, if_neg hne]
        split
        · simp
        · exact hc

/-- The last-level cache that processes a message still has pending reads while it waits for main memory. -/
theorem llcProcess_served (hP : LawfulLLC P.llc llcHolds) (hW : ServeLaws P waits fetches) {c c' : LineController τ}
    {msg : Message} {out : List Emission} (hmsg : HomeMsgOk t msg)
    (h : P.llc.process t.llcConfig c msg = .ok (c', out))
    (hc : fetches (absHome P.llc.initial c).state = true → c.pending ≠ []) :
    fetches (absHome P.llc.initial c').state = true → c'.pending ≠ [] := by
  intro hfetches
  cases llcProcess_effect hP hmsg h with
  | intro e heffect =>
    rw [heffect.2.2.2.2] at hfetches
    rw [heffect.2.2.2.1]
    cases hW.fetches_next _ e hfetches heffect.2.1 heffect.2.2.1 with
    | inl hget => simp [hget]
    | inr hkept =>
      rw [hkept.2]
      split
      · simp
      · simpa using hc hkept.1

end Controllers

section Systems

variable {t : Topology} {σ τ : Type} {P : Protocols σ τ} {holds : σ → Bool} {llcHolds : τ → Bool}
  {s s' : System t σ τ}

/-- A private cache processes a message, or is left alone. -/
def Takes (P : L1Protocol σ) (cfg : ControllerConfig) (c c' : LineController σ) : Prop :=
  c' = c ∨ ∃ msg out, P.process cfg c msg = .ok (c', out)

/-- One private cache processes a message. -/
theorem runL1_takes {j : Fin t.n} {msg : Message} (h : s.runL1 P.l1 j msg = .ok s') (i : Fin t.n) :
    Takes P.l1 (t.l1Config i) (s.l1 i) (s'.l1 i) := by
  rw [System.runL1] at h
  split at h
  · simp at h
  · next c out hprocess =>
    rw [← Except.ok.inj h]
    by_cases hi : i = j
    · subst hi
      refine .inr ⟨msg, out, ?_⟩
      simpa [System.emitL1] using hprocess
    · exact .inl (by simp [System.emitL1, hi])

/-- A processor request or a replacement. -/
theorem request_takes {j : Fin t.n} {msg : Message} (h : s.request P.l1 j msg = some (.ok s')) (i : Fin t.n) :
    Takes P.l1 (t.l1Config i) (s.l1 i) (s'.l1 i) := by
  rw [System.request] at h
  split at h
  · exact runL1_takes (s := { s with nextId := s.nextId + 1 }) (Option.some.inj h) i
  · simp at h

/-- In every step, each private cache processes at most one message. -/
theorem step_takes {l : Label t.n} (h : s.step P l = some (.ok s')) (i : Fin t.n) :
    Takes P.l1 (t.l1Config i) (s.l1 i) (s'.l1 i) := by
  cases l with
  | load j offset =>
    rw [System.step] at h
    split at h
    · exact request_takes h i
    · simp at h
  | store j offset bytes =>
    rw [System.step] at h
    split at h
    · exact request_takes h i
    · simp at h
  | replacement j => exact request_takes h i
  | evict =>
    rw [System.step] at h
    split at h
    · split at h
      · exact .inl (congrFun (receiveLLC_frame (Option.some.inj h)).1 i)
      · simp at h
    · simp at h
  | grant k =>
    rw [System.step] at h
    split at h
    · have hbroadcast := Option.some.inj h
      rw [System.broadcast] at hbroadcast
      split at hbroadcast
      · simp at hbroadcast
      · next results hresults =>
        rw [(receiveLLC_frame hbroadcast).1]
        exact .inr ⟨_, _, Lib.sequence_eq_ok.1 hresults i⟩
    · simp at h
  | retry j k =>
    rw [System.step] at h
    split at h
    · split at h
      · exact runL1_takes (s := { s with waiting := _ }) (Option.some.inj h) i
      · simp at h
    · simp at h
  | deliver k =>
    rw [System.step] at h
    split at h
    · dsimp only at h
      split at h
      · exact .inl (congrFun (receiveLLC_frame (Option.some.inj h)).1 i)
      · split at h
        · exact runL1_takes (s := { s with flight := _ }) (Option.some.inj h) i
        · simp at h
    · simp at h
  | fill k =>
    rw [System.step] at h
    split at h
    · exact .inl (congrFun (drainLLC_frame (Option.some.inj h)).1 i)
    · simp at h

/-- What the last-level cache keeps while it processes a well-formed message. -/
def KeptByLLC (t : Topology) (P : LLCProtocol τ) (I : LineController τ → Prop) : Prop :=
  ∀ c c' msg out, HomeMsgOk t msg → P.process t.llcConfig c msg = .ok (c', out) → I c → I c'

/-- It is kept through a drain. -/
theorem drain_keeps {I : LineController τ → Prop} (hI : KeptByLLC t P.llc I) {fuel : Nat} {c c' : LineController τ}
    {q q' : FRFCFSBuffer} {out : List Emission} (hq : ∀ e ∈ q.buffer, ElementOk t e) (hdirty : q.dirty = true)
    (h : drain P.llc t.llcConfig fuel c q = .ok (c', q', out)) (hc : I c) : I c' := by
  induction fuel generalizing c q out with
  | zero =>
    rw [← (Prod.mk.inj (Except.ok.inj h)).1]
    exact hc
  | succ fuel ih =>
    rw [drain] at h
    split at h
    · rw [← (Prod.mk.inj (Except.ok.inj h)).1]
      exact hc
    · next msg q₁ hfirst =>
      have hscan := getFirstReady_abs c hq hdirty hfirst
      split at h
      · simp at h
      · next c₁ out₁ hprocess =>
        split at h
        · simp at h
        · next c₂ q₂ out₂ hdrain =>
          have hresult := Prod.mk.inj (Except.ok.inj h)
          rw [hresult.1, (Prod.mk.inj hresult.2).1] at hdrain
          exact ih hscan.1 hscan.2.2.1 hdrain (hI c c₁ msg out₁ hscan.2.2.2.1 hprocess hc)

/-- It is kept when the last-level cache works on a queue. -/
theorem drainLLC_keeps {I : LineController τ → Prop} (hI : KeptByLLC t P.llc I) {q : FRFCFSBuffer}
    (hq : ∀ e ∈ q.buffer, ElementOk t e) (hdirty : q.dirty = true) (h : s.drainLLC P.llc q = .ok s')
    (hc : I s.llc) : I s'.llc := by
  rw [System.drainLLC] at h
  split at h
  · simp at h
  · next c q' out hdrain =>
    rw [← Except.ok.inj h]
    exact drain_keeps hI hq hdirty hdrain hc

/-- A message that enters the queue of the last-level cache. -/
theorem elementOk_append {q : FRFCFSBuffer} (hq : ∀ e ∈ q.buffer, ElementOk t e) {msg : Message}
    (hmsg : HomeMsgOk t msg) : ∀ e ∈ q.buffer ++ [⟨msg, .nonReady⟩], ElementOk t e := by
  intro e he
  cases List.mem_append.1 he with
  | inl he => exact hq e he
  | inr he =>
    rw [List.mem_singleton.1 he]
    exact ⟨hmsg, fun h => by simp at h⟩

/-- An answer of main memory that enters the queue of the last-level cache. -/
theorem elementOk_fill {q : FRFCFSBuffer} (hq : ∀ e ∈ q.buffer, ElementOk t e) (read : Message) :
    ∀ e ∈ (q.pushFrontOrdered (fillMessage t read)).buffer, ElementOk t e := by
  intro e he
  simp only [FRFCFSBuffer.pushFrontOrdered, List.mem_append, List.mem_cons] at he
  cases he with
  | inl he => exact hq e (List.mem_of_mem_take he)
  | inr he =>
    cases he with
    | inl he =>
      rw [he]
      exact ⟨homeMsgOk_fill read, fun _ => by simp [fillMessage]⟩
    | inr he => exact hq e (List.mem_of_mem_drop he)

/-- It is kept when a message enters the last-level cache. -/
theorem receiveLLC_keeps {I : LineController τ → Prop} (hI : KeptByLLC t P.llc I)
    (hq : ∀ e ∈ s.queue.buffer, ElementOk t e) {msg : Message} (hmsg : HomeMsgOk t msg)
    (h : s.receiveLLC P.llc msg = .ok s') (hc : I s.llc) : I s'.llc := by
  rw [System.receiveLLC, FRFCFSBuffer.pushBack] at h
  simp only [Bool.not_true, Bool.false_and, Bool.false_eq_true, if_false] at h
  exact drainLLC_keeps hI (q := { s.queue with buffer := s.queue.buffer ++ [⟨msg, .nonReady⟩], dirty := true })
    (elementOk_append hq hmsg) rfl h hc

/-- What the last-level cache keeps, wherever the line is, every step keeps. -/
theorem step_keeps {I : LineController τ → Prop} (hI : KeptByLLC t P.llc I)
    (hmove : ∀ c : LineController τ, I c → I { c with slot := c.slot.moveLine2WB }) (hs : s.Ok P holds llcHolds)
    {l : Label t.n} (h : s.step P l = some (.ok s')) (hc : I s.llc) : I s'.llc := by
  have hrunL1 : ∀ {s : System t σ τ} {j : Fin t.n} {msg : Message}, s.runL1 P.l1 j msg = .ok s' →
      s'.llc = s.llc := by
    intro s j msg hrun
    rw [System.runL1] at hrun
    split at hrun
    · simp at hrun
    · rw [← Except.ok.inj hrun]
      rfl
  have hrequest : ∀ {j : Fin t.n} {msg : Message}, s.request P.l1 j msg = some (.ok s') → s'.llc = s.llc := by
    intro j msg hrequest
    rw [System.request] at hrequest
    split at hrequest
    · exact hrunL1 (s := { s with nextId := s.nextId + 1 }) (Option.some.inj hrequest)
    · simp at hrequest
  cases l with
  | load j offset =>
    rw [System.step] at h
    split at h
    · rwa [hrequest h]
    · simp at h
  | store j offset bytes =>
    rw [System.step] at h
    split at h
    · rwa [hrequest h]
    · simp at h
  | replacement j => rwa [hrequest h]
  | evict =>
    rw [System.step] at h
    split at h
    · split at h
      · refine receiveLLC_keeps hI ?_ (homeMsgOk_evict s) (Option.some.inj h) ?_
        · exact hs.queue
        · exact hmove _ hc
      · simp at h
    · simp at h
  | grant k =>
    rw [System.step] at h
    split at h
    · next msg hmsg =>
      have hbroadcast := Option.some.inj h
      rw [System.broadcast] at hbroadcast
      split at hbroadcast
      · simp at hbroadcast
      · have hdata := hs.bus msg (List.mem_of_getElem? hmsg)
        refine receiveLLC_keeps hI ?_ (homeMsgOk_bus hdata) hbroadcast ?_
        · exact hs.queue
        · exact hc
    · simp at h
  | retry j k =>
    rw [System.step] at h
    split at h
    · split at h
      · rwa [hrunL1 (Option.some.inj h)]
      · simp at h
    · simp at h
  | deliver k =>
    rw [System.step] at h
    split at h
    · next f hf =>
      dsimp only at h
      split at h
      · have hmsg : HomeMsgOk t { f.msg with source := .lowerInterconnect } :=
          ⟨fun _ => (hs.flight f (List.mem_of_getElem? hf)).2, fun h => by simp at h, fun h => by simp at h⟩
        refine receiveLLC_keeps hI ?_ hmsg (Option.some.inj h) ?_
        · exact hs.queue
        · exact hc
      · split at h
        · rwa [hrunL1 (Option.some.inj h)]
        · simp at h
    · simp at h
  | fill k =>
    rw [System.step] at h
    split at h
    · next read hread =>
      refine drainLLC_keeps hI (elementOk_fill ?_ read) rfl (Option.some.inj h) ?_
      · exact hs.queue
      · exact hc
    · simp at h

end Systems

/-- The pending requests of a state agree with the states of the line. -/
structure System.Served {t : Topology} {σ τ : Type} (P : Protocols σ τ) (waits : σ → Bool) (fetches : τ → Bool)
    (s : System t σ τ) : Prop where
  core : ∀ i, (s.l1 i).pending ≠ [] ↔ waits (absCore P.l1.initial (s.l1 i)).state = true
  home : fetches (absHome P.llc.initial s.llc).state = true → s.llc.pending ≠ []

/-- In every reachable state the pending requests agree with the states of the line. -/
theorem served_inductive {t : Topology} {σ τ : Type} {P : Protocols σ τ} {holds : σ → Bool} {llcHolds : τ → Bool}
    {waits : σ → Bool} {fetches : τ → Bool} (hP : Lawful P holds llcHolds) (hW : ServeLaws P waits fetches) :
    (system t P).Inductive (System.Served P waits fetches) where
  init s hs := by
    rw [show s = System.initial t σ τ from hs]
    constructor
    · simp [System.initial, absCore, Slot.readLineBits, hW.waits_initial]
    · simp [System.initial, absHome, Slot.readLineBits, hW.fetches_initial]
  step s l s' hr hs h := by
    have hok := (ok_inductive hP).reachable hr
    constructor
    · intro i
      cases step_takes h i with
      | inl hsame =>
        rw [hsame]
        exact hs.core i
      | inr htakes =>
        cases htakes with
        | intro msg htakes =>
          cases htakes with
          | intro out hprocess => exact process_served hP.l1 hW hprocess (hs.core i)
    · apply step_keeps (I := fun c => fetches (absHome P.llc.initial c).state = true → c.pending ≠ []) _ _ hok h
        hs.home
      · exact fun c c' msg out hmsg hprocess hc => llcProcess_served hP.llc hW hmsg hprocess hc
      · intro c hc
        have hbits : (absHome P.llc.initial { c with slot := c.slot.moveLine2WB }).state =
            (absHome P.llc.initial c).state := by
          cases hslot : c.slot <;> simp [absHome, hslot, Slot.moveLine2WB, Slot.readLineBits]
        rw [hbits]
        exact hc

end Octopus.Snoop
