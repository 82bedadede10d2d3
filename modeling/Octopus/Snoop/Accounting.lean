import Mathlib.Data.List.Nodup
import Octopus.Snoop.Lawful

/-!
# Every processor request is accounted for

A load or a store that a private cache has accepted is answered, or it stands among the pending requests of
its line. Nothing else is ever answered, and a request is never answered twice. This follows from what the
controller does with each action, whatever the states of the other caches.
-/

namespace Octopus.Snoop

open Lib LineController

section Controller

variable {σ : Type} {cfg : ControllerConfig} {c c' : LineController σ} {out : List Emission}

/-- The requests that emissions answer. -/
def answered (out : List Emission) : List Nat := (emitted .lower .dataResponse out).map Message.msgId

/-- The request that an action answers or records. -/
def accepts : ControllerAction σ → List Nat
  | .hitAction msg => [msg.msgId]
  | .addPending msg => [msg.msgId]
  | _ => []

/-- The identifiers of the pending requests. -/
def outstanding (c : LineController σ) : List Nat := c.pending.map Message.msgId

/-- Answers of two lists of emissions. -/
@[simp] theorem answered_append (out out' : List Emission) : answered (out ++ out') = answered out ++ answered out' := by
  simp [answered, emitted]

/-- Without emissions nothing is answered. -/
@[simp] theorem answered_nil : answered [] = [] := rfl

/-- The bytes of the line do not change a message's identifier. -/
theorem withLineData_msgId (c : LineController σ) (msg : Message) : (c.withLineData msg).msgId = msg.msgId := by
  rw [withLineData]
  split <;> rfl

/-- Writing a store's bytes answers nothing. -/
theorem modifyData_frame {msg : Message} (h : c.modifyData cfg msg = .ok (c', out)) :
    out = [] ∧ c'.pending = c.pending := by
  rw [modifyData] at h
  dsimp only at h
  split at h
  · have hresult := Prod.mk.inj (Except.ok.inj h)
    exact ⟨hresult.2.symm, by rw [← hresult.1]⟩
  split at h
  · have hresult := Prod.mk.inj (Except.ok.inj h)
    exact ⟨hresult.2.symm, by rw [← hresult.1]⟩
  split at h
  · simp at h
  · have hresult := Prod.mk.inj (Except.ok.inj h)
    exact ⟨hresult.2.symm, by rw [← hresult.1]⟩

/-- An action that answers nothing and leaves the pending requests. -/
theorem accounts_of_frame (hout : answered out = []) (hpending : c'.pending = c.pending) :
    (answered out ++ outstanding c').Perm (outstanding c) := by
  rw [hout, outstanding, hpending, List.nil_append, outstanding]

/-- An action answers what it accepts and what was pending, or leaves it pending. -/
theorem execAction_accounts {a : ControllerAction σ} (h : c.execAction cfg a = .ok (c', out)) :
    (answered out ++ outstanding c').Perm (outstanding c ++ accepts a) := by
  cases a with
  | hitAction msg =>
    have hresult := Prod.mk.inj (Except.ok.inj h)
    rw [← hresult.1, ← hresult.2]
    simpa [answered, emitted, accepts, withLineData_msgId] using (List.perm_append_comm : ([msg.msgId] ++ outstanding c).Perm _)
  | addPending msg =>
    have hresult := Prod.mk.inj (Except.ok.inj h)
    rw [← hresult.1, ← hresult.2]
    simp [outstanding, accepts]
  | removePending msg =>
    rw [execAction, removePendingAndRespond] at h
    split at h
    · simp at h
    split at h
    · simp at h
    · have hresult := Prod.mk.inj (Except.ok.inj h)
      rw [← hresult.1, ← hresult.2]
      simp [answered, emitted, outstanding, accepts, List.filterMap_map, Function.comp_def, respondTo]
  | updateCacheLine msg line =>
    have hupdated := updateCacheLine_updated h
    simp only [accepts, List.append_nil]
    exact accounts_of_frame (by rw [hupdated.1, answered_nil]) hupdated.2.pending
  | modifyData msg =>
    have hframe := modifyData_frame h
    simp only [accepts, List.append_nil]
    exact accounts_of_frame (by rw [hframe.1, answered_nil]) hframe.2
  | _ =>
    have hresult := Prod.mk.inj (Except.ok.inj h)
    simp only [accepts, List.append_nil, ← hresult.1, ← hresult.2]
    exact accounts_of_frame (by simp [answered, emitted]) rfl

/-- A list of actions answers what it accepts and what was pending, or leaves it pending. -/
theorem execActions_accounts {actions : List (ControllerAction σ)} (h : c.execActions cfg actions = .ok (c', out)) :
    (answered out ++ outstanding c').Perm (outstanding c ++ actions.flatMap accepts) := by
  induction actions generalizing c out with
  | nil =>
    have hresult := Prod.mk.inj (Except.ok.inj h)
    rw [← hresult.1, ← hresult.2]
    simp
  | cons a actions ih =>
    rw [execActions] at h
    split at h
    · simp at h
    · next c₁ out₁ hfirst =>
      split at h
      · simp at h
      · next c₂ out₂ hrest =>
        have hresult := Prod.mk.inj (Except.ok.inj h)
        rw [hresult.1] at hrest
        rw [← hresult.2, answered_append, List.append_assoc, List.flatMap_cons]
        have hone := execAction_accounts hfirst
        have hmany := ih hrest
        calc (answered out₁ ++ (answered out₂ ++ outstanding c')).Perm
              (answered out₁ ++ (outstanding c₁ ++ actions.flatMap accepts)) := hmany.append_left _
          _ = answered out₁ ++ outstanding c₁ ++ actions.flatMap accepts := (List.append_assoc _ _ _).symm
          _ |>.Perm (outstanding c ++ accepts a ++ actions.flatMap accepts) := hone.append_right _
          _ = outstanding c ++ (accepts a ++ actions.flatMap accepts) := List.append_assoc _ _ _

end Controller

section Rows

variable {σ : Type} {cfg : ControllerConfig} {msg : Message}

/-- The request that an action of a cell answers or records. -/
def asked (msg : Message) : ActionId → List Nat
  | .hit => if msg.source = .lowerInterconnect then [msg.msgId] else []
  | .getS | .getM => [msg.msgId]
  | _ => []

/-- An action of a cell adds what it asks for. -/
theorem addAction_accepts {built built' : List (ControllerAction σ)} {a : ActionId}
    (h : MSIProtocol.addAction cfg msg built a = .ok built') :
    built'.flatMap accepts = built.flatMap accepts ++ asked msg a := by
  cases a with
  | fault => simp [MSIProtocol.addAction] at h
  | hit =>
    rw [← Except.ok.inj h]
    by_cases hsource : msg.source = .lowerInterconnect <;> simp [accepts, asked, hsource]
  | _ =>
    rw [← Except.ok.inj h]
    simp [accepts, asked]

/-- The actions of a cell add what they ask for. -/
theorem foldlM_addAction_accepts {actions : List ActionId} {built built' : List (ControllerAction σ)}
    (h : actions.foldlM (MSIProtocol.addAction cfg msg) built = .ok built') :
    built'.flatMap accepts = built.flatMap accepts ++ actions.flatMap (asked msg) := by
  induction actions generalizing built with
  | nil =>
    rw [Except.ok.inj h]
    simp
  | cons a actions ih =>
    rw [List.foldlM_cons] at h
    cases hfirst : MSIProtocol.addAction cfg msg built a with
    | error e => simp [hfirst, bind, Except.bind] at h
    | ok next =>
      simp only [hfirst, bind, Except.bind] at h
      rw [ih h, addAction_accepts hfirst, List.flatMap_cons, List.append_assoc]

/-- A row asks for what its actions ask for. -/
theorem handleAction_accepts {fsm : Fsm σ EventId ActionId} {actions : List ActionId} {line : GenericCacheLine σ}
    {next : σ} {built : List (ControllerAction σ)}
    (h : MESIProtocol.handleAction cfg fsm actions msg line next = .ok built) :
    built.flatMap accepts = (actions.erase .removeSavedReq).flatMap (asked msg) := by
  rw [MESIProtocol.handleAction] at h
  split at h
  · simp at h
  · next built' hmsi =>
    rw [MSIProtocol.handleAction] at hmsi
    have hfold := foldlM_addAction_accepts hmsi
    have hupdate : (if ((actions.erase .removeSavedReq).head? = some .stall) then []
        else [ControllerAction.updateCacheLine msg { line with valid := fsm.isValidState next, state := next }]).flatMap
          accepts = [] := by
      split <;> rfl
    rw [hupdate, List.nil_append] at hfold
    rw [← Except.ok.inj h, ← hfold]
    split
    · simp [accepts]
    · rfl

end Rows

/-- What the account asks of a table: loads and stores are answered, recorded, or not processed. -/
structure AccountLaws {σ : Type} (fsm : Fsm σ EventId ActionId) : Prop where
  asks : ∀ s e, e = .load ∨ e = .store →
    fsm.getActions s e ∈ [[ActionId.stall], [.fault], [.hit], [.getS], [.getM]]
  others : ∀ s e, e ≠ .load → e ≠ .store →
    ActionId.getS ∉ fsm.getActions s e ∧ ActionId.getM ∉ fsm.getActions s e

section Processing

variable {σ : Type} {P : L1Protocol σ} {holds : σ → Bool} {cfg : ControllerConfig} {c c' : LineController σ}
  {msg : Message} {out : List Emission}

/-- In MSI, a message from above, or from the cache itself, is neither a load nor a store. -/
theorem msiReadEvent_ne_request {id : Nat} {e : EventId} (hsource : msg.source ≠ .lowerInterconnect)
    (h : MSIProtocol.readEvent id msg = .ok e) : e ≠ .load ∧ e ≠ .store := by
  rw [MSIProtocol.readEvent] at h
  cases hs : msg.source with
  | lowerInterconnect => exact absurd hs hsource
  | self =>
    simp only [hs] at h
    split at h
    · rw [← Except.ok.inj h]
      decide
    · simp at h
  | upperInterconnect =>
    simp only [hs] at h
    split_ifs at h
    all_goals cases h
    all_goals decide

/-- A message from above, or from the cache itself, is neither a load nor a store. -/
theorem readEvent_ne_request (hP : LawfulL1 P holds) {id : Nat} {e : EventId} {msg' : Message}
    (hsource : msg.source ≠ .lowerInterconnect) (h : P.readEvent id msg = .ok (e, msg')) :
    e ≠ .load ∧ e ≠ .store ∧ msg'.source ≠ .lowerInterconnect := by
  by_cases hdata : msg.source = .upperInterconnect ∧ msg.data.isSome
  · have hread := hP.readEvent_data id msg hdata.1 hdata.2
    cases hread with
    | intro e₁ hread =>
      cases hread with
      | intro m₁ hread =>
        have heq := hread.1.symm.trans h
        rw [Except.ok.injEq, Prod.mk.injEq] at heq
        have hevent : isDataEvent e = true := heq.1 ▸ hread.2.1
        refine ⟨?_, ?_, ?_⟩
        · intro hload
          subst hload
          exact absurd hevent (by decide)
        · intro hstore
          subst hstore
          exact absurd hevent (by decide)
        · rw [← heq.2, hread.2.2.2.2.2]
          exact hsource
  · rw [hP.readEvent_other id msg hdata] at h
    cases hmsi : MSIProtocol.readEvent id msg with
    | error e' => simp [hmsi, Except.map] at h
    | ok e' =>
      simp only [hmsi, Except.map, Except.ok.injEq, Prod.mk.injEq] at h
      rw [← h.1, ← h.2]
      have hne := msiReadEvent_ne_request hsource hmsi
      exact ⟨hne.1, hne.2, hsource⟩

/-- A message that is no processor request asks for nothing: it only answers what was pending. -/
theorem process_accounts_other (hP : LawfulL1 P holds) (hA : AccountLaws P.fsm)
    (hsource : msg.source ≠ .lowerInterconnect) (h : P.process cfg c msg = .ok (c', out)) :
    (answered out ++ outstanding c').Perm (outstanding c) := by
  rw [L1Protocol.process, L1Protocol.processRequest] at h
  split at h
  · simp at h
  · next built hrow =>
    have hrun := execActions_accounts h
    split at hrow
    · simp at hrow
    · next e msg' hread =>
      have hother := readEvent_ne_request hP hsource hread
      rw [hP.handleAction_eq] at hrow
      have hnone : ((P.fsm.getActions (c.slot.readLineBits P.initial).state e).erase .removeSavedReq).flatMap
          (asked msg') = [] := by
        have hrow' := hA.others (c.slot.readLineBits P.initial).state e hother.1 hother.2.1
        rw [List.flatMap_eq_nil_iff]
        intro a ha
        have hmem := List.mem_of_mem_erase ha
        cases a with
        | hit => simp [asked, hother.2.2]
        | getS => exact absurd hmem hrow'.1
        | getM => exact absurd hmem hrow'.2
        | _ => rfl
      rw [handleAction_accepts hrow, hnone, List.append_nil] at hrun
      exact hrun

/-- A load or a store that does not stall is answered at once or is pending then. -/
theorem process_accounts_request (hP : LawfulL1 P holds) (hA : AccountLaws P.fsm)
    (hsource : msg.source = .lowerInterconnect)
    (hready : ∃ e msg', P.readEvent cfg.id msg = .ok (e, msg') ∧
      ActionId.stall ∉ P.fsm.getActions (c.slot.readLineBits P.initial).state e)
    (h : P.process cfg c msg = .ok (c', out)) :
    (answered out ++ outstanding c').Perm (outstanding c ++ [msg.msgId]) := by
  have hread : P.readEvent cfg.id msg = .ok (if msg.complementaryValue = 0 then .load else .store, msg) := by
    rw [hP.readEvent_other cfg.id msg (by simp [hsource])]
    simp [MSIProtocol.readEvent, hsource, Except.map]
  rw [L1Protocol.process, L1Protocol.processRequest, hread] at h
  simp only at h
  split at h
  · simp at h
  · next built hrow =>
    have hrun := execActions_accounts h
    rw [hP.handleAction_eq] at hrow
    rw [handleAction_accepts hrow] at hrun
    have hevent : (if msg.complementaryValue = 0 then EventId.load else .store) = .load ∨
        (if msg.complementaryValue = 0 then EventId.load else .store) = .store := by
      split
      · exact .inl rfl
      · exact .inr rfl
    have hshape := hA.asks (c.slot.readLineBits P.initial).state _ hevent
    have hstall : ActionId.stall ∉ P.fsm.getActions (c.slot.readLineBits P.initial).state
        (if msg.complementaryValue = 0 then .load else .store) := by
      cases hready with
      | intro e hready =>
        cases hready with
        | intro msg' hready =>
          have heq := hready.1.symm.trans hread
          rw [Except.ok.injEq, Prod.mk.injEq] at heq
          rw [← heq.1]
          exact hready.2
    simp only [List.mem_cons, List.not_mem_nil, or_false] at hshape
    generalize hactions : P.fsm.getActions (c.slot.readLineBits P.initial).state
      (if msg.complementaryValue = 0 then .load else .store) = actions at hshape hrow hrun hstall
    rcases hshape with hshape | hshape | hshape | hshape | hshape <;> subst hshape
    · simp at hstall
    · simp [MESIProtocol.handleAction, MSIProtocol.handleAction, MSIProtocol.addAction] at hrow
    all_goals simpa [asked, hsource] using hrun

end Processing

section System

variable {t : Topology} {σ τ : Type} {P : Protocols σ τ} {holds : σ → Bool} {llcHolds : τ → Bool}
  {s s' : System t σ τ}

/-- The requests of processor `i` that were answered. -/
def System.answers (s : System t σ τ) (i : Fin t.n) : List Nat :=
  s.cpu.filterMap fun p => if p.1 = i then some p.2.msgId else none

/-- The request that a step accepts from processor `i`. -/
def acceptedBy (i : Fin t.n) : System t σ τ × Label t.n → Option Nat
  | (s, .load j _) => if j = i then some s.nextId else none
  | (s, .store j _ _) => if j = i then some s.nextId else none
  | _ => none

/-- The requests that a run accepts from processor `i`, the last one first. -/
def accepted (i : Fin t.n) (h : List (System t σ τ × Label t.n)) : List Nat := h.filterMap (acceptedBy i)

/-- Answers of the last-level cache's side: none. -/
theorem drainLLC_frame {q : FRFCFSBuffer} (h : s.drainLLC P.llc q = .ok s') :
    s'.l1 = s.l1 ∧ s'.cpu = s.cpu ∧ s'.nextId = s.nextId := by
  rw [System.drainLLC] at h
  split at h
  · simp at h
  · rw [← Except.ok.inj h]
    exact ⟨rfl, rfl, rfl⟩

/-- A message for the last-level cache leaves the private caches alone. -/
theorem receiveLLC_frame {msg : Message} (h : s.receiveLLC P.llc msg = .ok s') :
    s'.l1 = s.l1 ∧ s'.cpu = s.cpu ∧ s'.nextId = s.nextId := by
  rw [System.receiveLLC] at h
  split at h
  · rw [← Except.ok.inj h]
    exact ⟨rfl, rfl, rfl⟩
  · exact drainLLC_frame h

/-- What a step does to the account of processor `i`. -/
def Accounts (s s' : System t σ τ) (i : Fin t.n) (new : List Nat) : Prop :=
  (s'.answers i ++ outstanding (s'.l1 i)).Perm (s.answers i ++ outstanding (s.l1 i) ++ new)

/-- A step that leaves the private caches and the answers alone. -/
theorem accounts_of_eq (hl1 : s'.l1 = s.l1) (hcpu : s'.cpu = s.cpu) (i : Fin t.n) : Accounts s s' i [] := by
  rw [Accounts, System.answers, System.answers, hl1, hcpu, List.append_nil]

/-- Answers of one cache's emissions. -/
theorem answers_map (i j : Fin t.n) (out : List Emission) :
    (((emitted .lower .dataResponse out).map fun msg => (j, msg)).filterMap
      fun p => if p.1 = i then some p.2.msgId else none) = if j = i then answered out else [] := by
  rw [List.filterMap_map]
  by_cases hj : j = i
  · simp only [Function.comp_def, hj, if_true, answered]
    exact congrFun List.filterMap_eq_map' _
  · simp [hj]

/-- A cache that processes a message accounts for what it accepts; the others are left alone. -/
theorem runL1_accounts {j : Fin t.n} {msg : Message} {new : List Nat} (h : s.runL1 P.l1 j msg = .ok s')
    (hone : ∀ c' out, P.l1.process (t.l1Config j) (s.l1 j) msg = .ok (c', out) →
      (answered out ++ outstanding c').Perm (outstanding (s.l1 j) ++ new)) (i : Fin t.n) :
    Accounts s s' i (if j = i then new else []) := by
  rw [System.runL1] at h
  split at h
  · simp at h
  · next c' out hprocess =>
    have hcache := hone c' out hprocess
    rw [← Except.ok.inj h, Accounts]
    simp only [System.answers, System.emitL1, List.filterMap_append, answers_map]
    by_cases hj : j = i
    · subst hj
      simp only [if_true, Function.update_self, List.append_assoc]
      exact hcache.append_left _
    · simp [hj, Ne.symm hj]

/-- A broadcast accepts nothing. -/
theorem broadcast_accounts (hP : Lawful P holds llcHolds) (hA : AccountLaws P.l1.fsm) {msg : Message}
    (h : s.broadcast P msg = .ok s') (i : Fin t.n) : Accounts s s' i [] := by
  rw [System.broadcast] at h
  split at h
  · simp at h
  · next results hresults =>
    have hframe := receiveLLC_frame h
    have hcache := process_accounts_other hP.l1 hA (by simp) (sequence_eq_ok.1 hresults i)
    rw [Accounts, System.answers, hframe.1, hframe.2.1]
    simp only [System.emitAll, List.filterMap_append, List.filterMap_flatMap, answers_map]
    rw [flatMap_finRange_eq i fun j hj => if_neg hj, if_pos rfl, List.append_assoc, List.append_nil]
    exact hcache.append_left _

/-- A processor's message is ready when its row does not stall. -/
theorem ready_of_readyL1 {i : Fin t.n} {msg : Message} (h : s.readyL1 P.l1 i msg = true) :
    ∃ e msg', P.l1.readEvent (t.l1Config i).id msg = .ok (e, msg') ∧
      ActionId.stall ∉ P.l1.fsm.getActions ((s.l1 i).slot.readLineBits P.l1.initial).state e := by
  rw [System.readyL1, L1Protocol.getRequestState] at h
  cases hread : P.l1.readEvent i msg with
  | error e => simp [hread] at h
  | ok read =>
    refine ⟨read.1, read.2, hread, ?_⟩
    intro hstall
    simp [hread, Fsm.hasAction, hstall] at h

/-- A processor request that is accepted is answered at once or is pending then. -/
theorem request_accounts (hP : Lawful P holds llcHolds) (hA : AccountLaws P.l1.fsm) {j : Fin t.n} (msg : Message)
    (hsource : msg.source = .lowerInterconnect) (h : s.request P.l1 j msg = some (.ok s')) (i : Fin t.n) :
    Accounts s s' i (if j = i then [msg.msgId] else []) := by
  rw [System.request] at h
  split at h
  · next hready =>
    exact runL1_accounts (s := { s with nextId := s.nextId + 1 }) (Option.some.inj h)
      (fun c' out hprocess => process_accounts_request hP.l1 hA hsource (ready_of_readyL1 hready) hprocess) i
  · simp at h

/-- A message that is no processor request accepts nothing. -/
theorem runL1_accounts_other (hP : Lawful P holds llcHolds) (hA : AccountLaws P.l1.fsm) {j : Fin t.n} (msg : Message)
    (hsource : msg.source ≠ .lowerInterconnect) (h : s.runL1 P.l1 j msg = .ok s') (i : Fin t.n) :
    Accounts s s' i [] := by
  have hone : ∀ c' out, P.l1.process (t.l1Config j) (s.l1 j) msg = .ok (c', out) →
      (answered out ++ outstanding c').Perm (outstanding (s.l1 j) ++ []) := by
    intro c' out hprocess
    rw [List.append_nil]
    exact process_accounts_other hP.l1 hA hsource hprocess
  have haccounts := runL1_accounts h hone i
  rwa [ite_self] at haccounts

/-- One step accepts the request it says, and nothing else. -/
theorem step_accounts (hP : Lawful P holds llcHolds) (hA : AccountLaws P.l1.fsm) (hr : (system t P).Reachable s)
    {l : Label t.n} (h : s.step P l = some (.ok s')) (i : Fin t.n) :
    Accounts s s' i (acceptedBy i (s, l)).toList := by
  have hok := (ok_inductive hP).reachable hr
  cases l with
  | load j offset =>
    rw [System.step] at h
    split at h
    · have hrequest := request_accounts hP hA (s.cpuMessage j offset 0 none) rfl h i
      by_cases hj : j = i <;> simpa [acceptedBy, hj, System.cpuMessage] using hrequest
    · simp at h
  | store j offset bytes =>
    rw [System.step] at h
    split at h
    · have hrequest := request_accounts hP hA (s.cpuMessage j offset 1 bytes) rfl h i
      by_cases hj : j = i <;> simpa [acceptedBy, hj, System.cpuMessage] using hrequest
    · simp at h
  | replacement j =>
    rw [System.step, System.request] at h
    split at h
    · exact runL1_accounts_other hP hA (s := { s with nextId := s.nextId + 1 })
        (s.evictMessage (t.l1Config j)) (by simp [System.evictMessage]) (Option.some.inj h) i
    · simp at h
  | evict =>
    rw [System.step] at h
    split at h
    · split at h
      · have hframe := receiveLLC_frame (Option.some.inj h)
        exact accounts_of_eq hframe.1 hframe.2.1 i
      · simp at h
    · simp at h
  | grant k =>
    rw [System.step] at h
    split at h
    · exact broadcast_accounts (s := { s with bus := s.bus.eraseIdx k }) hP hA (Option.some.inj h) i
    · simp at h
  | retry j k =>
    rw [System.step] at h
    split at h
    · next msg hmsg =>
      split at h
      · have hsource := (hok.waiting j msg (List.mem_of_getElem? hmsg)).2
        exact runL1_accounts_other hP hA _
          (s := { s with waiting := Function.update s.waiting j ((s.waiting j).eraseIdx k) })
          (by simp [hsource]) (Option.some.inj h) i
      · simp at h
    · simp at h
  | deliver k =>
    rw [System.step] at h
    split at h
    · next f hf =>
      dsimp only at h
      split at h
      · have hframe := receiveLLC_frame (Option.some.inj h)
        exact accounts_of_eq hframe.1 hframe.2.1 i
      · split at h
        · next hlt =>
          exact runL1_accounts_other hP hA _ (s := { s with flight := s.flight.eraseIdx k }) (j := ⟨f.dest, hlt⟩)
            (by simp) (Option.some.inj h) i
        · simp at h
    · simp at h
  | fill k =>
    rw [System.step] at h
    split at h
    · have hframe := drainLLC_frame (Option.some.inj h)
      exact accounts_of_eq hframe.1 hframe.2.1 i
    · simp at h

/-- In every run, the requests of a processor that were accepted are those that were answered and those that are
pending. -/
theorem path_accounts (hP : Lawful P holds llcHolds) (hA : AccountLaws P.l1.fsm)
    {h : List (System t σ τ × Label t.n)} (hp : (system t P).Path h s) (i : Fin t.n) :
    (s.answers i ++ outstanding (s.l1 i)).Perm (accepted i h) := by
  induction hp with
  | init hinit =>
    rw [show _ = System.initial t σ τ from hinit]
    exact List.Perm.refl _
  | @step h s s' l hp hstep ih =>
    have haccounts := step_accounts hP hA hp.reachable hstep i
    have hnew : (accepted i h ++ (acceptedBy i (s, l)).toList).Perm (accepted i ((s, l) :: h)) := by
      rw [accepted, accepted, List.filterMap_cons]
      cases acceptedBy i (s, l) with
      | none => simp
      | some id => exact List.perm_append_comm
    exact (haccounts.trans (ih.append_right _)).trans hnew

/-- A step never lowers the number of the next message, and raises it when it accepts a request. -/
theorem step_nextId {l : Label t.n} (h : s.step P l = some (.ok s')) (i : Fin t.n) :
    s.nextId + (acceptedBy i (s, l)).toList.length ≤ s'.nextId := by
  have hrun : ∀ {s : System t σ τ} {j : Fin t.n} {msg : Message}, s.runL1 P.l1 j msg = .ok s' →
      s'.nextId = s.nextId := by
    intro s j msg hrun
    rw [System.runL1] at hrun
    split at hrun
    · simp at hrun
    · rw [← Except.ok.inj hrun]
      rfl
  have hrequest : ∀ {j : Fin t.n} {msg : Message}, s.request P.l1 j msg = some (.ok s') →
      s'.nextId = s.nextId + 1 := by
    intro j msg hrequest
    rw [System.request] at hrequest
    split at hrequest
    · exact hrun (s := { s with nextId := s.nextId + 1 }) (Option.some.inj hrequest)
    · simp at hrequest
  cases l with
  | load j offset =>
    rw [System.step] at h
    split at h
    · rw [hrequest h, acceptedBy]
      split <;> simp
    · simp at h
  | store j offset bytes =>
    rw [System.step] at h
    split at h
    · rw [hrequest h, acceptedBy]
      split <;> simp
    · simp at h
  | replacement j =>
    rw [hrequest h]
    simp [acceptedBy]
  | evict =>
    rw [System.step] at h
    split at h
    · split at h
      · rw [(receiveLLC_frame (Option.some.inj h)).2.2]
        simp [acceptedBy]
      · simp at h
    · simp at h
  | grant k =>
    rw [System.step] at h
    split at h
    · have hbroadcast := Option.some.inj h
      rw [System.broadcast] at hbroadcast
      split at hbroadcast
      · simp at hbroadcast
      · rw [(receiveLLC_frame hbroadcast).2.2]
        exact Nat.le_refl _
    · simp at h
  | retry j k =>
    rw [System.step] at h
    split at h
    · split at h
      · rw [hrun (Option.some.inj h)]
        exact Nat.le_refl _
      · simp at h
    · simp at h
  | deliver k =>
    rw [System.step] at h
    split at h
    · dsimp only at h
      split at h
      · rw [(receiveLLC_frame (Option.some.inj h)).2.2]
        exact Nat.le_refl _
      · split at h
        · rw [hrun (Option.some.inj h)]
          exact Nat.le_refl _
        · simp at h
    · simp at h
  | fill k =>
    rw [System.step] at h
    split at h
    · rw [(drainLLC_frame (Option.some.inj h)).2.2]
      exact Nat.le_refl _
    · simp at h

/-- The request a step accepts has the number of the next message. -/
theorem acceptedBy_eq {i : Fin t.n} {l : Label t.n} {id : Nat} (h : acceptedBy i (s, l) = some id) : id = s.nextId := by
  cases l with
  | load j _ =>
    rw [acceptedBy] at h
    split at h
    · exact (Option.some.inj h).symm
    · simp at h
  | store j _ _ =>
    rw [acceptedBy] at h
    split at h
    · exact (Option.some.inj h).symm
    · simp at h
  | _ => simp [acceptedBy] at h

/-- The requests of a run were numbered below the next message, and no two of them alike. -/
theorem path_accepted_nodup {h : List (System t σ τ × Label t.n)} (hp : (system t P).Path h s) (i : Fin t.n) :
    (∀ id ∈ accepted i h, id < s.nextId) ∧ (accepted i h).Nodup := by
  induction hp with
  | init _ => simp [accepted]
  | @step h s s' l _ hstep ih =>
    have hnext := step_nextId hstep i
    rw [accepted, List.filterMap_cons]
    cases hl : acceptedBy i (s, l) with
    | none => exact ⟨fun id hid => (ih.1 id hid).trans_le ((Nat.le_add_right _ _).trans hnext), ih.2⟩
    | some id =>
      rw [hl] at hnext
      have hid := acceptedBy_eq hl
      subst hid
      constructor
      · intro id hid
        cases List.mem_cons.1 hid with
        | inl heq => exact heq ▸ hnext
        | inr hmem => exact (ih.1 id hmem).trans hnext
      · exact List.nodup_cons.2 ⟨fun hmem => Nat.lt_irrefl _ (ih.1 _ hmem), ih.2⟩

end System

/-- In every run, a request that processor `i` got accepted was answered once or is pending once. -/
def KeepsAccount {σ τ : Type} (t : Topology) (P : Protocols σ τ) : Prop :=
  ∀ h s, (system t P).Path h s → ∀ i : Fin t.n,
    (s.answers i ++ outstanding (s.l1 i)).Perm (accepted i h) ∧ (s.answers i ++ outstanding (s.l1 i)).Nodup

/-- Lawful protocols with such a table keep account of the requests. -/
theorem Lawful.keepsAccount {σ τ : Type} {P : Protocols σ τ} {holds : σ → Bool} {llcHolds : τ → Bool} (t : Topology)
    (hP : Lawful P holds llcHolds) (hA : AccountLaws P.l1.fsm) : KeepsAccount t P := by
  intro h s hp i
  have hperm := path_accounts hP hA hp i
  exact ⟨hperm, hperm.nodup_iff.2 (path_accepted_nodup hp i).2⟩

/-- The three snooping protocols answer every request they have accepted at most once, and forget none. -/
theorem snooping_keepsAccount (t : Topology) :
    KeepsAccount t msiProtocols ∧ KeepsAccount t mesiProtocols ∧ KeepsAccount t moesiProtocols := by
  have hmsi : AccountLaws msiProtocols.l1.fsm := by constructor <;> decide
  have hmesi : AccountLaws mesiProtocols.l1.fsm := by constructor <;> decide
  have hmoesi : AccountLaws moesiProtocols.l1.fsm := by constructor <;> decide
  exact ⟨msiLawful.keepsAccount t hmsi, mesiLawful.keepsAccount t hmesi, moesiLawful.keepsAccount t hmoesi⟩

end Octopus.Snoop
