import Octopus.Snoop.Addresses
import Octopus.Snoop.Rest
import Octopus.Snoop.Served
import Octopus.Snoop.Work

/-!
# The network never stops the simulator by itself

A controller ends the run where a response finds no pending request, where data finds no line and where bytes
are written into a line without storage. None of that happens to a message that the network brings: if the
skeleton can take the step, so can the system. With the token invariant this makes every state that is not at
rest a state with a next network step.
-/

namespace Octopus.Snoop

open Lib LineController

section Controller

variable {σ : Type} {cfg : ControllerConfig} {c : LineController σ} {actions rest : List (ControllerAction σ)}

/-- A list of actions can be carried out. -/
def Runs (cfg : ControllerConfig) (c : LineController σ) (actions : List (ControllerAction σ)) : Prop :=
  ∃ c' out, c.execActions cfg actions = .ok (c', out)

/-- Actions that never end the run. -/
def IsSure : ControllerAction σ → Prop
  | .removePending _ | .updateCacheLine _ _ | .modifyData _ => False
  | _ => True

/-- One action, and the actions after it. -/
theorem runs_cons {a : ControllerAction σ} {c₁ : LineController σ} {out : List Emission}
    (h : c.execAction cfg a = .ok (c₁, out)) (hrest : Runs cfg c₁ rest) : Runs cfg c (a :: rest) := by
  cases hrest with
  | intro c' hrest =>
    cases hrest with
    | intro out' hrest => exact ⟨c', out ++ out', by simp only [execActions, h, hrest]⟩

/-- An action that never ends the run succeeds, and leaves the line and the pending requests that there are. -/
theorem exec_of_sure (cfg : ControllerConfig) (c : LineController σ) {a : ControllerAction σ} (ha : IsSure a) :
    ∃ c' out, c.execAction cfg a = .ok (c', out) ∧ c'.slot = c.slot ∧ (c.pending ≠ [] → c'.pending ≠ []) := by
  cases a with
  | removePending msg => exact ha.elim
  | updateCacheLine msg line => exact ha.elim
  | modifyData msg => exact ha.elim
  | addPending msg => exact ⟨_, _, rfl, rfl, fun _ => by simp⟩
  | _ => exact ⟨_, _, rfl, rfl, id⟩

/-- Such actions run. -/
theorem runs_of_sure (h : ∀ a ∈ actions, IsSure a) : Runs cfg c actions := by
  induction actions generalizing c with
  | nil => exact ⟨c, [], rfl⟩
  | cons a actions ih =>
    cases exec_of_sure cfg c (h a List.mem_cons_self) with
    | intro c' hc' =>
      cases hc' with
      | intro out hout => exact runs_cons hout.1 (ih fun b hb => h b (List.mem_cons_of_mem a hb))

/-- The line update needs a line only for a block of data. -/
theorem exec_updateCacheLine (cfg : ControllerConfig) (c : LineController σ) (msg : Message) (line : GenericCacheLine σ)
    (h : msg.data.isSome → cfg.blockSize ≤ msg.dataSize → line.valid = true → c.slot ≠ none) :
    ∃ c' out, c.execAction cfg (.updateCacheLine msg line) = .ok (c', out) := by
  rw [execAction, updateCacheLine]
  split
  · exact ⟨_, _, rfl⟩
  · next bytes hdata =>
    split
    · exact ⟨_, _, rfl⟩
    · next hfull =>
      have hvalid : line.valid = true := by
        by_contra hvalid
        exact hfull (by simp [hvalid])
      cases hslot : c.slot with
      | none => exact absurd hslot (h (by simp [hdata]) (by simpa [hvalid] using hfull) hvalid)
      | some r => simp [Slot.updateLineBits, Slot.updateLineData, hvalid]

/-- A response needs a pending request and data. -/
theorem exec_removePending (cfg : ControllerConfig) {msg : Message} (hdata : msg.data.isSome) (h : c.pending ≠ []) :
    ∃ c' out, c.execAction cfg (.removePending msg) = .ok (c', out) ∧ c'.slot = c.slot := by
  cases Option.isSome_iff_exists.1 hdata with
  | intro bytes hbytes =>
    rw [execAction, removePendingAndRespond, if_neg h]
    simp [withLineData, hbytes]

/-- A store's bytes need storage if there is a line. -/
theorem exec_modifyData (cfg : ControllerConfig) (msg : Message) (h : c.slot ≠ none → c.slot.readCacheLine.isSome) :
    ∃ c' out, c.execAction cfg (.modifyData msg) = .ok (c', out) := by
  rw [execAction, modifyData]
  dsimp only
  split
  · exact ⟨_, _, rfl⟩
  split
  · exact ⟨_, _, rfl⟩
  · next r hr =>
    have hbytes := h (by simp [hr])
    rw [hr] at hbytes
    cases hdata : r.data with
    | none => simp [Slot.readCacheLine, hdata] at hbytes
    | some block => exact ⟨_, _, rfl⟩

/-- A block of data is written, the pending requests are answered and the bytes of a store are put in. -/
theorem runs_hit {msg : Message} {line : GenericCacheLine σ} (hdata : msg.data.isSome)
    (hsize : cfg.blockSize ≤ msg.dataSize) (hline : line.valid = true → c.slot ≠ none) (hpending : c.pending ≠ [])
    (hrest : ∀ a ∈ rest, IsSure a) :
    Runs cfg c (.updateCacheLine msg line :: .removePending msg :: .modifyData msg :: rest) := by
  cases exec_updateCacheLine cfg c msg line (fun _ _ => hline) with
  | intro c₁ h₁ =>
    cases h₁ with
    | intro out₁ h₁ =>
      have hupdated := (updateCacheLine_updated h₁).2
      apply runs_cons h₁
      cases exec_removePending cfg hdata (hupdated.pending ▸ hpending) with
      | intro c₂ h₂ =>
        cases h₂ with
        | intro out₂ h₂ =>
          apply runs_cons h₂.1
          have hbytes : c₂.slot ≠ none → c₂.slot.readCacheLine.isSome := by
            rw [h₂.2]
            intro hslot
            cases hvalid : line.valid with
            | true => exact hupdated.filled hvalid hdata hsize
            | false => exact absurd (hupdated.invalid hvalid) hslot
          cases exec_modifyData cfg msg hbytes with
          | intro c₃ h₃ =>
            cases h₃ with
            | intro out₃ h₃ => exact runs_cons h₃ (runs_of_sure hrest)

end Controller

section PrivateCache

variable {σ : Type}

/-- The controller actions of a row of a private cache, as far as they may end the run. -/
theorem handleAction_runs (cfg : ControllerConfig) (fsm : Fsm σ EventId ActionId) {actions : List ActionId}
    (msg : Message) (line : GenericCacheLine σ) (next : σ) (hshape : actions ∈ l1Shapes)
    (hfault : ActionId.fault ∉ actions) (hstall : ActionId.stall ∉ actions) :
    ∃ front tail, MESIProtocol.handleAction cfg fsm actions msg line next = .ok (front ++
        .updateCacheLine msg { line with valid := fsm.isValidState next, state := next } :: tail) ∧
      (front = [] ∨ ∃ m, front = [.writeBack m]) ∧ (ActionId.hit ∉ actions → ∀ a ∈ tail, IsSure a) ∧
      (ActionId.hit ∈ actions → msg.source ≠ .lowerInterconnect →
        ∃ rest, tail = .removePending msg :: .modifyData msg :: rest ∧ ∀ a ∈ rest, IsSure a) := by
  simp only [l1Shapes, List.mem_cons, List.not_mem_nil, or_false] at hshape
  rcases hshape with rfl | rfl | rfl | rfl | rfl | rfl | rfl | rfl | rfl | rfl | rfl | rfl | rfl
  case inr.inl => simp at hstall
  case inr.inr.inl => simp at hfault
  all_goals
    first
      | refine ⟨[], _, rfl, .inl rfl, fun _ => ?_, fun _ hsource => ?_⟩
      | refine ⟨[_], _, rfl, .inr ⟨_, rfl⟩, fun _ => ?_, fun _ hsource => ?_⟩
  all_goals simp_all [IsSure]

/-- A row of a private cache can be carried out: data finds the line and the request it is for. -/
theorem process_runs {P : L1Protocol σ} {holds : σ → Bool} (hP : LawfulL1 P holds) (cfg : ControllerConfig)
    {c : LineController σ} {msg msg' : Message} {e : EventId} (hread : P.readEvent cfg.id msg = .ok (e, msg'))
    (hfault : ActionId.fault ∉ P.fsm.getActions (absCore P.initial c).state e)
    (hline : msg'.data.isSome →
      P.fsm.isValidState (P.fsm.getNextState (absCore P.initial c).state e) = true → c.slot ≠ none)
    (hhit : ActionId.hit ∈ P.fsm.getActions (absCore P.initial c).state e →
      msg'.source ≠ .lowerInterconnect ∧ msg'.data.isSome ∧ cfg.blockSize ≤ msg'.dataSize ∧ c.pending ≠ []) :
    ∃ c' out, P.process cfg c msg = .ok (c', out) := by
  rw [process_eq hP cfg c hread]
  have hshape := hP.actions_mem (absCore P.initial c).state e
  by_cases hstall : ActionId.stall ∈ P.fsm.getActions (absCore P.initial c).state e
  · rw [(eq_of_mem_shape hshape).2 hstall]
    exact ⟨_, _, rfl⟩
  cases handleAction_runs cfg P.fsm msg' (c.slot.readLineBits P.initial)
    (P.fsm.getNextState (absCore P.initial c).state e) hshape hfault hstall with
  | intro front hrow =>
    cases hrow with
    | intro tail hrow =>
      rw [hrow.1]
      have hrest : ∀ (line : GenericCacheLine σ) (c₁ : LineController σ),
          line.valid = P.fsm.isValidState (P.fsm.getNextState (absCore P.initial c).state e) → c₁.slot = c.slot →
          c₁.pending = c.pending → Runs cfg c₁ (.updateCacheLine msg' line :: tail) := by
        intro line c₁ hvalid hslot hpending
        by_cases hmem : ActionId.hit ∈ P.fsm.getActions (absCore P.initial c).state e
        · have hneeds := hhit hmem
          cases hrow.2.2.2 hmem hneeds.1 with
          | intro rest htail =>
            rw [htail.1]
            exact runs_hit hneeds.2.1 hneeds.2.2.1 (fun hv => hslot ▸ hline hneeds.2.1 (hvalid ▸ hv))
              (hpending ▸ hneeds.2.2.2) htail.2
        · cases exec_updateCacheLine cfg c₁ msg' line (fun hdata _ hv => hslot ▸ hline hdata (hvalid ▸ hv)) with
          | intro c₂ h₂ =>
            cases h₂ with
            | intro out₂ h₂ => exact runs_cons h₂ (runs_of_sure (hrow.2.2.1 hmem))
      cases hrow.2.1 with
      | inl hfront =>
        rw [hfront]
        exact hrest _ c rfl rfl rfl
      | inr hfront =>
        cases hfront with
        | intro m hfront =>
          rw [hfront]
          exact runs_cons rfl (hrest _ { c with saved := [] } rfl rfl rfl)

end PrivateCache

section LastLevelCache

variable {τ : Type}

/-- What an action of the last-level cache needs. -/
def IsPossible (c : LineController τ) : ControllerAction τ → Prop
  | .removePending msg => msg.data.isSome ∧ c.pending ≠ []
  | .updateCacheLine msg line => msg.data.isSome → line.valid = true → c.slot ≠ none
  | .modifyData _ => False
  | _ => True

/-- Whether an action answers the pending requests. -/
def isRemove : ControllerAction τ → Bool
  | .removePending _ => true
  | _ => false

/-- Whether an action writes the line. -/
def isUpdate : ControllerAction τ → Bool
  | .updateCacheLine _ _ => true
  | _ => false

/-- Actions that are possible one by one can be carried out, if they answer once and write the line once. -/
theorem runs_of_possible {cfg : ControllerConfig} {c : LineController τ} {actions : List (ControllerAction τ)}
    (h : ∀ a ∈ actions, IsPossible c a) (hremove : actions.countP isRemove ≤ 1)
    (hupdate : actions.countP isUpdate ≤ 1) : Runs cfg c actions := by
  induction actions generalizing c with
  | nil => exact ⟨c, [], rfl⟩
  | cons a actions ih =>
    have hfirst := h a List.mem_cons_self
    have hothers : ∀ b ∈ actions, IsPossible c b := fun b hb => h b (List.mem_cons_of_mem a hb)
    rw [List.countP_cons] at hremove hupdate
    have hsure : IsSure a → Runs cfg c (a :: actions) := by
      intro ha
      cases exec_of_sure cfg c ha with
      | intro c' hc' =>
        cases hc' with
        | intro out hout =>
          apply runs_cons hout.1
          apply ih _ (by omega) (by omega)
          intro b hb
          have hpossible := hothers b hb
          cases b with
          | removePending msg => exact ⟨hpossible.1, hout.2.2 hpossible.2⟩
          | updateCacheLine msg line =>
            rw [IsPossible, hout.2.1]
            exact hpossible
          | modifyData msg => exact hpossible
          | _ => exact trivial
    cases a with
    | removePending msg =>
      cases exec_removePending cfg hfirst.1 hfirst.2 with
      | intro c' hc' =>
        cases hc' with
        | intro out hout =>
          rw [isRemove, if_pos rfl] at hremove
          apply runs_cons hout.1
          apply ih _ (by omega) (by omega)
          intro b hb
          have hpossible := hothers b hb
          have hnone : isRemove b = false := by
            have hzero : actions.countP isRemove = 0 := by omega
            simpa using List.countP_eq_zero.1 hzero b hb
          cases b with
          | removePending msg => simp [isRemove] at hnone
          | updateCacheLine msg line =>
            rw [IsPossible, hout.2]
            exact hpossible
          | modifyData msg => exact hpossible
          | _ => exact trivial
    | updateCacheLine msg line =>
      cases exec_updateCacheLine cfg c msg line fun hdata _ => hfirst hdata with
      | intro c' hc' =>
        cases hc' with
        | intro out hout =>
          have hpending := (updateCacheLine_updated hout).2.pending
          rw [isUpdate, if_pos rfl] at hupdate
          apply runs_cons hout
          apply ih _ (by omega) (by omega)
          intro b hb
          have hpossible := hothers b hb
          have hnone : isUpdate b = false := by
            have hzero : actions.countP isUpdate = 0 := by omega
            simpa using List.countP_eq_zero.1 hzero b hb
          cases b with
          | removePending msg => exact ⟨hpossible.1, by rw [hpending]; exact hpossible.2⟩
          | updateCacheLine msg line => simp [isUpdate] at hnone
          | modifyData msg => exact hpossible
          | _ => exact trivial
    | modifyData msg => exact hfirst.elim
    | _ => exact hsure trivial

/-- The controller actions of a row of the last-level cache, as far as they may end the run. -/
theorem llcHandleAction_runs (cfg : ControllerConfig) (fsm : Fsm τ LLCEventId LLCActionId)
    {actions : List LLCActionId} (msg : Message) (line : GenericCacheLine τ) (next : τ)
    (hshape : actions ∈ llcShapes) (hfault : LLCActionId.fault ∉ actions) (hstall : LLCActionId.stall ∉ actions) :
    ∃ built, LLCMESIProtocol.handleAction cfg fsm actions msg line next = .ok built ∧
      built.countP isRemove ≤ 1 ∧ built.countP isUpdate ≤ 1 ∧
      ∀ c : LineController τ, (msg.data.isSome → c.slot ≠ none) →
        (Home.responds actions = true → msg.source ≠ .lowerInterconnect → msg.data.isSome ∧ c.pending ≠ []) →
        ∀ a ∈ built, IsPossible c a := by
  simp only [llcShapes, List.mem_cons, List.not_mem_nil, or_false] at hshape
  rcases hshape with rfl | rfl | rfl | rfl | rfl | rfl | rfl | rfl | rfl | rfl | rfl | rfl | rfl | rfl | rfl
  case inr.inl => simp at hstall
  case inr.inr.inl => simp at hfault
  all_goals
    cases hsource : msg.source
    all_goals
      refine ⟨_, rfl, ?_, ?_, fun c hline hpending a ha => ?_⟩
      · simp [isRemove, hsource, List.countP_cons]
      · simp [isUpdate, hsource, List.countP_cons]
      · simp [Home.responds] at hpending
        simp [hsource] at ha
        rcases ha with rfl | rfl | rfl | rfl <;> simp_all [IsPossible, LLCMESIProtocol.exclusiveResponse]

/-- A row of the last-level cache can be carried out: data finds the line and the reads it is for. -/
theorem llcProcess_runs {P : LLCProtocol τ} {holds : τ → Bool} (hP : LawfulLLC P holds) {t : Topology}
    {c : LineController τ} {msg : Message} (hmsg : HomeMsgOk t msg) {e : LLCEventId}
    (hevent : (absHome P.initial c).event t.llcId (absHomeMsg msg) = .ok e)
    (hfault : LLCActionId.fault ∉ P.fsm.getActions (absHome P.initial c).state e)
    (hstall : LLCActionId.stall ∉ P.fsm.getActions (absHome P.initial c).state e)
    (hline : msg.data.isSome → c.slot ≠ none)
    (hpending : Home.responds (P.fsm.getActions (absHome P.initial c).state e) = true →
      msg.source ≠ .lowerInterconnect → msg.data.isSome ∧ c.pending ≠ []) :
    ∃ c' out, P.process t.llcConfig c msg = .ok (c', out) := by
  rw [llcProcess_eq hP c hmsg, hevent]
  cases llcHandleAction_runs t.llcConfig P.fsm msg (c.slot.readLineBits P.initial)
    (P.fsm.getNextState (absHome P.initial c).state e) (hP.actions_mem (absHome P.initial c).state e) hfault
    hstall with
  | intro built hbuilt =>
    simp only [hbuilt.1]
    exact runs_of_possible (hbuilt.2.2.2 c hline hpending) hbuilt.2.1 hbuilt.2.2.1

end LastLevelCache

/-- What progress asks of the tables: data that finds no line is a fault, or leaves none. -/
structure ArrivalLaws {σ τ : Type} (P : Protocols σ τ) (ph : Phases σ τ) : Prop where
  data_initial : ∀ e, isDataEvent e = true → ActionId.fault ∈ P.l1.fsm.getActions P.l1.initial e ∨
    P.l1.fsm.isValidState (P.l1.fsm.getNextState P.l1.initial e) = false
  hit : ∀ s e, ph.core s ≠ .unreachable → ActionId.hit ∈ P.l1.fsm.getActions s e →
    e = .load ∨ e = .store ∨ isDataEvent e = true
  llcData_initial : ∀ e, isLLCDataEvent e = true → LLCActionId.fault ∈ P.llc.fsm.getActions P.llc.initial e

section System

variable {t : Topology} {σ τ : Type} {P : Protocols σ τ} {holds : σ → Bool} {llcHolds : τ → Bool}
  {waits : σ → Bool} {fetches : τ → Bool} {ph : Phases σ τ} {s : System t σ τ}
  (hP : Lawful P holds llcHolds) (hW : ServeLaws P waits fetches) (hX : ArrivalLaws P ph)

include hP hW hX

/-- A drain that the skeleton can do, the last-level cache can do. -/
theorem drain_runs {fuel : Nat} {c : LineController τ} {q : FRFCFSBuffer} (hq : ∀ e ∈ q.buffer, ElementOk t e)
    (hdirty : q.dirty = true) (hc : llcHolds (absHome P.llc.initial c).state → c.slot.readCacheLine.isSome)
    (hfetch : fetches (absHome P.llc.initial c).state = true → c.pending ≠ []) {k k' : Skeleton t.n σ τ}
    (hhome : k.home = absHome P.llc.initial c) (hqueue : k.queue = absQueue q.buffer)
    (h : k.drain hP.tables t.llcId fuel = .ok k') : ∃ r, drain P.llc t.llcConfig fuel c q = .ok r := by
  induction fuel generalizing c q k with
  | zero => exact ⟨_, rfl⟩
  | succ fuel ih =>
    rw [drain]
    cases hfirst : q.getFirstReady (llcScan P.llc t.llcConfig c) with
    | mk found q₁ =>
      have hscan := getFirstReady_abs c hq hdirty hfirst
      cases found with
      | none => exact ⟨_, rfl⟩
      | some msg =>
        have hmsg := hscan.2.2.2.1
        rw [Skeleton.drain, hhome, hqueue] at h
        simp only [Lawful.tables, hscan.2.2.2.2, Skeleton.homeStep] at h
        cases hprocess : (absHome P.llc.initial c).process P.llc.fsm t.llcId (absHomeMsg msg) with
        | error e => simp [hprocess] at h
        | ok result =>
          simp only [hprocess] at h
          have hcell := hprocess
          rw [Home.process] at hcell
          cases hevent : (absHome P.llc.initial c).event t.llcId (absHomeMsg msg) with
          | error e => simp [hevent] at hcell
          | ok e =>
            simp only [hevent, Home.take] at hcell
            by_cases hfault : LLCActionId.fault ∈ P.llc.fsm.getActions (absHome P.llc.initial c).state e
            · simp [hfault] at hcell
            by_cases hstall : LLCActionId.stall ∈ P.llc.fsm.getActions (absHome P.llc.initial c).state e
            · simp [hfault, hstall] at hcell
            have hread := event_abs hmsg hevent
            have hline : msg.data.isSome → c.slot ≠ none := by
              intro hdata hslot
              have hinitial : (absHome P.llc.initial c).state = P.llc.initial := by
                simp [absHome, hslot, Slot.readLineBits]
              rw [hinitial] at hfault
              exact hfault (hX.llcData_initial e (hread.1.trans hdata))
            have hpending : Home.responds (P.llc.fsm.getActions (absHome P.llc.initial c).state e) = true →
                msg.source ≠ .lowerInterconnect → msg.data.isSome ∧ c.pending ≠ [] := by
              intro hresponds hsource
              have hrow := hW.responds _ e hresponds
              have hlower : ¬ (e = .getS ∨ e = .getM) := fun he => hsource (hread.2.2 he).1
              have hfill : e = .dataFromUpperInterface ∧ fetches (absHome P.llc.initial c).state = true := by
                cases hrow with
                | inl he => exact absurd (.inl he) hlower
                | inr he =>
                  cases he with
                  | inl he => exact absurd (.inr he) hlower
                  | inr he => exact he
              exact ⟨(hmsg.upper (hread.2.1 hfill.1)).1, hfetch hfill.2⟩
            cases llcProcess_runs hP.llc hmsg hevent hfault hstall hline hpending with
            | intro c₁ hc₁ =>
              cases hc₁ with
              | intro out₁ hout₁ =>
                have habs := llcProcess_abs hP.llc hmsg hc hout₁
                rw [habs.1, Except.ok.injEq] at hprocess
                subst hprocess
                cases ih hscan.1 hscan.2.2.1 habs.2.1
                  (llcProcess_served hP.llc hW hmsg hout₁ hfetch) rfl rfl h with
                | intro r hr => exact ⟨_, by simp only [hout₁, hr]; rfl⟩

/-- The last-level cache works on a queue as the skeleton can. -/
theorem drainLLC_runs (hs : s.Ok P holds llcHolds)
    (hfetch : fetches (absHome P.llc.initial s.llc).state = true → s.llc.pending ≠ []) {q : FRFCFSBuffer} (hq : ∀ e ∈ q.buffer, ElementOk t e) (hdirty : q.dirty = true)
    {k : Skeleton t.n σ τ} (h : (abs P s).drainQueue hP.tables t.llcId (absQueue q.buffer) = .ok k) : ∃ s', s.drainLLC P.llc q = .ok s' := by
  rw [Skeleton.drainQueue] at h
  have hlength : (absQueue q.buffer).length = q.buffer.length := by simp [absQueue]
  rw [hlength] at h
  cases drain_runs hP hW hX hq hdirty hs.home hfetch rfl rfl h with
  | intro r hr => exact ⟨_, by rw [System.drainLLC, hr]⟩

/-- A message enters the last-level cache as the skeleton's does. -/
theorem receiveLLC_runs (hs : s.Ok P holds llcHolds)
    (hfetch : fetches (absHome P.llc.initial s.llc).state = true → s.llc.pending ≠ []) {msg : Message} (hmsg : HomeMsgOk t msg) {k : Skeleton t.n σ τ}
    (h : (abs P s).drainQueue hP.tables t.llcId ((abs P s).queue ++ [absHomeMsg msg]) = .ok k) :
    ∃ s', s.receiveLLC P.llc msg = .ok s' := by
  rw [System.receiveLLC, FRFCFSBuffer.pushBack]
  simp only [Bool.not_true, Bool.false_and, Bool.false_eq_true, if_false]
  have habs : absQueue (s.queue.buffer ++ [⟨msg, .nonReady⟩]) = (abs P s).queue ++ [absHomeMsg msg] := by
    simp [abs, absQueue]
  rw [← habs] at h
  exact drainLLC_runs hP hW hX hs hfetch (elementOk_append hs.queue hmsg) rfl h

/-- A private cache takes the cell of a network message as the skeleton can. -/
theorem core_runs (hserved : s.Served P waits fetches) {i : Fin t.n} {msg msg' : Message} {e : EventId}
    (hread : P.l1.readEvent i msg = .ok (e, msg')) (hsource : msg.source ≠ .lowerInterconnect)
    (hdata : isDataEvent e = true → msg'.data.isSome ∧ t.blockSize ≤ msg'.dataSize)
    (hother : isDataEvent e = false → msg'.data = none)
    (hreach : ph.core (absCore P.l1.initial (s.l1 i)).state ≠ .unreachable) {llc : Nat} {r : Req} {exclusive : Bool}
    {result : Core σ × CoreOut}
    (h : (absCore P.l1.initial (s.l1 i)).process P.l1.fsm llc i e r exclusive = .ok result) :
    ∃ c' out, P.l1.process (t.l1Config i) (s.l1 i) msg = .ok (c', out) := by
  have hfault : ActionId.fault ∉ P.l1.fsm.getActions (absCore P.l1.initial (s.l1 i)).state e := by
    intro hfault
    rw [Core.process, if_pos hfault] at h
    simp at h
  have hrequest := readEvent_ne_request hP.l1 hsource hread
  apply process_runs hP.l1 (t.l1Config i) hread hfault
  · intro hsome hvalid hslot
    have hevent : isDataEvent e = true := by
      by_contra hevent
      rw [hother (by simpa using hevent)] at hsome
      simp at hsome
    have hinitial : (absCore P.l1.initial (s.l1 i)).state = P.l1.initial := by
      simp [absCore, hslot, Slot.readLineBits]
    rw [hinitial] at hfault hvalid
    cases hX.data_initial e hevent with
    | inl hmem => exact hfault hmem
    | inr hinvalid => simp [hinvalid] at hvalid
  · intro hhit
    have hevent : isDataEvent e = true := by
      cases hX.hit _ e hreach hhit with
      | inl he => exact absurd he hrequest.1
      | inr he =>
        cases he with
        | inl he => exact absurd he hrequest.2.1
        | inr he => exact he
    have hwaits : waits (absCore P.l1.initial (s.l1 i)).state = true := by
      cases hW.waits_hit _ e hhit with
      | inl he => exact absurd he hrequest.1
      | inr he =>
        cases he with
        | inl he => exact absurd he hrequest.2.1
        | inr he => exact he
    exact ⟨hrequest.2.2, (hdata hevent).1, (hdata hevent).2, (hserved.core i).2 hwaits⟩

/-- Private cache `i` processes a network message as the skeleton can. -/
theorem runL1_runs (hserved : s.Served P waits fetches) (s₁ : System t σ τ) {i : Fin t.n} (hl1 : s₁.l1 i = s.l1 i)
    {msg msg' : Message} {e : EventId} (hread : P.l1.readEvent i msg = .ok (e, msg'))
    (hsource : msg.source ≠ .lowerInterconnect)
    (hdata : isDataEvent e = true → msg'.data.isSome ∧ t.blockSize ≤ msg'.dataSize)
    (hother : isDataEvent e = false → msg'.data = none)
    (hreach : ph.core (absCore P.l1.initial (s.l1 i)).state ≠ .unreachable) {r : Req} {exclusive : Bool}
    {k k' : Skeleton t.n σ τ} (hk : k.core i = absCore P.l1.initial (s.l1 i))
    (h : k.runCore hP.tables t.llcId i e r exclusive = .ok k') : ∃ s', s₁.runL1 P.l1 i msg = .ok s' := by
  rw [Skeleton.runCore, hk] at h
  split at h
  · simp at h
  · next c out hprocess =>
    cases core_runs hP hW hX hserved hread hsource hdata hother hreach hprocess with
    | intro c' hc' =>
      cases hc' with
      | intro out' hout' => exact ⟨_, by rw [System.runL1, hl1, hout']⟩

/-- A granted request is broadcast as the skeleton's is. -/
theorem broadcast_runs (hs : s.Ok P holds llcHolds) (hserved : s.Served P waits fetches)
    (hreach : ∀ i, ph.core (absCore P.l1.initial (s.l1 i)).state ≠ .unreachable) {msg : Message}
    (hdata : msg.data = none) {k : Skeleton t.n σ τ}
    (h : (abs P s).broadcast hP.tables t.llcId (reqOf msg) = .ok k) : ∃ s', s.broadcast P msg = .ok s' := by
  have hall : ∀ i, ∃ r, P.l1.process (t.l1Config i) (s.l1 i) { msg with source := .upperInterconnect } = .ok r := by
    intro i
    rw [Skeleton.broadcast] at h
    split at h
    · simp at h
    · next results hresults =>
      have hsnoop := Lib.sequence_eq_ok.1 hresults i
      rw [Skeleton.snoop] at hsnoop
      split at hsnoop
      · simp at hsnoop
      · next e hevent =>
        have hsent : ({ msg with source := .upperInterconnect } : Message).data = none := hdata
        have hread := (coreMsgOk_bus hP (absCore P.l1.initial (s.l1 i)).state hsent rfl hevent).read
        have hplain := event_not_data hevent
        cases core_runs hP hW hX hserved hread (by simp) (fun he => by simp [hplain] at he) (fun _ => hdata)
          (hreach i) hsnoop with
        | intro c' hc' =>
          cases hc' with
          | intro out hout => exact ⟨(c', out), hout⟩
  have hresults : Lib.sequence (fun i => P.l1.process (t.l1Config i) (s.l1 i)
      { msg with source := .upperInterconnect }) = .ok fun i => Classical.choose (hall i) :=
    Lib.sequence_eq_ok.2 fun i => Classical.choose_spec (hall i)
  have hafter := snoopAll_abs hP hs hdata hresults
  rw [hafter.2] at h
  cases receiveLLC_runs hP hW hX hafter.1 hserved.home (homeMsgOk_bus hdata) h with
  | intro s' hs' => exact ⟨s', by rw [System.broadcast, hresults]; exact hs'⟩

/-- A network step that the skeleton can take, the system can take. -/
theorem network_step_runs (hs : s.Ok P holds llcHolds) (hserved : s.Served P waits fetches)
    (hreach : ∀ i, ph.core (absCore P.l1.initial (s.l1 i)).state ≠ .unreachable) {l : Label t.n} (hl : l.isNetwork)
    {k : Skeleton t.n σ τ} (h : (abs P s).step hP.tables t.llcId (absLabel l) = some (.ok k)) :
    ∃ s', s.step P l = some (.ok s') := by
  cases l with
  | load i offset => exact hl.elim
  | store i offset bytes => exact hl.elim
  | replacement i => exact hl.elim
  | evict => exact hl.elim
  | grant j =>
    cases hmsg : s.bus[j]? with
    | none => simp [absLabel, Skeleton.step, abs, hmsg] at h
    | some msg =>
      have hs₁ : System.Ok P holds llcHolds { s with bus := s.bus.eraseIdx j } :=
        ⟨hs.core, hs.home, hs.waiting, hs.queue, fun m hm => hs.bus m (List.mem_of_mem_eraseIdx hm),
          hs.flight, hs.maxSize⟩
      have hbroadcast : (abs P { s with bus := s.bus.eraseIdx j }).broadcast hP.tables t.llcId (reqOf msg) = .ok k := by
        simpa [absLabel, Skeleton.step, abs, hmsg, List.eraseIdx_map] using h
      cases broadcast_runs hP hW hX hs₁ ⟨hserved.core, hserved.home⟩ hreach (hs.bus msg (List.mem_of_getElem? hmsg))
        hbroadcast with
      | intro s' hs' => exact ⟨s', by simp only [System.step, hmsg, hs']⟩
  | retry i j =>
    cases hmsg : (s.waiting i)[j]? with
    | none => simp [absLabel, Skeleton.step, abs, hmsg] at h
    | some msg =>
      have hwaiting := hs.waiting i msg (List.mem_of_getElem? hmsg)
      have hget : ((abs P s).waiting i)[j]? = some (reqOf msg) := by simp [abs, hmsg]
      simp only [absLabel, Skeleton.step, hget] at h
      cases hevent : (reqOf msg).event i with
      | error e => simp [hevent] at h
      | ok e =>
        have hplain := event_not_data hevent
        have hread := (coreMsgOk_bus hP (absCore P.l1.initial (s.l1 i)).state (i := i) hwaiting.1 hwaiting.2 hevent).read
        simp only [hevent] at h
        split at h
        · simp at h
        · next hstall =>
          have hready : s.readyL1 P.l1 i msg = true := (readyL1_abs hP hread).2 hstall
          have hrun := runL1_runs hP hW hX hserved
            { s with waiting := Function.update s.waiting i ((s.waiting i).eraseIdx j) } (i := i) rfl hread
            (by simp [hwaiting.2]) (fun he => by simp [hplain] at he) (fun _ => hwaiting.1) (hreach i) rfl
            (Option.some.inj h)
          cases hrun with
          | intro s' hs' => exact ⟨s', by simp only [System.step, hmsg, hready, if_true, hs']⟩
  | deliver j =>
    cases hf : s.flight[j]? with
    | none => simp [absLabel, Skeleton.step, abs, hf] at h
    | some f =>
      have hflight := hs.flight f (List.mem_of_getElem? hf)
      have hget : (abs P s).flight[j]? = some (absFlight f) := by simp [abs, hf]
      have hs₁ : System.Ok P holds llcHolds { s with flight := s.flight.eraseIdx j } :=
        ⟨hs.core, hs.home, hs.waiting, hs.queue, hs.bus,
          fun g hg => hs.flight g (List.mem_of_mem_eraseIdx hg), hs.maxSize⟩
      by_cases hdest : f.dest = t.llcId
      · have hmsg : HomeMsgOk t { f.msg with source := .lowerInterconnect } :=
          ⟨fun _ => hflight.2, fun h => by simp at h, fun h => by simp at h⟩
        have hdrain : (abs P { s with flight := s.flight.eraseIdx j }).drainQueue hP.tables t.llcId
            ((abs P { s with flight := s.flight.eraseIdx j }).queue ++
              [absHomeMsg { f.msg with source := .lowerInterconnect }]) = .ok k := by
          simp only [absLabel, Skeleton.step, hget] at h
          simpa [absFlight, hdest, abs, List.eraseIdx_map, absHomeMsg, hflight.1] using h
        cases receiveLLC_runs hP hW hX hs₁ hserved.home hmsg hdrain with
        | intro s' hs' => exact ⟨s', by simp only [System.step, hf, hdest, if_true, hs']⟩
      · simp only [absLabel, Skeleton.step, hget, absFlight, hdest, if_false] at h
        split at h
        · next hlt =>
          cases hP.readEvent_data f.dest { f.msg with source := .upperInterconnect } rfl hflight.1 with
          | intro msg' hread =>
            have hrun := runL1_runs hP hW hX hserved { s with flight := s.flight.eraseIdx j }
              (i := ⟨f.dest, hlt⟩) rfl hread.1 (by simp) (fun _ => ⟨hread.2.2.1 ▸ hflight.1, hread.2.2.2.1 ▸ hflight.2⟩)
              (fun he => by simp [hP.dataEvent_isData] at he) (hreach _) rfl (Option.some.inj h)
            cases hrun with
            | intro s' hs' =>
              exact ⟨s', by simp only [System.step, hf, hdest, if_false, hlt, dif_pos, hs']⟩
        · simp at h
  | fill j =>
    cases hread : s.memory[j]? with
    | none => simp [absLabel, Skeleton.step, abs, hread] at h
    | some read =>
      have hget : (abs P s).memory[j]? = some read.owner := by simp [abs, hread]
      have hs₁ : System.Ok P holds llcHolds { s with memory := s.memory.eraseIdx j } :=
        ⟨hs.core, hs.home, hs.waiting, hs.queue, hs.bus, hs.flight, hs.maxSize⟩
      have hdrain : (abs P { s with memory := s.memory.eraseIdx j }).drainQueue hP.tables t.llcId
          (absQueue (s.queue.pushFrontOrdered (fillMessage t read)).buffer) = .ok k := by
        have hmsg : absHomeMsg (fillMessage t read) = .fill read.owner := rfl
        have hpos := behindSource_abs hs.queue
        simp only [absLabel, Skeleton.step, hget] at h
        simp only [FRFCFSBuffer.pushFrontOrdered, absQueue, List.map_append, List.map_cons, hmsg, List.map_take,
          List.map_drop]
        simp only [show (fillMessage t read).source = .upperInterconnect from rfl, hpos]
        simpa [abs, List.eraseIdx_map] using h
      cases drainLLC_runs hP hW hX hs₁ hserved.home (elementOk_fill hs.queue read) rfl hdrain with
      | intro s' hs' => exact ⟨s', by simp only [System.step, hread]; exact congrArg some hs'⟩

end System

end Octopus.Snoop
