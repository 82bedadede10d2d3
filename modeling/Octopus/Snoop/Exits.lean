import Octopus.Snoop.Settled

/-!
# How a run of the simulator ends

Besides the stale write-back, one thing ends a run of a snooping system: a store of a whole block to a line that
is absent. The line update writes the bytes of a full message into the line at once, and there is none yet. Every
other request, replacement, eviction and network step is carried out.
-/

namespace Octopus.Snoop

open Lib LineController

/-- A store of a whole block misses in its private cache. -/
def MissesWithBlock {σ τ : Type} {t : Topology} (s : System t σ τ) : Label t.n → Prop
  | .store i offset bytes => ∃ block, bytes = some block ∧ offset + block.length ≤ t.blockSize ∧
      t.blockSize ≤ block.length ∧ 0 < t.blockSize ∧ (s.l1 i).slot = none
  | _ => False

/-- What requests of the processors ask of the tables; `bytes` are the states with bytes. -/
structure RequestLaws {σ τ : Type} (P : Protocols σ τ) (bytes : σ → Bool) : Prop where
  /-- A load or a store hits only where the line has its bytes. -/
  hit : ∀ s e, e = .load ∨ e = .store → ActionId.hit ∈ P.l1.fsm.getActions s e → bytes s = true
  replacement : ∀ s, ActionId.hit ∉ P.l1.fsm.getActions s .replacement
  /-- A store to an absent line asks for the line. -/
  store_initial : P.l1.fsm.getActions P.l1.initial .store = [.getM] ∧
    P.l1.fsm.isValidState (P.l1.fsm.getNextState P.l1.initial .store) = true

section Rows

variable {σ τ : Type}

/-- The controller actions of a request of the processor. -/
theorem handleAction_request (cfg : ControllerConfig) (fsm : Fsm σ EventId ActionId) {actions : List ActionId}
    (msg : Message) (line : GenericCacheLine σ) (next : σ)
    (hshape : actions ∈ [[ActionId.stall], [.fault], [.hit], [.getS], [.getM]]) (hfault : ActionId.fault ∉ actions)
    (hstall : ActionId.stall ∉ actions) (hsource : msg.source = .lowerInterconnect) :
    ∃ tail, MESIProtocol.handleAction cfg fsm actions msg line next = .ok
        (.updateCacheLine msg { line with valid := fsm.isValidState next, state := next } :: tail) ∧
      (ActionId.hit ∉ actions → ∀ a ∈ tail, IsSure a) ∧
      (ActionId.hit ∈ actions → tail = [.hitAction msg, .modifyData msg]) := by
  simp only [List.mem_cons, List.not_mem_nil, or_false] at hshape
  rcases hshape with rfl | rfl | rfl | rfl | rfl
  case inl => simp at hstall
  case inr.inl => simp at hfault
  all_goals
    refine ⟨_, rfl, fun _ => ?_, fun _ => ?_⟩
    all_goals simp_all [IsSure]

/-- A load or a store can be carried out, unless it brings a whole block for a line that is absent. -/
theorem process_request_runs {P : Protocols σ τ} {bytes : σ → Bool} (hP : LawfulL1 P.l1 bytes)
    (hA : AccountLaws P.l1.fsm) (hQ : RequestLaws P bytes) (cfg : ControllerConfig) {c : LineController σ}
    {msg : Message} {e : EventId} (he : e = .load ∨ e = .store) (hread : P.l1.readEvent cfg.id msg = .ok (e, msg))
    (hsource : msg.source = .lowerInterconnect)
    (hfault : ActionId.fault ∉ P.l1.fsm.getActions (absCore P.l1.initial c).state e)
    (hstall : ActionId.stall ∉ P.l1.fsm.getActions (absCore P.l1.initial c).state e)
    (hbytes : bytes (absCore P.l1.initial c).state = true → c.slot.readCacheLine.isSome)
    (hline : msg.data.isSome → cfg.blockSize ≤ msg.dataSize → c.slot ≠ none) :
    ∃ c' out, P.l1.process cfg c msg = .ok (c', out) := by
  rw [process_eq hP cfg c hread]
  cases handleAction_request cfg P.l1.fsm msg (c.slot.readLineBits P.l1.initial)
    (P.l1.fsm.getNextState (absCore P.l1.initial c).state e) (hA.asks _ e he) hfault hstall hsource with
  | intro tail hrow =>
    rw [hrow.1]
    cases exec_updateCacheLine cfg c msg
      { c.slot.readLineBits P.l1.initial with
        valid := P.l1.fsm.isValidState (P.l1.fsm.getNextState (absCore P.l1.initial c).state e)
        state := P.l1.fsm.getNextState (absCore P.l1.initial c).state e }
      (fun hdata hsize _ => hline hdata hsize) with
    | intro c₁ h₁ =>
      cases h₁ with
      | intro out₁ h₁ =>
        apply runs_cons h₁
        by_cases hhit : ActionId.hit ∈ P.l1.fsm.getActions (absCore P.l1.initial c).state e
        · rw [hrow.2.2 hhit]
          have hupdated := (updateCacheLine_updated h₁).2
          have hstored : c₁.slot ≠ none → c₁.slot.readCacheLine.isSome := by
            intro hslot
            cases hvalid : P.l1.fsm.isValidState (P.l1.fsm.getNextState (absCore P.l1.initial c).state e) with
            | true => exact hupdated.bytes hvalid (hbytes (hQ.hit _ e he hhit))
            | false => exact absurd (hupdated.invalid hvalid) hslot
          apply runs_cons rfl
          cases exec_modifyData cfg msg hstored with
          | intro c₂ h₂ =>
            cases h₂ with
            | intro out₂ h₂ => exact runs_cons h₂ ⟨c₂, [], rfl⟩
        · exact runs_of_sure (hrow.2.1 hhit)

/-- A store of a whole block to an absent line ends the run. -/
theorem process_block_miss {P : Protocols σ τ} {holds bytes : σ → Bool} (hP : LawfulL1 P.l1 holds)
    (hQ : RequestLaws P bytes) (cfg : ControllerConfig) (c : LineController σ) {msg : Message}
    (hread : P.l1.readEvent cfg.id msg = .ok (.store, msg)) (hslot : c.slot = none) (hdata : msg.data.isSome)
    (hsize : cfg.blockSize ≤ msg.dataSize) : P.l1.process cfg c msg = .error .unfoundLine := by
  have hinitial : (absCore P.l1.initial c).state = P.l1.initial := by simp [absCore, hslot, Slot.readLineBits]
  cases Option.isSome_iff_exists.1 hdata with
  | intro block hblock =>
    have hbig : ¬ msg.dataSize < cfg.blockSize := Nat.not_lt.2 hsize
    rw [process_eq hP cfg c hread, hinitial, hQ.store_initial.1]
    simp [MESIProtocol.handleAction, MSIProtocol.handleAction, MSIProtocol.addAction, execActions, execAction,
      updateCacheLine, hblock, hQ.store_initial.2, hbig, hslot, Slot.updateLineBits, Slot.updateLineData]

end Rows

section System

variable {σ τ : Type} {t : Topology} {P : Protocols σ τ} {holds bytes : σ → Bool} {llcHolds : τ → Bool}
  {waits : σ → Bool} {fetches : τ → Bool} {ph : Phases σ τ} {s : System t σ τ}

/-- No row of a request that does not stall faults. -/
theorem request_row {n llc : Nat} {T : Tables σ τ} {k : Skeleton n σ τ} (hL : TokenLaws T ph) (hn : n ≤ llc)
    (hI : Inv T ph llc k) {i : Fin n} {e : EventId} (he : e ∈ requestEvents)
    (hstall : ActionId.stall ∉ T.l1.getActions (k.core i).state e) :
    ActionId.fault ∉ T.l1.getActions (k.core i).state e := by
  intro hfault
  have hstep := step_of_enabled hL hn hI (l := .core i e) id (by simp [Skeleton.step, he, hstall])
  cases hstep with
  | inl hstale => exact hstale.elim
  | inr hstep =>
    cases hstep with
    | intro k' hk' => simp [Skeleton.step, he, hstall, Skeleton.runCore, Core.process, hfault] at hk'

/-- A request of a processor that does not stall is carried out if its row can be. -/
theorem request_runs (hP : Lawful P holds llcHolds) (hL : TokenLaws hP.tables ph)
    (hI : Inv hP.tables ph t.llcId (abs P s)) {i : Fin t.n} {msg : Message} {e : EventId} (he : e ∈ requestEvents)
    (hread : P.l1.readEvent i msg = .ok (e, msg))
    (hrow : ActionId.fault ∉ P.l1.fsm.getActions (absCore P.l1.initial (s.l1 i)).state e →
      ActionId.stall ∉ P.l1.fsm.getActions (absCore P.l1.initial (s.l1 i)).state e →
      ∃ c' out, P.l1.process (t.l1Config i) (s.l1 i) msg = .ok (c', out)) {x : Exit} :
    s.request P.l1 i msg ≠ some (.error x) := by
  intro h
  rw [System.request] at h
  split at h
  · next hready =>
    have hstall := (readyL1_abs hP hread).1 hready
    have hfault := request_row hL t.llcId_ge hI (i := i) he hstall
    cases hrow hfault hstall with
    | intro c' hc' =>
      cases hc' with
      | intro out hout => simp [System.runL1, hout] at h
  · simp at h

/-- A load or a store ends no run unless it brings a whole block for an absent line. -/
theorem cpuRequest_runs (hP : Lawful P holds llcHolds) (hL : TokenLaws hP.tables ph)
    (hI : Inv hP.tables ph t.llcId (abs P s)) (hB : Lawful P bytes llcHolds) (hA : AccountLaws P.l1.fsm)
    (hQ : RequestLaws P bytes) (hr : (system t P).Reachable s) {i : Fin t.n} {offset type : Nat}
    {data : Option (List UInt8)} (hdata : data.isSome → t.blockSize ≤ (data.getD []).length → (s.l1 i).slot ≠ none)
    {x : Exit} : s.request P.l1 i (s.cpuMessage i offset type data) ≠ some (.error x) := by
  have hbytes := ((ok_inductive hB).reachable hr).core i
  have hread : P.l1.readEvent i (s.cpuMessage i offset type data) =
      .ok (if type = 0 then .load else .store, s.cpuMessage i offset type data) := by
    rw [hP.l1.readEvent_other _ _ (by simp [System.cpuMessage])]
    rfl
  have he : (if type = 0 then EventId.load else .store) = .load ∨
      (if type = 0 then EventId.load else .store) = .store := by
    split
    · exact .inl rfl
    · exact .inr rfl
  apply request_runs hP hL hI _ hread
  · exact fun hfault hstall => process_request_runs hB.l1 hA hQ (t.l1Config i) he hread rfl hfault hstall hbytes
      hdata
  · cases he with
    | inl he =>
      rw [he]
      decide
    | inr he =>
      rw [he]
      decide

/-- A step that ends a run grants a stale write-back, or stores a whole block to an absent line. -/
theorem exits_of_inv (hP : Lawful P holds llcHolds) (hL : TokenLaws hP.tables ph) (hW : ServeLaws P waits fetches)
    (hX : ArrivalLaws P ph) (hB : Lawful P bytes llcHolds) (hA : AccountLaws P.l1.fsm) (hQ : RequestLaws P bytes)
    (hr : (system t P).Reachable s) (hI : Inv hP.tables ph t.llcId (abs P s)) {l : Label t.n}
    (hcopy : ¬ (abs P s).StaleCopy ph (absLabel l)) {x : Exit} (h : s.step P l = some (.error x)) :
    (abs P s).StaleWriteBack ph (absLabel l) ∨ MissesWithBlock s l := by
  have hs := (ok_inductive hP).reachable hr
  have hserved := (served_inductive hP hW).reachable hr
  have hreach : ∀ i, ph.core (absCore P.l1.initial (s.l1 i)).state ≠ .unreachable := by
    intro i
    cases hI.1 with
    | intro tok hT => exact hT.cores.ne_unreachable i
  by_cases hwrite : (abs P s).StaleWriteBack ph (absLabel l)
  · exact .inl hwrite
  have hnetwork : l.isNetwork → (abs P s).step hP.tables t.llcId (absLabel l) ≠ none → False := by
    intro hl henabled
    cases step_of_enabled hL t.llcId_ge hI hwrite henabled with
    | inl hstale => exact hcopy hstale
    | inr hstep =>
      cases hstep with
      | intro k hk =>
        cases network_step_runs hP hW hX hs hserved hreach hl hk with
        | intro s' hs' => simp [hs'] at h
  cases l with
  | load i offset =>
    rw [System.step] at h
    split at h
    · exact absurd h (cpuRequest_runs hP hL hI hB hA hQ hr (by simp))
    · simp at h
  | store i offset data =>
    by_cases hmiss : MissesWithBlock s (.store i offset data)
    · exact .inr hmiss
    rw [System.step] at h
    split at h
    · next hfits =>
      refine absurd h (cpuRequest_runs hP hL hI hB hA hQ hr fun hsome hsize hslot => hmiss ?_)
      cases Option.isSome_iff_exists.1 hsome with
      | intro block hblock =>
        rw [hblock] at hfits hsize
        exact ⟨block, hblock, hfits.2, hsize, by omega, hslot⟩
    · simp at h
  | replacement i =>
    rw [System.step] at h
    have hread : P.l1.readEvent i (s.evictMessage (t.l1Config i)) =
        .ok (.replacement, s.evictMessage (t.l1Config i)) := by
      rw [hP.l1.readEvent_other _ _ (by simp [System.evictMessage])]
      simp [MSIProtocol.readEvent, System.evictMessage, Topology.l1Config, Except.map]
    refine absurd h (request_runs hP hL hI (by decide) hread fun hfault _ => ?_)
    exact process_runs hP.l1 (t.l1Config i) hread hfault (by simp [System.evictMessage])
      fun hhit => absurd hhit (hQ.replacement _)
  | evict =>
    cases hslot : s.llc.slot with
    | none => simp [System.step, hslot] at h
    | some r =>
      by_cases hlocation : r.location = .array
      · have hstep := step_of_enabled hL t.llcId_ge hI hwrite (by
          simp [absLabel, Skeleton.step, abs, absHome, hslot, hlocation])
        cases hstep with
        | inl hstale => exact absurd hstale hcopy
        | inr hstep =>
          cases hstep with
          | intro k hk =>
            have hmoved : System.Ok P holds llcHolds
                { s with llc := { s.llc with slot := s.llc.slot.moveLine2WB }, nextId := s.nextId + 1 } := by
              refine ⟨hs.core, fun hh => ?_, hs.waiting, hs.queue, hs.bus, hs.flight, hs.maxSize⟩
              have hline := hs.home (by simpa [absHome, hslot, Slot.moveLine2WB, Slot.readLineBits] using hh)
              simpa [hslot, Slot.moveLine2WB, Slot.readCacheLine] using hline
            have hfetch : fetches (absHome P.llc.initial { s.llc with slot := s.llc.slot.moveLine2WB }).state = true →
                s.llc.pending ≠ [] := by
              intro hh
              exact hserved.home (by simpa [absHome, hslot, Slot.moveLine2WB, Slot.readLineBits] using hh)
            have hdrain : (abs P { s with
                llc := { s.llc with slot := s.llc.slot.moveLine2WB }
                nextId := s.nextId + 1 }).drainQueue hP.tables t.llcId
                  ((abs P s).queue ++ [absHomeMsg (s.evictMessage t.llcConfig)]) = .ok k := by
              simpa [absLabel, Skeleton.step, abs, absHome, hslot, hlocation, Slot.moveLine2WB, Slot.readLineBits,
                absHomeMsg, System.evictMessage] using hk
            cases receiveLLC_runs hP hW hX hmoved hfetch (homeMsgOk_evict s) hdrain with
            | intro s' hs' =>
              rw [hslot] at hs'
              simp [System.step, hslot, hlocation, hs'] at h
      · simp [System.step, hslot, hlocation] at h
  | grant k =>
    cases hmsg : s.bus[k]? with
    | none => simp [System.step, hmsg] at h
    | some msg => exact (hnetwork trivial (by simp [absLabel, Skeleton.step, abs, hmsg])).elim
  | retry i k =>
    cases hI.1 with
    | intro tok hT =>
      have hnil : s.waiting i = [] := List.map_eq_nil_iff.1 (hT.waiting i)
      simp [System.step, hnil] at h
  | deliver k =>
    cases hf : s.flight[k]? with
    | none => simp [System.step, hf] at h
    | some f =>
      apply (hnetwork trivial _).elim
      simp only [absLabel, Skeleton.step, abs, List.getElem?_map, hf, Option.map_some, absFlight]
      by_cases hdest : f.dest = t.llcId
      · simp [hdest]
      by_cases hlt : f.dest < t.n
      · simp [hdest, hlt]
      · simp [System.step, hf, hdest, hlt] at h
  | fill k =>
    cases hread : s.memory[k]? with
    | none => simp [System.step, hread] at h
    | some read => exact (hnetwork trivial (by simp [absLabel, Skeleton.step, abs, hread])).elim

/-- A store of a whole block to an absent line ends the run. -/
theorem exits_of_miss (hP : Lawful P holds llcHolds) (hQ : RequestLaws P bytes) {l : Label t.n}
    (h : MissesWithBlock s l) : s.step P l = some (.error .unfoundLine) := by
  cases l with
  | store i offset data =>
    cases h with
    | intro block hblock =>
      have hslot := hblock.2.2.2.2
      have hread : P.l1.readEvent i (s.cpuMessage i offset 1 data) = .ok (.store, s.cpuMessage i offset 1 data) := by
        rw [hP.l1.readEvent_other _ _ (by simp [System.cpuMessage])]
        rfl
      have hstall : ActionId.stall ∉ hP.tables.l1.getActions ((abs P s).core i).state .store := by
        have hrow : hP.tables.l1.getActions ((abs P s).core i).state .store = [.getM] := by
          simpa [abs, absCore, hslot, Slot.readLineBits, Lawful.tables] using hQ.store_initial.1
        simp [hrow]
      have hready := (readyL1_abs hP hread).2 hstall
      have hexit := process_block_miss hP.l1 hQ (t.l1Config i) (s.l1 i) hread hslot
        (by simp [System.cpuMessage, hblock.1]) (by simpa [System.cpuMessage, hblock.1, Topology.l1Config] using hblock.2.2.1)
      have hfits : offset < t.blockSize ∧ offset + (data.getD []).length ≤ t.blockSize := by
        rw [hblock.1]
        exact ⟨by omega, hblock.2.1⟩
      rw [System.step, if_pos hfits, System.request, if_pos hready, System.runL1]
      rw [hexit]
  | _ => exact h.elim

/-- The write-back that is granted during a fetch. -/
theorem grants_of_abs {k : Nat} (h : (abs P s).StaleWriteBack ph (.grant k)) :
    ∃ msg, s.bus[k]? = some msg ∧ msg.complementaryValue = requestTypePutM ∧
      (ph.home (absHome P.llc.initial s.llc).state).isFetching = true := by
  cases h with
  | intro r hr =>
    have hbus : ∃ msg, s.bus[k]? = some msg ∧ reqOf msg = r := by simpa [abs] using hr.1
    cases hbus with
    | intro msg hmsg =>
      have htype := hr.2.1
      rw [← hmsg.2] at htype
      exact ⟨msg, hmsg.1, htype, hr.2.2⟩

end System

section Protocols

/-- The MSI states in which a private cache has the bytes of the line. -/
def msiBytes (s : MSIState) : Bool :=
  s ∉ [MSIState.I, .IS_ad, .IS_d, .IS_dI, .IM_ad, .IM_d, .IM_dI, .IM_dS, .IM_dSI, .II_a]

/-- In the states with bytes an MSI private cache has them. -/
def msiLawfulBytes : Lawful msiProtocols msiBytes llcMSIHolds where
  l1 := { msi_lawfulL1 with
    holds_initial := rfl
    holds_next := by decide
    holds_supply := by decide }
  llc := msi_lawfulLLC
  dataEvent := msiLawful.dataEvent
  readEvent_data := msiLawful.readEvent_data
  dataEvent_isData := msiLawful.dataEvent_isData
  data_row := msiLawful.data_row
  core_row := msiLawful.core_row

/-- What processors ask of the MSI tables. -/
theorem msi_requestLaws : RequestLaws msiProtocols msiBytes := by constructor <;> decide

/-- Two things end a run of MSI, whatever its steps are: the grant of a stale write-back during a fetch, and a store of a
whole block to an absent line, which always does. -/
theorem msi_exits {t : Topology} {s : System t MSIState LLCMSIState} (hr : (system t msiProtocols).Reachable s)
    (l : Label t.n) :
    (∀ x, s.step msiProtocols l = some (.error x) → StaleWriteBack s l ∨ MissesWithBlock s l) ∧
      (MissesWithBlock s l → s.step msiProtocols l = some (.error .unfoundLine)) := by
  refine ⟨fun x h => ?_, exits_of_miss msiLawful msi_requestLaws⟩
  have hcopy : ¬ (abs msiProtocols s).StaleCopy msiPhases (absLabel l) := by
    cases l <;> simp [Skeleton.StaleCopy, absLabel, msi_not_reading]
  cases exits_of_inv msiLawful msi_laws msi_serveLaws msi_arrivalLaws msiLawfulBytes msi_accountLaws msi_requestLaws hr
    (msi_inv hr) hcopy h with
  | inl hwrite =>
    cases l with
    | grant k =>
      cases grants_of_abs hwrite with
      | intro msg hmsg =>
        have hhome : ∀ h, (msiPhases.home h).isFetching = true → h = .NIorS_d ∨ h = .NM_d := by decide
        exact .inl ⟨msg, hmsg.1, hmsg.2.1, hhome _ hmsg.2.2⟩
    | _ => exact hwrite.elim
  | inr hmiss => exact .inr hmiss

/-- A whole block stored to a line that nobody has: what was proved holds of the first state. -/
theorem msi_exits_first_store :
    (System.initial twoCores MSIState LLCMSIState).step msiProtocols (.store cache0 0 (some [1, 2, 3, 4, 5, 6, 7, 8])) =
      some (.error .unfoundLine) :=
  (msi_exits (.init rfl) _).2 ⟨_, rfl, by decide, by decide, by decide, rfl⟩

/-- The MESI states in which a private cache has the bytes of the line. -/
def mesiBytes (s : MESIState) : Bool :=
  s ∉ [MESIState.I, .IS_ad, .IS_d, .IS_dI, .IES_d, .IES_dI, .IM_ad, .IM_d, .IM_dI, .IM_dS, .IM_dSI, .II_a]

/-- In the states with bytes a MESI private cache has them. -/
def mesiLawfulBytes : Lawful mesiProtocols mesiBytes llcMESIHolds where
  l1 := { mesi_lawfulL1 with
    holds_initial := rfl
    holds_next := by decide
    holds_supply := by decide }
  llc := mesi_lawfulLLC
  dataEvent := mesiLawful.dataEvent
  readEvent_data := mesiLawful.readEvent_data
  dataEvent_isData := mesiLawful.dataEvent_isData
  data_row := mesiLawful.data_row
  core_row := mesiLawful.core_row

/-- What processors ask of the MESI tables. -/
theorem mesi_requestLaws : RequestLaws mesiProtocols mesiBytes := by constructor <;> decide

/-- A write-back is granted while the last-level cache of a MESI system fetches the line. -/
def StaleMESIWriteBack {t : Topology} (s : System t MESIState LLCMESIState) : Label t.n → Prop
  | .grant k => ∃ msg, s.bus[k]? = some msg ∧ msg.complementaryValue = requestTypePutM ∧
      ((s.homeLine mesiProtocols).state = .NE_d ∨ (s.homeLine mesiProtocols).state = .NM_d)
  | _ => False

/-- The same two things end a run of MESI, as long as no stale copy is delivered. -/
theorem mesi_exits {t : Topology} {s : System t MESIState LLCMESIState}
    (hr : ((system t mesiProtocols).restrict fun s l => ¬ DeliversStaleCopy s l).Reachable s) (l : Label t.n) :
    (∀ x, ¬ DeliversStaleCopy s l → s.step mesiProtocols l = some (.error x) →
        StaleMESIWriteBack s l ∨ MissesWithBlock s l) ∧
      (MissesWithBlock s l → s.step mesiProtocols l = some (.error .unfoundLine)) := by
  refine ⟨fun x hcopy h => ?_, exits_of_miss mesiLawful mesi_requestLaws⟩
  cases exits_of_inv mesiLawful mesi_laws mesi_serveLaws mesi_arrivalLaws mesiLawfulBytes mesi_accountLaws
    mesi_requestLaws hr.of_restrict (mesi_inv hr) (fun hstale => hcopy (deliversStaleCopy_of_abs hstale)) h with
  | inl hwrite =>
    cases l with
    | grant k =>
      cases grants_of_abs hwrite with
      | intro msg hmsg =>
        have hhome : ∀ h, (mesiPhases.home h).isFetching = true → h = .NE_d ∨ h = .NM_d := by decide
        exact .inl ⟨msg, hmsg.1, hmsg.2.1, hhome _ hmsg.2.2⟩
    | _ => exact hwrite.elim
  | inr hmiss => exact .inr hmiss

/-- A whole block stored to a line that nobody has: what was proved holds of the first state. -/
theorem mesi_exits_first_store :
    (System.initial twoCores MESIState LLCMESIState).step mesiProtocols
        (.store cache0 0 (some [1, 2, 3, 4, 5, 6, 7, 8])) = some (.error .unfoundLine) :=
  (mesi_exits (.init rfl) _).2 ⟨_, rfl, by decide, by decide, by decide, rfl⟩

end Protocols

end Octopus.Snoop
