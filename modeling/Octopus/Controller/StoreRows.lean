import Octopus.Controller.PrivateCaches
import Octopus.Controller.Stores

/-!
# The rows of the private caches and their stores

Every Hit cell of the three snooping tables gives the row of a hit: its line holds a block, and it
reports the row to the data array. The other rows answer nothing and write no store.
-/

namespace Octopus

/-- The Hit cells of a table: a supply or the drop of parked requests is added only where the bytes of the line arrive. -/
def Fsm.HitCells {σ : Type} (fsm : Fsm σ EventId ActionId) (initial : σ) : Prop :=
  ∀ s e, .hit ∈ fsm.getActions s e → s ≠ initial ∧
    (fsm.getActions s e = [.hit] ∧ (fsm.isValidState (fsm.getNextState s e) = true ∨ e = .ownData ∨ e = .ownDataExeclusive) ∨
      (e = .ownData ∨ e = .ownDataExeclusive) ∧
        (fsm.getActions s e = [.hit, .data2Req] ∨ fsm.getActions s e = [.hit, .data2Both] ∨
          fsm.getActions s e = [.hit, .removeSavedReq]))

/-- The Hit cells of MSI. -/
theorem msiSplitBusSnooping_hitCells : msiSplitBusSnooping.HitCells .I := by
  unfold Fsm.HitCells
  decide

/-- The Hit cells of MESI. -/
theorem mesiSplitBusSnooping_hitCells : mesiSplitBusSnooping.HitCells .I := by
  unfold Fsm.HitCells
  decide

/-- The Hit cells of MOESI. -/
theorem moesiSplitBusSnooping_hitCells : moesiSplitBusSnooping.HitCells .I := by
  unfold Fsm.HitCells
  decide

open ControllerAction (HitRow Quiet)

namespace MSIProtocol

variable {σ : Type} {cfg : ControllerConfig} {fsm : Fsm σ EventId ActionId} {actions : List ActionId} {msg : Message}
  {line : GenericCacheLine σ} {next : σ} {as : List (ControllerAction σ)} {id : Nat} {e : EventId}

/-- Data from above carries its bytes. -/
theorem data_of_readEvent (h : readEvent id msg = .ok e) :
    (e = .ownData ∨ e = .ownDataExeclusive) → msg.data.isSome := by
  rw [readEvent] at h
  split at h
  · obtain rfl := Except.ok.inj h
    split_ifs <;> simp
  · split_ifs at h
    obtain rfl := Except.ok.inj h
    simp
  · split_ifs at h with hdata
    · exact fun _ => hdata
    all_goals
      obtain rfl := Except.ok.inj h
      simp

/-- The row of a cell without Hit. -/
theorem handleAction_quiet (hhit : .hit ∉ actions) (h : handleAction cfg fsm actions msg line next = .ok as) :
    ∀ a ∈ as, a.Quiet := by
  refine foldlM_keeps (I := fun b : List (ControllerAction σ) => ∀ a ∈ b, a.Quiet) ?_ (fun a ha b b' hb hadd => ?_) h
  · split_ifs
    · simp
    · simpa using Quiet.updateCacheLine _ _
  · cases a with
    | hit => exact absurd ha hhit
    | fault => simp [addAction] at hadd
    | removeSavedReq =>
      obtain rfl := Except.ok.inj hadd
      exact hb
    | data2Req | data2Both =>
      obtain rfl := Except.ok.inj hadd
      rw [List.forall_mem_cons]
      exact ⟨.writeBack _, hb⟩
    | getS | getM =>
      obtain rfl := Except.ok.inj hadd
      simp only [List.forall_mem_append, List.forall_mem_cons, List.not_mem_nil, false_imp_iff, implies_true, and_true]
      exact ⟨hb, .addPending _, .sendBusMsg _⟩
    | stall =>
      obtain rfl := Except.ok.inj hadd
      rw [List.forall_mem_append, List.forall_mem_singleton]
      exact ⟨hb, .stall _⟩
    | putM =>
      obtain rfl := Except.ok.inj hadd
      rw [List.forall_mem_append, List.forall_mem_singleton]
      exact ⟨hb, .sendBusMsg _⟩
    | saveReq =>
      obtain rfl := Except.ok.inj hadd
      rw [List.forall_mem_append, List.forall_mem_singleton]
      exact ⟨hb, .saveReqForWriteBack _⟩

/-- The row of a Hit cell. -/
theorem handleAction_hit (hactions : actions = [.hit] ∨ actions = [.hit, .removeSavedReq])
    (hvalid : msg.data = none → fsm.isValidState next = true)
    (h : handleAction cfg fsm actions msg line next = .ok as) : HitRow msg as := by
  have has : as = [.updateCacheLine msg (fsm.updated line next), .answer msg, .modifyData msg] := by
    rcases hactions with rfl | rfl <;> exact (Except.ok.inj h).symm
  rw [has]
  exact ⟨[], _, [], rfl, .inl rfl, .inl rfl, hvalid⟩

/-- The row of a Hit cell with a supply. -/
theorem handleAction_supply (hactions : actions = [.hit, .data2Req] ∨ actions = [.hit, .data2Both])
    (hdata : msg.data.isSome) (h : handleAction cfg fsm actions msg line next = .ok as) : HitRow msg as := by
  have has : ∃ both, as = [.writeBack (supplyMessage cfg msg both), .updateCacheLine msg (fsm.updated line next),
      .answer msg, .modifyData msg] := by
    rcases hactions with rfl | rfl
    · exact ⟨false, (Except.ok.inj h).symm⟩
    · exact ⟨true, (Except.ok.inj h).symm⟩
  obtain ⟨both, rfl⟩ := has
  refine ⟨[.writeBack (supplyMessage cfg msg both)], _, [], rfl, .inr ⟨_, rfl, hdata⟩, .inl rfl, fun hnone => ?_⟩
  simp [hnone] at hdata

end MSIProtocol

namespace MESIProtocol

variable {σ : Type} {cfg : ControllerConfig} {fsm : Fsm σ EventId ActionId} {actions : List ActionId} {msg : Message}
  {line : GenericCacheLine σ} {next : σ} {as : List (ControllerAction σ)}

/-- The row of a cell without Hit. -/
theorem handleAction_quiet (hhit : .hit ∉ actions) (h : handleAction cfg fsm actions msg line next = .ok as) :
    ∀ a ∈ as, a.Quiet := by
  rw [handleAction] at h
  split at h
  · simp at h
  · next built hbuilt =>
    have hquiet := MSIProtocol.handleAction_quiet (fun hmem => hhit (List.mem_of_mem_erase hmem)) hbuilt
    obtain rfl := Except.ok.inj h
    split_ifs
    · rw [List.forall_mem_append, List.forall_mem_singleton]
      exact ⟨hquiet, .removeSavedReq⟩
    · exact hquiet

/-- The row of a Hit cell. -/
theorem handleAction_hit (hactions : actions = [.hit] ∨ actions = [.hit, .removeSavedReq])
    (hvalid : msg.data = none → fsm.isValidState next = true)
    (h : handleAction cfg fsm actions msg line next = .ok as) : HitRow msg as := by
  have has : ∃ back, as = [.updateCacheLine msg (fsm.updated line next), .answer msg, .modifyData msg] ++ back ∧
      (back = [] ∨ back = [.removeSavedReq]) := by
    rcases hactions with rfl | rfl
    · exact ⟨[], (Except.ok.inj h).symm, .inl rfl⟩
    · exact ⟨[.removeSavedReq], (Except.ok.inj h).symm, .inr rfl⟩
  obtain ⟨back, rfl, hback⟩ := has
  exact ⟨[], _, back, rfl, .inl rfl, hback, hvalid⟩

/-- The row of a Hit cell with a supply. -/
theorem handleAction_supply (hactions : actions = [.hit, .data2Req] ∨ actions = [.hit, .data2Both])
    (hdata : msg.data.isSome) (h : handleAction cfg fsm actions msg line next = .ok as) : HitRow msg as := by
  have hbuilt : MSIProtocol.handleAction cfg fsm actions msg line next = .ok as := by
    rcases hactions with rfl | rfl <;> exact h
  exact MSIProtocol.handleAction_supply hactions hdata hbuilt

/-- Reading an event keeps the bytes, and a mark that it consumes comes from above. -/
theorem readEvent_eq_ok {id : Nat} {m m' : Message} {e : EventId} (h : readEvent id m = .ok (e, m')) :
    ∃ v, m' = { m with complementaryValue := v } ∧ (m.source = .lowerInterconnect → v = m.complementaryValue) ∧
      ((e = .ownData ∨ e = .ownDataExeclusive) → m.data.isSome) := by
  rw [readEvent] at h
  split at h
  · simp at h
  · next hread =>
    have hdata := MSIProtocol.data_of_readEvent hread (.inl rfl)
    split_ifs at h
    · obtain ⟨-, rfl⟩ := Prod.mk.inj (Except.ok.inj h)
      refine ⟨0, rfl, fun hsource => ?_, fun _ => hdata⟩
      simp only [MSIProtocol.readEvent, hsource] at hread
      split_ifs at hread <;> simp at hread
    · obtain ⟨-, rfl⟩ := Prod.mk.inj (Except.ok.inj h)
      exact ⟨m.complementaryValue, rfl, fun _ => rfl, fun _ => hdata⟩
  · next event _ hread =>
    obtain ⟨rfl, rfl⟩ := Prod.mk.inj (Except.ok.inj h)
    exact ⟨m.complementaryValue, rfl, fun _ => rfl, MSIProtocol.data_of_readEvent hread⟩

end MESIProtocol

namespace L1Protocol

variable {σ : Type} {P : L1Protocol σ}

/--
What a row does to the stores of its line: nothing, or it is the row of a hit, on a line that holds a
block, and the protocol reports it to the data array.
-/
def HasHitRows (P : L1Protocol σ) : Prop :=
  ∀ {cfg line m as}, P.processRequest cfg line m = .ok as → (∀ a ∈ as, a.Quiet) ∨
    line.state ≠ P.initial ∧ P.needsDataArray cfg.id line m = .ok true ∧
      ∃ v, (m.source = .lowerInterconnect → v = m.complementaryValue) ∧ HitRow { m with complementaryValue := v } as

/-- The rows of a protocol, from its reading, its cells and its handling of a row. -/
theorem hasHitRows_of (hcells : P.fsm.HitCells P.initial)
    (hreads : ∀ {id m e m'}, P.readEvent id m = .ok (e, m') → ∃ v, m' = { m with complementaryValue := v } ∧
      (m.source = .lowerInterconnect → v = m.complementaryValue) ∧
      ((e = .ownData ∨ e = .ownDataExeclusive) → m.data.isSome))
    (hquiet : ∀ {cfg actions msg line next as}, .hit ∉ actions → P.handleAction cfg P.fsm actions msg line next = .ok as →
      ∀ a ∈ as, a.Quiet)
    (hhit : ∀ {cfg actions msg line next as}, actions = [.hit] ∨ actions = [.hit, .removeSavedReq] →
      (msg.data = none → P.fsm.isValidState next = true) → P.handleAction cfg P.fsm actions msg line next = .ok as →
      HitRow msg as)
    (hsupply : ∀ {cfg actions msg line next as}, actions = [.hit, .data2Req] ∨ actions = [.hit, .data2Both] →
      msg.data.isSome → P.handleAction cfg P.fsm actions msg line next = .ok as → HitRow msg as) : P.HasHitRows := by
  intro cfg line m as h
  rw [processRequest] at h
  split at h
  · simp at h
  · next e msg hread =>
    obtain ⟨v, rfl, hlower, hdata⟩ := hreads hread
    by_cases hmem : .hit ∈ P.fsm.getActions line.state e
    · obtain ⟨hstate, hcell⟩ := hcells line.state e hmem
      refine .inr ⟨hstate, ?_, v, hlower, ?_⟩
      · rw [needsDataArray, hread]
        simp [Fsm.hasAction, hmem]
      · rcases hcell with ⟨hactions, hnext⟩ | ⟨hown, hactions | hactions | hactions⟩
        · refine hhit (.inl hactions) (fun hnone => hnext.resolve_right fun hown => ?_) h
          have hsome := hdata hown
          simp only at hnone
          simp [hnone] at hsome
        · exact hsupply (.inl hactions) (hdata hown) h
        · exact hsupply (.inr hactions) (hdata hown) h
        · refine hhit (.inr hactions) (fun hnone => ?_) h
          have hsome := hdata hown
          simp only at hnone
          simp [hnone] at hsome
    · exact .inl (hquiet hmem h)

/-- The rows of MSI. -/
theorem msi_hasHitRows : msiProtocol.HasHitRows :=
  hasHitRows_of msiSplitBusSnooping_hitCells
    (by
      intro id m e m' h
      obtain ⟨event, hread, hpair⟩ := Lib.map_eq_ok.1 h
      obtain ⟨rfl, rfl⟩ := Prod.mk.inj hpair
      exact ⟨m.complementaryValue, rfl, fun _ => rfl, MSIProtocol.data_of_readEvent hread⟩)
    MSIProtocol.handleAction_quiet MSIProtocol.handleAction_hit MSIProtocol.handleAction_supply

/-- The rows of MESI. -/
theorem mesi_hasHitRows : mesiProtocol.HasHitRows :=
  hasHitRows_of mesiSplitBusSnooping_hitCells MESIProtocol.readEvent_eq_ok MESIProtocol.handleAction_quiet
    MESIProtocol.handleAction_hit MESIProtocol.handleAction_supply

/-- The rows of MOESI. -/
theorem moesi_hasHitRows : moesiProtocol.HasHitRows :=
  hasHitRows_of moesiSplitBusSnooping_hitCells MESIProtocol.readEvent_eq_ok MESIProtocol.handleAction_quiet
    MESIProtocol.handleAction_hit MESIProtocol.handleAction_supply

end L1Protocol

end Octopus
