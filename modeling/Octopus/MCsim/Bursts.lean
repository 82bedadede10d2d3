import Octopus.MCsim.Rows
import Mathlib.Algebra.BigOperators.Group.List.Basic
import Mathlib.Algebra.BigOperators.Group.Finset.Basic
import Mathlib.Data.List.Perm.Basic

/-!
# Requests and their bursts

A request leaves the queue of the scheduler long before it is answered: it is pending until as many bursts of data have
come back as its size asks for, and the data find it by their requestor and address alone. What a pending request still
waits for is therefore always on its way: in the queue, in commands, or in data.
-/

namespace Octopus.MCsim

/-- The command of a burst. -/
def RequestType.access : RequestType → BusPacketType
  | .dataRead => .rd
  | .dataWrite => .wr

/-- The data of a request. -/
def Request.data (r : Request) : DataPacket := ⟨r.requestorID, r.address⟩

/-- The data of a command. -/
def BusPacket.data (p : BusPacket) : DataPacket := ⟨p.requestorID, p.address⟩

/-- A command for a burst of some data. -/
def BusPacket.bursts (type : RequestType) (data : DataPacket) (p : BusPacket) : Bool :=
  decide (p.busPacketType = type.access ∧ p.data = data)

/-- How long the data of a burst take. -/
def MemoryConfig.latency (cfg : MemoryConfig) : RequestType → Nat
  | .dataRead => cfg.readLatency
  | .dataWrite => cfg.writeLatency

namespace MemorySystem

variable {cfg : MemoryConfig} {s s' : MemorySystem}

/-- The requests of a type that are pending. -/
def pending (s : MemorySystem) : RequestType → List Request
  | .dataRead => s.pendingReadRequest
  | .dataWrite => s.pendingWriteRequest

/-- The requests of a type that are done. -/
def completed (s : MemorySystem) : RequestType → List Request
  | .dataRead => s.returned
  | .dataWrite => s.written

/-- The data of a type that are on their way. -/
def inFlight (s : MemorySystem) : RequestType → List (DataPacket × Nat)
  | .dataRead => s.pendingReadData
  | .dataWrite => s.sendData

/-- The requests of a type that were accepted. -/
def acceptedOf (s : MemorySystem) (type : RequestType) : List Request :=
  s.accepted.filter fun r => r.requestType = type

/-- The requests of a type that wait for the scheduler. -/
def waiting (s : MemorySystem) (type : RequestType) : List Request :=
  s.generalBuffer.filter fun r => r.requestType = type

/-! ## What the parts of a cycle do to data -/

/-- A request is accepted, queued and pending. -/
theorem addRequest_data (cfg : MemoryConfig) (s : MemorySystem) (requestorID address : Nat) (isRead : Bool) (size : Nat)
    (type : RequestType) :
    let r := request cfg s.allocated s.clockCycle requestorID address isRead size
    let new := if r.requestType = type then [r] else []
    let s' := s.addRequest cfg requestorID address isRead size
    s'.pending type = s.pending type ++ new ∧ s'.acceptedOf type = s.acceptedOf type ++ new ∧
      s'.waiting type = s.waiting type ++ new ∧ s'.completed type = s.completed type ∧
      s'.inFlight type = s.inFlight type := by
  have hfilter : ∀ (l : List Request) (r : Request), (l ++ [r]).filter (fun r => decide (r.requestType = type)) =
      l.filter (fun r => decide (r.requestType = type)) ++ if r.requestType = type then [r] else [] := by
    intro l r
    by_cases hr : r.requestType = type <;> simp [hr]
  refine ⟨?_, hfilter _ _, hfilter _ _, ?_, ?_⟩
  · cases type <;> cases isRead <;> simp [pending, addRequest, request]
  · cases type <;> rfl
  · cases type <;> rfl

/-- Preparing commands leaves all data as they are. -/
theorem prepare_data (cfg : MemoryConfig) (s : MemorySystem) (type : RequestType) :
    (s.prepare cfg).pending type = s.pending type ∧ (s.prepare cfg).completed type = s.completed type ∧
      (s.prepare cfg).inFlight type = s.inFlight type ∧ (s.prepare cfg).accepted = s.accepted := by
  obtain ⟨_, _, _, _, _, hprepare⟩ := prepare_frame cfg s
  rw [hprepare]
  cases type <;> exact ⟨rfl, rfl, rfl, rfl⟩

/-- A command for a burst sets its data on their way. -/
theorem sendCommand_inFlight (p : BusPacket) (index : Nat) (type : RequestType) :
    (s.sendCommand cfg p index).inFlight type =
      s.inFlight type ++ if p.busPacketType = type.access then [(p.data, cfg.latency type)] else [] := by
  cases type with
  | dataRead =>
    change (if p.busPacketType = .rd then _ else _) = s.pendingReadData ++ if p.busPacketType = .rd then _ else _
    split_ifs
    · rfl
    · rw [List.append_nil]
  | dataWrite =>
    change (if p.busPacketType = .wr then _ else _) = s.sendData ++ if p.busPacketType = .wr then _ else _
    split_ifs
    · rfl
    · rw [List.append_nil]

/-- The data that arrive at the end of a cycle, if any do, and the others. -/
def arriving : RequestType → List (DataPacket × Nat) → Option DataPacket × List (DataPacket × Nat)
  | .dataWrite, (data, 0) :: rest => (some data, countDown rest)
  | .dataWrite, data => (none, countDown data)
  | .dataRead, data =>
    match countDown data with
    | (data, 0) :: rest => (some data, rest)
    | data => (none, data)

/-- What data make of the pending requests: the request that they complete, if any, and the others. -/
def receive (cfg : MemoryConfig) (data : Option DataPacket) (pending : List Request) : Option Request × List Request :=
  data.elim (none, pending) fun data => burstDone cfg data pending

/-- What `updateSendData` makes of the state. -/
theorem updateSendData_eq (cfg : MemoryConfig) (s : MemorySystem) :
    let data := arriving .dataWrite s.sendData
    let done := receive cfg data.1 s.pendingWriteRequest
    s.updateSendData cfg = { s with
      sendData := data.2
      pendingWriteRequest := done.2
      generalBuffer := data.1.elim s.generalBuffer fun _ => shareSizes done.2 s.generalBuffer
      written := s.written ++ done.1.toList } := by
  cases hdata : s.sendData with
  | nil => simp [updateSendData, hdata, arriving, receive]
  | cons d rest =>
    cases d with
    | mk data n => cases n <;> simp [updateSendData, hdata, arriving, receive, writeData]

/-- What `updateDevice` makes of the state. -/
theorem updateDevice_eq (cfg : MemoryConfig) (s : MemorySystem) :
    let data := arriving .dataRead s.pendingReadData
    let done := receive cfg data.1 s.pendingReadRequest
    s.updateDevice cfg = { s with
      pendingReadData := data.2
      pendingReadRequest := done.2
      generalBuffer := data.1.elim s.generalBuffer fun _ => shareSizes done.2 s.generalBuffer
      returned := s.returned ++ done.1.toList } := by
  cases hdata : countDown s.pendingReadData with
  | nil => simp [updateDevice, hdata, arriving, receive]
  | cons d rest =>
    cases d with
    | mk data n => cases n <;> simp [updateDevice, hdata, arriving, receive, receiveData]

/-- The data that arrive find their request. -/
theorem finish_data (cfg : MemoryConfig) (s : MemorySystem) (type : RequestType) :
    let data := arriving type (s.inFlight type)
    let done := receive cfg data.1 (s.pending type)
    (s.finish cfg).inFlight type = data.2 ∧ (s.finish cfg).pending type = done.2 ∧
      (s.finish cfg).completed type = s.completed type ++ done.1.toList ∧ (s.finish cfg).accepted = s.accepted := by
  rw [finish, updateDevice_eq, updateSendData_eq]
  cases type <;> exact ⟨rfl, rfl, rfl, rfl⟩

/-! ## No request is lost -/

/-- The data of a burst take a request from the pending ones if they complete it, and change only its size if not. -/
theorem receive_perm (cfg : MemoryConfig) (data : Option DataPacket) (pending : List Request) :
    (((receive cfg data pending).1.toList ++ (receive cfg data pending).2).map Request.unsized).Perm
      (pending.map Request.unsized) := by
  cases data with
  | none => exact List.Perm.refl _
  | some data =>
    change (((burstDone cfg data pending).1.toList ++ (burstDone cfg data pending).2).map Request.unsized).Perm _
    induction pending with
    | nil => exact List.Perm.refl _
    | cons r rest ih =>
      rw [burstDone]
      split_ifs
      · exact List.Perm.refl _
      · exact List.Perm.refl _
      · rw [List.map_append, List.map_cons, List.map_cons]
        rw [List.map_append] at ih
        exact List.perm_middle.trans (ih.cons r.unsized)

/-- The requests of a type that are done and those that are pending are those that were accepted. -/
def Conserved (type : RequestType) (s : MemorySystem) : Prop :=
  ((s.completed type ++ s.pending type).map Request.unsized).Perm ((s.acceptedOf type).map Request.unsized)

/-- The end of a cycle loses no request. -/
theorem Conserved.finish {type : RequestType} (h : s.Conserved type) : (s.finish cfg).Conserved type := by
  obtain ⟨_, hpending, hcompleted, haccepted⟩ := finish_data cfg s type
  rw [Conserved, hpending, hcompleted, acceptedOf, haccepted, List.append_assoc]
  have hreceive := (receive_perm cfg (arriving type (s.inFlight type)).1 (s.pending type)).append_left
    ((s.completed type).map Request.unsized)
  rw [← List.map_append, ← List.map_append] at hreceive
  exact hreceive.trans h

/-- No step loses a request. -/
theorem conserved_inductive (cfg : MemoryConfig) (type : RequestType) : (system cfg).Inductive (Conserved type) where
  init s hs := by
    have hstart : s = initial cfg := hs
    rw [hstart]
    cases type <;> exact List.Perm.nil
  step s l s' _ h hstep := by
    have heq : s' = s.step cfg l := hstep
    rw [heq]
    cases l with
    | addRequest requestorID address isRead size =>
      obtain ⟨hpending, haccepted, _, hcompleted, _⟩ := addRequest_data cfg s requestorID address
        isRead size type
      change (s.addRequest cfg requestorID address isRead size).Conserved type
      rw [Conserved, hpending, haccepted, hcompleted, ← List.append_assoc]
      rw [Conserved] at h
      simpa only [List.map_append] using h.append_right _
    | update =>
      have hprepare : (s.prepare cfg).Conserved type := by
        obtain ⟨hpending, hcompleted, _, haccepted⟩ := prepare_data cfg s type
        rw [Conserved, hpending, hcompleted, acceptedOf, haccepted]
        exact h
      change (s.update cfg).Conserved type
      cases update_cases cfg s with
      | inl hnone =>
        rw [hnone.2]
        exact hprepare.finish
      | inr hsend =>
        obtain ⟨p, index, _, _, _, _, hsend⟩ := hsend
        have hsent : ((s.prepare cfg).sendCommand cfg p index).Conserved type := by
          cases type <;> exact hprepare
        rw [hsend]
        exact hsent.finish

/-! ## Requestors that are not in the table -/

/-- A requestor of the table. -/
def Listed (cfg : MemoryConfig) (requestorID : Nat) : Prop := requestorID < cfg.numberRequestors

instance : DecidablePred (Listed cfg) := fun _ => Nat.decLt _ _

/-- What arrives for a requestor of the table completes no request of another one, and changes none. -/
theorem receive_listed {data : Option DataPacket} (hdata : ∀ d ∈ data, Listed cfg d.requestorID)
    (pending : List Request) : (∀ r ∈ (receive cfg data pending).1, Listed cfg r.requestorID) ∧
      (receive cfg data pending).2.filter (fun r => ¬ Listed cfg r.requestorID) =
        pending.filter fun r => ¬ Listed cfg r.requestorID := by
  cases data with
  | none => exact ⟨fun _ hr => (nomatch hr), rfl⟩
  | some data =>
    have hlisted := hdata data rfl
    change (∀ r ∈ (burstDone cfg data pending).1, _) ∧ (burstDone cfg data pending).2.filter _ = _
    induction pending with
    | nil => exact ⟨fun _ hr => (nomatch hr), rfl⟩
    | cons r rest ih =>
      rw [burstDone]
      split_ifs with hfound hsize
      · have hr : Listed cfg r.requestorID := hfound.1 ▸ hlisted
        refine ⟨fun r' hr' => Option.some.inj hr' ▸ hr, ?_⟩
        rw [List.filter_cons_of_neg (by simpa using hr)]
      · have hr : Listed cfg r.requestorID := hfound.1 ▸ hlisted
        refine ⟨fun r' hr' => (nomatch hr'), ?_⟩
        rw [List.filter_cons_of_neg (by simpa using hr), List.filter_cons_of_neg (by simpa using hr)]
      · refine ⟨ih.1, ?_⟩
        rw [List.filter_cons, List.filter_cons, ih.2]

/-- Requests of requestors that are not in the table stay where they are. -/
structure Unlisted (cfg : MemoryConfig) (type : RequestType) (s : MemorySystem) : Prop where
  issued : ∀ q ∈ s.issued, Listed cfg q.1.requestorID
  inFlight : ∀ d ∈ s.inFlight type, Listed cfg d.1.requestorID
  completed : ∀ r ∈ s.completed type, Listed cfg r.requestorID
  pending : (s.pending type).filter (fun r => ¬ Listed cfg r.requestorID) =
    (s.acceptedOf type).filter fun r => ¬ Listed cfg r.requestorID

/-- What is left of the data, and what arrives, was on its way. -/
theorem mem_arriving (type : RequestType) (P : DataPacket → Prop) {data : List (DataPacket × Nat)}
    (h : ∀ d ∈ data, P d.1) : (∀ d ∈ (arriving type data).1, P d) ∧ ∀ d ∈ (arriving type data).2, P d.1 := by
  have hcount : ∀ l : List (DataPacket × Nat), (∀ d ∈ l, P d.1) → ∀ d ∈ countDown l, P d.1 := by
    intro l hl d hd
    cases List.mem_map.1 hd with
    | intro d' hd' =>
      rw [← hd'.2]
      exact hl d' hd'.1
  cases type with
  | dataRead =>
    rw [arriving]
    have hcounted := hcount data h
    cases hdata : countDown data with
    | nil => exact ⟨fun d hd => (nomatch hd), fun d hd => absurd hd List.not_mem_nil⟩
    | cons d rest =>
      rw [hdata, List.forall_mem_cons] at hcounted
      cases d with
      | mk d n =>
        cases n with
        | zero => exact ⟨fun d' hd' => Option.some.inj hd' ▸ hcounted.1, hcounted.2⟩
        | succ n => exact ⟨fun d hd => (nomatch hd), List.forall_mem_cons.2 hcounted⟩
  | dataWrite =>
    cases data with
    | nil => exact ⟨fun d hd => (nomatch hd), fun d hd => absurd hd List.not_mem_nil⟩
    | cons d rest =>
      cases d with
      | mk d n =>
        cases n with
        | zero =>
          rw [List.forall_mem_cons] at h
          exact ⟨fun d' hd' => Option.some.inj hd' ▸ h.1, hcount rest h.2⟩
        | succ n => exact ⟨fun d hd => (nomatch hd), hcount _ h⟩

/-- The end of a cycle keeps them there. -/
theorem Unlisted.finish {type : RequestType} (h : s.Unlisted cfg type) : (s.finish cfg).Unlisted cfg type := by
  obtain ⟨_, _, _, _, _, _, _, _, hfinish⟩ := finish_frame cfg s
  obtain ⟨hinFlight, hpending, hcompleted, haccepted⟩ := finish_data cfg s type
  have harriving := mem_arriving type (fun d => Listed cfg d.requestorID) h.inFlight
  have hreceive := receive_listed harriving.1 (s.pending type)
  constructor
  · rw [hfinish]
    exact h.issued
  · rw [hinFlight]
    exact harriving.2
  · rw [hcompleted]
    intro r hr
    cases List.mem_append.1 hr with
    | inl hr => exact h.completed r hr
    | inr hr => exact hreceive.1 r (Option.mem_toList.1 hr)
  · rw [hpending, acceptedOf, haccepted, hreceive.2]
    exact h.pending

/-- No step serves them. -/
theorem unlisted_inductive (cfg : MemoryConfig) (type : RequestType) : (system cfg).Inductive (Unlisted cfg type) where
  init s hs := by
    have hstart : s = initial cfg := hs
    rw [hstart]
    constructor
    · exact fun _ hq => absurd hq List.not_mem_nil
    · cases type <;> exact fun _ hd => absurd hd List.not_mem_nil
    · cases type <;> exact fun _ hr => absurd hr List.not_mem_nil
    · cases type <;> rfl
  step s l s' hr h hstep := by
    have heq : s' = s.step cfg l := hstep
    rw [heq]
    cases l with
    | addRequest requestorID address isRead size =>
      obtain ⟨hpending, haccepted, _, hcompleted, hinFlight⟩ := addRequest_data cfg s requestorID
        address isRead size type
      refine ⟨h.issued, ?_, ?_, ?_⟩
      · exact hinFlight.symm ▸ h.inFlight
      · exact hcompleted.symm ▸ h.completed
      · change ((s.addRequest cfg requestorID address isRead size).pending type).filter _ =
          ((s.addRequest cfg requestorID address isRead size).acceptedOf type).filter _
        rw [hpending, haccepted, List.filter_append, List.filter_append, h.pending]
    | update =>
      have hprepare : (s.prepare cfg).Unlisted cfg type := by
        obtain ⟨_, _, _, _, _, hframe⟩ := prepare_frame cfg s
        obtain ⟨hpending, hcompleted, hinFlight, haccepted⟩ := prepare_data cfg s type
        refine ⟨?_, hinFlight.symm ▸ h.inFlight, hcompleted.symm ▸ h.completed, ?_⟩
        · rw [hframe]
          exact h.issued
        · rw [hpending, acceptedOf, haccepted]
          exact h.pending
      change (s.update cfg).Unlisted cfg type
      cases update_cases cfg s with
      | inl hnone =>
        rw [hnone.2]
        exact hprepare.finish
      | inr hsend =>
        obtain ⟨p, index, _, hqueue, _, _, hsend⟩ := hsend
        have hlisted : Listed cfg p.requestorID :=
          (((queued_inductive cfg).reachable hr).prepare index p (by rw [hqueue]; exact List.mem_cons_self)).2
        have hsent : ((s.prepare cfg).sendCommand cfg p index).Unlisted cfg type := by
          refine ⟨?_, ?_, ?_, ?_⟩
          · exact List.forall_mem_cons.2 ⟨hlisted, hprepare.issued⟩
          · rw [sendCommand_inFlight]
            intro d hd
            cases List.mem_append.1 hd with
            | inl hd => exact hprepare.inFlight d hd
            | inr hd =>
              split_ifs at hd
              · rw [List.mem_singleton.1 hd]
                exact hlisted
              · exact absurd hd List.not_mem_nil
          · cases type <;> exact hprepare.completed
          · cases type <;> exact hprepare.pending
        rw [hsend]
        exact hsent.finish

/-- A requestor that is not in the table is never served: in every run, no command is sent and no data come for it,
and what it has asked for stays pending, all of it and as it was accepted. -/
theorem unlisted_never_served (hr : (system cfg).Reachable s) (type : RequestType) :
    (∀ q ∈ s.issued, Listed cfg q.1.requestorID) ∧ (∀ r ∈ s.completed type, Listed cfg r.requestorID) ∧
      (s.pending type).filter (fun r => ¬ Listed cfg r.requestorID) =
        (s.acceptedOf type).filter fun r => ¬ Listed cfg r.requestorID := by
  have h := (unlisted_inductive cfg type).reachable hr
  exact ⟨h.issued, h.completed, h.pending⟩

/-- A write of a requestor that is not in the table, after many cycles. -/
def unlistedWrite : MemorySystem :=
  run twoRequestors (.addRequest 7 0 false 64 :: List.replicate 40 .update)

/-- It is still pending. -/
theorem unlisted_never_served_write :
    ((unlistedWrite.pending .dataWrite).filter fun r => ¬ Listed twoRequestors r.requestorID) =
      [request twoRequestors 0 0 7 0 false 64] := by
  have hr : (system twoRequestors).Reachable unlistedWrite := run_reachable twoRequestors _
  rw [(unlisted_never_served hr .dataWrite).2.2]
  decide +kernel

end MemorySystem

end Octopus.MCsim
