import Octopus.Interconnect.BusController
import Octopus.Lib.Ledger

/-!
# The buffers of a bus and what passed them

What the interfaces of a bus accepted for transmission is what was taken from them and what still
waits in their transmit buffers; what they received is what was popped and what waits in their
receive buffers. One lemma for each operation of a bus controller says what it does to the two
accounts.
-/

namespace Octopus

open CommunicationInterface Lib

namespace BusController

variable {ι : Type} [LawfulInterface ι]

/-- What waits in the transmit buffers of a channel. -/
def waitingOn (bus : BusController ι) : MessageType → List BusMessage :=
  ledger tx bus.interfaces

/-- What the interfaces accepted for transmission on a channel. -/
def submittedOn (bus : BusController ι) : MessageType → List BusMessage :=
  ledger CommunicationInterface.submittedOn bus.interfaces

/-- Nothing has passed the interfaces yet. -/
def Fresh (bus : BusController ι) : Prop :=
  ∀ itf ∈ bus.interfaces, CommunicationInterface.Fresh itf

/-- What the interfaces received is what was popped from their receive buffers and what waits there. -/
def Balanced (bus : BusController ι) : Prop :=
  ∀ itf ∈ bus.interfaces, CommunicationInterface.Balanced itf

/-- What was submitted on some channels is, message for message, what was taken from their transmit
buffers and what still waits there. -/
def Accounts (bus : BusController ι) (channels : List MessageType) (taken : List BusMessage) : Prop :=
  (channels.flatMap bus.submittedOn).Perm (taken ++ channels.flatMap bus.waitingOn)

variable {bus bus' : BusController ι}

/-- Fresh interfaces have received nothing. -/
theorem Fresh.heardBy (h : bus.Fresh) (i : Nat) : bus.heardBy i = [] := by
  unfold BusController.heardBy
  cases hitf : bus.interfaces[i]? with
  | none => rfl
  | some itf => simp [(h itf (List.mem_of_getElem? hitf)).received]

theorem Fresh.balanced (h : bus.Fresh) : bus.Balanced := fun itf hitf => (h itf hitf).balanced

theorem Fresh.accounts (h : bus.Fresh) (channels : List MessageType) : bus.Accounts channels [] := by
  have hsubmitted : bus.submittedOn = fun _ => [] := by
    funext type
    apply ledger_eq_nil
    intro itf hitf type
    simp [CommunicationInterface.submittedOn, (h itf hitf).submitted]
  have hwaiting : bus.waitingOn = fun _ => [] := by
    funext type
    exact ledger_eq_nil (fun itf hitf type => (h itf hitf).tx type) type
  rw [Accounts, hsubmitted, hwaiting]
  simp

/-- The order of what was taken does not matter to the account. -/
theorem Accounts.perm {channels : List MessageType} {taken taken' : List BusMessage}
    (h : bus.Accounts channels taken) (hperm : taken.Perm taken') : bus.Accounts channels taken' :=
  List.Perm.trans h (hperm.append_right _)

/-- A step that leaves the transmit side of the bus and keeps the balance of its receive side. -/
structure KeepsTransmit (bus bus' : BusController ι) : Prop where
  submitted : bus'.submittedOn = bus.submittedOn
  waiting : bus'.waitingOn = bus.waitingOn
  balanced : bus.Balanced → bus'.Balanced

theorem KeepsTransmit.refl (bus : BusController ι) : KeepsTransmit bus bus := ⟨rfl, rfl, id⟩

theorem KeepsTransmit.trans {a b c : BusController ι} (h : KeepsTransmit a b) (h' : KeepsTransmit b c) :
    KeepsTransmit a c :=
  ⟨h'.submitted.trans h.submitted, h'.waiting.trans h.waiting, h'.balanced ∘ h.balanced⟩

theorem Accounts.keep {channels : List MessageType} {taken : List BusMessage} (h : bus.Accounts channels taken)
    (hkeeps : KeepsTransmit bus bus') : bus'.Accounts channels taken := by
  rw [Accounts, hkeeps.submitted, hkeeps.waiting]
  exact h

/-- An interface keeps its own transmit side. -/
theorem keepsTransmit_refl (itf : ι) : CommunicationInterface.KeepsTransmit itf itf :=
  ⟨fun _ => rfl, rfl, id⟩

/-- A bus whose interfaces all keep their transmit side keeps its transmit side. -/
theorem keepsTransmit_of_forall₂
    (h : List.Forall₂ CommunicationInterface.KeepsTransmit bus.interfaces bus'.interfaces) :
    KeepsTransmit bus bus' where
  submitted := by
    funext type
    refine ledger_congr (h.imp fun itf itf' hkeeps type => ?_) type
    simp [CommunicationInterface.submittedOn, hkeeps.submitted]
  waiting := by
    funext type
    exact ledger_congr (h.imp fun itf itf' hkeeps => hkeeps.tx) type
  balanced hbalanced := by
    unfold BusController.Balanced at hbalanced ⊢
    generalize bus.interfaces = itfs at h hbalanced
    generalize bus'.interfaces = itfs' at h ⊢
    induction h with
    | nil => simp
    | cons hfirst _ ih =>
      rw [List.forall_mem_cons] at hbalanced ⊢
      exact ⟨hfirst.balanced hbalanced.1, ih hbalanced.2⟩

/-- Exchanging an interface for one with the same transmit side. -/
theorem keepsTransmit_set {i : Nat} {itf itf' : ι} (hi : bus.interfaces[i]? = some itf)
    (h : CommunicationInterface.KeepsTransmit itf itf') (seq : Nat) :
    KeepsTransmit bus { interfaces := bus.interfaces.set i itf', rxDeliverySeq := seq } :=
  keepsTransmit_of_forall₂ (forall₂_set keepsTransmit_refl hi h)

/-- Delivering to every interface in turn concerns the receive side only. -/
theorem pushAll_keeps (msg : BusMessage) (type : MessageType) (itfs : List ι) (seq : Nat) :
    List.Forall₂ CommunicationInterface.KeepsTransmit itfs (pushAll msg type itfs seq).1 := by
  induction itfs generalizing seq with
  | nil => exact .nil
  | cons itf rest ih =>
    cases hpush : pushMessage2RX itf (seq + 1) msg type with
    | none =>
      simp only [pushAll, hpush]
      exact .cons (keepsTransmit_refl itf) (ih seq)
    | some itf' =>
      simp only [pushAll, hpush]
      exact .cons (LawfulInterface.keeps_push2RX hpush) (ih (seq + 1))

/-- A broadcast concerns the receive side only. -/
theorem broadcast_keeps {msg : BusMessage} {type : MessageType} {ok : Bool}
    (h : bus.broadcast msg type = (ok, bus')) : KeepsTransmit bus bus' := by
  unfold broadcast at h
  split at h
  · obtain rfl : bus = bus' := congrArg Prod.snd h
    exact .refl bus
  · obtain rfl := congrArg Prod.snd h
    exact keepsTransmit_of_forall₂ (pushAll_keeps msg type bus.interfaces bus.rxDeliverySeq)

/-- Delivering to one destination concerns the receive side only. -/
theorem sendTo_keeps {msg : BusMessage} {type : MessageType} {destination : Nat}
    (h : sendTo msg type bus destination = .ok bus') : KeepsTransmit bus bus' := by
  unfold sendTo at h
  split at h
  · simp at h
  · next i _ =>
    split at h
    · simp at h
    · next itf' hpush =>
      obtain rfl := Except.ok.inj h
      obtain ⟨itf, hitf, hpush⟩ := Option.bind_eq_some_iff.1 hpush
      exact keepsTransmit_set hitf (LawfulInterface.keeps_push2RX hpush) _

/-- Sending a message concerns the receive side only. -/
theorem send_keeps {msg : BusMessage} {type : MessageType} (h : bus.send msg type = .ok bus') :
    KeepsTransmit bus bus' := by
  unfold send at h
  generalize msg.toIds = destinations at h
  induction destinations generalizing bus with
  | nil =>
    obtain rfl : bus = bus' := by simpa [pure, Except.pure] using h
    exact .refl bus
  | cons destination rest ih =>
    rw [List.foldlM_cons] at h
    cases hfirst : sendTo msg type bus destination with
    | error e => simp [hfirst, bind, Except.bind] at h
    | ok middle =>
      simp only [hfirst, bind, Except.bind] at h
      exact (sendTo_keeps hfirst).trans (ih h)

/-- One message was removed from the transmit buffers of a channel, and nothing else changed. -/
structure Takes (bus bus' : BusController ι) (type : MessageType) (msg : BusMessage) : Prop where
  waiting : Adds bus'.waitingOn bus.waitingOn (single type msg)
  submitted : bus'.submittedOn = bus.submittedOn
  balanced : bus.Balanced → bus'.Balanced

/-- Exchanging one interface. -/
theorem balanced_set {i : Nat} {itf itf' : ι} (hi : bus.interfaces[i]? = some itf)
    (h : CommunicationInterface.Balanced itf → CommunicationInterface.Balanced itf') (hbalanced : bus.Balanced)
    (seq : Nat) : BusController.Balanced { interfaces := bus.interfaces.set i itf', rxDeliverySeq := seq } := by
  intro other hother
  rcases List.mem_or_eq_of_mem_set hother with hmem | rfl
  · exact hbalanced other hmem
  · exact h (hbalanced itf (List.mem_of_getElem? hi))

/-- Taking a message removes it from the transmit buffer it was in. -/
theorem takeAt_takes {refs : List BufferRef} {place : BufferPlace} {msg : BusMessage}
    (h : bus.takeAt refs place = some (msg, bus')) : ∃ ref ∈ refs, Takes bus bus' ref.2 msg := by
  simp only [takeAt, Option.bind_eq_bind, Option.bind_eq_some_iff, Option.pure_def, Option.some.injEq,
    Prod.mk.injEq] at h
  obtain ⟨ref, href, itf, hitf, msg', hmsg, rfl, rfl⟩ := h
  refine ⟨ref, List.mem_of_getElem? href, ?_, ?_, fun hbalanced => ?_⟩
  · obtain ⟨hlt, hget⟩ := List.getElem?_eq_some_iff.1 hmsg
    have hne : tx itf ref.2 ≠ [] := by
      intro hnil
      simp [hnil] at hlt
    refine Adds.set_left hitf fun other => ?_
    rw [LawfulInterface.tx_setTx hne, single]
    split_ifs with hother
    · rw [hother, ← hget]
      exact (List.getElem_cons_eraseIdx_perm hlt).symm.trans (List.perm_append_singleton _ _).symm
    · rw [List.append_nil]
  · funext type
    refine ledger_congr (forall₂_set (fun _ _ => rfl) hitf fun type => ?_) type
    simp [CommunicationInterface.submittedOn, LawfulInterface.submitted_setTx]
  · exact balanced_set hitf (LawfulInterface.balanced_setTx _ _) hbalanced _

/-- Taking a message changes the bus. -/
theorem Takes.ne {type : MessageType} {msg : BusMessage} (h : Takes bus bus' type msg) : bus' ≠ bus := by
  rintro rfl
  have hlength := (h.waiting type).length_eq
  simp [single] at hlength

/-- Where an arbiter sees a message, it can be taken. -/
theorem exists_takeAt {refs : List BufferRef} {place : BufferPlace} {buffer : List BusMessage}
    {msg : BusMessage} (hbuffer : (bus.contents refs)[place.buffer]? = some buffer)
    (hmsg : buffer[place.index]? = some msg) : ∃ bus', bus.takeAt refs place = some (msg, bus') := by
  rw [contents, List.getElem?_map, Option.map_eq_some_iff] at hbuffer
  obtain ⟨ref, href, rfl⟩ := hbuffer
  cases hitf : bus.interfaces[ref.1]? with
  | none => simp [hitf] at hmsg
  | some itf =>
    rw [hitf, Option.map_some, Option.getD_some] at hmsg
    exact ⟨_, by simp only [takeAt, href, hitf, hmsg, Option.bind_eq_bind, Option.bind_some]; rfl⟩

/-- The buffers of a channel, over all interfaces. -/
theorem contents_indices (bus : BusController ι) (type : MessageType) :
    bus.contents (getCongregatedBuffers bus.indices type) = bus.interfaces.map fun itf => tx itf type := by
  apply List.ext_getElem
  · simp [contents, getCongregatedBuffers, indices]
  · intro i hi hi'
    rw [List.length_map] at hi'
    simp [contents, getCongregatedBuffers, indices, hi']

/-- Taking a message from the buffers of one channel. -/
theorem takes_of_takeAt {indices : List Nat} {type : MessageType} {place : BufferPlace} {msg : BusMessage}
    (h : bus.takeAt (getCongregatedBuffers indices type) place = some (msg, bus')) :
    Takes bus bus' type msg := by
  obtain ⟨ref, href, htakes⟩ := takeAt_takes h
  obtain ⟨i, -, rfl⟩ := List.mem_map.1 href
  exact htakes

/-- What is taken moves from the transmit buffers of its channel to what was taken. -/
theorem Accounts.take {channels : List MessageType} {taken : List BusMessage} {type : MessageType}
    {msg : BusMessage} (h : bus.Accounts channels taken) (htakes : Takes bus bus' type msg) :
    bus'.Accounts channels (taken ++ channels.flatMap (single type msg)) := by
  rw [Accounts, htakes.submitted, List.append_assoc]
  exact h.trans (((htakes.waiting.flatMap channels).trans List.perm_append_comm).append_left taken)

/-- An accepted push enters both sides of the account. -/
theorem Accounts.push {channels : List MessageType} {taken : List BusMessage} {i : Nat} {itf itf' : ι}
    {type : MessageType} {msg : BusMessage} (h : bus.Accounts channels taken)
    (hi : bus.interfaces[i]? = some itf) (hsubmits : Submits itf itf' type msg) (seq : Nat) :
    BusController.Accounts { interfaces := bus.interfaces.set i itf', rxDeliverySeq := seq } channels taken := by
  have hsubmitted : Adds (CommunicationInterface.submittedOn itf) (CommunicationInterface.submittedOn itf')
      (single type msg) := by
    intro other
    apply List.Perm.of_eq
    simp only [CommunicationInterface.submittedOn, hsubmits.submitted, single]
    by_cases hother : other = type
    · simp [hother]
    · simp [hother, Ne.symm hother]
  have hwaiting : Adds (tx itf) (tx itf') (single type msg) := by
    intro other
    apply List.Perm.of_eq
    rw [hsubmits.tx, single]
    split_ifs <;> simp
  rw [Accounts]
  refine ((hsubmitted.set hi).flatMap channels).trans ((List.Perm.append_right _ h).trans ?_)
  rw [List.append_assoc]
  exact ((hwaiting.set hi).flatMap channels).symm.append_left taken

/-- What the users of a bus do keeps the balance of its receive side. -/
theorem Balanced.act (h : bus.Balanced) (traffic : Traffic) : (bus.act traffic).Balanced := by
  have hupdate : ∀ (i : Nat) (f : ι → ι), (∀ itf, CommunicationInterface.Balanced itf →
      CommunicationInterface.Balanced (f itf)) → (bus.update i f).Balanced := by
    intro i f hf
    unfold update
    split
    · next itf hitf => exact balanced_set hitf (hf itf) h _
    · exact h
  cases traffic with
  | push i msg cycle type =>
    apply hupdate
    intro itf hitf
    cases hpush : pushMessage itf msg cycle type with
    | none => exact hitf
    | some itf' =>
      obtain ⟨sent, hsubmits⟩ := LawfulInterface.submits_push hpush
      exact hsubmits.balanced hitf
  | peek i => exact hupdate i _ fun itf => (LawfulInterface.keeps_peek itf).balanced
  | pop i => exact hupdate i _ fun itf => (LawfulInterface.keeps_pop itf).balanced

/-- What the users of a bus do keeps the account of its transmit side. -/
theorem Accounts.act {channels : List MessageType} {taken : List BusMessage} (h : bus.Accounts channels taken)
    (traffic : Traffic) : (bus.act traffic).Accounts channels taken := by
  have hupdate : ∀ (i : Nat) (f : ι → ι), (∀ itf, CommunicationInterface.KeepsTransmit itf (f itf)) →
      (bus.update i f).Accounts channels taken := by
    intro i f hf
    unfold update
    split
    · next itf hitf => exact h.keep (keepsTransmit_set hitf (hf itf) _)
    · exact h
  cases traffic with
  | push i msg cycle type =>
    show (bus.update i fun itf => (pushMessage itf msg cycle type).getD itf).Accounts channels taken
    unfold update
    split
    · next itf hitf =>
      dsimp only
      cases hpush : pushMessage itf msg cycle type with
      | none => exact h.keep (keepsTransmit_set hitf (keepsTransmit_refl itf) _)
      | some itf' =>
        obtain ⟨sent, hsubmits⟩ := LawfulInterface.submits_push hpush
        exact h.push hitf hsubmits _
    · exact h
  | peek i => exact hupdate i _ LawfulInterface.keeps_peek
  | pop i => exact hupdate i _ LawfulInterface.keeps_pop

/-- What passes a bus with a request channel and a response channel: what was taken came out of the
transmit buffers of its channel, the interfaces received exactly what was sent, and what they
received was popped or waits in their receive buffers. -/
structure Carries (bus : BusController ι) (requestsTaken requestsSent responsesTaken responsesSent :
    List (Stamped BusMessage)) : Prop where
  requests : bus.Accounts [.request] (requestsTaken.map Stamped.item)
  responses : bus.Accounts [.dataResponse] (responsesTaken.map Stamped.item)
  delivered : bus.Delivered requestsSent responsesSent
  balanced : bus.Balanced

section Carries

variable {requestsTaken requestsSent responsesTaken responsesSent : List (Stamped BusMessage)}

theorem Fresh.carries (h : bus.Fresh) : bus.Carries [] [] [] [] :=
  ⟨h.accounts _, h.accounts _, .init h.heardBy, h.balanced⟩

/-- What the users of a bus do leaves what it carries. -/
theorem Carries.act (h : bus.Carries requestsTaken requestsSent responsesTaken responsesSent)
    (traffic : Traffic) : (bus.act traffic).Carries requestsTaken requestsSent responsesTaken responsesSent where
  requests := h.requests.act traffic
  responses := h.responses.act traffic
  delivered := h.delivered.same (act_sameHeard bus traffic)
  balanced := h.balanced.act traffic

/-- A request was taken. -/
theorem Carries.takeRequest (h : bus.Carries requestsTaken requestsSent responsesTaken responsesSent)
    {indices : List Nat} {place : BufferPlace} {msg : BusMessage}
    (htake : bus.takeAt (getCongregatedBuffers indices .request) place = some (msg, bus')) (time : Nat) :
    bus'.Carries (requestsTaken ++ [⟨time, msg⟩]) requestsSent responsesTaken responsesSent where
  requests := by
    rw [List.map_append]
    exact h.requests.take (takes_of_takeAt htake)
  responses := by
    simpa [single] using h.responses.take (takes_of_takeAt htake)
  delivered := h.delivered.same (takeAt_sameHeard htake)
  balanced := (takes_of_takeAt htake).balanced h.balanced

/-- A response was taken. -/
theorem Carries.takeResponse (h : bus.Carries requestsTaken requestsSent responsesTaken responsesSent)
    {indices : List Nat} {place : BufferPlace} {msg : BusMessage}
    (htake : bus.takeAt (getCongregatedBuffers indices .dataResponse) place = some (msg, bus')) (time : Nat) :
    bus'.Carries requestsTaken requestsSent (responsesTaken ++ [⟨time, msg⟩]) responsesSent where
  requests := by
    simpa [single] using h.requests.take (takes_of_takeAt htake)
  responses := by
    rw [List.map_append]
    exact h.responses.take (takes_of_takeAt htake)
  delivered := h.delivered.same (takeAt_sameHeard htake)
  balanced := (takes_of_takeAt htake).balanced h.balanced

/-- A request was broadcast. -/
theorem Carries.broadcast (h : bus.Carries requestsTaken requestsSent responsesTaken responsesSent)
    {msg : BusMessage} (hbus : bus.broadcast msg .request = (true, bus')) (time : Nat) :
    bus'.Carries requestsTaken (requestsSent ++ [⟨time, msg⟩]) responsesTaken responsesSent where
  requests := h.requests.keep (broadcast_keeps hbus)
  responses := h.responses.keep (broadcast_keeps hbus)
  delivered := h.delivered.broadcast hbus time
  balanced := (broadcast_keeps hbus).balanced h.balanced

/-- A response was sent. -/
theorem Carries.send (h : bus.Carries requestsTaken requestsSent responsesTaken responsesSent)
    {msg : BusMessage} (hbus : bus.send msg .dataResponse = .ok bus') (time : Nat) :
    bus'.Carries requestsTaken requestsSent responsesTaken (responsesSent ++ [⟨time, msg⟩]) where
  requests := h.requests.keep (send_keeps hbus)
  responses := h.responses.keep (send_keeps hbus)
  delivered := h.delivered.send hbus time
  balanced := (send_keeps hbus).balanced h.balanced

end Carries

end BusController

end Octopus
