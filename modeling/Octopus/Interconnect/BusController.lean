import Octopus.Interconnect.Arbiter
import Octopus.Lib.Lane
import Mathlib.Data.List.Basic

/-!
# Bus controllers

The operations all bus controllers share: taking a message out of a transmit buffer,
broadcasting to every interface and sending to the interfaces a message names. A wrong
destination or a refused delivery ends the program.
-/

namespace Octopus

open CommunicationInterface

/-- The ways a delivery ends the program. -/
inductive BusExit
  | missingDestination
  | wrongDestination
  | fullBuffer
  deriving DecidableEq, Repr

/-- The interfaces of a bus, with the counter of deliveries. -/
structure BusController (ι : Type) where
  interfaces : List ι
  rxDeliverySeq : Nat := 0

/-- What the controllers at the interfaces of a bus do: they push messages, refused or not, and
consume what they received. -/
inductive Traffic
  | push (i : Nat) (msg : BusMessage) (cycle : Nat) (type : MessageType)
  | peek (i : Nat)
  | pop (i : Nat)

/-- A transmit buffer: an interface of the bus and a channel. -/
abbrev BufferRef := Nat × MessageType

namespace BusController

variable {ι : Type} [CommunicationInterface ι]

/-- The transmit buffers of one channel, interface by interface. -/
def getCongregatedBuffers (indices : List Nat) (type : MessageType) : List BufferRef :=
  indices.map fun i => (i, type)

/-- The positions of all interfaces. -/
def indices (bus : BusController ι) : List Nat :=
  List.range bus.interfaces.length

/-- The contents of transmit buffers, as an arbiter sees them. -/
def contents (bus : BusController ι) (refs : List BufferRef) : List (List BusMessage) :=
  refs.map fun ref => (bus.interfaces[ref.1]?.map fun itf => tx itf ref.2).getD []

/-- Remove the message at a place of the transmit buffers. -/
def takeAt (bus : BusController ι) (refs : List BufferRef) (place : BufferPlace) :
    Option (BusMessage × BusController ι) := do
  let ref ← refs[place.buffer]?
  let itf ← bus.interfaces[ref.1]?
  let msg ← (tx itf ref.2)[place.index]?
  let buffer := (tx itf ref.2).eraseIdx place.index
  return (msg, { bus with interfaces := bus.interfaces.set ref.1 (setTx itf ref.2 buffer) })

/-- Whether every interface has room on a channel. -/
def allAccept (bus : BusController ι) (type : MessageType) : Bool :=
  bus.interfaces.all fun itf => canAcceptRX itf type

/-- Deliver a message to every interface in turn; a refusal goes unnoticed. -/
def pushAll (msg : BusMessage) (type : MessageType) : List ι → Nat → List ι × Nat
  | [], seq => ([], seq)
  | itf :: rest, seq =>
    match pushMessage2RX itf (seq + 1) msg type with
    | some itf' =>
      let (rest', seq') := pushAll msg type rest (seq + 1)
      (itf' :: rest', seq')
    | none =>
      let (rest', seq') := pushAll msg type rest seq
      (itf :: rest', seq')

/-- Deliver a message to every interface: a demand request to all of them or to none. -/
def broadcast (bus : BusController ι) (msg : BusMessage) (type : MessageType) :
    Bool × BusController ι :=
  if msg.isDemandRequest && !bus.allAccept type then (false, bus)
  else
    let (interfaces, seq) := pushAll msg type bus.interfaces bus.rxDeliverySeq
    (true, { interfaces := interfaces, rxDeliverySeq := seq })

/-- The first interface with an identifier. -/
def destinationIndex (ids : List Nat) (destination : Nat) : Option Nat :=
  ids.findIdx? fun id => id == destination

/-- The identifiers of the interfaces. -/
def ids (bus : BusController ι) : List Nat :=
  bus.interfaces.map interfaceId

/-- Deliver a message to one destination. -/
def sendTo (msg : BusMessage) (type : MessageType) (bus : BusController ι) (destination : Nat) :
    Except BusExit (BusController ι) :=
  match destinationIndex bus.ids destination with
  | none => .error .wrongDestination
  | some i =>
    match bus.interfaces[i]?.bind fun itf => pushMessage2RX itf (bus.rxDeliverySeq + 1) msg type with
    | none => .error .fullBuffer
    | some itf =>
      .ok { interfaces := bus.interfaces.set i itf, rxDeliverySeq := bus.rxDeliverySeq + 1 }

/-- Deliver a message to every destination it names. -/
def send (bus : BusController ι) (msg : BusMessage) (type : MessageType) :
    Except BusExit (BusController ι) :=
  msg.toIds.foldlM (sendTo msg type) bus

/-- Change one interface. -/
def update (bus : BusController ι) (i : Nat) (f : ι → ι) : BusController ι :=
  match bus.interfaces[i]? with
  | some itf => { bus with interfaces := bus.interfaces.set i (f itf) }
  | none => bus

/-- Carry out what a user of the bus does. -/
def act (bus : BusController ι) : Traffic → BusController ι
  | .push i msg cycle type => bus.update i fun itf => (pushMessage itf msg cycle type).getD itf
  | .peek i => bus.update i fun itf => (peekMessage itf).1
  | .pop i => bus.update i popFrontMessage

end BusController

namespace BusController

variable {ι : Type} [LawfulInterface ι]

/-- What an interface has received, without the sequence numbers. -/
def heardBy (bus : BusController ι) (i : Nat) : List (MessageType × BusMessage) :=
  ((bus.interfaces[i]?.map received).getD []).map fun delivery => (delivery.type, delivery.msg)

/-- How many entries of a destination list name the interface `i`. -/
def copies (ids destinations : List Nat) (i : Nat) : Nat :=
  destinations.countP fun destination => destinationIndex ids destination == some i

/-- The same interfaces, having received the same messages. -/
structure SameHeard (bus bus' : BusController ι) : Prop where
  ids : bus'.ids = bus.ids
  heard : ∀ i, bus'.heardBy i = bus.heardBy i

theorem SameHeard.refl (bus : BusController ι) : SameHeard bus bus := ⟨rfl, fun _ => rfl⟩

@[simp] theorem length_ids (bus : BusController ι) : bus.ids.length = bus.interfaces.length := by
  simp [ids]

/-- Exchange one interface for one that has received more. -/
theorem heardBy_set {bus : BusController ι} {j : Nat} {itf itf' : ι} (hj : bus.interfaces[j]? = some itf)
    (seq : Nat) (i : Nat) :
    ({ interfaces := bus.interfaces.set j itf', rxDeliverySeq := seq } : BusController ι).heardBy i =
      if i = j then (received itf').map fun delivery => (delivery.type, delivery.msg)
      else bus.heardBy i := by
  have hlt : j < bus.interfaces.length := (List.getElem?_eq_some_iff.1 hj).1
  unfold heardBy
  by_cases hij : i = j
  · simp [hij, hlt]
  · simp [hij, List.getElem?_set_ne (Ne.symm hij)]

/-- Exchange one interface for one with the same identifier. -/
theorem ids_set {bus : BusController ι} {j : Nat} {itf itf' : ι} (hj : bus.interfaces[j]? = some itf)
    (hid : interfaceId itf' = interfaceId itf) (seq : Nat) :
    ({ interfaces := bus.interfaces.set j itf', rxDeliverySeq := seq } : BusController ι).ids = bus.ids := by
  obtain ⟨hlt, hget⟩ := List.getElem?_eq_some_iff.1 hj
  unfold ids
  rw [List.map_set, hid, ← hget, ← List.getElem_map interfaceId (h := by simpa using hlt)]
  exact List.set_getElem_self _

/-- Exchanging an interface for one that has received the same leaves the bus the same. -/
theorem sameHeard_set {bus : BusController ι} {j : Nat} {itf itf' : ι}
    (hj : bus.interfaces[j]? = some itf)
    (h : received itf' = received itf ∧ interfaceId itf' = interfaceId itf) (seq : Nat) :
    SameHeard bus { interfaces := bus.interfaces.set j itf', rxDeliverySeq := seq } where
  ids := ids_set hj h.2 seq
  heard i := by
    rw [heardBy_set hj]
    split
    · next hij => simp [heardBy, hij, hj, h.1]
    · rfl

/-- Taking a message out of a transmit buffer delivers nothing. -/
theorem takeAt_sameHeard {bus bus' : BusController ι} {refs : List BufferRef} {place : BufferPlace}
    {msg : BusMessage} (h : bus.takeAt refs place = some (msg, bus')) : SameHeard bus bus' := by
  simp only [takeAt, Option.bind_eq_bind, Option.bind_eq_some_iff, Option.pure_def, Option.some.injEq,
    Prod.mk.injEq] at h
  obtain ⟨ref, -, itf, hitf, msg', -, -, rfl⟩ := h
  exact sameHeard_set hitf ⟨LawfulInterface.received_setTx _ _ _, LawfulInterface.interfaceId_setTx _ _ _⟩ _

/-- The message taken is one of those the arbiter saw. -/
theorem mem_of_takeAt {bus bus' : BusController ι} {refs : List BufferRef} {place : BufferPlace}
    {msg : BusMessage} (h : bus.takeAt refs place = some (msg, bus')) :
    ∃ buffer ∈ bus.contents refs, msg ∈ buffer := by
  simp only [takeAt, Option.bind_eq_bind, Option.bind_eq_some_iff, Option.pure_def, Option.some.injEq,
    Prod.mk.injEq] at h
  obtain ⟨ref, href, itf, hitf, msg', hmsg, rfl, -⟩ := h
  refine ⟨tx itf ref.2, List.mem_map.2 ⟨ref, List.mem_of_getElem? href, ?_⟩, List.mem_of_getElem? hmsg⟩
  simp [hitf]

/-- Delivering to one destination. -/
theorem sendTo_eq_ok {msg : BusMessage} {type : MessageType} {bus bus' : BusController ι} {destination : Nat}
    (h : sendTo msg type bus destination = .ok bus') :
    bus'.ids = bus.ids ∧ ∀ i, bus'.heardBy i =
      bus.heardBy i ++ List.replicate (copies bus.ids [destination] i) (type, msg) := by
  unfold sendTo at h
  cases hd : destinationIndex bus.ids destination with
  | none => simp [hd] at h
  | some j =>
    cases hp : bus.interfaces[j]?.bind fun itf => pushMessage2RX itf (bus.rxDeliverySeq + 1) msg type with
    | none => simp [hd, hp] at h
    | some itf' =>
      simp only [hd, hp, Except.ok.injEq] at h
      subst h
      obtain ⟨itf, hitf, hpush⟩ := Option.bind_eq_some_iff.1 hp
      refine ⟨ids_set hitf (LawfulInterface.interfaceId_push hpush) _, ?_⟩
      intro i
      rw [heardBy_set hitf, LawfulInterface.received_push hpush]
      by_cases hij : i = j
      · simp [hij, heardBy, hitf, copies, hd]
      · simp [hij, Ne.symm hij, copies, hd]

/-- Delivering to a list of destinations. -/
theorem foldlM_sendTo {msg : BusMessage} {type : MessageType} {destinations : List Nat}
    {bus bus' : BusController ι} (h : destinations.foldlM (sendTo msg type) bus = .ok bus') :
    bus'.ids = bus.ids ∧ ∀ i, bus'.heardBy i =
      bus.heardBy i ++ List.replicate (copies bus.ids destinations i) (type, msg) := by
  induction destinations generalizing bus with
  | nil =>
    obtain rfl : bus = bus' := by simpa [pure, Except.pure] using h
    simp [copies]
  | cons destination rest ih =>
    rw [List.foldlM_cons] at h
    cases hfirst : sendTo msg type bus destination with
    | error e => simp [hfirst, bind, Except.bind] at h
    | ok middle =>
      simp only [hfirst, bind, Except.bind] at h
      obtain ⟨hids, hheard⟩ := sendTo_eq_ok hfirst
      obtain ⟨hids', hheard'⟩ := ih h
      refine ⟨hids'.trans hids, ?_⟩
      intro i
      rw [hheard' i, hheard i, hids, List.append_assoc, List.replicate_append_replicate]
      congr 2
      simp [copies, List.countP_cons, Nat.add_comm]

/-- A message that is sent is received once for each entry of its destination list. -/
theorem send_eq_ok {bus bus' : BusController ι} {msg : BusMessage} {type : MessageType}
    (h : bus.send msg type = .ok bus') :
    bus'.ids = bus.ids ∧ ∀ i, bus'.heardBy i =
      bus.heardBy i ++ List.replicate (copies bus.ids msg.toIds i) (type, msg) :=
  foldlM_sendTo h

/-- A response to interfaces of the bus is always sent. -/
theorem exists_send_response {bus : BusController ι} {msg : BusMessage}
    (h : ∀ destination ∈ msg.toIds, destination ∈ bus.ids) :
    ∃ bus', bus.send msg .dataResponse = .ok bus' := by
  unfold send
  generalize msg.toIds = destinations at h
  induction destinations generalizing bus with
  | nil => exact ⟨bus, rfl⟩
  | cons destination rest ih =>
    have hmem : destination ∈ bus.ids := h destination (by simp)
    have hfirst : ∃ middle, sendTo msg .dataResponse bus destination = .ok middle := by
      unfold sendTo
      cases hd : destinationIndex bus.ids destination with
      | none =>
        have hno := List.findIdx?_eq_none_iff.1 hd destination hmem
        simp at hno
      | some j =>
        have hlt : j < bus.interfaces.length := by
          have := (List.findIdx?_eq_some_iff_findIdx_eq.1 hd).1
          simpa using this
        obtain ⟨itf', hitf'⟩ := Option.isSome_iff_exists.1
          (LawfulInterface.push_response bus.interfaces[j] (bus.rxDeliverySeq + 1) msg)
        exact ⟨_, by simp [hlt, hitf']; rfl⟩
    obtain ⟨middle, hmiddle⟩ := hfirst
    have hids := (sendTo_eq_ok hmiddle).1
    have hrest : ∀ d ∈ rest, d ∈ middle.ids := by
      intro d hd
      rw [hids]
      exact h d (by simp [hd])
    obtain ⟨bus', hbus'⟩ := ih hrest
    exact ⟨bus', by rw [List.foldlM_cons, hmiddle]; exact hbus'⟩

/-- Delivering to every interface when none refuses. -/
theorem pushAll_spec {msg : BusMessage} {type : MessageType} (itfs : List ι) (seq : Nat)
    (h : ∀ itf ∈ itfs, ∀ n, (pushMessage2RX itf n msg type).isSome) :
    (pushAll msg type itfs seq).1.map interfaceId = itfs.map interfaceId ∧
      ∀ i : Nat, ((pushAll msg type itfs seq).1[i]?.map fun itf : ι =>
          (received itf).map fun delivery => (delivery.type, delivery.msg)) =
        itfs[i]?.map fun itf =>
          (received itf).map (fun delivery => (delivery.type, delivery.msg)) ++ [(type, msg)] := by
  induction itfs generalizing seq with
  | nil => simp [pushAll]
  | cons itf rest ih =>
    obtain ⟨itf', hpush⟩ := Option.isSome_iff_exists.1 (h itf (by simp) (seq + 1))
    obtain ⟨hids, hheard⟩ := ih (seq + 1) (fun x hx => h x (by simp [hx]))
    simp only [pushAll, hpush]
    refine ⟨by simp [hids, LawfulInterface.interfaceId_push hpush], ?_⟩
    intro i
    cases i with
    | zero => simp [LawfulInterface.received_push hpush]
    | succ i => simpa using hheard i

/-- A broadcast that fails leaves the bus as it was. -/
theorem broadcast_eq_false {bus bus' : BusController ι} {msg : BusMessage} {type : MessageType}
    (h : bus.broadcast msg type = (false, bus')) : bus' = bus := by
  unfold broadcast at h
  split at h
  · simpa using h.symm
  · simp at h

/-- A broadcast on the request channel that succeeds is received once by every interface. -/
theorem broadcast_eq_true {bus bus' : BusController ι} {msg : BusMessage}
    (h : bus.broadcast msg .request = (true, bus')) :
    bus'.ids = bus.ids ∧ ∀ i, bus'.heardBy i =
      bus.heardBy i ++ if i < bus.interfaces.length then [(.request, msg)] else [] := by
  unfold broadcast at h
  split at h
  · simp at h
  · next hguard =>
    have hall : ∀ itf ∈ bus.interfaces, ∀ n, (pushMessage2RX itf n msg .request).isSome := by
      intro itf hitf n
      cases hdemand : msg.isDemandRequest with
      | false => exact LawfulInterface.push_of_not_demand n hdemand
      | true =>
        have haccept : bus.allAccept .request = true := by simpa [hdemand] using hguard
        exact LawfulInterface.push_of_canAccept n msg (List.all_eq_true.1 haccept itf hitf)
    obtain ⟨hids, hheard⟩ := pushAll_spec bus.interfaces bus.rxDeliverySeq hall
    simp only [Prod.mk.injEq, true_and] at h
    subst h
    refine ⟨hids, ?_⟩
    intro i
    have hi := hheard i
    unfold heardBy
    by_cases hlt : i < bus.interfaces.length
    · rw [List.getElem?_eq_getElem hlt] at hi ⊢
      obtain ⟨itf', hget, heq⟩ := Option.map_eq_some_iff.1 hi
      simp [hget, heq, hlt]
    · have hnone : bus.interfaces[i]? = none := List.getElem?_eq_none (by omega)
      rw [hnone, Option.map_none, Option.map_eq_none_iff] at hi
      simp [hi, hlt]

/-- What users of a bus do leaves what its interfaces have received. -/
theorem act_sameHeard (bus : BusController ι) (traffic : Traffic) : SameHeard bus (bus.act traffic) := by
  have hupdate : ∀ (i : Nat) (f : ι → ι),
      (∀ itf, received (f itf) = received itf ∧ interfaceId (f itf) = interfaceId itf) →
        SameHeard bus (bus.update i f) := by
    intro i f hf
    unfold update
    split
    · next itf hitf => exact sameHeard_set hitf (hf itf) _
    · exact .refl bus
  cases traffic with
  | push i msg cycle type =>
    apply hupdate
    intro itf
    cases hpush : pushMessage itf msg cycle type with
    | none => exact ⟨rfl, rfl⟩
    | some itf' => exact LawfulInterface.received_pushMessage hpush
  | peek i => exact hupdate i _ LawfulInterface.received_peek
  | pop i => exact hupdate i _ LawfulInterface.received_pop

/-- What a history of sent messages means for the interface `i`. -/
def deliveries (ids : List Nat) (type : MessageType) (sent : List (Lib.Stamped BusMessage)) (i : Nat) :
    List (MessageType × BusMessage) :=
  sent.flatMap fun s => List.replicate (copies ids s.item.toIds i) (type, s.item)

@[simp] theorem deliveries_nil (ids : List Nat) (type : MessageType) (i : Nat) :
    deliveries ids type [] i = [] := rfl

@[simp] theorem deliveries_append (ids : List Nat) (type : MessageType)
    (a b : List (Lib.Stamped BusMessage)) (i : Nat) :
    deliveries ids type (a ++ b) i = deliveries ids type a i ++ deliveries ids type b i :=
  List.flatMap_append

@[simp] theorem deliveries_singleton (ids : List Nat) (type : MessageType)
    (s : Lib.Stamped BusMessage) (i : Nat) :
    deliveries ids type [s] i = List.replicate (copies ids s.item.toIds i) (type, s.item) := by
  simp [deliveries]

/-- What an interface has received on one channel. -/
def heardOn (bus : BusController ι) (type : MessageType) (i : Nat) : List (MessageType × BusMessage) :=
  (bus.heardBy i).filter fun entry => entry.1 == type

/-- The interfaces of a bus have received exactly what was sent: every request once, and a
response once for each entry of its destination list that names the interface. -/
structure Delivered (bus : BusController ι) (requests responses : List (Lib.Stamped BusMessage)) : Prop where
  requests : ∀ i < bus.interfaces.length,
    bus.heardOn .request i = requests.map fun s => (.request, s.item)
  responses : ∀ i, bus.heardOn .dataResponse i = deliveries bus.ids .dataResponse responses i

variable {bus bus' : BusController ι} {requests responses : List (Lib.Stamped BusMessage)}

/-- A bus nothing has passed yet. -/
theorem Delivered.init (h : ∀ i, bus.heardBy i = []) : bus.Delivered [] [] where
  requests i _ := by simp [heardOn, h]
  responses i := by simp [heardOn, h]

/-- What leaves the received messages leaves the account. -/
theorem Delivered.same (h : bus.Delivered requests responses) (hsame : SameHeard bus bus') :
    bus'.Delivered requests responses where
  requests i hi := by
    have hlength : bus'.interfaces.length = bus.interfaces.length := by
      rw [← length_ids, hsame.ids, length_ids]
    rw [heardOn, hsame.heard i]
    exact h.requests i (hlength ▸ hi)
  responses i := by
    rw [heardOn, hsame.heard i, hsame.ids]
    exact h.responses i

/-- A successful broadcast adds a request. -/
theorem Delivered.broadcast (h : bus.Delivered requests responses) {msg : BusMessage}
    (hb : bus.broadcast msg .request = (true, bus')) (time : Nat) :
    bus'.Delivered (requests ++ [⟨time, msg⟩]) responses where
  requests i hi := by
    obtain ⟨hids, hheard⟩ := broadcast_eq_true hb
    have hi' : i < bus.interfaces.length := by
      rwa [← length_ids, hids, length_ids] at hi
    have hold := h.requests i hi'
    rw [heardOn] at hold
    simp [heardOn, hheard i, hi', hold]
  responses i := by
    obtain ⟨hids, hheard⟩ := broadcast_eq_true hb
    have hold := h.responses i
    rw [heardOn] at hold
    rw [heardOn, hheard i, hids, List.filter_append, hold]
    split <;> simp

/-- A response that is sent adds a response. -/
theorem Delivered.send (h : bus.Delivered requests responses) {msg : BusMessage}
    (hs : bus.send msg .dataResponse = .ok bus') (time : Nat) :
    bus'.Delivered requests (responses ++ [⟨time, msg⟩]) where
  requests i hi := by
    obtain ⟨hids, hheard⟩ := send_eq_ok hs
    have hi' : i < bus.interfaces.length := by
      rwa [← length_ids, hids, length_ids] at hi
    have hold := h.requests i hi'
    rw [heardOn] at hold
    simp [heardOn, hheard i, hold]
  responses i := by
    obtain ⟨hids, hheard⟩ := send_eq_ok hs
    have hold := h.responses i
    rw [heardOn] at hold
    simp [heardOn, hheard i, hold, hids]

end BusController

end Octopus
