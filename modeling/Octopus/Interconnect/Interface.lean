import Octopus.Message
import Octopus.Lib.Ledger

/-!
# Interfaces between controllers and interconnects

A controller reads and writes messages through its interface; the interconnect takes them from
the transmit buffers and delivers them into the receive buffers. `BusInterface` has a request
and a response channel in each direction, `TripleBusInterface` adds the service channel of
back-invalidations. Deliveries take the next value of one counter that all interfaces share, a
natural number here; a receive buffer and the vector of its sequence numbers are one list.

`received`, `consumed` and `submitted` are histories: they record every delivery an interface
accepted, every one that was popped and every message accepted for transmission, and no function
reads them. `LawfulInterface` ties them to the buffers.
-/

namespace Octopus

/-- A message on an interconnect, with the cycle it was pushed in. -/
structure BusMessage extends Message where
  cycle : Nat := 0
  deriving DecidableEq, Repr

/-- A message in a receive buffer: the channel it came on and its place in the order of
deliveries. -/
structure Delivery where
  type : MessageType
  msg : BusMessage
  seq : Nat
  deriving DecidableEq, Repr

/-- The receive buffer the last peek chose; `unset` is -1. -/
inductive BufferSelector
  | unset
  | request
  | response
  deriving DecidableEq, Repr

/-- What a bus controller and its users call on an interface. -/
class CommunicationInterface (ι : Type) where
  interfaceId : ι → Nat
  /-- The transmit buffer of a channel. -/
  tx : ι → MessageType → List BusMessage
  /-- Replace the transmit buffer of a channel. -/
  setTx : ι → MessageType → List BusMessage → ι
  /-- Free slots in the transmit buffer for responses. -/
  txResponseFreeSlots : ι → Int
  /-- Put a message into a transmit buffer; `none` when it is refused. -/
  pushMessage : ι → BusMessage → Nat → MessageType → Option ι
  /-- Whether a demand request would be accepted on a channel. -/
  canAcceptRX : ι → MessageType → Bool
  /-- Deliver a message, given the next sequence number; `none` when it is refused. -/
  pushMessage2RX : ι → Nat → BusMessage → MessageType → Option ι
  /-- Choose the message to hand out next. -/
  peekMessage : ι → ι × Option Delivery
  /-- Remove the message that was handed out. -/
  popFrontMessage : ι → ι
  /-- The receive buffer of a channel. -/
  rx : ι → MessageType → List Delivery
  /-- Every delivery accepted so far. -/
  received : ι → List Delivery
  /-- Every delivery popped so far. -/
  consumed : ι → List Delivery
  /-- Every message accepted for transmission so far, with its channel. -/
  submitted : ι → List (MessageType × BusMessage)

/-- An interface with a request and a response channel. -/
structure BusInterface where
  interfaceId : Nat
  bufferMaxSize : Int
  bufferSelector : BufferSelector := .unset
  txRequestBuffer : List BusMessage := []
  txResponseBuffer : List BusMessage := []
  rxRequestBuffer : List Delivery := []
  rxResponseBuffer : List Delivery := []
  received : List Delivery := []
  consumed : List Delivery := []
  submitted : List (MessageType × BusMessage) := []
  deriving DecidableEq, Repr

namespace BusInterface

/-- Push stamps a message with its sender and, when it is not zero, the cycle. -/
def stamp (itf : BusInterface) (msg : BusMessage) (cycle : Nat) : BusMessage :=
  { msg with cycle := if cycle = 0 then msg.cycle else cycle, fromId := itf.interfaceId }

/-- The transmit buffer of a channel. -/
def tx (itf : BusInterface) : MessageType → List BusMessage
  | .request => itf.txRequestBuffer
  | .dataResponse => itf.txResponseBuffer
  | .serviceRequest => []

/-- Replace the transmit buffer of a channel. -/
def setTx (itf : BusInterface) (type : MessageType) (buffer : List BusMessage) : BusInterface :=
  match type with
  | .request => { itf with txRequestBuffer := buffer }
  | .dataResponse => { itf with txResponseBuffer := buffer }
  | .serviceRequest => itf

/-- The receive buffer of a channel. -/
def rx (itf : BusInterface) : MessageType → List Delivery
  | .request => itf.rxRequestBuffer
  | .dataResponse => itf.rxResponseBuffer
  | .serviceRequest => []

/-- Free slots in the transmit buffer for responses. -/
def txResponseFreeSlots (itf : BusInterface) : Int :=
  itf.bufferMaxSize - itf.txResponseBuffer.length

/-- Put a message into the transmit buffer of a channel, if it has room. -/
def pushMessage (itf : BusInterface) (msg : BusMessage) (cycle : Nat) (type : MessageType) :
    Option BusInterface :=
  match type with
  | .request =>
    if itf.txRequestBuffer.length < itf.bufferMaxSize then
      some { itf with
        txRequestBuffer := itf.txRequestBuffer ++ [itf.stamp msg cycle]
        submitted := itf.submitted ++ [(.request, itf.stamp msg cycle)] }
    else none
  | .dataResponse =>
    if itf.txResponseBuffer.length < itf.bufferMaxSize then
      some { itf with
        txResponseBuffer := itf.txResponseBuffer ++ [itf.stamp msg cycle]
        submitted := itf.submitted ++ [(.dataResponse, itf.stamp msg cycle)] }
    else none
  | .serviceRequest => none

/-- Only the request channel is bounded. -/
def canAcceptRX (itf : BusInterface) : MessageType → Bool
  | .request => itf.rxRequestBuffer.length < itf.bufferMaxSize
  | .dataResponse => true
  | .serviceRequest => false

/-- Deliver a message: only demand requests can be refused for want of room. -/
def pushMessage2RX (itf : BusInterface) (seq : Nat) (msg : BusMessage) (type : MessageType) :
    Option BusInterface :=
  let delivery : Delivery := ⟨type, msg, seq⟩
  match type with
  | .request =>
    if msg.isDemandRequest && decide (itf.bufferMaxSize ≤ itf.rxRequestBuffer.length) then none
    else
      some { itf with
        rxRequestBuffer := itf.rxRequestBuffer ++ [delivery]
        received := itf.received ++ [delivery] }
  | .dataResponse =>
    some { itf with
      rxResponseBuffer := itf.rxResponseBuffer ++ [delivery]
      received := itf.received ++ [delivery] }
  | .serviceRequest => none

/-- One round of the search of `peekMessage`: the request buffer unless it was chosen last, then
the response buffer unless it was; a round that finds nothing unsets the selector. -/
def peekRound (itf : BusInterface) : BusInterface × Option Delivery :=
  match itf.rxRequestBuffer.head?.filter fun _ => itf.bufferSelector != .request with
  | some delivery => ({ itf with bufferSelector := .request }, some delivery)
  | none =>
    match itf.rxResponseBuffer.head?.filter fun _ => itf.bufferSelector != .response with
    | some delivery => ({ itf with bufferSelector := .response }, some delivery)
    | none => ({ itf with bufferSelector := .unset }, none)

/-- Choose the message to hand out next, in at most two rounds. -/
def peekMessage (itf : BusInterface) : BusInterface × Option Delivery :=
  match itf.peekRound with
  | (itf', some delivery) => (itf', some delivery)
  | (itf', none) => itf'.peekRound

/-- Remove the head of the buffer the last peek chose. -/
def popFrontMessage (itf : BusInterface) : BusInterface :=
  match itf.bufferSelector with
  | .request =>
    { itf with
      rxRequestBuffer := itf.rxRequestBuffer.tail
      consumed := itf.consumed ++ itf.rxRequestBuffer.head?.toList }
  | .response =>
    { itf with
      rxResponseBuffer := itf.rxResponseBuffer.tail
      consumed := itf.consumed ++ itf.rxResponseBuffer.head?.toList }
  | .unset => itf

instance : CommunicationInterface BusInterface where
  interfaceId := interfaceId
  tx := tx
  setTx := setTx
  txResponseFreeSlots := txResponseFreeSlots
  pushMessage := pushMessage
  canAcceptRX := canAcceptRX
  pushMessage2RX := pushMessage2RX
  peekMessage := peekMessage
  popFrontMessage := popFrontMessage
  rx := rx
  received := received
  consumed := consumed
  submitted := submitted

end BusInterface

/-- A bus interface with a service channel for back-invalidations. -/
structure TripleBusInterface extends BusInterface where
  txServiceBuffer : List BusMessage := []
  rxServiceBuffer : List Delivery := []
  /-- The last peek returned the head of the service buffer. -/
  serviceSelected : Bool := false
  deriving DecidableEq, Repr

namespace TripleBusInterface

/-- The transmit buffer of a channel. -/
def tx (itf : TripleBusInterface) : MessageType → List BusMessage
  | .serviceRequest => itf.txServiceBuffer
  | type => itf.toBusInterface.tx type

/-- Replace the transmit buffer of a channel. -/
def setTx (itf : TripleBusInterface) (type : MessageType) (buffer : List BusMessage) :
    TripleBusInterface :=
  match type with
  | .serviceRequest => { itf with txServiceBuffer := buffer }
  | type => { itf with toBusInterface := itf.toBusInterface.setTx type buffer }

/-- Put a message into the transmit buffer of a channel, if it has room. -/
def pushMessage (itf : TripleBusInterface) (msg : BusMessage) (cycle : Nat) (type : MessageType) :
    Option TripleBusInterface :=
  match type with
  | .serviceRequest =>
    if itf.txServiceBuffer.length < itf.bufferMaxSize then
      some { itf with
        txServiceBuffer := itf.txServiceBuffer ++ [itf.stamp msg cycle]
        submitted := itf.submitted ++ [(.serviceRequest, itf.stamp msg cycle)] }
    else none
  | type =>
    (itf.toBusInterface.pushMessage msg cycle type).map fun base =>
      { itf with toBusInterface := base }

/-- The receive buffer of a channel. -/
def rx (itf : TripleBusInterface) : MessageType → List Delivery
  | .request => itf.rxRequestBuffer
  | .dataResponse => itf.rxResponseBuffer
  | .serviceRequest => itf.rxServiceBuffer

/-- Back-invalidations are always accepted. -/
def canAcceptRX (itf : TripleBusInterface) : MessageType → Bool
  | .serviceRequest => true
  | type => itf.toBusInterface.canAcceptRX type

/-- Deliver a message; back-invalidations are always accepted. -/
def pushMessage2RX (itf : TripleBusInterface) (seq : Nat) (msg : BusMessage) (type : MessageType) :
    Option TripleBusInterface :=
  match type with
  | .serviceRequest =>
    some { itf with
      rxServiceBuffer := itf.rxServiceBuffer ++ [⟨.serviceRequest, msg, seq⟩]
      received := itf.received ++ [⟨.serviceRequest, msg, seq⟩] }
  | type =>
    (itf.toBusInterface.pushMessage2RX seq msg type).map fun base =>
      { itf with toBusInterface := base }

/-- The head of the service buffer comes first unless the head of the request buffer was
delivered before it. -/
def serviceFirst (itf : TripleBusInterface) : Option Delivery :=
  itf.rxServiceBuffer.head?.filter fun service =>
    itf.rxRequestBuffer.head?.all fun request => service.seq < request.seq

/-- Choose the message to hand out next. -/
def peekMessage (itf : TripleBusInterface) : TripleBusInterface × Option Delivery :=
  match itf.serviceFirst with
  | some delivery => ({ itf with serviceSelected := true }, some delivery)
  | none =>
    let (base, result) := itf.toBusInterface.peekMessage
    ({ itf with toBusInterface := base, serviceSelected := false }, result)

/-- Remove the message the last peek chose. -/
def popFrontMessage (itf : TripleBusInterface) : TripleBusInterface :=
  if itf.serviceSelected then
    { itf with
      rxServiceBuffer := itf.rxServiceBuffer.tail
      consumed := itf.consumed ++ itf.rxServiceBuffer.head?.toList
      serviceSelected := false }
  else { itf with toBusInterface := itf.toBusInterface.popFrontMessage }

instance : CommunicationInterface TripleBusInterface where
  interfaceId itf := itf.interfaceId
  tx := tx
  setTx := setTx
  txResponseFreeSlots itf := itf.txResponseFreeSlots
  pushMessage := pushMessage
  canAcceptRX := canAcceptRX
  pushMessage2RX := pushMessage2RX
  peekMessage := peekMessage
  popFrontMessage := popFrontMessage
  rx := rx
  received itf := itf.received
  consumed itf := itf.consumed
  submitted itf := itf.submitted

end TripleBusInterface

namespace CommunicationInterface

variable {ι : Type} [CommunicationInterface ι]

/-- On every channel, what was received is what was popped, in order, and what waits in the receive
buffer. -/
def Balanced (itf : ι) : Prop :=
  Lib.Buffered Delivery.type (received itf) (consumed itf) (rx itf)

/-- The messages accepted for transmission on a channel. -/
def submittedOn (itf : ι) (type : MessageType) : List BusMessage :=
  ((submitted itf).filter fun entry => entry.1 == type).map Prod.snd

/-- The transmit side is left as it is, and the receive side stays balanced. -/
structure KeepsTransmit (itf itf' : ι) : Prop where
  tx : ∀ type, tx itf' type = tx itf type
  submitted : submitted itf' = submitted itf
  balanced : Balanced itf → Balanced itf'

/-- A message enters the end of one transmit buffer, and the receive side stays balanced. -/
structure Submits (itf itf' : ι) (type : MessageType) (msg : BusMessage) : Prop where
  tx : ∀ type', CommunicationInterface.tx itf' type' =
    if type' = type then CommunicationInterface.tx itf type' ++ [msg] else CommunicationInterface.tx itf type'
  submitted : submitted itf' = submitted itf ++ [(type, msg)]
  balanced : Balanced itf → Balanced itf'

/-- An interface nothing has passed yet. -/
structure Fresh (itf : ι) : Prop where
  received : received itf = []
  consumed : consumed itf = []
  submitted : submitted itf = []
  rx : ∀ type, rx itf type = []
  tx : ∀ type, tx itf type = []

theorem Fresh.balanced {itf : ι} (h : Fresh itf) : Balanced itf := by
  intro type
  simp [h.received, h.consumed, h.rx]

variable {itf itf' : ι}

/-- The balance depends on the receive side only. -/
theorem Balanced.congr (h : Balanced itf) (hreceived : received itf' = received itf)
    (hconsumed : consumed itf' = consumed itf) (hrx : ∀ type, rx itf' type = rx itf type) : Balanced itf' := by
  intro type
  rw [hreceived, hconsumed, hrx]
  exact h type

/-- A delivery at the end of the receive buffer of its channel keeps the balance. -/
theorem Balanced.push (h : Balanced itf) {d : Delivery} (hreceived : received itf' = received itf ++ [d])
    (hconsumed : consumed itf' = consumed itf)
    (hrx : ∀ type, rx itf' type = rx itf type ++ if type = d.type then [d] else []) : Balanced itf' := by
  rw [Balanced, hreceived, hconsumed]
  exact Lib.Buffered.push h hrx

/-- Popping the head of a receive buffer keeps the balance. -/
theorem Balanced.pop (h : Balanced itf) (popped : MessageType) (hreceived : received itf' = received itf)
    (hconsumed : consumed itf' = consumed itf ++ (rx itf popped).head?.toList)
    (hrx : ∀ type, rx itf' type = if type = popped then (rx itf popped).tail else rx itf type) :
    Balanced itf' := by
  rw [Balanced, hreceived, hconsumed]
  exact Lib.Buffered.pop h popped hrx

end CommunicationInterface

open CommunicationInterface

/-- What every interface promises the bus controllers. -/
class LawfulInterface (ι : Type) extends CommunicationInterface ι where
  /-- An accepted delivery is the last one received. -/
  received_push : ∀ {itf itf' : ι} {seq msg type}, pushMessage2RX itf seq msg type = some itf' →
    received itf' = received itf ++ [⟨type, msg, seq⟩]
  /-- A delivery does not change who the interface is. -/
  interfaceId_push : ∀ {itf itf' : ι} {seq msg type}, pushMessage2RX itf seq msg type = some itf' →
    interfaceId itf' = interfaceId itf
  /-- A channel with room accepts. -/
  push_of_canAccept : ∀ {itf : ι} (seq msg) {type}, canAcceptRX itf type →
    (pushMessage2RX itf seq msg type).isSome
  /-- The request channel refuses demand requests only. -/
  push_of_not_demand : ∀ {itf : ι} (seq) {msg}, msg.isDemandRequest = false →
    (pushMessage2RX itf seq msg .request).isSome
  /-- The response channel never refuses. -/
  push_response : ∀ (itf : ι) (seq msg), (pushMessage2RX itf seq msg .dataResponse).isSome
  /-- The transmit buffers are apart from what was received. -/
  received_setTx : ∀ (itf : ι) (type buffer), received (setTx itf type buffer) = received itf
  interfaceId_setTx : ∀ (itf : ι) (type buffer), interfaceId (setTx itf type buffer) = interfaceId itf
  /-- Pushing, peeking and popping receive nothing. -/
  received_pushMessage : ∀ {itf itf' : ι} {msg cycle type}, pushMessage itf msg cycle type = some itf' →
    received itf' = received itf ∧ interfaceId itf' = interfaceId itf
  received_peek : ∀ itf : ι, received (peekMessage itf).1 = received itf ∧
    interfaceId (peekMessage itf).1 = interfaceId itf
  received_pop : ∀ itf : ι, received (popFrontMessage itf) = received itf ∧
    interfaceId (popFrontMessage itf) = interfaceId itf
  /-- Deliveries, peeks and pops concern the receive side only. -/
  keeps_push2RX : ∀ {itf itf' : ι} {seq msg type}, pushMessage2RX itf seq msg type = some itf' →
    KeepsTransmit itf itf'
  keeps_peek : ∀ itf : ι, KeepsTransmit itf (peekMessage itf).1
  keeps_pop : ∀ itf : ι, KeepsTransmit itf (popFrontMessage itf)
  /-- An accepted push enters the end of the transmit buffer of its channel. -/
  submits_push : ∀ {itf itf' : ι} {msg cycle type}, pushMessage itf msg cycle type = some itf' →
    ∃ sent, Submits itf itf' type sent
  /-- A transmit buffer that has a message can be replaced. -/
  tx_setTx : ∀ {itf : ι} {type}, tx itf type ≠ [] → ∀ buffer type',
    tx (setTx itf type buffer) type' = if type' = type then buffer else tx itf type'
  submitted_setTx : ∀ (itf : ι) (type buffer), submitted (setTx itf type buffer) = submitted itf
  balanced_setTx : ∀ {itf : ι} (type buffer), Balanced itf → Balanced (setTx itf type buffer)

namespace BusInterface

/-- A round of the search changes the selector only. -/
theorem peekRound_fst (itf : BusInterface) :
    ∃ selector, itf.peekRound.1 = { itf with bufferSelector := selector } := by
  unfold peekRound
  split
  · exact ⟨_, rfl⟩
  · split <;> exact ⟨_, rfl⟩

/-- A peek changes the selector only. -/
theorem peekMessage_fst (itf : BusInterface) :
    ∃ selector, itf.peekMessage.1 = { itf with bufferSelector := selector } := by
  obtain ⟨first, hfirst⟩ := itf.peekRound_fst
  unfold peekMessage
  split
  · next h =>
    rw [h] at hfirst
    exact ⟨first, hfirst⟩
  · next itf' h =>
    rw [h] at hfirst
    obtain rfl : itf' = { itf with bufferSelector := first } := hfirst
    exact peekRound_fst _

@[simp] theorem received_peekMessage (itf : BusInterface) :
    itf.peekMessage.1.received = itf.received := by
  obtain ⟨selector, h⟩ := itf.peekMessage_fst
  rw [h]

@[simp] theorem interfaceId_peekMessage (itf : BusInterface) :
    itf.peekMessage.1.interfaceId = itf.interfaceId := by
  obtain ⟨selector, h⟩ := itf.peekMessage_fst
  rw [h]

@[simp] theorem received_popFrontMessage (itf : BusInterface) :
    itf.popFrontMessage.received = itf.received := by
  unfold popFrontMessage
  split <;> rfl

@[simp] theorem interfaceId_popFrontMessage (itf : BusInterface) :
    itf.popFrontMessage.interfaceId = itf.interfaceId := by
  unfold popFrontMessage
  split <;> rfl

@[simp] theorem received_setTx (itf : BusInterface) (type : MessageType) (buffer : List BusMessage) :
    (itf.setTx type buffer).received = itf.received := by
  cases type <;> rfl

@[simp] theorem interfaceId_setTx (itf : BusInterface) (type : MessageType) (buffer : List BusMessage) :
    (itf.setTx type buffer).interfaceId = itf.interfaceId := by
  cases type <;> rfl

/-- What an accepted push changes: one transmit buffer. -/
theorem pushMessage_eq {itf itf' : BusInterface} {msg : BusMessage} {cycle : Nat} {type : MessageType}
    (h : itf.pushMessage msg cycle type = some itf') :
    itf' = { itf.setTx type (itf.tx type ++ [itf.stamp msg cycle]) with
      submitted := itf.submitted ++ [(type, itf.stamp msg cycle)] } := by
  cases type with
  | request =>
    simp only [pushMessage, Option.ite_none_right_eq_some, Option.some.injEq] at h
    exact h.2.symm
  | dataResponse =>
    simp only [pushMessage, Option.ite_none_right_eq_some, Option.some.injEq] at h
    exact h.2.symm
  | serviceRequest => simp [pushMessage] at h

/-- What an accepted delivery records. -/
theorem pushMessage2RX_received {itf itf' : BusInterface} {seq : Nat} {msg : BusMessage}
    {type : MessageType} (h : itf.pushMessage2RX seq msg type = some itf') :
    itf'.received = itf.received ++ [⟨type, msg, seq⟩] ∧ itf'.interfaceId = itf.interfaceId := by
  cases type with
  | request =>
    simp only [pushMessage2RX, Option.ite_none_left_eq_some, Option.some.injEq] at h
    rw [← h.2]
    exact ⟨rfl, rfl⟩
  | dataResponse =>
    simp only [pushMessage2RX, Option.some.injEq] at h
    rw [← h]
    exact ⟨rfl, rfl⟩
  | serviceRequest => simp [pushMessage2RX] at h

/-- What an accepted delivery changes on the receive side: the end of one receive buffer. -/
theorem pushMessage2RX_rx {itf itf' : BusInterface} {seq : Nat} {msg : BusMessage}
    {type : MessageType} (h : itf.pushMessage2RX seq msg type = some itf') :
    itf'.consumed = itf.consumed ∧ itf'.bufferSelector = itf.bufferSelector ∧
      ∀ t, itf'.rx t = itf.rx t ++ if t = type then [⟨type, msg, seq⟩] else [] := by
  cases type with
  | request =>
    simp only [pushMessage2RX, Option.ite_none_left_eq_some, Option.some.injEq] at h
    rw [← h.2]
    exact ⟨rfl, rfl, fun t => by cases t <;> simp [rx]⟩
  | dataResponse =>
    simp only [pushMessage2RX, Option.some.injEq] at h
    rw [← h]
    exact ⟨rfl, rfl, fun t => by cases t <;> simp [rx]⟩
  | serviceRequest => simp [pushMessage2RX] at h

/-- A delivery leaves the transmit side. -/
theorem pushMessage2RX_tx {itf itf' : BusInterface} {seq : Nat} {msg : BusMessage} {type : MessageType}
    (h : itf.pushMessage2RX seq msg type = some itf') :
    itf'.submitted = itf.submitted ∧ ∀ type', itf'.tx type' = itf.tx type' := by
  cases type with
  | request =>
    simp only [pushMessage2RX, Option.ite_none_left_eq_some, Option.some.injEq] at h
    rw [← h.2]
    exact ⟨rfl, fun type' => by cases type' <;> rfl⟩
  | dataResponse =>
    simp only [pushMessage2RX, Option.some.injEq] at h
    rw [← h]
    exact ⟨rfl, fun type' => by cases type' <;> rfl⟩
  | serviceRequest => simp [pushMessage2RX] at h

/-- A pop moves the head of the buffer the last peek chose to what was consumed. -/
theorem popFrontMessage_rx (itf : BusInterface) :
    itf.popFrontMessage = itf ∨ ∃ popped,
      itf.popFrontMessage.consumed = itf.consumed ++ (itf.rx popped).head?.toList ∧
        ∀ type, itf.popFrontMessage.rx type = if type = popped then (itf.rx popped).tail else itf.rx type := by
  unfold popFrontMessage
  split
  · exact .inr ⟨.request, rfl, fun type => by cases type <;> rfl⟩
  · exact .inr ⟨.dataResponse, rfl, fun type => by cases type <;> rfl⟩
  · exact .inl rfl

/-- A pop leaves the transmit side. -/
theorem popFrontMessage_tx (itf : BusInterface) :
    itf.popFrontMessage.submitted = itf.submitted ∧ ∀ type, itf.popFrontMessage.tx type = itf.tx type := by
  unfold popFrontMessage
  split
  · exact ⟨rfl, fun type => by cases type <;> rfl⟩
  · exact ⟨rfl, fun type => by cases type <;> rfl⟩
  · exact ⟨rfl, fun _ => rfl⟩

/-- A transmit buffer that exists can be replaced. -/
theorem tx_setTx {itf : BusInterface} {type : MessageType} (h : itf.tx type ≠ []) (buffer : List BusMessage)
    (type' : MessageType) : (itf.setTx type buffer).tx type' = if type' = type then buffer else itf.tx type' := by
  cases type with
  | request => cases type' <;> rfl
  | dataResponse => cases type' <;> rfl
  | serviceRequest => exact absurd rfl h

/-- The transmit buffers are apart from the receive side. -/
theorem setTx_rx (itf : BusInterface) (type : MessageType) (buffer : List BusMessage) :
    (itf.setTx type buffer).submitted = itf.submitted ∧ (itf.setTx type buffer).consumed = itf.consumed ∧
      (itf.setTx type buffer).rx = itf.rx := by
  cases type <;> exact ⟨rfl, rfl, rfl⟩

/-- An accepted push receives nothing. -/
theorem pushMessage_frame {itf itf' : BusInterface} {msg : BusMessage} {cycle : Nat} {type : MessageType}
    (h : itf.pushMessage msg cycle type = some itf') :
    itf'.received = itf.received ∧ itf'.interfaceId = itf.interfaceId := by
  rw [pushMessage_eq h]
  exact ⟨received_setTx _ _ _, interfaceId_setTx _ _ _⟩

/-- An accepted push enters the end of one transmit buffer. -/
theorem pushMessage_tx {itf itf' : BusInterface} {msg : BusMessage} {cycle : Nat} {type : MessageType}
    (h : itf.pushMessage msg cycle type = some itf') :
    itf'.submitted = itf.submitted ++ [(type, itf.stamp msg cycle)] ∧
      (∀ type', itf'.tx type' = if type' = type then itf.tx type' ++ [itf.stamp msg cycle] else itf.tx type') ∧
      itf'.consumed = itf.consumed ∧ itf'.rx = itf.rx := by
  rw [pushMessage_eq h]
  cases type with
  | serviceRequest => simp [pushMessage] at h
  | request => exact ⟨rfl, fun type' => by cases type' <;> rfl, rfl, rfl⟩
  | dataResponse => exact ⟨rfl, fun type' => by cases type' <;> rfl, rfl, rfl⟩

/-- An interface as its constructor leaves it. -/
theorem fresh_mk (id : Nat) (size : Int) :
    Fresh ({ interfaceId := id, bufferMaxSize := size } : BusInterface) :=
  ⟨rfl, rfl, rfl, fun type => by cases type <;> rfl, fun type => by cases type <;> rfl⟩

instance : LawfulInterface BusInterface where
  received_push h := (pushMessage2RX_received h).1
  interfaceId_push h := (pushMessage2RX_received h).2
  push_of_canAccept {itf} seq msg type h := by
    cases type with
    | request =>
      have hroom : itf.rxRequestBuffer.length < itf.bufferMaxSize := of_decide_eq_true h
      have hfull : ¬ itf.bufferMaxSize ≤ itf.rxRequestBuffer.length := by omega
      simp [CommunicationInterface.pushMessage2RX, pushMessage2RX, hfull]
    | dataResponse => rfl
    | serviceRequest => exact absurd h (by simp [CommunicationInterface.canAcceptRX, canAcceptRX])
  push_of_not_demand seq msg h := by
    simp [CommunicationInterface.pushMessage2RX, pushMessage2RX, h]
  push_response _ _ _ := rfl
  received_setTx := received_setTx
  interfaceId_setTx := interfaceId_setTx
  received_pushMessage h := pushMessage_frame h
  received_peek itf := ⟨received_peekMessage itf, interfaceId_peekMessage itf⟩
  received_pop itf := ⟨received_popFrontMessage itf, interfaceId_popFrontMessage itf⟩
  keeps_push2RX h :=
    have ⟨hconsumed, _, hrx⟩ := pushMessage2RX_rx h
    have ⟨hsubmitted, htx⟩ := pushMessage2RX_tx h
    ⟨htx, hsubmitted, fun hbalanced => hbalanced.push (pushMessage2RX_received h).1 hconsumed hrx⟩
  keeps_peek itf := by
    obtain ⟨selector, h⟩ := itf.peekMessage_fst
    show KeepsTransmit itf itf.peekMessage.1
    rw [h]
    exact ⟨fun type => by cases type <;> rfl, rfl,
      fun hbalanced => hbalanced.congr rfl rfl fun type => by cases type <;> rfl⟩
  keeps_pop itf := by
    have ⟨hsubmitted, htx⟩ := itf.popFrontMessage_tx
    refine ⟨htx, hsubmitted, fun hbalanced => ?_⟩
    show Balanced itf.popFrontMessage
    rcases itf.popFrontMessage_rx with h | ⟨popped, hconsumed, hrx⟩
    · rwa [h]
    · exact hbalanced.pop popped itf.received_popFrontMessage hconsumed hrx
  submits_push {itf _ msg cycle _} h :=
    have ⟨hsubmitted, htx, hconsumed, hrx⟩ := pushMessage_tx h
    ⟨itf.stamp msg cycle, htx, hsubmitted,
      fun hbalanced => hbalanced.congr (pushMessage_frame h).1 hconsumed (congrFun hrx)⟩
  tx_setTx := tx_setTx
  submitted_setTx itf type buffer := (setTx_rx itf type buffer).1
  balanced_setTx {itf} type buffer hbalanced :=
    have ⟨_, hconsumed, hrx⟩ := setTx_rx itf type buffer
    hbalanced.congr (received_setTx itf type buffer) hconsumed (congrFun hrx)

end BusInterface

namespace TripleBusInterface

/-- A delivery on the request or the response channel is a delivery to the bus interface. -/
theorem pushMessage2RX_of_ne {itf : TripleBusInterface} {seq : Nat} {msg : BusMessage}
    {type : MessageType} (h : type ≠ .serviceRequest) :
    itf.pushMessage2RX seq msg type =
      (itf.toBusInterface.pushMessage2RX seq msg type).map fun base =>
        { itf with toBusInterface := base } := by
  cases type with
  | serviceRequest => exact absurd rfl h
  | request => rfl
  | dataResponse => rfl

/-- What an accepted delivery records. -/
theorem pushMessage2RX_received {itf itf' : TripleBusInterface} {seq : Nat} {msg : BusMessage}
    {type : MessageType} (h : itf.pushMessage2RX seq msg type = some itf') :
    itf'.received = itf.received ++ [⟨type, msg, seq⟩] ∧ itf'.interfaceId = itf.interfaceId := by
  by_cases htype : type = .serviceRequest
  · subst htype
    simp only [pushMessage2RX, Option.some.injEq] at h
    rw [← h]
    exact ⟨rfl, rfl⟩
  · rw [pushMessage2RX_of_ne htype, Option.map_eq_some_iff] at h
    obtain ⟨base, hbase, rfl⟩ := h
    exact BusInterface.pushMessage2RX_received hbase

@[simp] theorem received_setTx (itf : TripleBusInterface) (type : MessageType)
    (buffer : List BusMessage) : (itf.setTx type buffer).received = itf.received := by
  cases type <;> rfl

@[simp] theorem interfaceId_setTx (itf : TripleBusInterface) (type : MessageType)
    (buffer : List BusMessage) : (itf.setTx type buffer).interfaceId = itf.interfaceId := by
  cases type <;> rfl

@[simp] theorem received_peekMessage (itf : TripleBusInterface) :
    itf.peekMessage.1.received = itf.received := by
  unfold peekMessage
  split
  · rfl
  · exact BusInterface.received_peekMessage _

@[simp] theorem interfaceId_peekMessage (itf : TripleBusInterface) :
    itf.peekMessage.1.interfaceId = itf.interfaceId := by
  unfold peekMessage
  split
  · rfl
  · exact BusInterface.interfaceId_peekMessage _

@[simp] theorem received_popFrontMessage (itf : TripleBusInterface) :
    itf.popFrontMessage.received = itf.received := by
  unfold popFrontMessage
  split
  · rfl
  · exact BusInterface.received_popFrontMessage _

@[simp] theorem interfaceId_popFrontMessage (itf : TripleBusInterface) :
    itf.popFrontMessage.interfaceId = itf.interfaceId := by
  unfold popFrontMessage
  split
  · rfl
  · exact BusInterface.interfaceId_popFrontMessage _

/-- What an accepted delivery changes on the receive side: the end of one receive buffer. -/
theorem pushMessage2RX_rx {itf itf' : TripleBusInterface} {seq : Nat} {msg : BusMessage} {type : MessageType}
    (h : itf.pushMessage2RX seq msg type = some itf') :
    itf'.consumed = itf.consumed ∧ itf'.serviceSelected = itf.serviceSelected ∧
      itf'.bufferSelector = itf.bufferSelector ∧
      ∀ t, itf'.rx t = itf.rx t ++ if t = type then [⟨type, msg, seq⟩] else [] := by
  by_cases htype : type = .serviceRequest
  · subst htype
    simp only [pushMessage2RX, Option.some.injEq] at h
    rw [← h]
    exact ⟨rfl, rfl, rfl, fun t => by cases t <;> simp [rx]⟩
  · rw [pushMessage2RX_of_ne htype, Option.map_eq_some_iff] at h
    obtain ⟨base, hbase, rfl⟩ := h
    obtain ⟨hconsumed, hselector, hrx⟩ := BusInterface.pushMessage2RX_rx hbase
    refine ⟨hconsumed, rfl, hselector, fun t => ?_⟩
    cases t with
    | serviceRequest => simp [rx, Ne.symm htype]
    | request => exact hrx .request
    | dataResponse => exact hrx .dataResponse

/-- A delivery leaves the transmit side. -/
theorem pushMessage2RX_tx {itf itf' : TripleBusInterface} {seq : Nat} {msg : BusMessage} {type : MessageType}
    (h : itf.pushMessage2RX seq msg type = some itf') :
    itf'.submitted = itf.submitted ∧ ∀ t, itf'.tx t = itf.tx t := by
  by_cases htype : type = .serviceRequest
  · subst htype
    simp only [pushMessage2RX, Option.some.injEq] at h
    rw [← h]
    exact ⟨rfl, fun t => by cases t <;> rfl⟩
  · rw [pushMessage2RX_of_ne htype, Option.map_eq_some_iff] at h
    obtain ⟨base, hbase, rfl⟩ := h
    obtain ⟨hsubmitted, htx⟩ := BusInterface.pushMessage2RX_tx hbase
    refine ⟨hsubmitted, fun t => ?_⟩
    cases t with
    | serviceRequest => rfl
    | request => exact htx .request
    | dataResponse => exact htx .dataResponse

/-- A peek leaves the buffers and the histories. -/
theorem peekMessage_frame (itf : TripleBusInterface) :
    itf.peekMessage.1.submitted = itf.submitted ∧ itf.peekMessage.1.consumed = itf.consumed ∧
      (∀ t, itf.peekMessage.1.tx t = itf.tx t) ∧ ∀ t, itf.peekMessage.1.rx t = itf.rx t := by
  unfold peekMessage
  split
  · exact ⟨rfl, rfl, fun t => by cases t <;> rfl, fun t => by cases t <;> rfl⟩
  · obtain ⟨selector, h⟩ := itf.toBusInterface.peekMessage_fst
    dsimp only
    rw [h]
    exact ⟨rfl, rfl, fun t => by cases t <;> rfl, fun t => by cases t <;> rfl⟩

/-- A pop moves the head of the buffer the last peek chose to what was consumed. -/
theorem popFrontMessage_rx (itf : TripleBusInterface) :
    itf.popFrontMessage = itf ∨ ∃ popped,
      itf.popFrontMessage.consumed = itf.consumed ++ (itf.rx popped).head?.toList ∧
        ∀ t, itf.popFrontMessage.rx t = if t = popped then (itf.rx popped).tail else itf.rx t := by
  unfold popFrontMessage BusInterface.popFrontMessage
  split
  · exact .inr ⟨.serviceRequest, rfl, fun t => by cases t <;> rfl⟩
  · split
    · exact .inr ⟨.request, rfl, fun t => by cases t <;> rfl⟩
    · exact .inr ⟨.dataResponse, rfl, fun t => by cases t <;> rfl⟩
    · exact .inl rfl

/-- A pop leaves the transmit side. -/
theorem popFrontMessage_tx (itf : TripleBusInterface) :
    itf.popFrontMessage.submitted = itf.submitted ∧ ∀ t, itf.popFrontMessage.tx t = itf.tx t := by
  obtain ⟨hsubmitted, htx⟩ := itf.toBusInterface.popFrontMessage_tx
  rw [popFrontMessage]
  by_cases hselected : itf.serviceSelected
  · rw [if_pos hselected]
    exact ⟨rfl, fun t => by cases t <;> rfl⟩
  · rw [if_neg hselected]
    refine ⟨hsubmitted, fun t => ?_⟩
    cases t with
    | serviceRequest => rfl
    | request => exact htx .request
    | dataResponse => exact htx .dataResponse

/-- A transmit buffer can be replaced. -/
theorem tx_setTx (itf : TripleBusInterface) (type : MessageType) (buffer : List BusMessage) (t : MessageType) :
    (itf.setTx type buffer).tx t = if t = type then buffer else itf.tx t := by
  cases type <;> cases t <;> rfl

/-- The transmit buffers are apart from the receive side. -/
theorem setTx_frame (itf : TripleBusInterface) (type : MessageType) (buffer : List BusMessage) :
    (itf.setTx type buffer).submitted = itf.submitted ∧ (itf.setTx type buffer).consumed = itf.consumed ∧
      ∀ t, (itf.setTx type buffer).rx t = itf.rx t := by
  cases type <;> exact ⟨rfl, rfl, fun t => by cases t <;> rfl⟩

/-- An accepted push receives nothing. -/
theorem pushMessage_frame {itf itf' : TripleBusInterface} {msg : BusMessage} {cycle : Nat}
    {type : MessageType} (h : itf.pushMessage msg cycle type = some itf') :
    itf'.received = itf.received ∧ itf'.interfaceId = itf.interfaceId := by
  cases type with
  | serviceRequest =>
    simp only [pushMessage, Option.ite_none_right_eq_some, Option.some.injEq] at h
    rw [← h.2]
    exact ⟨rfl, rfl⟩
  | request =>
    obtain ⟨base, hbase, rfl⟩ := Option.map_eq_some_iff.1 h
    exact BusInterface.pushMessage_frame hbase
  | dataResponse =>
    obtain ⟨base, hbase, rfl⟩ := Option.map_eq_some_iff.1 h
    exact BusInterface.pushMessage_frame hbase

/-- An accepted push enters the end of one transmit buffer. -/
theorem pushMessage_tx {itf itf' : TripleBusInterface} {msg : BusMessage} {cycle : Nat} {type : MessageType}
    (h : itf.pushMessage msg cycle type = some itf') :
    itf'.submitted = itf.submitted ++ [(type, itf.stamp msg cycle)] ∧
      (∀ t, itf'.tx t = if t = type then itf.tx t ++ [itf.stamp msg cycle] else itf.tx t) ∧
      itf'.consumed = itf.consumed ∧ ∀ t, itf'.rx t = itf.rx t := by
  have hbase : ∀ base, itf.toBusInterface.pushMessage msg cycle type = some base → type ≠ .serviceRequest →
      itf' = { itf with toBusInterface := base } →
      itf'.submitted = itf.submitted ++ [(type, itf.stamp msg cycle)] ∧
        (∀ t, itf'.tx t = if t = type then itf.tx t ++ [itf.stamp msg cycle] else itf.tx t) ∧
        itf'.consumed = itf.consumed ∧ ∀ t, itf'.rx t = itf.rx t := by
    rintro base hpush hne rfl
    obtain ⟨hsubmitted, htx, hconsumed, hrx⟩ := BusInterface.pushMessage_tx hpush
    refine ⟨hsubmitted, fun t => ?_, hconsumed, fun t => ?_⟩
    · cases t with
      | serviceRequest => simp [tx, Ne.symm hne]
      | request => exact htx .request
      | dataResponse => exact htx .dataResponse
    · cases t with
      | serviceRequest => rfl
      | request => exact congrFun hrx .request
      | dataResponse => exact congrFun hrx .dataResponse
  cases type with
  | serviceRequest =>
    simp only [pushMessage, Option.ite_none_right_eq_some, Option.some.injEq] at h
    rw [← h.2]
    exact ⟨rfl, fun t => by cases t <;> rfl, rfl, fun t => by cases t <;> rfl⟩
  | request =>
    obtain ⟨base, hpush, heq⟩ := Option.map_eq_some_iff.1 h
    exact hbase base hpush (by decide) heq.symm
  | dataResponse =>
    obtain ⟨base, hpush, heq⟩ := Option.map_eq_some_iff.1 h
    exact hbase base hpush (by decide) heq.symm

instance : LawfulInterface TripleBusInterface where
  received_push h := (pushMessage2RX_received h).1
  interfaceId_push h := (pushMessage2RX_received h).2
  push_of_canAccept {itf} seq msg type h := by
    by_cases htype : type = .serviceRequest
    · subst htype
      rfl
    · have hbase : itf.toBusInterface.canAcceptRX type = true := by
        cases type with
        | serviceRequest => exact absurd rfl htype
        | request => exact h
        | dataResponse => rfl
      show (itf.pushMessage2RX seq msg type).isSome
      rw [pushMessage2RX_of_ne htype, Option.isSome_map]
      exact LawfulInterface.push_of_canAccept seq msg hbase
  push_of_not_demand {itf} seq msg h := by
    show (itf.pushMessage2RX seq msg .request).isSome
    rw [pushMessage2RX_of_ne (by decide), Option.isSome_map]
    exact LawfulInterface.push_of_not_demand seq h
  push_response _ _ _ := rfl
  received_setTx := received_setTx
  interfaceId_setTx := interfaceId_setTx
  received_pushMessage h := pushMessage_frame h
  received_peek itf := ⟨received_peekMessage itf, interfaceId_peekMessage itf⟩
  received_pop itf := ⟨received_popFrontMessage itf, interfaceId_popFrontMessage itf⟩
  keeps_push2RX h :=
    have ⟨hconsumed, _, _, hrx⟩ := pushMessage2RX_rx h
    have ⟨hsubmitted, htx⟩ := pushMessage2RX_tx h
    ⟨htx, hsubmitted, fun hbalanced => hbalanced.push (pushMessage2RX_received h).1 hconsumed hrx⟩
  keeps_peek itf :=
    have ⟨hsubmitted, hconsumed, htx, hrx⟩ := itf.peekMessage_frame
    ⟨htx, hsubmitted, fun hbalanced => hbalanced.congr itf.received_peekMessage hconsumed hrx⟩
  keeps_pop itf := by
    have ⟨hsubmitted, htx⟩ := itf.popFrontMessage_tx
    refine ⟨htx, hsubmitted, fun hbalanced => ?_⟩
    show Balanced itf.popFrontMessage
    rcases itf.popFrontMessage_rx with h | ⟨popped, hconsumed, hrx⟩
    · rwa [h]
    · exact hbalanced.pop popped itf.received_popFrontMessage hconsumed hrx
  submits_push {itf _ msg cycle _} h :=
    have ⟨hsubmitted, htx, hconsumed, hrx⟩ := pushMessage_tx h
    ⟨itf.stamp msg cycle, htx, hsubmitted,
      fun hbalanced => hbalanced.congr (pushMessage_frame h).1 hconsumed hrx⟩
  tx_setTx _ := tx_setTx _ _
  submitted_setTx itf type buffer := (setTx_frame itf type buffer).1
  balanced_setTx {itf} type buffer hbalanced :=
    have ⟨_, hconsumed, hrx⟩ := setTx_frame itf type buffer
    hbalanced.congr (received_setTx itf type buffer) hconsumed hrx

end TripleBusInterface

end Octopus
