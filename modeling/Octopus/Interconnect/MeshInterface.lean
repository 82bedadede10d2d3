import Octopus.Interconnect.BusController
import Octopus.Lib.Ledger

/-!
# Interfaces of meshes and networks on chip

A mesh interface has one transmit buffer a link for requests and one for data, and two receive
buffers. A pushed message is copied into the buffer of the link each of its destinations is
reached through. In a mesh that is the link to the destination itself; a NoC interface looks
the destination up in its routing table. The switches of a NoC forward what they receive
without stamping it anew.

`received`, `consumed` and `submitted` are histories: they record every delivery an interface
accepted, every message that was popped and every copy that was queued for a link.
-/

namespace Octopus

open Lib

/-- The two kinds of links between a pair of interfaces. -/
inductive LinkType
  | requestLink
  | dataLink
  deriving DecidableEq, Repr

/-- An interface of a mesh or a NoC. The routing table of a NoC interface has the far end of the
link a destination is reached through, if the constructor found one; a mesh interface looks for a
link to the destination itself. -/
structure MeshInterface where
  interfaceId : Nat
  bufferMaxSize : Int
  linkIds : List Nat
  routingTable : Nat → Option Nat := some
  bufferSelector : BufferSelector := .unset
  txRequestBuffer : List (List BusMessage) := linkIds.map fun _ => []
  txDataBuffer : List (List BusMessage) := linkIds.map fun _ => []
  rxRequestBuffer : List BusMessage := []
  rxDataBuffer : List BusMessage := []
  received : List BusMessage := []
  consumed : List BusMessage := []
  submitted : List (LinkType × BusMessage) := []

namespace MeshInterface

/-- The far end of the link a destination is reached through. The lookup enters 0 for a destination
the table does not have, so that such a message takes a link to interface 0 if there is one; no
later lookup sees more than that. -/
def route (itf : MeshInterface) (destination : Nat) : Nat :=
  (itf.routingTable destination).getD 0

/-- The receive buffer for a kind of link. -/
def rx (itf : MeshInterface) : LinkType → List BusMessage
  | .requestLink => itf.rxRequestBuffer
  | .dataLink => itf.rxDataBuffer

/-- The transmit buffers for a kind of link. -/
def tx (itf : MeshInterface) : LinkType → List (List BusMessage)
  | .requestLink => itf.txRequestBuffer
  | .dataLink => itf.txDataBuffer

/-- Replace the transmit buffers for a kind of link. -/
def setTx (itf : MeshInterface) (type : LinkType) (buffers : List (List BusMessage)) : MeshInterface :=
  match type with
  | .requestLink => { itf with txRequestBuffer := buffers }
  | .dataLink => { itf with txDataBuffer := buffers }

/-- Messages with data travel on data links. -/
def linkType (msg : BusMessage) : LinkType :=
  if msg.data.isNone then .requestLink else .dataLink

/-- Copy a message for one destination into the buffer of the first link it is reached through. -/
def enqueue (itf : MeshInterface) (msg : BusMessage) (buffers : List (List BusMessage)) (destination : Nat) :
    List (List BusMessage) :=
  match itf.linkIds.findIdx? fun id => id == itf.route destination with
  | some k => buffers.modify k fun buffer => buffer ++ [{ msg with toIds := [destination] }]
  | none => buffers

/-- The copies of a message that are queued: one for each destination that is reached over a link. -/
def queued (itf : MeshInterface) (msg : BusMessage) : List BusMessage :=
  (msg.toIds.filter fun destination => itf.linkIds.any fun id => id == itf.route destination).map fun destination =>
    { msg with toIds := [destination] }

/-- Put a message into the transmit buffers of the links to its destinations; it is refused when
the number of links is not below the buffer size. A message without destinations ends the
program. -/
def nocPushMessage (itf : MeshInterface) (msg : BusMessage) : Except BusExit (Bool × MeshInterface) :=
  if msg.toIds = [] then .error .missingDestination
  else
    let type := linkType msg
    if (itf.tx type).length < itf.bufferMaxSize then
      .ok (true, { itf.setTx type (msg.toIds.foldl (itf.enqueue msg) (itf.tx type)) with
        submitted := itf.submitted ++ (itf.queued msg).map fun copy => (type, copy) })
    else .ok (false, itf)

/-- A push stamps the message with its sender and, when it is not zero, the cycle. -/
def pushMessage (itf : MeshInterface) (msg : BusMessage) (cycle : Nat) : Except BusExit (Bool × MeshInterface) :=
  itf.nocPushMessage
    { msg with cycle := if cycle = 0 then msg.cycle else cycle, fromId := itf.interfaceId }

/-- Deliver a message, if its receive buffer has room. -/
def pushMessage2RX (itf : MeshInterface) (msg : BusMessage) : Option MeshInterface :=
  match linkType msg with
  | .requestLink =>
    if itf.rxRequestBuffer.length < itf.bufferMaxSize then
      some { itf with rxRequestBuffer := itf.rxRequestBuffer ++ [msg], received := itf.received ++ [msg] }
    else none
  | .dataLink =>
    if itf.rxDataBuffer.length < itf.bufferMaxSize then
      some { itf with rxDataBuffer := itf.rxDataBuffer ++ [msg], received := itf.received ++ [msg] }
    else none

/-- One round of the search of `peekMessage`. -/
def peekRound (itf : MeshInterface) : MeshInterface × Option BusMessage :=
  match itf.rxRequestBuffer.head?.filter fun _ => itf.bufferSelector != .request with
  | some msg => ({ itf with bufferSelector := .request }, some msg)
  | none =>
    match itf.rxDataBuffer.head?.filter fun _ => itf.bufferSelector != .response with
    | some msg => ({ itf with bufferSelector := .response }, some msg)
    | none => ({ itf with bufferSelector := .unset }, none)

/-- Choose the message to hand out next, in at most two rounds. -/
def peekMessage (itf : MeshInterface) : MeshInterface × Option BusMessage :=
  match itf.peekRound with
  | (itf', some msg) => (itf', some msg)
  | (itf', none) => itf'.peekRound

/-- Remove the head of the buffer the last peek chose. -/
def popFrontMessage (itf : MeshInterface) : MeshInterface :=
  match itf.bufferSelector with
  | .request =>
    { itf with
      rxRequestBuffer := itf.rxRequestBuffer.tail
      consumed := itf.consumed ++ itf.rxRequestBuffer.head?.toList }
  | .response =>
    { itf with
      rxDataBuffer := itf.rxDataBuffer.tail
      consumed := itf.consumed ++ itf.rxDataBuffer.head?.toList }
  | .unset => itf

/-- A switch takes its next message and pushes it on, whether or not the push is accepted. -/
def forward (itf : MeshInterface) : Except BusExit MeshInterface :=
  match itf.peekMessage with
  | (itf', none) => .ok itf'
  | (itf', some msg) => (itf'.popFrontMessage.nocPushMessage msg).map Prod.snd

/-- Every message in the transmit buffer of a link has one destination, reached through the link. -/
def Addressed (itf : MeshInterface) : Prop :=
  ∀ type (k : Nat) buffer, (itf.tx type)[k]? = some buffer → ∀ msg ∈ buffer,
    ∃ destination, msg.toIds = [destination] ∧ itf.linkIds[k]? = some (itf.route destination)

/-- An interface has a transmit buffer of each kind for every link. -/
def Wired (itf : MeshInterface) : Prop := ∀ type, (itf.tx type).length = itf.linkIds.length

/-- What is kept of an interface by everything that happens to it: who it is and where its links
lead; and that its transmit buffers stay addressed, one for every link. -/
structure Kept (itf itf' : MeshInterface) : Prop where
  interfaceId : itf'.interfaceId = itf.interfaceId
  linkIds : itf'.linkIds = itf.linkIds
  route : itf'.route = itf.route
  addressed : itf.Addressed → itf'.Addressed
  wired : itf.Wired → itf'.Wired

theorem Kept.refl (itf : MeshInterface) : itf.Kept itf := ⟨rfl, rfl, rfl, id, id⟩

theorem Kept.trans {a b c : MeshInterface} (h : a.Kept b) (h' : b.Kept c) : a.Kept c :=
  ⟨h'.interfaceId.trans h.interfaceId, h'.linkIds.trans h.linkIds, h'.route.trans h.route,
    h'.addressed ∘ h.addressed, h'.wired ∘ h.wired⟩

/-- The messages that wait for a kind of link. -/
def waiting (itf : MeshInterface) (type : LinkType) : List BusMessage :=
  (itf.tx type).flatten

/-- The copies that were queued for a kind of link. -/
def submittedOn (itf : MeshInterface) (type : LinkType) : List BusMessage :=
  (itf.submitted.filter fun entry => entry.1 == type).map Prod.snd

/-- For every kind of message, what was received is what was popped, in order, and what waits in the
receive buffer. -/
def Balanced (itf : MeshInterface) : Prop :=
  Buffered linkType itf.received itf.consumed itf.rx

/-- Copies enter the transmit buffers, and the receive side stays balanced. -/
structure Queues (itf itf' : MeshInterface) (new : LinkType → List BusMessage) : Prop where
  waiting : itf.Wired → Adds itf.waiting itf'.waiting new
  submitted : Adds itf.submittedOn itf'.submittedOn new
  balanced : itf.Balanced → itf'.Balanced

/-- Nothing is queued where the transmit side stays. -/
theorem queues_nothing {itf itf' : MeshInterface} (htx : ∀ type, itf'.tx type = itf.tx type)
    (hsubmitted : itf'.submitted = itf.submitted) (hbalanced : itf.Balanced → itf'.Balanced) :
    itf.Queues itf' fun _ => [] where
  waiting _ type := by simp [MeshInterface.waiting, htx]
  submitted type := by simp [MeshInterface.submittedOn, hsubmitted]
  balanced := hbalanced

theorem Queues.trans {a b c : MeshInterface} {new new' : LinkType → List BusMessage} (hkept : a.Kept b)
    (h : a.Queues b new) (h' : b.Queues c new') : a.Queues c fun type => new type ++ new' type where
  waiting hwired type := by
    rw [← List.append_assoc]
    exact (h'.waiting (hkept.wired hwired) type).trans ((h.waiting hwired type).append_right _)
  submitted type := by
    rw [← List.append_assoc]
    exact (h'.submitted type).trans ((h.submitted type).append_right _)
  balanced := h'.balanced ∘ h.balanced

@[simp] theorem setTx_tx (itf : MeshInterface) (type : LinkType) (buffers : List (List BusMessage)) :
    (itf.setTx type buffers).tx type = buffers := by
  cases type <;> rfl

/-- The buffers of the other kind of links stay. -/
theorem setTx_tx_of_ne (itf : MeshInterface) {type type' : LinkType} (h : type' ≠ type)
    (buffers : List (List BusMessage)) : (itf.setTx type buffers).tx type' = itf.tx type' := by
  cases type <;> cases type' <;> first | rfl | exact absurd rfl h

@[simp] theorem setTx_received (itf : MeshInterface) (type : LinkType) (buffers : List (List BusMessage)) :
    (itf.setTx type buffers).received = itf.received := by
  cases type <;> rfl

@[simp] theorem setTx_interfaceId (itf : MeshInterface) (type : LinkType) (buffers : List (List BusMessage)) :
    (itf.setTx type buffers).interfaceId = itf.interfaceId := by
  cases type <;> rfl

@[simp] theorem setTx_linkIds (itf : MeshInterface) (type : LinkType) (buffers : List (List BusMessage)) :
    (itf.setTx type buffers).linkIds = itf.linkIds := by
  cases type <;> rfl

@[simp] theorem setTx_route (itf : MeshInterface) (type : LinkType) (buffers : List (List BusMessage)) :
    (itf.setTx type buffers).route = itf.route := by
  cases type <;> rfl

@[simp] theorem setTx_submitted (itf : MeshInterface) (type : LinkType) (buffers : List (List BusMessage)) :
    (itf.setTx type buffers).submitted = itf.submitted := by
  cases type <;> rfl

/-- The transmit buffers are apart from the receive side. -/
theorem balanced_setTx {itf : MeshInterface} (type : LinkType) (buffers : List (List BusMessage))
    (h : itf.Balanced) : (itf.setTx type buffers).Balanced := by
  cases type with
  | requestLink => exact fun kind => h kind
  | dataLink => exact fun kind => h kind

/-- Exchanging the buffers of one kind of links for as many addressed ones. -/
theorem kept_setTx {itf : MeshInterface} {type : LinkType} {buffers : List (List BusMessage)}
    (hlength : buffers.length = (itf.tx type).length)
    (h : itf.Addressed → ∀ (k : Nat) buffer, buffers[k]? = some buffer → ∀ msg ∈ buffer,
      ∃ destination, msg.toIds = [destination] ∧ itf.linkIds[k]? = some (itf.route destination)) :
    itf.Kept (itf.setTx type buffers) where
  interfaceId := setTx_interfaceId _ _ _
  linkIds := setTx_linkIds _ _ _
  route := setTx_route _ _ _
  addressed ha := by
    intro type' k buffer hk msg hmsg
    simp only [setTx_linkIds, setTx_route]
    by_cases htype : type' = type
    · subst htype
      rw [setTx_tx] at hk
      exact h ha k buffer hk msg hmsg
    · rw [setTx_tx_of_ne itf htype] at hk
      exact ha type' k buffer hk msg hmsg
  wired hw := by
    intro type'
    rw [setTx_linkIds]
    by_cases htype : type' = type
    · subst htype
      rw [setTx_tx, hlength]
      exact hw type'
    · rw [setTx_tx_of_ne itf htype]
      exact hw type'

/-- A copy is put where its destination is reached. -/
theorem enqueue_addressed {itf : MeshInterface} {msg : BusMessage} {buffers : List (List BusMessage)}
    {destination : Nat}
    (h : ∀ (k : Nat) buffer, buffers[k]? = some buffer → ∀ msg ∈ buffer,
      ∃ d, msg.toIds = [d] ∧ itf.linkIds[k]? = some (itf.route d)) :
    ∀ (k : Nat) buffer, (itf.enqueue msg buffers destination)[k]? = some buffer → ∀ msg ∈ buffer,
      ∃ d, msg.toIds = [d] ∧ itf.linkIds[k]? = some (itf.route d) := by
  intro k buffer hk m hm
  unfold enqueue at hk
  split at hk
  · next j hj =>
    rw [List.getElem?_modify] at hk
    by_cases hjk : j = k
    · subst hjk
      simp only [if_true] at hk
      obtain ⟨old, hold, rfl⟩ := Option.map_eq_some_iff.1 hk
      rcases List.mem_append.1 hm with hm | hm
      · exact h j old hold m hm
      · simp only [List.mem_singleton] at hm
        subst hm
        obtain ⟨hlt, heq, -⟩ := List.findIdx?_eq_some_iff_getElem.1 hj
        exact ⟨destination, rfl, by simpa [hlt] using heq⟩
    · exact h k buffer (by simpa [hjk] using hk) m hm
  · exact h k buffer hk m hm

/-- A copy is one more message in the buffers, if its destination is reached. -/
theorem enqueue_flatten {itf : MeshInterface} (msg : BusMessage) {buffers : List (List BusMessage)}
    (hlength : buffers.length = itf.linkIds.length) (destination : Nat) :
    (itf.enqueue msg buffers destination).length = itf.linkIds.length ∧
      (itf.enqueue msg buffers destination).flatten.Perm (buffers.flatten ++
        if itf.linkIds.any fun id => id == itf.route destination then [{ msg with toIds := [destination] }] else []) := by
  unfold enqueue
  cases hfind : itf.linkIds.findIdx? fun id => id == itf.route destination with
  | none =>
    have hnone : (itf.linkIds.any fun id => id == itf.route destination) = false := by
      simpa using hfind
    rw [hnone]
    exact ⟨hlength, by simp⟩
  | some k =>
    obtain ⟨hlt, heq, -⟩ := List.findIdx?_eq_some_iff_getElem.1 hfind
    have hany : (itf.linkIds.any fun id => id == itf.route destination) = true :=
      List.any_eq_true.2 ⟨_, List.getElem_mem hlt, heq⟩
    have hbound : k < buffers.length := hlength ▸ hlt
    have hk : buffers[k]? = some buffers[k] := List.getElem?_eq_getElem hbound
    have hone : Adds (fun _ : Unit => buffers[k]) (fun _ => buffers[k] ++ [{ msg with toIds := [destination] }])
        (fun _ => [{ msg with toIds := [destination] }]) := fun _ => .refl _
    have hall : Adds (ledger (fun (buffer : List BusMessage) (_ : Unit) => buffer) buffers) _ _ := hone.set hk
    refine ⟨by simpa using hlength, ?_⟩
    rw [hany, if_pos rfl]
    simpa [ledger, List.modify_eq_set, hk] using hall ()

/-- The copies for a list of destinations are so many more messages in the buffers. -/
theorem foldl_enqueue_flatten {itf : MeshInterface} (msg : BusMessage) {buffers : List (List BusMessage)}
    (hlength : buffers.length = itf.linkIds.length) (destinations : List Nat) :
    (destinations.foldl (itf.enqueue msg) buffers).flatten.Perm (buffers.flatten ++
      (destinations.filter fun d => itf.linkIds.any fun id => id == itf.route d).map fun d =>
        { msg with toIds := [d] }) := by
  induction destinations generalizing buffers with
  | nil => simp
  | cons d rest ih =>
    obtain ⟨hlength', hfirst⟩ := enqueue_flatten msg hlength d
    rw [List.foldl_cons, List.filter_cons]
    refine (ih hlength').trans ((hfirst.append_right _).trans (List.Perm.of_eq ?_))
    split_ifs <;> simp

/-- Queueing copies leaves as many buffers. -/
theorem length_foldl_enqueue (itf : MeshInterface) (msg : BusMessage) (buffers : List (List BusMessage))
    (destinations : List Nat) : (destinations.foldl (itf.enqueue msg) buffers).length = buffers.length := by
  induction destinations generalizing buffers with
  | nil => rfl
  | cons d rest ih =>
    rw [List.foldl_cons, ih]
    unfold enqueue
    split
    · exact List.length_modify ..
    · rfl

/-- What happens to an interface but for deliveries: it is kept, it receives nothing, and what enters
its transmit buffers is on record. -/
structure Used (itf itf' : MeshInterface) : Prop where
  kept : itf.Kept itf'
  received : itf'.received = itf.received
  queues : ∃ new, itf.Queues itf' new

theorem Used.trans {a b c : MeshInterface} (h : a.Used b) (h' : b.Used c) : a.Used c where
  kept := h.kept.trans h'.kept
  received := h'.received.trans h.received
  queues := by
    obtain ⟨new, hnew⟩ := h.queues
    obtain ⟨new', hnew'⟩ := h'.queues
    exact ⟨_, hnew.trans h.kept hnew'⟩

/-- Copies recorded for one kind of link. -/
theorem filter_recorded (copies : List BusMessage) (type type' : LinkType) :
    ((copies.map fun copy => (type', copy)).filter fun entry => entry.1 == type).map Prod.snd =
      if type = type' then copies else [] := by
  by_cases htype : type = type'
  · simp [htype, List.filter_map, Function.comp_def]
  · simp [htype, Ne.symm htype]

/-- The record of the copies is apart from everything else. -/
theorem kept_submitted (itf : MeshInterface) (log : List (LinkType × BusMessage)) :
    itf.Kept { itf with submitted := log } :=
  ⟨rfl, rfl, rfl, id, id⟩

/-- Pushing a message on queues its copies. -/
theorem nocPushMessage_used {itf itf' : MeshInterface} {msg : BusMessage} {accepted : Bool}
    (h : itf.nocPushMessage msg = .ok (accepted, itf')) : itf.Used itf' := by
  unfold nocPushMessage at h
  split at h
  · simp at h
  · dsimp only at h
    split at h
    · simp only [Except.ok.injEq, Prod.mk.injEq] at h
      rw [← h.2]
      refine ⟨(kept_setTx (length_foldl_enqueue ..) ?_).trans (kept_submitted _ _), setTx_received _ _ _,
        fun type => if type = linkType msg then itf.queued msg else [], ?_⟩
      · intro ha
        have hstart := ha (linkType msg)
        generalize itf.tx (linkType msg) = buffers at hstart
        generalize msg.toIds = destinations
        induction destinations generalizing buffers with
        | nil => exact hstart
        | cons d rest ih => exact ih _ (enqueue_addressed hstart)
      · refine ⟨fun hwired type => ?_, fun type => List.Perm.of_eq ?_, balanced_setTx _ _⟩
        · show (MeshInterface.tx (itf.setTx _ _) type).flatten.Perm _
          by_cases htype : type = linkType msg
          · subst htype
            rw [setTx_tx, if_pos rfl]
            exact foldl_enqueue_flatten msg (hwired _) msg.toIds
          · rw [setTx_tx_of_ne itf htype, if_neg htype, List.append_nil]
            rfl
        · rw [submittedOn, List.filter_append, List.map_append, filter_recorded]
          rfl
    · simp only [Except.ok.injEq, Prod.mk.injEq] at h
      rw [← h.2]
      exact ⟨.refl itf, rfl, _, queues_nothing (fun _ => rfl) rfl id⟩

/-- A round of the search changes the selector only. -/
theorem peekRound_fst (itf : MeshInterface) :
    ∃ selector, itf.peekRound.1 = { itf with bufferSelector := selector } := by
  unfold peekRound
  split
  · exact ⟨_, rfl⟩
  · split <;> exact ⟨_, rfl⟩

/-- A peek changes the selector only. -/
theorem peekMessage_fst (itf : MeshInterface) :
    ∃ selector, itf.peekMessage.1 = { itf with bufferSelector := selector } := by
  obtain ⟨first, hfirst⟩ := itf.peekRound_fst
  unfold peekMessage
  split
  · next h =>
    rw [h] at hfirst
    exact ⟨first, hfirst⟩
  · next itf' h =>
    rw [h] at hfirst
    obtain rfl : itf' = { itf with bufferSelector := first } := hfirst
    exact peekRound_fst _

theorem peekMessage_used (itf : MeshInterface) : itf.Used itf.peekMessage.1 := by
  obtain ⟨selector, h⟩ := itf.peekMessage_fst
  rw [h]
  exact ⟨⟨rfl, rfl, rfl, id, id⟩, rfl, _,
    queues_nothing (fun type => by cases type <;> rfl) rfl fun hbalanced type => hbalanced type⟩

/-- A pop moves the head of the buffer the last peek chose to what was consumed. -/
theorem popFrontMessage_used (itf : MeshInterface) : itf.Used itf.popFrontMessage := by
  unfold popFrontMessage
  split
  · refine ⟨⟨rfl, rfl, rfl, id, id⟩, rfl, _, queues_nothing (fun type => by cases type <;> rfl) rfl ?_⟩
    exact fun hbalanced => Buffered.pop hbalanced .requestLink fun type => by cases type <;> rfl
  · refine ⟨⟨rfl, rfl, rfl, id, id⟩, rfl, _, queues_nothing (fun type => by cases type <;> rfl) rfl ?_⟩
    exact fun hbalanced => Buffered.pop hbalanced .dataLink fun type => by cases type <;> rfl
  · exact ⟨.refl itf, rfl, _, queues_nothing (fun _ => rfl) rfl id⟩

/-- A switch that forwards a message pops it and pushes it on. -/
theorem forward_used {itf itf' : MeshInterface} (h : itf.forward = .ok itf') : itf.Used itf' := by
  have hpeek := peekMessage_used itf
  unfold forward at h
  split at h
  · next itf₁ heq =>
    obtain rfl := Except.ok.inj h
    rw [heq] at hpeek
    exact hpeek
  · next itf₁ msg heq =>
    rw [heq] at hpeek
    cases hpush : itf₁.popFrontMessage.nocPushMessage msg with
    | error e => simp [hpush, Except.map] at h
    | ok result =>
      simp only [hpush, Except.map, Except.ok.injEq] at h
      subst h
      exact (hpeek.trans (popFrontMessage_used itf₁)).trans (nocPushMessage_used hpush)

/-- An accepted delivery is the last message received, and waits at the end of its receive buffer. -/
theorem pushMessage2RX_kept {itf itf' : MeshInterface} {msg : BusMessage}
    (h : itf.pushMessage2RX msg = some itf') :
    itf.Kept itf' ∧ itf'.received = itf.received ++ [msg] ∧ itf.Queues itf' fun _ => [] := by
  unfold pushMessage2RX at h
  split at h
  · next htype =>
    simp only [Option.ite_none_right_eq_some, Option.some.injEq] at h
    rw [← h.2]
    refine ⟨⟨rfl, rfl, rfl, id, id⟩, rfl, queues_nothing (fun type => by cases type <;> rfl) rfl ?_⟩
    refine fun hbalanced => Buffered.push hbalanced fun type => ?_
    rw [htype]
    cases type <;> simp [rx]
  · next htype =>
    simp only [Option.ite_none_right_eq_some, Option.some.injEq] at h
    rw [← h.2]
    refine ⟨⟨rfl, rfl, rfl, id, id⟩, rfl, queues_nothing (fun type => by cases type <;> rfl) rfl ?_⟩
    refine fun hbalanced => Buffered.push hbalanced fun type => ?_
    rw [htype]
    cases type <;> simp [rx]

end MeshInterface

end Octopus
