import Octopus.Interconnect.SplitBus

/-!
# The triple bus and the order of its messages

The triple bus adds a bus for back-invalidations to the split bus. Requests and
back-invalidations reach every interface in the order they were broadcast, on two channels; an
interface hands out the older of the two heads. The interfaces therefore consume prefixes of one
sequence.
-/

namespace Octopus

open CommunicationInterface BusController Lib

/-- The messages that are ordered across the channels: requests and back-invalidations. -/
def Delivery.isOrdered (d : Delivery) : Bool :=
  d.type != .dataResponse

/-- In a list sorted by sequence number, the head of one part is the head of the list when it is
not younger than the head of the other part. -/
theorem head?_of_parts {l : List Delivery} (hsorted : l.Pairwise fun a b => a.seq < b.seq)
    (p : Delivery → Bool) {d : Delivery} (hd : (l.filter p).head? = some d)
    (hother : ∀ e ∈ (l.filter fun x => !p x).head?, d.seq ≤ e.seq) : l.head? = some d := by
  cases l with
  | nil => simp at hd
  | cons z rest =>
    by_cases hz : p z
    · simpa [hz] using hd
    · have hmem : d ∈ rest := by
        have hd' := List.mem_of_mem_head? hd
        simpa [hz] using (List.mem_filter.1 (by simpa [hz] using hd')).1
      have hlt := (List.pairwise_cons.1 hsorted).1 d hmem
      have hle := hother z (by simp [hz])
      omega

namespace TripleBusInterface

/-- The invariant of an interface when `counter` deliveries have been made: what was received on a
channel is what was consumed and what waits there, and requests and back-invalidations are
consumed in the order of deliveries. -/
structure Ordered (counter : Nat) (itf : TripleBusInterface) : Prop where
  bounded : ∀ d ∈ itf.received, d.seq ≤ counter
  sorted : itf.received.Pairwise fun a b => a.seq < b.seq
  channel : ∀ type, itf.received.filter (fun d => d.type == type) =
    itf.consumed.filter (fun d => d.type == type) ++ itf.rx type
  inOrder : ∃ waiting, itf.received.filter Delivery.isOrdered =
    itf.consumed.filter Delivery.isOrdered ++ waiting

/-- The ordered messages an interface has not consumed yet. -/
def waiting (itf : TripleBusInterface) : List Delivery :=
  (itf.received.filter Delivery.isOrdered).drop (itf.consumed.filter Delivery.isOrdered).length

variable {counter : Nat} {itf itf' : TripleBusInterface}

theorem Ordered.received_eq (h : itf.Ordered counter) :
    itf.received.filter Delivery.isOrdered = itf.consumed.filter Delivery.isOrdered ++ itf.waiting := by
  obtain ⟨waiting, hwaiting⟩ := h.inOrder
  simp [TripleBusInterface.waiting, hwaiting]

/-- A channel of the ordered messages that wait is its receive buffer. -/
theorem Ordered.filter_waiting (h : itf.Ordered counter) {type : MessageType} (htype : type ≠ .dataResponse) :
    itf.waiting.filter (fun d => d.type == type) = itf.rx type := by
  have hsub : ∀ l : List Delivery, (l.filter Delivery.isOrdered).filter (fun d => d.type == type) =
      l.filter fun d => d.type == type := by
    intro l
    rw [List.filter_filter]
    apply List.filter_congr
    intro d _
    by_cases hd : d.type = type
    · simp [Delivery.isOrdered, hd, htype]
    · simp [hd]
  have hall := congrArg (List.filter fun d => d.type == type) h.received_eq
  rw [List.filter_append, hsub, hsub, h.channel type] at hall
  exact (List.append_cancel_left hall).symm

theorem Ordered.waiting_sorted (h : itf.Ordered counter) :
    itf.waiting.Pairwise fun a b => a.seq < b.seq :=
  ((h.sorted.filter _).sublist (List.drop_sublist _ _))

/-- The ordered messages that are not of the service channel are the requests. -/
theorem Ordered.filter_waiting_not (h : itf.Ordered counter) (type other : MessageType)
    (htypes : ∀ t, t ≠ .dataResponse ↔ t = type ∨ t = other) (hne : type ≠ other) :
    itf.waiting.filter (fun d => !(d.type == type)) = itf.rx other := by
  have hother : other ≠ .dataResponse := (htypes other).2 (.inr rfl)
  rw [← h.filter_waiting hother]
  apply List.filter_congr
  intro d hd
  have hordered : d.isOrdered = true :=
    (List.mem_filter.1 (List.mem_of_mem_drop hd)).2
  have htype : d.type = type ∨ d.type = other := (htypes d.type).1 (by simpa [Delivery.isOrdered] using hordered)
  rcases htype with htype | htype
  · simp [htype, hne]
  · simp [htype, Ne.symm hne]

/-- What the registers of an interface say about the last peek, when it returned `d`. -/
def Peeked (itf : TripleBusInterface) (d : Delivery) : Prop :=
  (itf.rx d.type).head? = some d ∧ (d.isOrdered → itf.waiting.head? = some d) ∧
    match d.type with
    | .serviceRequest => itf.serviceSelected = true
    | .request => itf.serviceSelected = false ∧ itf.bufferSelector = .request
    | .dataResponse => itf.serviceSelected = false ∧ itf.bufferSelector = .response

/-- The invariant and the last peek depend on the receive side only. -/
theorem Ordered.congr (h : itf.Ordered counter) (hreceived : itf'.received = itf.received)
    (hconsumed : itf'.consumed = itf.consumed) (hrx : ∀ type, itf'.rx type = itf.rx type) :
    itf'.Ordered counter where
  bounded := by
    rw [hreceived]
    exact h.bounded
  sorted := by
    rw [hreceived]
    exact h.sorted
  channel type := by
    rw [hreceived, hconsumed, hrx]
    exact h.channel type
  inOrder := by
    rw [hreceived, hconsumed]
    exact h.inOrder

theorem Ordered.mono (h : itf.Ordered counter) {counter' : Nat} (hle : counter ≤ counter') :
    itf.Ordered counter' :=
  ⟨fun d hd => Nat.le_trans (h.bounded d hd) hle, h.sorted, h.channel, h.inOrder⟩

/-- The invariant balances the receive side. -/
theorem Ordered.balanced (h : itf.Ordered counter) : CommunicationInterface.Balanced itf := h.channel

/-- The entries of a receive buffer came on its channel. -/
theorem Ordered.type_of_mem_rx (h : itf.Ordered counter) (type : MessageType) {d : Delivery}
    (hd : d ∈ itf.rx type) : d.type = type :=
  h.balanced.kind_of_mem hd

/-- One round of the search finds the head of a buffer that was not chosen last. -/
theorem peekRound_cases (base : BusInterface) :
    (∃ d, base.peekRound = ({ base with bufferSelector := .request }, some d) ∧
      base.rxRequestBuffer.head? = some d) ∨
    (∃ d, base.peekRound = ({ base with bufferSelector := .response }, some d) ∧
      base.rxResponseBuffer.head? = some d) ∨
    (base.peekRound = ({ base with bufferSelector := .unset }, none) ∧
      (base.rxRequestBuffer = [] ∨ base.bufferSelector = .request) ∧
      (base.rxResponseBuffer = [] ∨ base.bufferSelector = .response)) := by
  unfold BusInterface.peekRound
  split
  · next d hd => exact .inl ⟨d, rfl, (Option.filter_eq_some_iff.1 hd).1⟩
  · next hnone =>
    split
    · next d hd => exact .inr (.inl ⟨d, rfl, (Option.filter_eq_some_iff.1 hd).1⟩)
    · next hnone' =>
      refine .inr (.inr ⟨rfl, ?_, ?_⟩)
      · cases hrequest : base.rxRequestBuffer with
        | nil => exact .inl rfl
        | cons d rest => exact .inr (by simpa [hrequest] using hnone)
      · cases hresponse : base.rxResponseBuffer with
        | nil => exact .inl rfl
        | cons d rest => exact .inr (by simpa [hresponse] using hnone')

/-- A peek at a bus interface finds the head of one of the buffers, unless both are empty. -/
theorem basePeek_cases (base : BusInterface) :
    (∃ d, base.peekMessage = ({ base with bufferSelector := .request }, some d) ∧
      base.rxRequestBuffer.head? = some d) ∨
    (∃ d, base.peekMessage = ({ base with bufferSelector := .response }, some d) ∧
      base.rxResponseBuffer.head? = some d) ∨
    (base.peekMessage = ({ base with bufferSelector := .unset }, none) ∧
      base.rxRequestBuffer = [] ∧ base.rxResponseBuffer = []) := by
  unfold BusInterface.peekMessage
  rcases peekRound_cases base with ⟨d, hround, hhead⟩ | ⟨d, hround, hhead⟩ | ⟨hround, -, -⟩
  · exact .inl ⟨d, by rw [hround], hhead⟩
  · exact .inr (.inl ⟨d, by rw [hround], hhead⟩)
  · rw [hround]
    rcases peekRound_cases { base with bufferSelector := .unset } with
      ⟨d, hround', hhead⟩ | ⟨d, hround', hhead⟩ | ⟨hround', hrequest, hresponse⟩
    · exact .inl ⟨d, hround', hhead⟩
    · exact .inr (.inl ⟨d, hround', hhead⟩)
    · exact .inr (.inr ⟨hround', hrequest.resolve_right (by simp), hresponse.resolve_right (by simp)⟩)

/-- A peek keeps the invariant, returns the oldest ordered message or the oldest response, and
finds a message whenever one waits. -/
theorem peek_spec (h : itf.Ordered counter) :
    itf.peekMessage.1.Ordered counter ∧
      (∀ d, itf.peekMessage.2 = some d → itf.peekMessage.1.Peeked d) ∧
      (itf.peekMessage.2 = none → ∀ type, itf.rx type = []) := by
  unfold peekMessage
  split
  · next d hd =>
    refine ⟨h.congr rfl rfl fun _ => by cases ‹MessageType› <;> rfl, ?_, by simp⟩
    intro e he
    obtain rfl : d = e := by simpa using he
    obtain ⟨hhead, hfirst⟩ := Option.filter_eq_some_iff.1 hd
    have htype : d.type = .serviceRequest := h.type_of_mem_rx .serviceRequest (List.mem_of_mem_head? hhead)
    have hwaiting : itf.waiting.head? = some d := by
      refine head?_of_parts h.waiting_sorted (fun x => x.type == .serviceRequest) ?_ ?_
      · rw [h.filter_waiting (by decide)]
        exact hhead
      · rw [h.filter_waiting_not .serviceRequest .request (fun t => by cases t <;> simp) (by decide)]
        intro e he
        have hlt : itf.rxRequestBuffer.head?.all fun request => decide (d.seq < request.seq) := hfirst
        rw [show itf.rxRequestBuffer.head? = some e from he] at hlt
        exact Nat.le_of_lt (by simpa using hlt)
    refine ⟨?_, fun _ => hwaiting, ?_⟩
    · rw [htype]
      exact hhead
    · rw [htype]
  · next hnone =>
    have hservice : ∀ e ∈ itf.rxServiceBuffer.head?, ∀ r, itf.rxRequestBuffer.head? = some r → r.seq ≤ e.seq := by
      intro e he r hr
      have hfirst := Option.filter_eq_none_iff.1 hnone e he
      rw [hr] at hfirst
      simpa using hfirst
    have hempty : itf.rxRequestBuffer = [] → itf.rxServiceBuffer = [] := by
      intro hrequest
      cases hsvc : itf.rxServiceBuffer with
      | nil => rfl
      | cons e rest =>
        exfalso
        have hfirst := Option.filter_eq_none_iff.1 hnone e (by simp [hsvc])
        simp [hrequest] at hfirst
    rcases basePeek_cases itf.toBusInterface with ⟨d, hpeek, hhead⟩ | ⟨d, hpeek, hhead⟩ | ⟨hpeek, hrequest, hresponse⟩
    · simp only [hpeek]
      refine ⟨h.congr rfl rfl fun _ => by cases ‹MessageType› <;> rfl, ?_, by simp⟩
      intro e he
      obtain rfl : d = e := by simpa using he
      have htype : d.type = .request := h.type_of_mem_rx .request (List.mem_of_mem_head? hhead)
      have hwaiting : itf.waiting.head? = some d := by
        refine head?_of_parts h.waiting_sorted (fun x => x.type == .request) ?_ ?_
        · rw [h.filter_waiting (by decide)]
          exact hhead
        · rw [h.filter_waiting_not .request .serviceRequest (fun t => by cases t <;> simp) (by decide)]
          intro e he
          exact hservice e he d hhead
      refine ⟨?_, fun _ => hwaiting, ?_⟩
      · rw [htype]
        exact hhead
      · rw [htype]
        exact ⟨rfl, rfl⟩
    · simp only [hpeek]
      refine ⟨h.congr rfl rfl fun _ => by cases ‹MessageType› <;> rfl, ?_, by simp⟩
      intro e he
      obtain rfl : d = e := by simpa using he
      have htype : d.type = .dataResponse := h.type_of_mem_rx .dataResponse (List.mem_of_mem_head? hhead)
      refine ⟨?_, fun hordered => absurd hordered (by simp [Delivery.isOrdered, htype]), ?_⟩
      · rw [htype]
        exact hhead
      · rw [htype]
        exact ⟨rfl, rfl⟩
    · simp only [hpeek]
      refine ⟨h.congr rfl rfl fun _ => by cases ‹MessageType› <;> rfl, by simp, ?_⟩
      intro _ type
      cases type with
      | request => exact hrequest
      | dataResponse => exact hresponse
      | serviceRequest => exact hempty hrequest

/-- Consuming the message of the last peek keeps the invariant. -/
theorem Ordered.consume (h : itf.Ordered counter) {d : Delivery} (hp : itf.Peeked d)
    (hreceived : itf'.received = itf.received) (hconsumed : itf'.consumed = itf.consumed ++ [d])
    (hrx : ∀ type, itf'.rx type = if type = d.type then (itf.rx type).tail else itf.rx type) :
    itf'.Ordered counter where
  bounded := by
    rw [hreceived]
    exact h.bounded
  sorted := by
    rw [hreceived]
    exact h.sorted
  channel type := by
    rw [hreceived, hconsumed, hrx, h.channel type, List.filter_append]
    by_cases htype : type = d.type
    · subst htype
      obtain ⟨rest, hrest⟩ : ∃ rest, itf.rx d.type = d :: rest := by
        cases hbuffer : itf.rx d.type with
        | nil => simpa [hbuffer] using hp.1
        | cons e rest =>
          obtain rfl : e = d := by simpa [hbuffer] using hp.1
          exact ⟨rest, rfl⟩
      simp [hrest]
    · simp [htype, Ne.symm htype]
  inOrder := by
    rw [hreceived, hconsumed, h.received_eq, List.filter_append]
    cases hordered : d.isOrdered with
    | false => exact ⟨itf.waiting, by simp [hordered]⟩
    | true =>
      have hhead := hp.2.1 hordered
      cases hwaiting : itf.waiting with
      | nil => simp [hwaiting] at hhead
      | cons e rest =>
        obtain rfl : e = d := by simpa [hwaiting] using hhead
        exact ⟨rest, by simp [hordered]⟩

/-- A pop removes exactly the message of the last peek. -/
theorem pop_spec (h : itf.Ordered counter) {d : Delivery} (hp : itf.Peeked d) :
    itf.popFrontMessage.consumed = itf.consumed ++ [d] ∧
      (∀ type, itf.popFrontMessage.rx type = if type = d.type then (itf.rx type).tail else itf.rx type) ∧
      itf.popFrontMessage.Ordered counter := by
  have hpop : itf.popFrontMessage.consumed = itf.consumed ++ [d] ∧
      ∀ type, itf.popFrontMessage.rx type = if type = d.type then (itf.rx type).tail else itf.rx type := by
    obtain ⟨hhead, -, hregisters⟩ := hp
    unfold popFrontMessage
    cases htype : d.type with
    | serviceRequest =>
      rw [htype] at hhead hregisters
      have hservice : itf.rxServiceBuffer.head? = some d := hhead
      simp only [hregisters, if_true]
      refine ⟨by simp [hservice], ?_⟩
      intro type
      cases type <;> rfl
    | request =>
      rw [htype] at hhead hregisters
      have hrequest : itf.rxRequestBuffer.head? = some d := hhead
      simp only [hregisters.1, BusInterface.popFrontMessage, hregisters.2]
      refine ⟨by simp [hrequest], ?_⟩
      intro type
      cases type <;> rfl
    | dataResponse =>
      rw [htype] at hhead hregisters
      have hresponse : itf.rxResponseBuffer.head? = some d := hhead
      simp only [hregisters.1, BusInterface.popFrontMessage, hregisters.2]
      refine ⟨by simp [hresponse], ?_⟩
      intro type
      cases type <;> rfl
  exact ⟨hpop.1, hpop.2, h.consume hp (received_popFrontMessage itf) hpop.1 hpop.2⟩

/-- A delivery keeps the invariant, and what the last peek returned. -/
theorem deliver_spec (h : itf.Ordered counter) {seq : Nat} {msg : BusMessage} {type : MessageType}
    (hseq : counter < seq) (hpush : itf.pushMessage2RX seq msg type = some itf') :
    itf'.Ordered seq ∧ ∀ d, itf.Peeked d → itf'.Peeked d := by
  obtain ⟨hconsumed, hselected, hselector, hrx⟩ := pushMessage2RX_rx hpush
  have hreceived := (pushMessage2RX_received hpush).1
  have hwaiting : itf'.waiting = itf.waiting ++ ([⟨type, msg, seq⟩] : List Delivery).filter Delivery.isOrdered := by
    have hlength : (itf.consumed.filter Delivery.isOrdered).length ≤
        (itf.received.filter Delivery.isOrdered).length := by
      rw [h.received_eq, List.length_append]
      exact Nat.le_add_right _ _
    simp only [waiting, hreceived, hconsumed, List.filter_append]
    exact List.drop_append_of_le_length hlength
  refine ⟨⟨?_, ?_, ?_, ?_⟩, ?_⟩
  · intro d hd
    rw [hreceived] at hd
    rcases List.mem_append.1 hd with hd | hd
    · exact Nat.le_of_lt (Nat.lt_of_le_of_lt (h.bounded d hd) hseq)
    · simp only [List.mem_singleton] at hd
      exact Nat.le_of_eq (by rw [hd])
  · rw [hreceived, List.pairwise_append]
    refine ⟨h.sorted, by simp, ?_⟩
    intro a ha b hb
    simp only [List.mem_singleton] at hb
    subst hb
    exact Nat.lt_of_le_of_lt (h.bounded a ha) hseq
  · exact h.balanced.push hreceived hconsumed hrx
  · rw [hreceived, hconsumed, List.filter_append, h.received_eq, List.append_assoc]
    exact ⟨_, rfl⟩
  · rintro d ⟨hhead, hfirst, hregisters⟩
    refine ⟨?_, ?_, ?_⟩
    · rw [hrx, List.head?_append, hhead]
      rfl
    · intro hordered
      rw [hwaiting, List.head?_append, hfirst hordered]
      rfl
    · rw [hselected, hselector]
      exact hregisters

/-- What depends on the receive side only is kept by a change of the transmit side. -/
theorem setTx_spec (itf : TripleBusInterface) (type : MessageType) (buffer : List BusMessage) :
    (itf.setTx type buffer).consumed = itf.consumed ∧ (∀ t, (itf.setTx type buffer).rx t = itf.rx t) ∧
      (itf.setTx type buffer).serviceSelected = itf.serviceSelected ∧
      (itf.setTx type buffer).bufferSelector = itf.bufferSelector := by
  cases type <;> exact ⟨rfl, fun t => by cases t <;> rfl, rfl, rfl⟩

/-- A peeked message stays peeked while the receive side stays. -/
theorem Peeked.congr {d : Delivery} (h : itf.Peeked d) (hreceived : itf'.received = itf.received)
    (hconsumed : itf'.consumed = itf.consumed) (hrx : ∀ t, itf'.rx t = itf.rx t)
    (hselected : itf'.serviceSelected = itf.serviceSelected)
    (hselector : itf'.bufferSelector = itf.bufferSelector) : itf'.Peeked d := by
  obtain ⟨hhead, hfirst, hregisters⟩ := h
  refine ⟨by rw [hrx, hhead], ?_, by rw [hselected, hselector]; exact hregisters⟩
  intro hordered
  unfold waiting
  rw [hreceived, hconsumed]
  exact hfirst hordered

end TripleBusInterface

namespace BusController

variable {bus bus' : BusController TripleBusInterface} {msg : BusMessage} {type : MessageType}

/-- What deliveries do to every interface: each keeps what it was, or accepts one delivery with a
number between the old and the new value of the counter. -/
structure Accepts (bus bus' : BusController TripleBusInterface) (msg : BusMessage) (type : MessageType) :
    Prop where
  counter : bus.rxDeliverySeq ≤ bus'.rxDeliverySeq
  places : ∀ (i : Nat) itf', bus'.interfaces[i]? = some itf' → ∃ itf, bus.interfaces[i]? = some itf ∧
    (itf' = itf ∨ ∃ seq, bus.rxDeliverySeq < seq ∧ seq ≤ bus'.rxDeliverySeq ∧
      itf.pushMessage2RX seq msg type = some itf')

/-- A delivery to one destination. -/
theorem sendTo_accepts {destination : Nat} (h : sendTo msg type bus destination = .ok bus') :
    bus.Accepts bus' msg type := by
  unfold sendTo at h
  cases hd : destinationIndex bus.ids destination with
  | none => simp [hd] at h
  | some j =>
    cases hp : bus.interfaces[j]?.bind fun itf =>
        CommunicationInterface.pushMessage2RX itf (bus.rxDeliverySeq + 1) msg type with
    | none => simp [hd, hp] at h
    | some itf' =>
      simp only [hd, hp, Except.ok.injEq] at h
      subst h
      obtain ⟨itf, hitf, hpush⟩ := Option.bind_eq_some_iff.1 hp
      refine ⟨Nat.le_succ _, ?_⟩
      intro i other hi
      by_cases hij : j = i
      · subst hij
        obtain ⟨hlt, -⟩ := List.getElem?_eq_some_iff.1 hitf
        rw [List.getElem?_set_self hlt, Option.some.injEq] at hi
        subst hi
        exact ⟨itf, hitf, .inr ⟨_, Nat.lt_succ_self _, Nat.le_refl _, hpush⟩⟩
      · rw [List.getElem?_set_ne hij] at hi
        exact ⟨other, hi, .inl rfl⟩

/-- Deliveries to every interface when none refuses. -/
theorem pushAll_places (itfs : List TripleBusInterface) (seq : Nat)
    (h : ∀ itf ∈ itfs, ∀ n, (TripleBusInterface.pushMessage2RX itf n msg type).isSome) :
    seq ≤ (pushAll msg type itfs seq).2 ∧ ∀ (i : Nat) itf', (pushAll msg type itfs seq).1[i]? = some itf' →
      ∃ itf, itfs[i]? = some itf ∧ ∃ n, seq < n ∧ n ≤ (pushAll msg type itfs seq).2 ∧
        itf.pushMessage2RX n msg type = some itf' := by
  induction itfs generalizing seq with
  | nil => simp [pushAll]
  | cons itf rest ih =>
    obtain ⟨first, hpush⟩ := Option.isSome_iff_exists.1 (h itf (by simp) (seq + 1))
    obtain ⟨hle, hplaces⟩ := ih (seq + 1) (fun x hx => h x (by simp [hx]))
    have hpush' : CommunicationInterface.pushMessage2RX itf (seq + 1) msg type = some first := hpush
    simp only [pushAll, hpush']
    refine ⟨Nat.le_of_succ_le hle, ?_⟩
    intro i itf' hi
    cases i with
    | zero =>
      obtain rfl : first = itf' := by simpa using hi
      exact ⟨itf, rfl, seq + 1, Nat.lt_succ_self _, hle, hpush⟩
    | succ i =>
      obtain ⟨other, hother, n, hlt, hn, hp⟩ := hplaces i itf' (by simpa using hi)
      exact ⟨other, by simpa using hother, n, Nat.lt_of_succ_lt hlt, hn, hp⟩

/-- A broadcast of a request or a back-invalidation reaches every interface or none. -/
theorem broadcast_places (htype : type ≠ .dataResponse) (h : bus.broadcast msg type = (true, bus')) :
    bus.rxDeliverySeq ≤ bus'.rxDeliverySeq ∧ ∀ (i : Nat) itf', bus'.interfaces[i]? = some itf' →
      ∃ itf, bus.interfaces[i]? = some itf ∧ ∃ n, bus.rxDeliverySeq < n ∧ n ≤ bus'.rxDeliverySeq ∧
        itf.pushMessage2RX n msg type = some itf' := by
  unfold broadcast at h
  split at h
  · simp at h
  · next hguard =>
    have hall : ∀ itf ∈ bus.interfaces, ∀ n, (TripleBusInterface.pushMessage2RX itf n msg type).isSome := by
      intro itf hitf n
      cases type with
      | serviceRequest => rfl
      | dataResponse => exact absurd rfl htype
      | request =>
        cases hdemand : msg.isDemandRequest with
        | false => exact LawfulInterface.push_of_not_demand n hdemand
        | true =>
          have haccept : bus.allAccept .request = true := by simpa [hdemand] using hguard
          exact LawfulInterface.push_of_canAccept n msg (List.all_eq_true.1 haccept itf hitf)
    simp only [Prod.mk.injEq, true_and] at h
    subst h
    exact pushAll_places bus.interfaces bus.rxDeliverySeq hall

end BusController

/-- A state of the interfaces of a triple bus, with the last message each one peeked and not yet
popped, and the history of the broadcasts. -/
structure TripleBus where
  bus : BusController TripleBusInterface
  peeked : Nat → Option Delivery := fun _ => none
  broadcasts : List (MessageType × BusMessage) := []

namespace TripleBus

/-- What happens at the interfaces: broadcasts of requests and of back-invalidations, deliveries of
responses, changes of transmit buffers by elections and pushes, peeks and pops. -/
inductive Label
  | request (msg : BusMessage)
  | service (msg : BusMessage)
  | response (msg : BusMessage)
  | transmit (i : Nat) (type : MessageType) (buffer : List BusMessage)
  | peek (i : Nat)
  | pop (i : Nat)

/-- A broadcast on a channel. -/
def broadcast (s : TripleBus) (msg : BusMessage) (type : MessageType) : TripleBus :=
  match s.bus.broadcast msg type with
  | (true, bus) => { s with bus := bus, broadcasts := s.broadcasts ++ [(type, msg)] }
  | (false, bus) => { s with bus := bus }

/-- One step of a run. -/
def exec (s : TripleBus) : Label → Except BusExit TripleBus
  | .request msg => .ok (s.broadcast msg .request)
  | .service msg => .ok (s.broadcast msg .serviceRequest)
  | .response msg => (s.bus.send msg .dataResponse).map fun bus => { s with bus := bus }
  | .transmit i type buffer => .ok { s with bus := s.bus.update i fun itf => itf.setTx type buffer }
  | .peek i =>
    .ok { s with
      bus := s.bus.update i fun itf => itf.peekMessage.1
      peeked := Function.update s.peeked i (s.bus.interfaces[i]?.bind fun itf => itf.peekMessage.2) }
  | .pop i =>
    .ok { s with
      bus := s.bus.update i TripleBusInterface.popFrontMessage
      peeked := Function.update s.peeked i none }

/-- A pop comes after a peek that returned a message. -/
def enabled (s : TripleBus) : Label → Bool
  | .pop i => (s.peeked i).isSome
  | _ => true

/-- The runs of the interfaces of a triple bus, from interfaces nothing has passed yet. -/
def system : TransitionSystem TripleBus Label where
  init s := (∀ itf ∈ s.bus.interfaces, itf.received = [] ∧ itf.consumed = [] ∧ ∀ type, itf.rx type = []) ∧
    (∀ i, s.peeked i = none) ∧ s.broadcasts = []
  step s label s' := s.enabled label ∧ s.exec label = .ok s'

/-- What holds of the interface at a position. -/
structure PlaceOk (counter : Nat) (peeked : Option Delivery) (broadcasts : List (MessageType × BusMessage))
    (itf : TripleBusInterface) : Prop where
  ordered : itf.Ordered counter
  peeked : ∀ d, peeked = some d → itf.Peeked d
  heard : ((itf.received.filter Delivery.isOrdered).map fun d => (d.type, d.msg)) = broadcasts

/-- The invariant: every interface has received the broadcasts in order, and consumes in order. -/
def Inv (s : TripleBus) : Prop :=
  ∀ (i : Nat) itf, s.bus.interfaces[i]? = some itf → PlaceOk s.bus.rxDeliverySeq (s.peeked i) s.broadcasts itf

/-- Changing one interface of a bus. -/
theorem getElem?_update (bus : BusController TripleBusInterface) (i : Nat)
    (f : TripleBusInterface → TripleBusInterface) (j : Nat) :
    (bus.update i f).interfaces[j]? =
      if j = i then (bus.interfaces[i]?).map f else bus.interfaces[j]? := by
  unfold BusController.update
  split
  · next itf hitf =>
    obtain ⟨hlt, hget⟩ := List.getElem?_eq_some_iff.1 hitf
    by_cases hji : j = i
    · subst hji
      simp [hget, hlt]
    · simp [hji, List.getElem?_set_ne (Ne.symm hji)]
  · next hnone =>
    by_cases hji : j = i
    · simp [hji, hnone]
    · simp [hji]

@[simp] theorem rxDeliverySeq_update (bus : BusController TripleBusInterface) (i : Nat)
    (f : TripleBusInterface → TripleBusInterface) : (bus.update i f).rxDeliverySeq = bus.rxDeliverySeq := by
  unfold BusController.update
  split <;> rfl

/-- Changing one interface keeps the invariant when it keeps what holds of that interface. -/
theorem Inv.update {s : TripleBus} (h : s.Inv) (i : Nat) (f : TripleBusInterface → TripleBusInterface)
    (peeked : Option Delivery)
    (hf : ∀ itf, s.bus.interfaces[i]? = some itf →
      PlaceOk s.bus.rxDeliverySeq (s.peeked i) s.broadcasts itf →
        PlaceOk s.bus.rxDeliverySeq peeked s.broadcasts (f itf)) :
    Inv { s with bus := s.bus.update i f, peeked := Function.update s.peeked i peeked } := by
  intro j itf hj
  dsimp only at hj ⊢
  rw [getElem?_update] at hj
  rw [rxDeliverySeq_update]
  by_cases hji : j = i
  · subst hji
    rw [if_pos rfl, Option.map_eq_some_iff] at hj
    obtain ⟨old, hold, rfl⟩ := hj
    rw [Function.update_self]
    exact hf old hold (h j old hold)
  · rw [if_neg hji] at hj
    rw [Function.update_of_ne hji]
    exact h j itf hj

/-- A delivery on a channel. -/
theorem PlaceOk.deliver {counter : Nat} {peeked : Option Delivery}
    {broadcasts : List (MessageType × BusMessage)} {itf itf' : TripleBusInterface} {seq : Nat} {msg : BusMessage}
    {type : MessageType} (h : PlaceOk counter peeked broadcasts itf) (hseq : counter < seq)
    (hpush : itf.pushMessage2RX seq msg type = some itf') :
    PlaceOk seq peeked (broadcasts ++ if type = .dataResponse then [] else [(type, msg)]) itf' where
  ordered := (TripleBusInterface.deliver_spec h.ordered hseq hpush).1
  peeked d hd := (TripleBusInterface.deliver_spec h.ordered hseq hpush).2 d (h.peeked d hd)
  heard := by
    rw [(TripleBusInterface.pushMessage2RX_received hpush).1, List.filter_append, List.map_append, h.heard]
    by_cases htype : type = .dataResponse
    · simp [Delivery.isOrdered, htype]
    · have hordered : Delivery.isOrdered ⟨type, msg, seq⟩ = true := by
        simp [Delivery.isOrdered, htype]
      simp [hordered, htype]

theorem PlaceOk.mono {counter counter' : Nat} {peeked : Option Delivery}
    {broadcasts : List (MessageType × BusMessage)} {itf : TripleBusInterface}
    (h : PlaceOk counter peeked broadcasts itf) (hle : counter ≤ counter') :
    PlaceOk counter' peeked broadcasts itf :=
  ⟨h.ordered.mono hle, h.peeked, h.heard⟩

/-- A broadcast keeps the invariant. -/
theorem Inv.broadcast {s : TripleBus} (h : s.Inv) (msg : BusMessage) {type : MessageType}
    (htype : type ≠ .dataResponse) : (s.broadcast msg type).Inv := by
  unfold TripleBus.broadcast
  split
  · next bus hb =>
    obtain ⟨-, hplaces⟩ := broadcast_places htype hb
    intro i itf' hi
    obtain ⟨itf, hitf, n, hlt, hn, hpush⟩ := hplaces i itf' hi
    have hok := ((h i itf hitf).deliver hlt hpush).mono hn
    rwa [if_neg htype] at hok
  · next bus hb =>
    obtain rfl := broadcast_eq_false hb
    exact h

/-- Delivering a response to one destination keeps the invariant. -/
theorem Inv.sendTo {s : TripleBus} (h : s.Inv) {msg : BusMessage} {destination : Nat}
    {bus : BusController TripleBusInterface} (hs : sendTo msg .dataResponse s.bus destination = .ok bus) :
    Inv { s with bus := bus } := by
  have haccepts := sendTo_accepts hs
  intro i itf' hi
  obtain ⟨itf, hitf, rfl | ⟨n, hlt, hn, hpush⟩⟩ := haccepts.places i itf' hi
  · exact (h i itf' hitf).mono haccepts.counter
  · have hok := ((h i itf hitf).deliver hlt hpush).mono hn
    rwa [if_pos rfl, List.append_nil] at hok

/-- Delivering a response keeps the invariant. -/
theorem Inv.send {s : TripleBus} (h : s.Inv) {msg : BusMessage} {bus : BusController TripleBusInterface}
    (hs : s.bus.send msg .dataResponse = .ok bus) : Inv { s with bus := bus } := by
  unfold BusController.send at hs
  generalize msg.toIds = destinations at hs
  induction destinations generalizing s with
  | nil =>
    obtain rfl : s.bus = bus := by simpa [pure, Except.pure] using hs
    exact h
  | cons destination rest ih =>
    rw [List.foldlM_cons] at hs
    cases hfirst : BusController.sendTo msg .dataResponse s.bus destination with
    | error e => simp [hfirst, bind, Except.bind] at hs
    | ok middle =>
      simp only [hfirst, bind, Except.bind] at hs
      have hrest := ih (h.sendTo hfirst) hs
      exact hrest

/-- Every step of a run keeps the invariant. -/
theorem inv_inductive : system.Inductive Inv where
  init s h := by
    obtain ⟨hfresh, hpeeked, hbroadcasts⟩ := h
    intro i itf hi
    obtain ⟨hreceived, hconsumed, hrx⟩ := hfresh itf (List.mem_of_getElem? hi)
    rw [hpeeked, hbroadcasts]
    refine ⟨⟨?_, ?_, ?_, ?_⟩, by simp, ?_⟩
    · simp [hreceived]
    · simp [hreceived]
    · simp [hreceived, hconsumed, hrx]
    · exact ⟨[], by simp [hreceived, hconsumed]⟩
    · simp [hreceived]
  step s label s' _ hinv h := by
    obtain ⟨henabled, hexec⟩ := h
    cases label with
    | request msg =>
      obtain rfl := Except.ok.inj hexec
      exact hinv.broadcast msg (by decide)
    | service msg =>
      obtain rfl := Except.ok.inj hexec
      exact hinv.broadcast msg (by decide)
    | response msg =>
      unfold exec at hexec
      cases hsend : s.bus.send msg .dataResponse with
      | error e => simp [hsend, Except.map] at hexec
      | ok bus =>
        simp only [hsend, Except.map, Except.ok.injEq] at hexec
        subst hexec
        exact hinv.send hsend
    | transmit i type buffer =>
      obtain rfl := Except.ok.inj hexec
      have hkept := hinv.update i (fun itf => itf.setTx type buffer) (s.peeked i) (by
        intro itf _ hok
        obtain ⟨hconsumed, hrx, hselected, hselector⟩ := TripleBusInterface.setTx_spec itf type buffer
        have hreceived := TripleBusInterface.received_setTx itf type buffer
        exact ⟨hok.ordered.congr hreceived hconsumed hrx,
          fun d hd => (hok.peeked d hd).congr hreceived hconsumed hrx hselected hselector,
          by rw [hreceived]; exact hok.heard⟩)
      rwa [Function.update_eq_self] at hkept
    | peek i =>
      obtain rfl := Except.ok.inj hexec
      refine hinv.update i _ _ ?_
      intro itf hitf hok
      obtain ⟨hordered, hpeeked, -⟩ := TripleBusInterface.peek_spec hok.ordered
      refine ⟨hordered, ?_, by rw [TripleBusInterface.received_peekMessage]; exact hok.heard⟩
      intro d hd
      exact hpeeked d (by simpa [hitf] using hd)
    | pop i =>
      obtain rfl := Except.ok.inj hexec
      refine hinv.update i _ _ ?_
      intro itf _ hok
      obtain ⟨d, hd⟩ := Option.isSome_iff_exists.1 henabled
      obtain ⟨-, -, hordered⟩ := TripleBusInterface.pop_spec hok.ordered (hok.peeked d hd)
      exact ⟨hordered, by simp, by rw [TripleBusInterface.received_popFrontMessage]; exact hok.heard⟩

/-- What the interfaces of a triple bus owe their controllers. -/
structure InOneOrder (s : TripleBus) : Prop where
  /-- On every channel, what was received is what was consumed, in order, and what waits. -/
  handedOutOnce : ∀ (i : Nat) itf, s.bus.interfaces[i]? = some itf → ∀ type,
    itf.received.filter (fun d => d.type == type) =
      itf.consumed.filter (fun d => d.type == type) ++ itf.rx type
  /-- A pop consumes the message of the last peek and removes nothing else. -/
  popExact : ∀ (i : Nat) itf d, s.bus.interfaces[i]? = some itf → s.peeked i = some d →
    itf.popFrontMessage.consumed = itf.consumed ++ [d] ∧ (itf.rx d.type).head? = some d ∧
      ∀ type, itf.popFrontMessage.rx type = if type = d.type then (itf.rx type).tail else itf.rx type
  /-- A peek finds a message whenever one waits. -/
  peekFinds : ∀ (i : Nat) itf, s.bus.interfaces[i]? = some itf → itf.peekMessage.2 = none →
    ∀ type, itf.rx type = []
  /-- Requests and back-invalidations are consumed in the order they were delivered. -/
  increasing : ∀ (i : Nat) itf, s.bus.interfaces[i]? = some itf →
    (itf.consumed.filter Delivery.isOrdered).Pairwise fun a b => a.seq < b.seq
  /-- All interfaces consume prefixes of one sequence, that of the broadcasts. -/
  prefixes : ∀ (i : Nat) itf, s.bus.interfaces[i]? = some itf →
    ((itf.consumed.filter Delivery.isOrdered).map fun d => (d.type, d.msg)) <+: s.broadcasts

/-- Every run of the interfaces of a triple bus is in one order. -/
theorem inOneOrder {s : TripleBus} (h : system.Reachable s) : s.InOneOrder := by
  have hinv := inv_inductive.reachable h
  refine ⟨?_, ?_, ?_, ?_, ?_⟩
  · intro i itf hi type
    exact (hinv i itf hi).ordered.channel type
  · intro i itf d hi hd
    have hok := hinv i itf hi
    obtain ⟨hconsumed, hrx, -⟩ := TripleBusInterface.pop_spec hok.ordered (hok.peeked d hd)
    exact ⟨hconsumed, (hok.peeked d hd).1, hrx⟩
  · intro i itf hi hnone
    exact (TripleBusInterface.peek_spec (hinv i itf hi).ordered).2.2 hnone
  · intro i itf hi
    have hok := (hinv i itf hi).ordered
    have hsorted : (itf.received.filter Delivery.isOrdered).Pairwise fun a b => a.seq < b.seq :=
      hok.sorted.filter _
    rw [hok.received_eq] at hsorted
    exact (List.pairwise_append.1 hsorted).1
  · intro i itf hi
    have hok := hinv i itf hi
    rw [← hok.heard, hok.ordered.received_eq, List.map_append]
    exact List.prefix_append _ _

/-- Three interfaces before any traffic, each with room for one request. -/
def threeInterfaces : TripleBus where
  bus := { interfaces := [{ interfaceId := 0, bufferMaxSize := 1 }, { interfaceId := 1, bufferMaxSize := 1 },
    { interfaceId := 2, bufferMaxSize := 1 }] }

/-- A request and a back-invalidation are broadcast, and interface 0 consumes both, the request
first although the back-invalidation arrives between the peek and the pop. -/
theorem inOneOrder_threeInterfaces : ∃ s : TripleBus,
    (s.bus.interfaces.map fun itf => itf.consumed.length) = [2, 0, 0] ∧ s.InOneOrder := by
  have hinit : system.Path [] threeInterfaces := by
    refine .init ⟨?_, fun _ => rfl, rfl⟩
    intro itf hitf
    simp only [threeInterfaces, List.mem_cons, List.not_mem_nil, or_false] at hitf
    rcases hitf with rfl | rfl | rfl <;> exact ⟨rfl, rfl, fun type => by cases type <;> rfl⟩
  have hstep : ∀ (s : TripleBus) l s', (if s.enabled l then s.exec l else .error .missingDestination) = .ok s' →
      system.step s l s' := by
    intro s l s' h
    split at h
    · next henabled => exact ⟨henabled, h⟩
    · simp at h
  obtain ⟨history, s, hpath, htest⟩ := TransitionSystem.exists_path_of_run hstep hinit
    [.request { addr := 64 }, .peek 0, .service { addr := 64, complementaryValue := 10 }, .pop 0, .peek 0, .pop 0]
    (fun s => (s.bus.interfaces.map fun itf => itf.consumed.length) == [2, 0, 0]) (by decide)
  exact ⟨s, by simpa using htest, inOneOrder hpath.reachable⟩

end TripleBus

/-- A triple bus controller is a split bus controller with triple interfaces. -/
abbrev TripleBusController (cfg : SplitBusConfig) := SplitBusController TripleBusInterface cfg

namespace TripleBusController

variable {cfg : SplitBusConfig}

/-- One step of the service bus: broadcast the first back-invalidation that waits, and remove it. -/
def serviceBusStep (s : TripleBusController cfg) : TripleBusController cfg :=
  match s.bus.interfaces.findIdx? fun itf => !itf.txServiceBuffer.isEmpty with
  | none => s
  | some i =>
    match (s.bus.interfaces[i]?.bind fun itf => itf.txServiceBuffer.head?) with
    | none => s
    | some msg =>
      match s.bus.broadcast msg .serviceRequest with
      | (true, bus) =>
        { s with bus := bus.update i fun itf => itf.setTx .serviceRequest itf.txServiceBuffer.tail }
      | (false, bus) => { s with bus := bus }

/-- One step of the controller. -/
def busStep (cycle : Nat) (s : TripleBusController cfg) : Except BusExit (TripleBusController cfg) :=
  (SplitBusController.busStep cycle s).map serviceBusStep

/-- From every reachable state over `bus` a state over `bus'` is reachable. -/
def Leads (bus bus' : BusController TripleBusInterface) : Prop :=
  ∀ t : TripleBus, TripleBus.system.Reachable t → t.bus = bus →
    ∃ t', TripleBus.system.Reachable t' ∧ t'.bus = bus'

theorem Leads.refl (bus : BusController TripleBusInterface) : Leads bus bus :=
  fun t ht heq => ⟨t, ht, heq⟩

theorem Leads.trans {a b c : BusController TripleBusInterface} (h : Leads a b) (h' : Leads b c) :
    Leads a c := by
  intro t ht heq
  obtain ⟨t', ht', heq'⟩ := h t ht heq
  exact h' t' ht' heq'

/-- Changing a transmit buffer is a step. -/
theorem leads_transmit (bus : BusController TripleBusInterface) (i : Nat) (type : MessageType)
    (buffer : List BusMessage) : Leads bus (bus.update i fun itf => itf.setTx type buffer) := by
  rintro t ht rfl
  exact ⟨_, ht.step (l := .transmit i type buffer) ⟨rfl, rfl⟩, rfl⟩

/-- Taking a message out of a transmit buffer is a step. -/
theorem leads_takeAt {bus bus' : BusController TripleBusInterface} {refs : List BufferRef}
    {place : BufferPlace} {msg : BusMessage} (h : bus.takeAt refs place = some (msg, bus')) : Leads bus bus' := by
  simp only [takeAt, Option.bind_eq_bind, Option.bind_eq_some_iff, Option.pure_def, Option.some.injEq,
    Prod.mk.injEq] at h
  obtain ⟨ref, -, itf, hitf, msg', -, -, rfl⟩ := h
  have hstep := leads_transmit bus ref.1 ref.2 ((TripleBusInterface.tx itf ref.2).eraseIdx place.index)
  unfold BusController.update at hstep
  rw [hitf] at hstep
  exact hstep

/-- A broadcast is a step. -/
theorem leads_broadcast {bus bus' : BusController TripleBusInterface} {msg : BusMessage} {type : MessageType}
    {ok : Bool} (htype : type ≠ .dataResponse) (h : bus.broadcast msg type = (ok, bus')) : Leads bus bus' := by
  rintro t ht rfl
  have hbus : (t.broadcast msg type).bus = bus' := by
    unfold TripleBus.broadcast
    rw [h]
    cases ok <;> rfl
  cases type with
  | dataResponse => exact absurd rfl htype
  | request => exact ⟨_, ht.step (l := .request msg) ⟨rfl, rfl⟩, hbus⟩
  | serviceRequest => exact ⟨_, ht.step (l := .service msg) ⟨rfl, rfl⟩, hbus⟩

/-- Sending a response is a step. -/
theorem leads_send {bus bus' : BusController TripleBusInterface} {msg : BusMessage}
    (h : bus.send msg .dataResponse = .ok bus') : Leads bus bus' := by
  rintro t ht rfl
  have hexec : t.exec (.response msg) = .ok { t with bus := bus' } := by
    show (t.bus.send msg .dataResponse).map _ = _
    rw [h]
    rfl
  exact ⟨_, ht.step (l := .response msg) ⟨rfl, hexec⟩, rfl⟩

/-- The election of the request bus makes steps of the interfaces. -/
theorem leads_afterElectRequest (cycle : Nat) (s : TripleBusController cfg) :
    Leads s.bus (s.afterElectRequest cycle).bus := by
  rw [SplitBusController.afterElectRequest]
  split
  · unfold SplitBusController.electRequest
    dsimp only
    split
    · next msg bus htake =>
      obtain ⟨place, -, htake⟩ := Option.bind_eq_some_iff.1 htake
      exact leads_takeAt htake
    · exact .refl _
  · exact .refl _

/-- The election of the response bus makes steps of the interfaces. -/
theorem leads_afterElectResponse (cycle : Nat) (s : TripleBusController cfg) :
    Leads s.bus (s.afterElectResponse cycle).bus := by
  rw [SplitBusController.afterElectResponse]
  split
  · unfold SplitBusController.electResponse
    dsimp only
    split
    · next msg bus htake =>
      obtain ⟨place, -, htake⟩ := Option.bind_eq_some_iff.1 htake
      exact leads_takeAt htake
    · exact .refl _
  · exact .refl _

/-- A step of the request bus makes steps of the interfaces. -/
theorem leads_requestBusStep (cycle : Nat) (s : TripleBusController cfg) :
    Leads s.bus (s.requestBusStep cycle).bus := by
  have helect := leads_afterElectRequest cycle s
  have hstep := s.requestStep cycle
  generalize s.requestBusStep cycle = s' at hstep
  cases hstep with
  | backpressured => exact .refl _
  | delivered _ _ _ hbus => exact helect.trans (leads_broadcast (by decide) hbus)
  | refused => exact helect
  | advanced => exact helect

/-- A step of the response bus makes steps of the interfaces. -/
theorem leads_responseBusStep {cycle : Nat} {s s' : TripleBusController cfg}
    (h : s.responseBusStep cycle = .ok s') : Leads s.bus s'.bus := by
  have helect := leads_afterElectResponse cycle s
  cases SplitBusController.responseStep h with
  | delivered _ _ hbus => exact helect.trans (leads_send hbus)
  | advanced => exact helect

/-- A step of the service bus makes steps of the interfaces. -/
theorem leads_serviceBusStep (s : TripleBusController cfg) : Leads s.bus s.serviceBusStep.bus := by
  unfold serviceBusStep
  split
  · exact .refl _
  · next i hi =>
    split
    · exact .refl _
    · next msg hmsg =>
      split
      · next bus hb =>
        refine (leads_broadcast (by decide) hb).trans ?_
        cases hitf : bus.interfaces[i]? with
        | none =>
          simp only [BusController.update, hitf]
          exact .refl _
        | some itf =>
          have hstep := leads_transmit bus i .serviceRequest itf.txServiceBuffer.tail
          simp only [BusController.update, hitf] at hstep ⊢
          exact hstep
      · next bus hb => exact leads_broadcast (by decide) hb

/-- A step of the controller makes steps of the interfaces, so that what it does to them is in one
order. -/
theorem leads_busStep {cycle : Nat} {s s' : TripleBusController cfg} (h : busStep cycle s = .ok s') :
    Leads s.bus s'.bus := by
  unfold busStep SplitBusController.busStep at h
  cases hresponse : (s.requestBusStep cycle).responseBusStep cycle with
  | error e => simp [hresponse, Except.map] at h
  | ok middle =>
    simp only [hresponse, Except.map, Except.ok.injEq] at h
    subst h
    exact ((leads_requestBusStep cycle s).trans (leads_responseBusStep hresponse)).trans
      (leads_serviceBusStep middle)

end TripleBusController

end Octopus
