import Octopus.Interconnect.MeshInterface
import Octopus.Lib.Sequence
import Octopus.Lib.TransitionSystem

/-!
# The links of meshes and networks on chip

Every link between two interfaces carries one message at a time. A link is ready when its
utilization cycle has passed; it then takes the message its arbiter picks and is utilized until
latency - 1 cycles later. When that cycle comes, and the link is not ready, the message is
delivered: in a mesh to the destinations it names, in a NoC to the end of the link that is not
its sender.
-/

namespace Octopus

open BusController Lib

/-- The two controllers that share the step over links. -/
inductive Network
  | mesh
  | noc
  deriving DecidableEq, Repr

/-- A link between two interfaces. Its transmit buffers are given by the position of the
interface and the position of the link there. `farEnd` and `lane` are histories: the end of the
link its message travels to, and the messages taken and sent with the ends they went to. -/
structure Link (A : Type) where
  idA : Nat
  idB : Nat
  type : LinkType
  latency : Nat
  utilizationCycle : Nat := 0
  arbiter : A
  buffers : List (Nat × Nat) := []
  msg : BusMessage := {}
  farEnd : Nat := 0
  lane : Lane (BusMessage × List Nat) := { now := 1 }

/-- The interfaces of a mesh or a NoC, by position. -/
abbrev Interfaces := List MeshInterface

namespace Interfaces

/-- The identifiers of the interfaces. -/
def ids (itfs : Interfaces) : List Nat :=
  List.map MeshInterface.interfaceId itfs

/-- Deliver a message to one destination. -/
def sendTo (msg : BusMessage) (itfs : Interfaces) (destination : Nat) : Except BusExit Interfaces :=
  match destinationIndex itfs.ids destination with
  | none => .error .wrongDestination
  | some x =>
    match (itfs[x]? : Option MeshInterface).bind fun itf => itf.pushMessage2RX msg with
    | none => .error .fullBuffer
    | some itf => .ok (List.set itfs x itf)

/-- Deliver a message to each of a list of destinations. -/
def send (itfs : Interfaces) (msg : BusMessage) (destinations : List Nat) : Except BusExit Interfaces :=
  destinations.foldlM (sendTo msg) itfs

end Interfaces

namespace Link

variable {A : Type}

/-- A link whose utilization cycle has passed may take a message. -/
def isReady (link : Link A) (cycle : Nat) : Bool :=
  link.utilizationCycle < cycle

/-- The link is utilized by a message, to the far end, until latency - 1 cycles later. -/
def utilize (link : Link A) (cycle : Nat) (msg : BusMessage) (farEnd : Nat) : Link A :=
  { link with
    utilizationCycle := cycle + link.latency - 1
    msg := msg
    farEnd := farEnd
    lane := link.lane.take (msg, [farEnd]) }

/-- The end of a cycle. -/
def tick (link : Link A) : Link A :=
  { link with lane := link.lane.tick }

/-- Where the link delivers its message. -/
def destinations (net : Network) (link : Link A) : List Nat :=
  match net with
  | .mesh => link.msg.toIds
  | .noc => [if link.msg.fromId = link.idA then link.idB else link.idA]

/-- The transmit buffer of an interface towards another one, on the first link that leads there. -/
def bufferRef (itfs : Interfaces) (x other : Nat) : Option (Nat × Nat) :=
  (itfs[x]? : Option MeshInterface).bind fun itf =>
    (itf.linkIds.findIdx? fun id => id == other).map fun k => (x, k)

/-- The transmit buffers of a link: those of its two interfaces towards each other. Any other
number of interfaces ends the program. -/
def setInterfaceBuffers (itfs : Interfaces) (link : Link A) : Option (Link A) :=
  match (List.range itfs.length).filter fun x =>
      itfs.ids[x]? == some link.idA || itfs.ids[x]? == some link.idB with
  | [x, y] =>
    some { link with
      buffers := (bufferRef itfs x (itfs.ids.getD y 0)).toList ++ (bufferRef itfs y (itfs.ids.getD x 0)).toList }
  | _ => none

/-- The contents of the transmit buffers of a link. -/
def contents (itfs : Interfaces) (link : Link A) : List (List BusMessage) :=
  link.buffers.map fun ref =>
    ((itfs[ref.1]? : Option MeshInterface).bind fun itf => (itf.tx link.type)[ref.2]?).getD []

/-- Remove the message at a place of the transmit buffers, with the far end of its link. -/
def takeAt (itfs : Interfaces) (link : Link A) (place : BufferPlace) :
    Option (BusMessage × Nat × Interfaces) := do
  let ref ← link.buffers[place.buffer]?
  let itf ← (itfs[ref.1]? : Option MeshInterface)
  let buffer ← (itf.tx link.type)[ref.2]?
  let msg ← buffer[place.index]?
  let farEnd ← itf.linkIds[ref.2]?
  let buffers := (itf.tx link.type).set ref.2 (buffer.eraseIdx place.index)
  return (msg, farEnd, List.set itfs ref.1 (itf.setTx link.type buffers))

end Link

namespace Link

variable {arb : Arbiter}

/-- The place the arbiter of the link picks. -/
def place (arb : Arbiter) (cycle : Nat) (itfs : Interfaces) (link : Link arb.State) :
    arb.State × Option BufferPlace :=
  arb.elect link.arbiter cycle (link.contents itfs)

/-- The message the link would take. -/
def election (arb : Arbiter) (cycle : Nat) (itfs : Interfaces) (link : Link arb.State) :
    Option (BusMessage × Nat × Interfaces) :=
  (link.place arb cycle itfs).2.bind (link.takeAt itfs)

/-- One cycle of one link. -/
def step (net : Network) (arb : Arbiter) (cycle : Nat) (itfs : Interfaces) (link : Link arb.State) :
    Except BusExit (Interfaces × Link arb.State) :=
  if link.isReady cycle then
    let link' := { link with arbiter := (link.place arb cycle itfs).1 }
    match link.election arb cycle itfs with
    | some (msg, farEnd, itfs') => .ok (itfs', (link'.utilize cycle msg farEnd).tick)
    | none => .ok (itfs, link'.tick)
  else if link.utilizationCycle = cycle then
    (itfs.send link.msg (link.destinations net)).map fun itfs' =>
      (itfs', { link with lane := (link.lane.send (link.msg, link.destinations net)).tick })
  else .ok (itfs, link.tick)

/-- One cycle of a list of links, in order. -/
def stepAll (net : Network) (arb : Arbiter) (cycle : Nat) :
    List (Link arb.State) → Interfaces → Except BusExit (Interfaces × List (Link arb.State))
  | [], itfs => .ok (itfs, [])
  | link :: links, itfs => do
    let (itfs, link') ← link.step net arb cycle itfs
    let (itfs, links') ← stepAll net arb cycle links itfs
    return (itfs, link' :: links')

end Link

/-- The state of a mesh or NoC controller, with the number of the next cycle. -/
structure MeshController (arb : Arbiter) where
  interfaces : Interfaces
  links : List (Link arb.State)
  cycle : Nat := 1

namespace MeshController

variable {arb : Arbiter}

/-- What happens in a run: controllers push and consume messages, the switches of a NoC forward
them, and the controller steps. -/
inductive Label
  | push (x : Nat) (msg : BusMessage) (cycle : Nat)
  | peek (x : Nat)
  | pop (x : Nat)
  | forward (x : Nat)
  | step

/-- Change one interface. -/
def update (s : MeshController arb) (x : Nat) (f : MeshInterface → Except BusExit MeshInterface) :
    Except BusExit (MeshController arb) :=
  match (s.interfaces[x]? : Option MeshInterface) with
  | some itf => (f itf).map fun itf' => { s with interfaces := List.set s.interfaces x itf' }
  | none => .ok s

/-- One cycle of the controller. -/
def step (net : Network) (s : MeshController arb) : Except BusExit (MeshController arb) :=
  (Link.stepAll net arb s.cycle s.links s.interfaces).map fun (itfs, links) =>
    { interfaces := itfs, links := links, cycle := s.cycle + 1 }

/-- One step of a run. -/
def exec (net : Network) (s : MeshController arb) : Label → Except BusExit (MeshController arb)
  | .push x msg cycle => s.update x fun itf => (itf.pushMessage msg cycle).map Prod.snd
  | .peek x => s.update x fun itf => .ok itf.peekMessage.1
  | .pop x => s.update x fun itf => .ok itf.popFrontMessage
  | .forward x => s.update x MeshInterface.forward
  | .step => s.step net

/-- The state a run starts from: distinct interfaces without messages, every link unused with the
buffers the constructor gives it. -/
structure Initial (net : Network) (s : MeshController arb) : Prop where
  nodup : s.interfaces.ids.Nodup
  fresh : ∀ itf ∈ s.interfaces, itf =
    { interfaceId := itf.interfaceId, bufferMaxSize := itf.bufferMaxSize, linkIds := itf.linkIds,
      routingTable := itf.routingTable }
  direct : net = .mesh → ∀ itf ∈ s.interfaces, itf.routingTable = some
  links : ∀ link ∈ s.links, 1 ≤ link.latency ∧ link.utilizationCycle = 0 ∧ link.lane = { now := 1 } ∧
    link.setInterfaceBuffers s.interfaces = some link
  cycle : s.cycle = 1

/-- The runs of a mesh or NoC controller. -/
def system (net : Network) (arb : Arbiter) : TransitionSystem (MeshController arb) Label where
  init := Initial net
  step s label s' := s.exec net label = .ok s'

end MeshController

namespace Interfaces

/-- What the interface at a position has received. -/
def receivedAt (itfs : Interfaces) (x : Nat) : List BusMessage :=
  ((itfs[x]? : Option MeshInterface).map MeshInterface.received).getD []

/-- Every interface is kept, position by position. -/
structure Kept (itfs itfs' : Interfaces) : Prop where
  ids : itfs'.ids = itfs.ids
  places : ∀ (x : Nat) itf', (itfs'[x]? : Option MeshInterface) = some itf' →
    ∃ itf, (itfs[x]? : Option MeshInterface) = some itf ∧ itf.Kept itf'

theorem Kept.refl (itfs : Interfaces) : itfs.Kept itfs :=
  ⟨rfl, fun _ itf h => ⟨itf, h, .refl itf⟩⟩

theorem Kept.trans {a b c : Interfaces} (h : a.Kept b) (h' : b.Kept c) : a.Kept c where
  ids := h'.ids.trans h.ids
  places x itf hc := by
    obtain ⟨middle, hb, hkept'⟩ := h'.places x itf hc
    obtain ⟨first, ha, hkept⟩ := h.places x middle hb
    exact ⟨first, ha, hkept.trans hkept'⟩

/-- Exchanging one interface for one that is kept. -/
theorem kept_set {itfs : Interfaces} {x : Nat} {itf itf' : MeshInterface}
    (hx : (itfs[x]? : Option MeshInterface) = some itf) (h : itf.Kept itf') :
    itfs.Kept (List.set itfs x itf') where
  ids := by
    obtain ⟨hlt, hget⟩ := List.getElem?_eq_some_iff.1 hx
    unfold ids
    rw [List.map_set, h.interfaceId, ← hget, ← List.getElem_map MeshInterface.interfaceId (h := by simpa using hlt)]
    exact List.set_getElem_self _
  places y itf'' hy := by
    by_cases hxy : x = y
    · subst hxy
      obtain ⟨hlt, -⟩ := List.getElem?_eq_some_iff.1 hx
      rw [List.getElem?_set_self hlt, Option.some.injEq] at hy
      exact ⟨itf, hx, hy ▸ h⟩
    · rw [List.getElem?_set_ne hxy] at hy
      exact ⟨itf'', hy, .refl itf''⟩

/-- What is received after exchanging one interface. -/
theorem receivedAt_set {itfs : Interfaces} {x : Nat} {itf itf' : MeshInterface}
    (hx : (itfs[x]? : Option MeshInterface) = some itf) (y : Nat) :
    receivedAt (List.set itfs x itf') y = if y = x then itf'.received else itfs.receivedAt y := by
  obtain ⟨hlt, -⟩ := List.getElem?_eq_some_iff.1 hx
  unfold receivedAt
  by_cases hyx : y = x
  · simp [hyx, hlt]
  · simp [hyx, List.getElem?_set_ne (Ne.symm hyx)]

/-- Exchanging one interface for one that has received the same. -/
theorem receivedAt_set_of_eq {itfs : Interfaces} {x : Nat} {itf itf' : MeshInterface}
    (hx : (itfs[x]? : Option MeshInterface) = some itf) (h : itf'.received = itf.received) (y : Nat) :
    receivedAt (List.set itfs x itf') y = itfs.receivedAt y := by
  rw [receivedAt_set hx]
  split
  · next hyx => simp [receivedAt, hyx, hx, h]
  · rfl

/-- Delivering to one destination. -/
theorem sendTo_eq_ok {msg : BusMessage} {itfs itfs' : Interfaces} {destination : Nat}
    (h : sendTo msg itfs destination = .ok itfs') :
    itfs.Kept itfs' ∧ ∀ x, itfs'.receivedAt x =
      itfs.receivedAt x ++ List.replicate (copies itfs.ids [destination] x) msg := by
  unfold sendTo at h
  cases hd : destinationIndex itfs.ids destination with
  | none => simp [hd] at h
  | some j =>
    cases hp : (itfs[j]? : Option MeshInterface).bind fun itf => itf.pushMessage2RX msg with
    | none => simp [hd, hp] at h
    | some itf' =>
      simp only [hd, hp, Except.ok.injEq] at h
      subst h
      obtain ⟨itf, hitf, hpush⟩ := Option.bind_eq_some_iff.1 hp
      obtain ⟨hkept, hreceived, -⟩ := MeshInterface.pushMessage2RX_kept hpush
      refine ⟨kept_set hitf hkept, ?_⟩
      intro x
      rw [receivedAt_set hitf, hreceived]
      by_cases hxj : x = j
      · simp [hxj, receivedAt, hitf, copies, hd]
      · simp [hxj, Ne.symm hxj, copies, hd]

/-- A delivery to an interface that exists ends the program only for want of room. -/
theorem sendTo_error {msg : BusMessage} {itfs : Interfaces} {destination : Nat} {e : BusExit}
    (hmem : destination ∈ itfs.ids) (h : sendTo msg itfs destination = .error e) : e = .fullBuffer := by
  unfold sendTo at h
  cases hd : destinationIndex itfs.ids destination with
  | none =>
    have hno := List.findIdx?_eq_none_iff.1 hd destination hmem
    simp at hno
  | some j =>
    cases hp : (itfs[j]? : Option MeshInterface).bind fun itf => itf.pushMessage2RX msg with
    | none => simpa [hd, hp] using h.symm
    | some itf' => simp [hd, hp] at h

/-- Delivering to the one destination of a link. -/
theorem send_singleton (itfs : Interfaces) (msg : BusMessage) (destination : Nat) :
    itfs.send msg [destination] = sendTo msg itfs destination := by
  simp [send]

/-- The interfaces are addressed: their transmit buffers hold messages for the link they are in. -/
def Addressed (itfs : Interfaces) : Prop :=
  ∀ (x : Nat) itf, (itfs[x]? : Option MeshInterface) = some itf → itf.Addressed

/-- The interfaces of a mesh route a message to its destination directly. -/
def Direct (net : Network) (itfs : Interfaces) : Prop :=
  net = .mesh → ∀ (x : Nat) itf, (itfs[x]? : Option MeshInterface) = some itf → itf.route = id

/-- Every interface has a transmit buffer of each kind for every link. -/
def Wired (itfs : Interfaces) : Prop :=
  ∀ (x : Nat) itf, (itfs[x]? : Option MeshInterface) = some itf → itf.Wired

/-- What the interfaces received is what was popped from their receive buffers and what waits there. -/
def Balanced (itfs : Interfaces) : Prop :=
  ∀ (x : Nat) itf, (itfs[x]? : Option MeshInterface) = some itf → itf.Balanced

/-- The copies that were queued for a kind of link. -/
def submittedOn (itfs : Interfaces) : LinkType → List BusMessage :=
  ledger MeshInterface.submittedOn itfs

/-- The messages that wait for a kind of link. -/
def waitingOn (itfs : Interfaces) : LinkType → List BusMessage :=
  ledger MeshInterface.waiting itfs

theorem Kept.wired {itfs itfs' : Interfaces} (h : itfs.Kept itfs') (hw : itfs.Wired) : itfs'.Wired := by
  intro x itf' hx
  obtain ⟨itf, hitf, hkept⟩ := h.places x itf' hx
  exact hkept.wired (hw x itf hitf)

theorem Kept.addressed {itfs itfs' : Interfaces} (h : itfs.Kept itfs') (ha : itfs.Addressed) :
    itfs'.Addressed := by
  intro x itf' hx
  obtain ⟨itf, hitf, hkept⟩ := h.places x itf' hx
  exact hkept.addressed (ha x itf hitf)

theorem Kept.direct {net : Network} {itfs itfs' : Interfaces} (h : itfs.Kept itfs') (hd : itfs.Direct net) :
    itfs'.Direct net := by
  intro hnet x itf' hx
  obtain ⟨itf, hitf, hkept⟩ := h.places x itf' hx
  rw [hkept.route]
  exact hd hnet x itf hitf

/-- Exchanging one interface for another in balance. -/
theorem Balanced.set {itfs : Interfaces} (h : itfs.Balanced) {x : Nat} {itf itf' : MeshInterface}
    (hx : (itfs[x]? : Option MeshInterface) = some itf) (hbalanced : itf.Balanced → itf'.Balanced) :
    Balanced (List.set itfs x itf') := by
  intro y other hy
  by_cases hxy : x = y
  · subst hxy
    obtain ⟨hlt, -⟩ := List.getElem?_eq_some_iff.1 hx
    rw [List.getElem?_set_self hlt, Option.some.injEq] at hy
    exact hy ▸ hbalanced (h x itf hx)
  · rw [List.getElem?_set_ne hxy] at hy
    exact h y other hy

/-- What a step does to the transmit buffers: what leaves them is added to what was elected. -/
structure Moves (itfs itfs' : Interfaces) (before after : LinkType → List BusMessage) : Prop where
  wired : itfs.Wired → itfs'.Wired
  submitted : ∀ type, (itfs'.submittedOn type).Perm (itfs.submittedOn type)
  taken : ∃ new, Adds itfs'.waitingOn itfs.waitingOn new ∧ Adds before after new
  balanced : itfs.Balanced → itfs'.Balanced

/-- A step that takes nothing. -/
theorem Moves.refl (itfs : Interfaces) (elected : LinkType → List BusMessage) : itfs.Moves itfs elected elected :=
  ⟨id, fun _ => .refl _, ⟨fun _ => [], fun type => by simp, fun type => by simp⟩, id⟩

/-- Exchanging one interface for one that queues nothing. -/
theorem moves_set {itfs : Interfaces} {x : Nat} {itf itf' : MeshInterface} (hwired : itfs.Wired)
    (hx : (itfs[x]? : Option MeshInterface) = some itf) (hkept : itf.Kept itf') (h : itf.Queues itf' fun _ => [])
    (elected : LinkType → List BusMessage) : itfs.Moves (List.set itfs x itf') elected elected where
  wired := (kept_set hx hkept).wired
  submitted type := (h.submitted.set hx type).trans (by simp; rfl)
  taken := by
    refine ⟨fun _ => [], fun type => ?_, fun type => by simp⟩
    have hadds := (h.waiting (hwired x itf hx)).set hx type
    simp only [List.append_nil] at hadds ⊢
    exact hadds.symm
  balanced hbalanced := hbalanced.set hx h.balanced

/-- What other links have elected does not matter. -/
theorem Moves.append_right {itfs itfs' : Interfaces} {before after : LinkType → List BusMessage}
    (h : itfs.Moves itfs' before after) (others : LinkType → List BusMessage) :
    itfs.Moves itfs' (fun type => before type ++ others type) (fun type => after type ++ others type) where
  wired := h.wired
  submitted := h.submitted
  taken := by
    obtain ⟨new, hwaiting, helected⟩ := h.taken
    refine ⟨new, hwaiting, fun type => ?_⟩
    have hall := (helected type).append_right (others type)
    rw [List.append_assoc] at hall ⊢
    exact hall.trans (List.perm_append_comm.append_left _)
  balanced := h.balanced

theorem Moves.append_left {itfs itfs' : Interfaces} {before after : LinkType → List BusMessage}
    (h : itfs.Moves itfs' before after) (others : LinkType → List BusMessage) :
    itfs.Moves itfs' (fun type => others type ++ before type) (fun type => others type ++ after type) where
  wired := h.wired
  submitted := h.submitted
  taken := by
    obtain ⟨new, hwaiting, helected⟩ := h.taken
    refine ⟨new, hwaiting, fun type => ?_⟩
    rw [List.append_assoc]
    exact (helected type).append_left (others type)
  balanced := h.balanced

/-- Delivering to one destination takes nothing. -/
theorem sendTo_moves {msg : BusMessage} {itfs itfs' : Interfaces} {destination : Nat} (hwired : itfs.Wired)
    (h : sendTo msg itfs destination = .ok itfs') (elected : LinkType → List BusMessage) :
    itfs.Moves itfs' elected elected := by
  unfold sendTo at h
  split at h
  · simp at h
  · split at h
    · simp at h
    · next itf' hpush =>
      obtain rfl := Except.ok.inj h
      obtain ⟨itf, hitf, hpush⟩ := Option.bind_eq_some_iff.1 hpush
      obtain ⟨hkept, -, hqueues⟩ := MeshInterface.pushMessage2RX_kept hpush
      exact moves_set hwired hitf hkept hqueues elected

theorem Moves.trans {a b c : Interfaces} {first second third : LinkType → List BusMessage}
    (h : a.Moves b first second) (h' : b.Moves c second third) : a.Moves c first third where
  wired := h'.wired ∘ h.wired
  submitted type := (h'.submitted type).trans (h.submitted type)
  taken := by
    obtain ⟨new, hwaiting, helected⟩ := h.taken
    obtain ⟨new', hwaiting', helected'⟩ := h'.taken
    refine ⟨fun type => new type ++ new' type, fun type => ?_, fun type => ?_⟩
    · have hall := (hwaiting type).trans ((hwaiting' type).append_right _)
      rw [List.append_assoc] at hall
      exact hall.trans (List.perm_append_comm.append_left _)
    · have hall := (helected' type).trans ((helected type).append_right _)
      rwa [List.append_assoc] at hall
  balanced := h'.balanced ∘ h.balanced

/-- Sending takes nothing. -/
theorem send_moves {itfs itfs' : Interfaces} {msg : BusMessage} {destinations : List Nat} (hwired : itfs.Wired)
    (h : itfs.send msg destinations = .ok itfs') (elected : LinkType → List BusMessage) :
    itfs.Moves itfs' elected elected := by
  unfold send at h
  induction destinations generalizing itfs with
  | nil =>
    obtain rfl : itfs = itfs' := by simpa [pure, Except.pure] using h
    exact .refl itfs elected
  | cons d rest ih =>
    rw [List.foldlM_cons] at h
    cases hfirst : sendTo msg itfs d with
    | error e => simp [hfirst, bind, Except.bind] at h
    | ok middle =>
      simp only [hfirst, bind, Except.bind] at h
      have hmoves := sendTo_moves hwired hfirst elected
      exact hmoves.trans (ih (hmoves.wired hwired) h)

end Interfaces

namespace Link

variable {net : Network} {arb : Arbiter} {cycle : Nat} {itfs itfs' : Interfaces}
  {link link' : Link arb.State}

/-- The two ends of a link are distinct interfaces, and its transmit buffers lead to them. -/
structure Placed (itfs : Interfaces) (link : Link arb.State) : Prop where
  distinct : link.idA ≠ link.idB
  farEnds : ∀ ref ∈ link.buffers, ∀ itf, (itfs[ref.1]? : Option MeshInterface) = some itf →
    ∀ farEnd, itf.linkIds[ref.2]? = some farEnd →
      farEnd ∈ itfs.ids ∧ (farEnd = link.idA ∨ farEnd = link.idB)

/-- Keeping the interfaces keeps the place of a link. -/
theorem Placed.kept (h : link.Placed itfs) (hkept : itfs.Kept itfs') : link.Placed itfs' where
  distinct := h.distinct
  farEnds ref href itf' hitf' farEnd hfar := by
    obtain ⟨itf, hitf, hsame⟩ := hkept.places ref.1 itf' hitf'
    rw [hkept.ids]
    exact h.farEnds ref href itf hitf farEnd (hsame.linkIds ▸ hfar)

/-- The place of a link is its ends and its buffers. -/
theorem Placed.congr (h : link.Placed itfs) (hA : link'.idA = link.idA) (hB : link'.idB = link.idB)
    (hbuffers : link'.buffers = link.buffers) : link'.Placed itfs where
  distinct := by
    rw [hA, hB]
    exact h.distinct
  farEnds := by
    rw [hA, hB, hbuffers]
    exact h.farEnds

/-- The buffer the constructor finds leads to the other interface. -/
theorem linkIds_of_bufferRef {x other : Nat} {ref : Nat × Nat} (h : bufferRef itfs x other = some ref)
    {itf : MeshInterface} (hitf : (itfs[ref.1]? : Option MeshInterface) = some itf) {farEnd : Nat}
    (hfar : itf.linkIds[ref.2]? = some farEnd) : farEnd = other := by
  obtain ⟨itf', hitf', hmap⟩ := Option.bind_eq_some_iff.1 h
  obtain ⟨k, hk, rfl⟩ := Option.map_eq_some_iff.1 hmap
  obtain rfl : itf' = itf := Option.some.inj (hitf'.symm.trans hitf)
  obtain ⟨hlt, heq, -⟩ := List.findIdx?_eq_some_iff_getElem.1 hk
  rw [List.getElem?_eq_getElem hlt, Option.some.injEq] at hfar
  rw [← hfar]
  simpa using heq

/-- The constructor places a link between distinct interfaces. -/
theorem placed_of_setInterfaceBuffers (hnodup : itfs.ids.Nodup)
    (h : link.setInterfaceBuffers itfs = some link) : link.Placed itfs := by
  unfold setInterfaceBuffers at h
  split at h
  · next x y hends =>
    have hend : ∀ z ∈ [x, y], ∃ id, itfs.ids[z]? = some id ∧ (id = link.idA ∨ id = link.idB) := by
      intro z hz
      rw [← hends, List.mem_filter] at hz
      obtain ⟨-, hz⟩ := hz
      simp only [Bool.or_eq_true, beq_iff_eq] at hz
      rcases hz with hz | hz
      · exact ⟨_, hz, .inl rfl⟩
      · exact ⟨_, hz, .inr rfl⟩
    obtain ⟨idX, hx, hxEnd⟩ := hend x (by simp)
    obtain ⟨idY, hy, hyEnd⟩ := hend y (by simp)
    have hxy : x ≠ y := by
      have hnd : ([x, y] : List Nat).Nodup := hends ▸ List.nodup_range.filter _
      simpa using hnd
    have hids : idX ≠ idY := by
      rintro rfl
      obtain ⟨hxlt, hxget⟩ := List.getElem?_eq_some_iff.1 hx
      obtain ⟨hylt, hyget⟩ := List.getElem?_eq_some_iff.1 hy
      exact hxy ((List.getElem_inj hnodup).1 (hxget.trans hyget.symm))
    have hbuffers : link.buffers = (bufferRef itfs x idY).toList ++ (bufferRef itfs y idX).toList := by
      have hlink := congrArg Link.buffers (Option.some.inj h)
      rw [← hlink]
      simp [List.getD, hx, hy]
    refine ⟨?_, ?_⟩
    · rcases hxEnd with hA | hB <;> rcases hyEnd with hA' | hB' <;> grind
    · intro ref href itf hitf farEnd hfar
      rw [hbuffers, List.mem_append, Option.mem_toList, Option.mem_toList] at href
      rcases href with href | href
      · obtain rfl := linkIds_of_bufferRef href hitf hfar
        exact ⟨List.mem_of_getElem? hy, hyEnd⟩
      · obtain rfl := linkIds_of_bufferRef href hitf hfar
        exact ⟨List.mem_of_getElem? hx, hxEnd⟩
  · simp at h

/-- What the election of a link finds: a message for the far end of the link. -/
theorem election_spec {msg : BusMessage} {farEnd : Nat}
    (h : link.election arb cycle itfs = some (msg, farEnd, itfs')) (hplaced : link.Placed itfs)
    (haddressed : itfs.Addressed) :
    itfs.Kept itfs' ∧ (∀ x, itfs'.receivedAt x = itfs.receivedAt x) ∧
      (farEnd ∈ itfs.ids ∧ (farEnd = link.idA ∨ farEnd = link.idB)) ∧
      (itfs.Direct .mesh → msg.toIds = [farEnd]) := by
  obtain ⟨place, -, htake⟩ := Option.bind_eq_some_iff.1 h
  simp only [takeAt, Option.bind_eq_bind, Option.bind_eq_some_iff, Option.pure_def, Option.some.injEq,
    Prod.mk.injEq] at htake
  obtain ⟨ref, href, itf, hitf, buffer, hbuffer, msg', hmsg, farEnd', hfar, rfl, rfl, rfl⟩ := htake
  have hmem : msg' ∈ buffer := List.mem_of_getElem? hmsg
  refine ⟨Interfaces.kept_set hitf (MeshInterface.kept_setTx (List.length_set ..) ?_), ?_, ?_, ?_⟩
  · intro ha k other hk m hm
    by_cases hk' : ref.2 = k
    · subst hk'
      obtain ⟨hlt, -⟩ := List.getElem?_eq_some_iff.1 hbuffer
      rw [List.getElem?_set_self hlt, Option.some.injEq] at hk
      subst hk
      exact ha link.type ref.2 buffer hbuffer m (List.mem_of_mem_eraseIdx hm)
    · rw [List.getElem?_set_ne hk'] at hk
      exact ha link.type k other hk m hm
  · exact Interfaces.receivedAt_set_of_eq hitf (MeshInterface.setTx_received _ _ _)
  · exact hplaced.farEnds ref (List.mem_of_getElem? href) itf hitf farEnd' hfar
  · intro hdirect
    obtain ⟨destination, hto, hlink⟩ := haddressed ref.1 itf hitf link.type ref.2 buffer hbuffer msg' hmem
    have hroute := hdirect rfl ref.1 itf hitf
    rw [hlink, hroute] at hfar
    simpa [hto] using hfar

/-- What a link has taken, by kind of link. -/
def elected (link : Link arb.State) (type : LinkType) : List BusMessage :=
  if type = link.type then link.lane.taken.map fun t => t.item.1 else []

/-- What an election finds leaves the transmit buffer it was in. -/
theorem election_takes {msg : BusMessage} {farEnd : Nat}
    (h : link.election arb cycle itfs = some (msg, farEnd, itfs')) :
    (itfs.Wired → itfs'.Wired) ∧ (∀ type, itfs'.submittedOn type = itfs.submittedOn type) ∧
      Adds itfs'.waitingOn itfs.waitingOn (single link.type msg) ∧ (itfs.Balanced → itfs'.Balanced) := by
  obtain ⟨place, -, htake⟩ := Option.bind_eq_some_iff.1 h
  simp only [takeAt, Option.bind_eq_bind, Option.bind_eq_some_iff, Option.pure_def, Option.some.injEq,
    Prod.mk.injEq] at htake
  obtain ⟨ref, href, itf, hitf, buffer, hbuffer, msg', hmsg, farEnd', hfar, rfl, rfl, rfl⟩ := htake
  obtain ⟨hlt, hget⟩ := List.getElem?_eq_some_iff.1 hmsg
  have hone : Adds (fun _ : Unit => buffer.eraseIdx place.index) (fun _ => buffer) (fun _ => [msg']) := by
    intro _
    rw [← hget]
    exact (List.getElem_cons_eraseIdx_perm hlt).symm.trans (List.perm_append_singleton _ _).symm
  have hall : Adds _ (ledger (fun (b : List BusMessage) (_ : Unit) => b) (itf.tx link.type)) _ :=
    hone.set_left hbuffer
  have hwaiting : Adds (MeshInterface.waiting (itf.setTx link.type
      ((itf.tx link.type).set ref.2 (buffer.eraseIdx place.index)))) itf.waiting (single link.type msg') := by
    intro type
    rw [single, MeshInterface.waiting, MeshInterface.waiting]
    split_ifs with htype
    · subst htype
      rw [MeshInterface.setTx_tx]
      simpa [ledger] using hall ()
    · rw [MeshInterface.setTx_tx_of_ne itf htype, List.append_nil]
  refine ⟨?_, fun type => ?_, hwaiting.set_left hitf, fun hbalanced => ?_⟩
  · intro hwired x other hx
    by_cases hxy : ref.1 = x
    · subst hxy
      obtain ⟨hlt, -⟩ := List.getElem?_eq_some_iff.1 hitf
      rw [List.getElem?_set_self hlt, Option.some.injEq] at hx
      subst hx
      intro type
      rw [MeshInterface.setTx_linkIds]
      by_cases htype : type = link.type
      · subst htype
        rw [MeshInterface.setTx_tx, List.length_set]
        exact hwired ref.1 itf hitf _
      · rw [MeshInterface.setTx_tx_of_ne itf htype]
        exact hwired ref.1 itf hitf type
    · rw [List.getElem?_set_ne hxy] at hx
      exact hwired x other hx
  · refine ledger_congr (forall₂_set (fun _ _ => rfl) hitf fun type => ?_) type
    rw [MeshInterface.submittedOn, MeshInterface.setTx_submitted]
    rfl
  · exact hbalanced.set hitf (MeshInterface.balanced_setTx _ _)

/-- One cycle of a link adds to what it elected what leaves the transmit buffers. -/
theorem step_moves (hwired : itfs.Wired) (h : link.step net arb cycle itfs = .ok (itfs', link')) :
    itfs.Moves itfs' link.elected link'.elected := by
  unfold step at h
  split at h
  · dsimp only at h
    split at h
    · next msg farEnd itfs₁ helection =>
      simp only [Except.ok.injEq, Prod.mk.injEq] at h
      obtain ⟨rfl, rfl⟩ := h
      obtain ⟨hkept, hsubmitted, hwaiting, hbalanced⟩ := election_takes helection
      refine ⟨hkept, fun type => .of_eq (hsubmitted type), ⟨_, hwaiting, fun type => .of_eq ?_⟩, hbalanced⟩
      by_cases htype : type = link.type
      · simp [elected, tick, utilize, single, htype]
      · simp [elected, tick, utilize, single, htype]
    · simp only [Except.ok.injEq, Prod.mk.injEq] at h
      obtain ⟨rfl, rfl⟩ := h
      exact .refl _ _
  · split at h
    · obtain ⟨itfs₁, hsend, heq⟩ := map_eq_ok.1 h
      obtain ⟨rfl, rfl⟩ := Prod.mk.inj heq
      exact Interfaces.send_moves hwired hsend _
    · simp only [Except.ok.injEq, Prod.mk.injEq] at h
      obtain ⟨rfl, rfl⟩ := h
      exact .refl _ _

/-- How the registers of a link show what it carries. -/
def Shows (net : Network) (ids : List Nat) (cycle : Nat) (link : Link arb.State) :
    Option ((BusMessage × List Nat) × Nat) → Prop
  | none => link.utilizationCycle < cycle
  | some (item, clk) => item = (link.msg, [link.farEnd]) ∧ link.destinations net = [link.farEnd] ∧
      link.farEnd ∈ ids ∧ link.utilizationCycle + clk + 1 = cycle + link.latency ∧ 1 ≤ clk

/-- The invariant of a link before a cycle. -/
structure Inv (net : Network) (itfs : Interfaces) (cycle : Nat) (link : Link arb.State) : Prop where
  latency : 1 ≤ link.latency
  now : link.lane.now = cycle
  placed : link.Placed itfs
  carrying : ∃ o, link.lane.Carrying (link.latency - 1) o ∧ link.Shows net itfs.ids cycle o

/-- Keeping the interfaces keeps the invariant of a link. -/
theorem Inv.kept (h : link.Inv net itfs cycle) (hkept : itfs.Kept itfs') : link.Inv net itfs' cycle where
  latency := h.latency
  now := h.now
  placed := h.placed.kept hkept
  carrying := by
    rw [hkept.ids]
    exact h.carrying

/-- A link takes no message in vain or for the wrong end: it has the time to send it, and in a NoC
the message names its sender exactly when that is the first end of the link. -/
def Lossless (net : Network) (arb : Arbiter) (cycle : Nat) (itfs : Interfaces) (link : Link arb.State) :
    Prop :=
  link.isReady cycle → ∀ msg farEnd itfs', link.election arb cycle itfs = some (msg, farEnd, itfs') →
    2 ≤ link.latency ∧ (net = .noc → (msg.fromId = link.idA ↔ farEnd = link.idB))

/-- The messages a link has handed to the interface at a position. -/
def carried (ids : List Nat) (link : Link arb.State) (x : Nat) : List BusMessage :=
  link.lane.sent.flatMap fun s => List.replicate (copies ids s.item.2 x) s.item.1

/-- What a step of a link does to the interfaces. -/
structure Delivers (itfs itfs' : Interfaces) (before after : Nat → List BusMessage) : Prop where
  kept : itfs.Kept itfs'
  received : ∀ x, ∃ new, itfs'.receivedAt x = itfs.receivedAt x ++ new ∧ (after x).Perm (before x ++ new)

/-- One cycle of a link keeps its invariant and delivers what the link sends. -/
theorem step_spec (hinv : link.Inv net itfs cycle) (hlossless : link.Lossless net arb cycle itfs)
    (haddressed : itfs.Addressed) (hdirect : itfs.Direct net)
    (h : link.step net arb cycle itfs = .ok (itfs', link')) :
    link'.Inv net itfs' (cycle + 1) ∧ Delivers itfs itfs' (link.carried itfs.ids) (link'.carried itfs.ids) := by
  obtain ⟨o, hc, hs⟩ := hinv.carrying
  have hlatency := hinv.latency
  unfold step at h
  split at h
  · next hready =>
    have hlt : link.utilizationCycle < cycle := of_decide_eq_true hready
    have hnone : link.lane.Carrying (link.latency - 1) none := by
      cases o with
      | none => exact hc
      | some p =>
        obtain ⟨-, -, -, hcount, -⟩ := hs
        obtain ⟨-, -, -, -, hle, -, -⟩ := hc.passages
        omega
    dsimp only at h
    split at h
    · next msg farEnd itfs₁ helection =>
      obtain ⟨hlong, hsender⟩ := hlossless hready msg farEnd itfs₁ helection
      obtain ⟨hkept, hreceived, hfar, hto⟩ := election_spec helection hinv.placed haddressed
      simp only [Except.ok.injEq, Prod.mk.injEq] at h
      obtain ⟨rfl, rfl⟩ := h
      have hends : (({ link with arbiter := (link.place arb cycle itfs).1 } : Link arb.State).utilize
          cycle msg farEnd).tick.destinations net = [farEnd] := by
        cases net with
        | mesh => exact hto hdirect
        | noc =>
          have hdistinct := hinv.placed.distinct
          have hiff := hsender rfl
          simp only [destinations, tick, utilize, List.cons.injEq, and_true]
          by_cases hA : msg.fromId = link.idA
          · simp [hA, hiff.1 hA]
          · have hB : farEnd ≠ link.idB := fun heq => hA (hiff.2 heq)
            simp [hA, hfar.2.resolve_right hB]
      refine ⟨⟨hlatency, by simp [tick, utilize, hinv.now], (hinv.placed.kept hkept).congr rfl rfl rfl,
        some ((msg, [farEnd]), 1), ?_, ?_⟩, ⟨hkept, fun x => ⟨[], by simp [hreceived], by simp; rfl⟩⟩⟩
      · exact (hnone.take (msg, [farEnd])).advance (by omega)
      · refine ⟨rfl, hends, by rw [hkept.ids]; exact hfar.1, ?_, Nat.le_refl _⟩
        simp only [tick, utilize]
        omega
    · simp only [Except.ok.injEq, Prod.mk.injEq] at h
      obtain ⟨rfl, rfl⟩ := h
      refine ⟨⟨hlatency, by simp [tick, hinv.now], hinv.placed.congr rfl rfl rfl,
        none, hnone.idle, ?_⟩, ⟨.refl _, fun x => ⟨[], by simp, by simp; rfl⟩⟩⟩
      exact Nat.lt_succ_of_lt hlt
  · next hready =>
    have hge : cycle ≤ link.utilizationCycle := Nat.le_of_not_lt fun hlt => hready (decide_eq_true hlt)
    cases o with
    | none => exact absurd hs (Nat.not_lt.2 hge)
    | some p =>
      obtain ⟨hitem, hends, hmem, hcount, hone⟩ := hs
      split at h
      · next hdone =>
        rw [hends, Interfaces.send_singleton] at h
        cases hsend : Interfaces.sendTo link.msg itfs link.farEnd with
        | error e => simp [hsend, Except.map] at h
        | ok itfs₁ =>
          simp only [hsend, Except.map, Except.ok.injEq, Prod.mk.injEq] at h
          obtain ⟨rfl, rfl⟩ := h
          obtain ⟨hkept, hreceived⟩ := Interfaces.sendTo_eq_ok hsend
          have hend : p = ((link.msg, [link.farEnd]), link.latency - 1) := Prod.ext hitem (by omega)
          have hc' : link.lane.Carrying (link.latency - 1) (some ((link.msg, [link.farEnd]), link.latency - 1)) :=
            hend ▸ hc
          refine ⟨⟨hlatency, by simp [hinv.now], (hinv.placed.kept hkept).congr rfl rfl rfl,
            none, hc'.send, ?_⟩, ⟨hkept, fun x => ⟨_, hreceived x, ?_⟩⟩⟩
          · show link.utilizationCycle < cycle + 1
            omega
          · simp [carried]
      · next hdone =>
        simp only [Except.ok.injEq, Prod.mk.injEq] at h
        obtain ⟨rfl, rfl⟩ := h
        refine ⟨⟨hlatency, by simp [tick, hinv.now], hinv.placed.congr rfl rfl rfl,
          some (p.1, p.2 + 1), hc.advance (by omega), hitem, hends, hmem, ?_, by omega⟩,
          ⟨.refl _, fun x => ⟨[], by simp, by simp; rfl⟩⟩⟩
        simp only [tick]
        omega

/-- A cycle of a link ends the program only for want of room. -/
theorem step_error (hinv : link.Inv net itfs cycle) {e : BusExit}
    (h : link.step net arb cycle itfs = .error e) : e = .fullBuffer := by
  obtain ⟨o, hc, hs⟩ := hinv.carrying
  unfold step at h
  split at h
  · dsimp only at h
    split at h <;> simp at h
  · next hready =>
    have hge : cycle ≤ link.utilizationCycle := Nat.le_of_not_lt fun hlt => hready (decide_eq_true hlt)
    cases o with
    | none => exact absurd hs (Nat.not_lt.2 hge)
    | some p =>
      obtain ⟨-, hends, hmem, -, -⟩ := hs
      split at h
      · rw [hends, Interfaces.send_singleton] at h
        cases hsend : Interfaces.sendTo link.msg itfs link.farEnd with
        | error e' =>
          simp only [hsend, Except.map, Except.error.injEq] at h
          subst h
          exact Interfaces.sendTo_error hmem hsend
        | ok itfs₁ => simp [hsend, Except.map] at h
      · simp at h

end Link

namespace MeshController

variable {net : Network} {arb : Arbiter} {s s' : MeshController arb}

/-- The links of a cycle take no message in vain, each at its turn. -/
def LosslessAll (net : Network) (arb : Arbiter) (cycle : Nat) : List (Link arb.State) → Interfaces → Prop
  | [], _ => True
  | link :: links, itfs => link.Lossless net arb cycle itfs ∧
      ∀ itfs' link', link.step net arb cycle itfs = .ok (itfs', link') → LosslessAll net arb cycle links itfs'

/-- A step of a run in which no link takes a message in vain. -/
def Lossless (net : Network) (s : MeshController arb) : Label → Prop
  | .step => LosslessAll net arb s.cycle s.links s.interfaces
  | _ => True

/-- What all links have handed to the interface at a position. -/
def carried (ids : List Nat) (links : List (Link arb.State)) (x : Nat) : List BusMessage :=
  links.flatMap fun link => link.carried ids x

/-- One cycle keeps the invariant of every link and delivers what the links send. -/
theorem stepAll_spec {cycle : Nat} {links links' : List (Link arb.State)} {itfs itfs' : Interfaces}
    (hinv : ∀ link ∈ links, link.Inv net itfs cycle) (hlossless : LosslessAll net arb cycle links itfs)
    (haddressed : itfs.Addressed) (hdirect : itfs.Direct net)
    (h : Link.stepAll net arb cycle links itfs = .ok (itfs', links')) :
    (∀ link ∈ links', link.Inv net itfs' (cycle + 1)) ∧
      Link.Delivers itfs itfs' (carried itfs.ids links) (carried itfs.ids links') := by
  induction links generalizing itfs links' with
  | nil =>
    simp only [Link.stepAll, Except.ok.injEq, Prod.mk.injEq] at h
    obtain ⟨rfl, rfl⟩ := h
    exact ⟨by simp, ⟨.refl _, fun x => ⟨[], by simp, by simp⟩⟩⟩
  | cons link links ih =>
    simp only [Link.stepAll, bind, Except.bind, pure, Except.pure] at h
    cases hfirst : link.step net arb cycle itfs with
    | error e => simp [hfirst] at h
    | ok result =>
      obtain ⟨itfs₁, link'⟩ := result
      simp only [hfirst] at h
      cases hrest : Link.stepAll net arb cycle links itfs₁ with
      | error e => simp [hrest] at h
      | ok result' =>
        obtain ⟨itfs₂, rest⟩ := result'
        simp only [hrest, Except.ok.injEq, Prod.mk.injEq] at h
        obtain ⟨rfl, rfl⟩ := h
        obtain ⟨hlink, hdelivers⟩ := Link.step_spec (hinv link (by simp)) hlossless.1 haddressed hdirect hfirst
        have hkept := hdelivers.kept
        have hinv' : ∀ other ∈ links, other.Inv net itfs₁ cycle := by
          intro other hother
          exact (hinv other (by simp [hother])).kept hkept
        obtain ⟨hlinks, hdelivers'⟩ := ih hinv' (hlossless.2 itfs₁ link' hfirst)
          (hkept.addressed haddressed) (hkept.direct hdirect) hrest
        have hkept' := hdelivers'.kept
        refine ⟨?_, ⟨hkept.trans hkept', ?_⟩⟩
        · intro other hother
          rcases List.mem_cons.1 hother with rfl | hother
          · exact hlink.kept hkept'
          · exact hlinks other hother
        · intro x
          obtain ⟨new, hnew, hperm⟩ := hdelivers.received x
          obtain ⟨new', hnew', hperm'⟩ := hdelivers'.received x
          rw [hkept.ids] at hperm'
          refine ⟨new ++ new', by rw [hnew', hnew, List.append_assoc], ?_⟩
          have hswap : (new ++ carried itfs.ids links x).Perm (carried itfs.ids links x ++ new) :=
            List.perm_append_comm
          have hall := (hperm.append hperm').trans (List.Perm.of_eq (List.append_assoc _ _ _))
          have hmove := (hswap.append_right new').append_left (link.carried itfs.ids x)
          simp only [List.append_assoc] at hmove hall
          simpa [carried, List.flatMap_cons, List.append_assoc] using hall.trans hmove

/-- What the links have taken, by kind of link. -/
def electedOn (links : List (Link arb.State)) : LinkType → List BusMessage :=
  ledger Link.elected links

/-- One cycle adds to what the links elected what leaves the transmit buffers. -/
theorem stepAll_moves {cycle : Nat} {links links' : List (Link arb.State)} {itfs itfs' : Interfaces}
    (hwired : itfs.Wired) (h : Link.stepAll net arb cycle links itfs = .ok (itfs', links')) :
    itfs.Moves itfs' (electedOn links) (electedOn links') := by
  induction links generalizing itfs links' with
  | nil =>
    simp only [Link.stepAll, Except.ok.injEq, Prod.mk.injEq] at h
    obtain ⟨rfl, rfl⟩ := h
    exact .refl _ _
  | cons link links ih =>
    simp only [Link.stepAll, bind, Except.bind, pure, Except.pure] at h
    cases hfirst : link.step net arb cycle itfs with
    | error e => simp [hfirst] at h
    | ok result =>
      obtain ⟨itfs₁, link'⟩ := result
      simp only [hfirst] at h
      cases hrest : Link.stepAll net arb cycle links itfs₁ with
      | error e => simp [hrest] at h
      | ok result' =>
        obtain ⟨itfs₂, rest⟩ := result'
        simp only [hrest, Except.ok.injEq, Prod.mk.injEq] at h
        obtain ⟨rfl, rfl⟩ := h
        have hlink := Link.step_moves hwired hfirst
        have hlinks := ih (hlink.wired hwired) hrest
        exact (hlink.append_right (electedOn links)).trans (hlinks.append_left link'.elected)

/-- A cycle ends the program only for want of room. -/
theorem stepAll_error {cycle : Nat} {links : List (Link arb.State)} {itfs : Interfaces} {e : BusExit}
    (hinv : ∀ link ∈ links, link.Inv net itfs cycle) (hlossless : LosslessAll net arb cycle links itfs)
    (haddressed : itfs.Addressed) (hdirect : itfs.Direct net)
    (h : Link.stepAll net arb cycle links itfs = .error e) : e = .fullBuffer := by
  induction links generalizing itfs with
  | nil => simp [Link.stepAll] at h
  | cons link links ih =>
    simp only [Link.stepAll, bind, Except.bind, pure, Except.pure] at h
    cases hfirst : link.step net arb cycle itfs with
    | error e' =>
      simp only [hfirst, Except.error.injEq] at h
      subst h
      exact Link.step_error (hinv link (by simp)) hfirst
    | ok result =>
      obtain ⟨itfs₁, link'⟩ := result
      simp only [hfirst] at h
      cases hrest : Link.stepAll net arb cycle links itfs₁ with
      | ok result' => simp [hrest] at h
      | error e' =>
        simp only [hrest, Except.error.injEq] at h
        subst h
        obtain ⟨-, hdelivers⟩ := Link.step_spec (hinv link (by simp)) hlossless.1 haddressed hdirect hfirst
        have hkept := hdelivers.kept
        have hinv' : ∀ other ∈ links, other.Inv net itfs₁ cycle := by
          intro other hother
          exact (hinv other (by simp [hother])).kept hkept
        exact ih hinv' (hlossless.2 itfs₁ link' hfirst) (hkept.addressed haddressed) (hkept.direct hdirect) hrest

/-- For each kind of link, the copies that were queued are those the links elected and those that
still wait in the transmit buffers. -/
def Elected (itfs : Interfaces) (links : List (Link arb.State)) : Prop :=
  ∀ type, (itfs.submittedOn type).Perm (electedOn links type ++ itfs.waitingOn type)

/-- What leaves the transmit buffers is elected. -/
theorem Elected.moves {itfs itfs' : Interfaces} {links links' : List (Link arb.State)}
    (h : Elected itfs links) (hmoves : itfs.Moves itfs' (electedOn links) (electedOn links')) :
    Elected itfs' links' := by
  intro type
  obtain ⟨new, hwaiting, helected⟩ := hmoves.taken
  have hafter := (helected type).append_right (itfs'.waitingOn type)
  rw [List.append_assoc] at hafter
  refine (hmoves.submitted type).trans ((h type).trans (((hwaiting type).append_left _).trans ?_))
  exact (List.perm_append_comm.append_left _).trans hafter.symm

/-- What a run without losses keeps. -/
structure Inv (net : Network) (s : MeshController arb) : Prop where
  links : ∀ link ∈ s.links, link.Inv net s.interfaces s.cycle
  addressed : s.interfaces.Addressed
  direct : s.interfaces.Direct net
  received : ∀ x, (s.interfaces.receivedAt x).Perm (carried s.interfaces.ids s.links x)
  wired : s.interfaces.Wired
  elected : Elected s.interfaces s.links
  balanced : s.interfaces.Balanced

/-- Links that carry what they take to their far ends on time; what they take is what leaves the
transmit buffers; each interface receives exactly what the links hand it and has it in its receive
buffers until it is popped; and a step ends the program only when a receiver has no room. -/
structure Conserved (net : Network) (s : MeshController arb) : Prop where
  links : ∀ link ∈ s.links, link.lane.Conserves (link.latency - 1)
  elected : Elected s.interfaces s.links
  received : ∀ x, (s.interfaces.receivedAt x).Perm (carried s.interfaces.ids s.links x)
  balanced : s.interfaces.Balanced
  proceeds : s.Lossless net .step → ∀ e, s.step net = .error e → e = .fullBuffer

/-- The first state of an interface. -/
structure Empty (itf : MeshInterface) : Prop where
  tx : ∀ type, itf.tx type = itf.linkIds.map fun _ => []
  rx : ∀ type, itf.rx type = []
  histories : itf.received = [] ∧ itf.consumed = [] ∧ itf.submitted = []

/-- A fresh interface has nothing to send and has received nothing. -/
theorem empty_of_fresh {itf : MeshInterface}
    (h : itf =
      { interfaceId := itf.interfaceId, bufferMaxSize := itf.bufferMaxSize, linkIds := itf.linkIds,
        routingTable := itf.routingTable }) : Empty itf := by
  rw [h]
  exact ⟨fun type => by cases type <;> rfl, fun type => by cases type <;> rfl, rfl, rfl, rfl⟩

/-- Empty buffers are addressed. -/
theorem Empty.addressed {itf : MeshInterface} (h : Empty itf) : itf.Addressed := by
  intro type k buffer hk msg hmsg
  rw [h.tx, List.getElem?_map, Option.map_eq_some_iff] at hk
  obtain ⟨-, -, rfl⟩ := hk
  simp at hmsg

/-- The invariant holds before anything is sent. -/
theorem Inv.of_initial (h : Initial net s) : s.Inv net where
  links link hlink := by
    obtain ⟨hlatency, hcycle, hlane, hbuffers⟩ := h.links link hlink
    refine ⟨hlatency, by rw [hlane, h.cycle], Link.placed_of_setInterfaceBuffers h.nodup hbuffers, none, ?_, ?_⟩
    · rw [hlane]
      exact Lane.carrying_init _ _
    · show link.utilizationCycle < s.cycle
      rw [hcycle, h.cycle]
      exact Nat.one_pos
  addressed x itf hx := (empty_of_fresh (h.fresh itf (List.mem_of_getElem? hx))).addressed
  direct hnet x itf hx := by
    funext destination
    rw [MeshInterface.route, h.direct hnet itf (List.mem_of_getElem? hx)]
    rfl
  received x := by
    have hnone : s.interfaces.receivedAt x = [] := by
      unfold Interfaces.receivedAt
      cases hx : (s.interfaces[x]? : Option MeshInterface) with
      | none => rfl
      | some itf => exact (empty_of_fresh (h.fresh itf (List.mem_of_getElem? hx))).histories.1
    have hsent : carried s.interfaces.ids s.links x = [] := by
      simp only [carried, List.flatMap_eq_nil_iff, Link.carried]
      intro link hlink
      rw [(h.links link hlink).2.2.1]
      simp
    rw [hnone, hsent]
  wired x itf hx type := by
    rw [(empty_of_fresh (h.fresh itf (List.mem_of_getElem? hx))).tx, List.length_map]
  elected type := by
    have hsubmitted : s.interfaces.submittedOn type = [] := ledger_eq_nil (fun itf hitf type => by
      simp [MeshInterface.submittedOn, (empty_of_fresh (h.fresh itf hitf)).histories.2.2]) type
    have hwaiting : s.interfaces.waitingOn type = [] := ledger_eq_nil (fun itf hitf type => by
      simp [MeshInterface.waiting, (empty_of_fresh (h.fresh itf hitf)).tx]) type
    have helected : electedOn s.links type = [] := ledger_eq_nil (fun link hlink type => by
      simp [Link.elected, (h.links link hlink).2.2.1]) type
    rw [hsubmitted, hwaiting, helected]
    exact .nil
  balanced x itf hx type := by
    have hempty := empty_of_fresh (h.fresh itf (List.mem_of_getElem? hx))
    simp [hempty.histories.1, hempty.histories.2.1, hempty.rx]

/-- What users of the interfaces do keeps the invariant. -/
theorem Inv.update (hinv : s.Inv net) {x : Nat} {f : MeshInterface → Except BusExit MeshInterface}
    (hf : ∀ itf itf', f itf = .ok itf' → itf.Used itf') (h : s.update x f = .ok s') : s'.Inv net := by
  unfold MeshController.update at h
  split at h
  · next itf hitf =>
    obtain ⟨itf', hfx, rfl⟩ := map_eq_ok.1 h
    obtain ⟨hkept, hreceived, new, hqueues⟩ := hf itf itf' hfx
    have hset := Interfaces.kept_set hitf hkept
    refine ⟨fun link hlink => (hinv.links link hlink).kept hset, hset.addressed hinv.addressed,
      hset.direct hinv.direct, ?_, hset.wired hinv.wired, ?_, hinv.balanced.set hitf hqueues.balanced⟩
    · intro y
      simp only [Interfaces.receivedAt_set_of_eq hitf hreceived, hset.ids]
      exact hinv.received y
    · intro type
      have hwaiting := (hqueues.waiting (hinv.wired x itf hitf)).set hitf type
      refine (hqueues.submitted.set hitf type).trans (((hinv.elected type).append_right _).trans ?_)
      rw [List.append_assoc]
      exact hwaiting.symm.append_left _
  · obtain rfl := Except.ok.inj h
    exact hinv

/-- One step of a run without losses keeps the invariant. -/
theorem Inv.exec {label : Label} (hinv : s.Inv net) (hlossless : s.Lossless net label)
    (h : s.exec net label = .ok s') : s'.Inv net := by
  cases label with
  | push x msg cycle =>
    refine hinv.update ?_ h
    intro itf itf' hpush
    obtain ⟨⟨accepted, itf₁⟩, hresult, rfl⟩ := map_eq_ok.1 hpush
    exact MeshInterface.nocPushMessage_used hresult
  | peek x =>
    refine hinv.update ?_ h
    intro itf itf' hpeek
    obtain rfl := Except.ok.inj hpeek
    exact itf.peekMessage_used
  | pop x =>
    refine hinv.update ?_ h
    intro itf itf' hpop
    obtain rfl := Except.ok.inj hpop
    exact itf.popFrontMessage_used
  | forward x => exact hinv.update (fun itf itf' hforward => MeshInterface.forward_used hforward) h
  | step =>
    unfold MeshController.exec MeshController.step at h
    cases hall : Link.stepAll net arb s.cycle s.links s.interfaces with
    | error e => simp [hall, Except.map] at h
    | ok result =>
      obtain ⟨itfs, links⟩ := result
      simp only [hall, Except.map, Except.ok.injEq] at h
      subst h
      obtain ⟨hlinks, hdelivers⟩ := stepAll_spec hinv.links hlossless hinv.addressed hinv.direct hall
      have hmoves := stepAll_moves hinv.wired hall
      refine ⟨hlinks, hdelivers.kept.addressed hinv.addressed, hdelivers.kept.direct hinv.direct, ?_,
        hmoves.wired hinv.wired, hinv.elected.moves hmoves, hmoves.balanced hinv.balanced⟩
      intro x
      obtain ⟨new, hnew, hperm⟩ := hdelivers.received x
      rw [hdelivers.kept.ids, hnew]
      exact ((hinv.received x).append_right new).trans hperm.symm

/-- The invariant of runs without losses. -/
theorem inv_inductive (net : Network) (arb : Arbiter) :
    ((system net arb).restrict (Lossless net)).Inductive (Inv net) where
  init _ h := .of_initial h
  step _ _ _ _ hinv h := hinv.exec h.1 h.2

/-- Runs in which no link takes a message in vain conserve every message. -/
theorem conserved_of_lossless (h : ((system net arb).restrict (Lossless net)).Reachable s) :
    s.Conserved net := by
  have hinv := (inv_inductive net arb).reachable h
  refine ⟨?_, hinv.elected, hinv.received, hinv.balanced, ?_⟩
  · intro link hlink
    obtain ⟨o, hc, -⟩ := (hinv.links link hlink).carrying
    exact hc.conserves
  · intro hlossless e he
    unfold step at he
    cases hall : Link.stepAll net arb s.cycle s.links s.interfaces with
    | error e' =>
      simp only [hall, Except.map, Except.error.injEq] at he
      subst he
      exact stepAll_error hinv.links hlossless hinv.addressed hinv.direct hall
    | ok result => simp [hall, Except.map] at he

/-- In a mesh all links of latency 2 and more have the time to send what they take. -/
theorem losslessAll_of_latency {cycle : Nat} {links : List (Link arb.State)} {itfs : Interfaces}
    (h : ∀ link ∈ links, 2 ≤ link.latency) : LosslessAll .mesh arb cycle links itfs := by
  induction links generalizing itfs with
  | nil => trivial
  | cons link links ih =>
    have hlink : link.Lossless .mesh arb cycle itfs :=
      fun _ _ _ _ _ => ⟨h link List.mem_cons_self, fun hnet => absurd hnet (by decide)⟩
    exact ⟨hlink, fun _ _ _ => ih fun other hother => h other (List.mem_cons_of_mem _ hother)⟩

/-- The links of a mesh are of latency 2 and more. -/
def Unhurried (s : MeshController arb) (_ : Label) : Prop := ∀ link ∈ s.links, 2 ≤ link.latency

instance (s : MeshController arb) (label : Label) : Decidable (Unhurried s label) :=
  inferInstanceAs (Decidable (∀ link ∈ s.links, 2 ≤ link.latency))

/-- Where the links of a mesh are of latency 2 and more, no step takes a message in vain. -/
theorem lossless_of_unhurried (s : MeshController arb) (label : Label) (h : Unhurried s label) :
    s.Lossless .mesh label := by
  cases label with
  | step => exact losslessAll_of_latency h
  | push x msg cycle => trivial
  | peek x => trivial
  | pop x => trivial
  | forward x => trivial

/-- Two interfaces and the request link between them, with its buffers. -/
def pairOfLinks (latency : Nat) : MeshController FCFSArbiter where
  interfaces := [{ interfaceId := 0, bufferMaxSize := 8, linkIds := [1] },
    { interfaceId := 1, bufferMaxSize := 8, linkIds := [0] }]
  links := [⟨0, 1, .requestLink, latency, 0, (), [(0, 0), (1, 0)], {}, 0, { now := 1 }⟩]

/-- The pair starts a run. -/
theorem pairOfLinks_initial {latency : Nat} (h : 1 ≤ latency) : Initial .mesh (pairOfLinks latency) where
  nodup := by
    show ([0, 1] : List Nat).Nodup
    decide
  fresh itf hitf := by
    simp only [pairOfLinks, List.mem_cons, List.not_mem_nil, or_false] at hitf
    rcases hitf with rfl | rfl <;> rfl
  direct _ itf hitf := by
    simp only [pairOfLinks, List.mem_cons, List.not_mem_nil, or_false] at hitf
    rcases hitf with rfl | rfl <;> rfl
  links link hlink := by
    simp only [pairOfLinks, List.mem_cons, List.not_mem_nil, or_false] at hlink
    subst hlink
    exact ⟨h, rfl, rfl, rfl⟩
  cycle := rfl

/-- Interface 0 pushes a request to interface 1, and the controller steps twice. -/
def pairOfLinksRun : List Label :=
  [.push 0 { addr := 64, toIds := [1], cycle := 1 } 1, .step, .step]

/-- With latency 2 the link delivers a first request, which is popped, and then a second one, which waits
in the receive buffer. -/
theorem conserved_of_lossless_pair : ∃ s : MeshController FCFSArbiter,
    (s.links.map fun link => (link.lane.taken.length, link.lane.sent.length)) = [(2, 2)] ∧
      (s.interfaces.map fun itf => (itf.consumed.length, itf.rxRequestBuffer.length)) = [(0, 0), (1, 1)] ∧
      s.Conserved .mesh := by
  have hrun : ∃ s : MeshController FCFSArbiter,
      (pairOfLinksRun ++ [Label.peek 1, Label.pop 1] ++ pairOfLinksRun).foldlM (TransitionSystem.guarded Unhurried
        fun s label => (s.exec .mesh label).toOption) (pairOfLinks 2) = some s ∧
      (s.links.map fun link => (link.lane.taken.length, link.lane.sent.length)) = [(2, 2)] ∧
      (s.interfaces.map fun itf => (itf.consumed.length, itf.rxRequestBuffer.length)) = [(0, 0), (1, 1)] :=
    ⟨_, rfl, by decide, by decide⟩
  obtain ⟨s, hs, hlinks, hinterfaces⟩ := hrun
  have hreachable : ((system .mesh FCFSArbiter).restrict Unhurried).Reachable s := by
    apply TransitionSystem.Reachable.foldlM_guarded ?_ (pairOfLinks_initial (by decide)) hs
    intro s label s' hstep
    cases hexec : s.exec .mesh label with
    | error e => simp [hexec, Except.toOption] at hstep
    | ok next => exact hexec.trans (congrArg Except.ok (by simpa [hexec, Except.toOption] using hstep))
  exact ⟨s, hlinks, hinterfaces, conserved_of_lossless (hreachable.restrict_mono lossless_of_unhurried)⟩

/-- With latency 1 a request is taken and never sent: the links do not conserve messages. -/
theorem not_conserved_of_link_latency_one : ¬ ∀ (net : Network) (arb : Arbiter) (s : MeshController arb),
    (system net arb).Reachable s → s.Conserved net := by
  intro hclaim
  have hinit : (system .mesh FCFSArbiter).Path [] (pairOfLinks 1) :=
    .init (pairOfLinks_initial (Nat.le_refl 1))
  obtain ⟨history, s, hpath, htest⟩ := TransitionSystem.exists_path_of_run (fun _ _ _ h => h) hinit
    pairOfLinksRun (fun s => s.links.any fun link => decide (link.latency = 1 ∧ link.lane.taken ≠ [] ∧ link.lane.sent = [] ∧
      link.lane.held = [] ∧ ∀ t ∈ link.lane.taken, t.time < link.lane.now)) (by decide)
  obtain ⟨link, hlink, hlane⟩ := List.any_eq_true.1 htest
  obtain ⟨hlatency, htaken, hsent, hheld, hpast⟩ := of_decide_eq_true hlane
  have hconserves := (hclaim _ _ s hpath.reachable).links link hlink
  rw [hlatency, Nat.sub_self] at hconserves
  exact htaken ((Lane.conserves_zero_iff hsent hpast hheld).1 hconserves)

end MeshController

end Octopus
