import Octopus.Interconnect.MeshInterface
import Octopus.Lib.Sequence
import Octopus.Lib.TransitionSystem
import Mathlib.Data.List.Basic

/-!
# What a mesh interface transmits

A push is meant to be all or nothing: a copy for every destination, or a refusal. The room it checks is
not that of the buffers it fills: it compares the number of links with the buffer size. So a push is right
if it is refused, or if every destination is reached over a link and the buffers of these links have room
for what they get; and the buffers stay within their bound exactly as long as every push is like this.
-/

namespace Octopus

open Lib TransitionSystem

namespace MeshInterface

/-- The link that leads to a destination. -/
def leads (itf : MeshInterface) (destination : Nat) : Option Nat :=
  itf.linkIds.findIdx? fun id => id == itf.route destination

/-- The copies of a message that belong on a link: one for each of its destinations behind the link. -/
def copies (itf : MeshInterface) (msg : BusMessage) (k : Nat) : List BusMessage :=
  (msg.toIds.filter fun destination => itf.leads destination == some k).map fun destination =>
    { msg with toIds := [destination] }

/-- One copy has been queued for every destination, on the link that leads to it. -/
def Queued (itf itf' : MeshInterface) (msg : BusMessage) : Prop :=
  (∀ destination ∈ msg.toIds, (itf.leads destination).isSome) ∧
    itf'.tx (linkType msg) = (itf.tx (linkType msg)).mapIdx fun k buffer => buffer ++ itf.copies msg k

/--
The push is refused for the number of links, or every destination is reached over a link and the buffer of
each link has room for its copies.
-/
def Fits (itf : MeshInterface) (msg : BusMessage) : Prop :=
  (itf.tx (linkType msg)).length < itf.bufferMaxSize →
    (∀ destination ∈ msg.toIds, (itf.leads destination).isSome) ∧
    ∀ (k : Nat) buffer, (itf.tx (linkType msg))[k]? = some buffer →
      buffer.length + (itf.copies msg k).length ≤ itf.bufferMaxSize.toNat

/-- What happens to an interface: its controller pushes, a switch passes a message on, a link takes a message
out of a transmit buffer, a message is delivered, or the controller looks for one or removes it. -/
inductive Use
  | push (msg : BusMessage) (cycle : Nat)
  | pass (msg : BusMessage)
  | take (type : LinkType) (k i : Nat)
  | receive (msg : BusMessage)
  | peek
  | pop

/-- The message that is handed to `noc_pushMessage`. -/
def sent (itf : MeshInterface) : Use → Option BusMessage
  | .push msg cycle => some { msg with cycle := if cycle = 0 then msg.cycle else cycle, fromId := itf.interfaceId }
  | .pass msg => some msg
  | _ => none

/-- One use of an interface. -/
def exec (itf : MeshInterface) : Use → Except BusExit MeshInterface
  | .push msg cycle => (itf.pushMessage msg cycle).map Prod.snd
  | .pass msg => (itf.nocPushMessage msg).map Prod.snd
  | .take type k i => .ok (itf.setTx type ((itf.tx type).modify k (·.eraseIdx i)))
  | .receive msg => .ok ((itf.pushMessage2RX msg).getD itf)
  | .peek => .ok itf.peekMessage.1
  | .pop => .ok itf.popFrontMessage

/-- The runs of an interface, from the buffers the constructor leaves. -/
def system : TransitionSystem MeshInterface Use where
  init itf := ∀ type, itf.tx type = itf.linkIds.map fun _ => []
  step itf use itf' := itf.exec use = .ok itf'

variable {itf itf' : MeshInterface} {msg : BusMessage} {accepted : Bool}

/-- An interface after a push that is not refused. -/
def accept (itf : MeshInterface) (msg : BusMessage) : MeshInterface :=
  { itf.setTx (linkType msg) ((itf.tx (linkType msg)).mapIdx fun k buffer => buffer ++ itf.copies msg k) with
    submitted := itf.submitted ++ (itf.queued msg).map fun copy => (linkType msg, copy) }

/-- Nothing that the transmit side consists of has changed. -/
structure Quiet (itf itf' : MeshInterface) : Prop where
  linkIds : itf'.linkIds = itf.linkIds
  bufferMaxSize : itf'.bufferMaxSize = itf.bufferMaxSize
  tx : ∀ type, itf'.tx type = itf.tx type

theorem quiet_peekMessage (itf : MeshInterface) : itf.Quiet itf.peekMessage.1 := by
  obtain ⟨selector, h⟩ := itf.peekMessage_fst
  rw [h]
  exact ⟨rfl, rfl, fun type => by cases type <;> rfl⟩

theorem quiet_popFrontMessage (itf : MeshInterface) : itf.Quiet itf.popFrontMessage := by
  rw [popFrontMessage]
  split <;> exact ⟨rfl, rfl, fun type => by cases type <;> rfl⟩

theorem quiet_pushMessage2RX (itf : MeshInterface) (msg : BusMessage) :
    itf.Quiet ((itf.pushMessage2RX msg).getD itf) := by
  rw [pushMessage2RX]
  split <;> split_ifs <;> exact ⟨rfl, rfl, fun type => by cases type <;> rfl⟩

/-- A use that pushes nothing leaves the transmit side, but for a message that a link takes. -/
theorem exec_cases {use : Use} (hsent : itf.sent use = none) (h : itf.exec use = .ok itf') :
    itf.Quiet itf' ∨ ∃ type k i, itf' = itf.setTx type ((itf.tx type).modify k (·.eraseIdx i)) := by
  cases use with
  | push msg cycle => cases hsent
  | pass msg => cases hsent
  | take type k i =>
    cases h
    exact .inr ⟨type, k, i, rfl⟩
  | receive msg =>
    cases h
    exact .inl (quiet_pushMessage2RX itf msg)
  | peek =>
    cases h
    exact .inl (quiet_peekMessage itf)
  | pop =>
    cases h
    exact .inl (quiet_popFrontMessage itf)

end MeshInterface

end Octopus
