import Octopus.LineController

/-!
# The controller actions under a directory

`CacheControllerDirectory` adds to a controller the sharer lists of a home and the counters of a
private cache that collects acknowledgements. For one line there is one list and one counter; either
may be absent from its map. The other actions are those of `CacheController`.
-/

namespace Octopus

/-- The actions a directory protocol hands to its controller. -/
inductive DirectoryAction (σ : Type)
  | base (action : ControllerAction σ)
  | setACKNumber (msg : Message)
  | decrementACK (msg : Message)
  | incrementSharers (msg : Message)
  | decrementSharers (msg : Message)
  | setSharers (msg : Message)
  | sendForwardMessage (msg : Message)
  | removePendingNoResponse (msg : Message)

/-- What a directory controller keeps for one line. -/
structure DirectoryController (σ : Type) where
  line : LineController σ := {}
  /-- The entry of `m_sharers`. -/
  sharers : Option (List Nat) := none
  /-- The entry of `m_ack_counters`. -/
  ackCounter : Option Int := none
  deriving DecidableEq, Repr

namespace DirectoryController

variable {σ : Type}

/-- The outcome of an action: the controller and what was emitted, or an exit. -/
abbrev Result (σ : Type) := Except Exit (DirectoryController σ × List Emission)

/-- An acknowledgement counter after an update; the entry of a counter at zero is erased. -/
def settle (count : Int) : Option Int := if count = 0 then none else some count

/-- `setACKNumber`: add the count that a message carries. -/
def setACKNumber (c : DirectoryController σ) (msg : Message) : DirectoryController σ :=
  { c with ackCounter := settle (c.ackCounter.getD 0 + msg.complementaryValue) }

/-- `decrementACK`: one acknowledgement has come. -/
def decrementACK (c : DirectoryController σ) : DirectoryController σ :=
  { c with ackCounter := settle (c.ackCounter.getD 0 - 1) }

/-- `incrementSharers`: the requester becomes the last sharer. -/
def incrementSharers (c : DirectoryController σ) (msg : Message) : DirectoryController σ :=
  { c with sharers := some (c.sharers.getD [] ++ [msg.owner]) }

/-- `decrementSharers`: the first entry of the sender leaves; looking for it makes an entry for the line. -/
def decrementSharers (c : DirectoryController σ) (msg : Message) : DirectoryController σ :=
  let list := c.sharers.getD []
  if msg.owner ∈ list then
    { c with sharers := if (list.erase msg.owner).length = 0 then none else some (list.erase msg.owner) }
  else { c with sharers := some list }

/-- `setSharers`: the requester becomes the only sharer. -/
def setSharers (c : DirectoryController σ) (msg : Message) : DirectoryController σ :=
  { c with sharers := some [msg.owner] }

@[simp] theorem setACKNumber_line (c : DirectoryController σ) (msg : Message) : (c.setACKNumber msg).line = c.line :=
  rfl

@[simp] theorem decrementACK_line (c : DirectoryController σ) : c.decrementACK.line = c.line := rfl

@[simp] theorem incrementSharers_line (c : DirectoryController σ) (msg : Message) :
    (c.incrementSharers msg).line = c.line := rfl

@[simp] theorem decrementSharers_line (c : DirectoryController σ) (msg : Message) :
    (c.decrementSharers msg).line = c.line := by
  simp only [decrementSharers, apply_ite DirectoryController.line, ite_self]

@[simp] theorem setSharers_line (c : DirectoryController σ) (msg : Message) : (c.setSharers msg).line = c.line := rfl

/-- `sendForwardMessage`: a message for nobody is not sent. -/
def sendForwardMessage (c : DirectoryController σ) (msg : Message) : Result σ :=
  .ok (c, if msg.toIds = [] then [] else [⟨.lower, .serviceRequest, msg⟩])

/-- `removePendingNoResponse`: the pending requests of the line are dropped. -/
def removePendingNoResponse (c : DirectoryController σ) : Result σ :=
  if c.line.pending = [] then .error .noPending
  else .ok ({ c with line := { c.line with pending := [] } }, [])

/-- Carry out one controller action. -/
def execAction (cfg : ControllerConfig) (c : DirectoryController σ) : DirectoryAction σ → Result σ
  | .base a => (c.line.execAction cfg a).map fun r => ({ c with line := r.1 }, r.2)
  | .setACKNumber msg => .ok (c.setACKNumber msg, [])
  | .decrementACK _ => .ok (c.decrementACK, [])
  | .incrementSharers msg => .ok (c.incrementSharers msg, [])
  | .decrementSharers msg => .ok (c.decrementSharers msg, [])
  | .setSharers msg => .ok (c.setSharers msg, [])
  | .sendForwardMessage msg => c.sendForwardMessage msg
  | .removePendingNoResponse _ => c.removePendingNoResponse

/-- Carry out a list of controller actions in order, collecting what they emit. -/
def execActions (cfg : ControllerConfig) (c : DirectoryController σ) : List (DirectoryAction σ) → Result σ
  | [] => .ok (c, [])
  | a :: rest =>
    match c.execAction cfg a with
    | .error e => .error e
    | .ok (c', out) =>
      match c'.execActions cfg rest with
      | .error e => .error e
      | .ok (c'', out') => .ok (c'', out ++ out')

end DirectoryController

end Octopus
