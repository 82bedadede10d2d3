import Octopus.Snoop.System

/-!
# The control skeleton of a snooping system

What the coherence of one line depends on: line states, parked requests, the owner the
last-level cache records, its queue, and who is addressed by each data message. Bytes, message
identifiers, processor requests and the controllers' side buffers are forgotten. A cell of a
table acts on the skeleton as a whole, not action by action.
-/

namespace Octopus.Snoop

/-- A bus request: its type and its owner. -/
structure Req where
  type : Nat
  owner : Nat
  deriving DecidableEq, Repr

/-- A private cache: the state of the line and the parked requests, oldest first. -/
structure Core (σ : Type) where
  state : σ
  saved : List Req
  deriving DecidableEq, Repr

/-- A data message on its way: its addressee, its owner, and whether it grants exclusiveness. -/
structure Supply where
  dest : Nat
  owner : Nat
  exclusive : Bool
  deriving DecidableEq, Repr

/-- A message the last-level cache queues. -/
inductive HomeMsg
  | request (r : Req)
  | data (owner : Nat)
  | fill (owner : Nat)
  | replacement
  deriving DecidableEq, Repr

/-- The last-level cache: the line's bits and location, and the owners of the pending reads. -/
structure Home (τ : Type) where
  state : τ
  owner : Option Nat
  location : Option LineLocation
  pending : List Nat
  deriving DecidableEq, Repr

/-- The skeleton of a system state. -/
structure Skeleton (n : Nat) (σ τ : Type) where
  core : Fin n → Core σ
  waiting : Fin n → List Req
  home : Home τ
  queue : List HomeMsg
  bus : List Req
  flight : List Supply
  memory : List Nat

/-- What a private cache emits: bus requests, data messages, and a request that must wait. -/
structure CoreOut where
  bus : List Req := []
  data : List Supply := []
  stalled : List Req := []
  deriving DecidableEq, Repr

/-- What the last-level cache emits: data responses, reads and invalidations. -/
structure HomeOut where
  data : List Supply := []
  memory : List Nat := []
  bus : List Req := []
  deriving DecidableEq, Repr

variable {σ τ : Type}

/-- Address one data message to a list of controllers. -/
def supplyTo (owner : Nat) (exclusive : Bool) (dests : List Nat) : List Supply :=
  dests.map fun dest => ⟨dest, owner, exclusive⟩

/-- The data messages of a `Data2Req` or `Data2Both` action of cache `self`. -/
def supplies (llc self : Nat) (both exclusive : Bool) (saved : List Req) (owner : Nat) : List Supply :=
  let direct : List Nat := if both then [llc] else []
  match saved with
  | [] => supplyTo owner exclusive (direct ++ [if owner = self then llc else owner])
  | first :: rest =>
    let copied := if !both && first.type == requestTypeGetS then direct ++ [llc] else direct
    supplyTo first.owner exclusive
      (copied ++ rest.map Req.owner ++ [if first.owner = self then llc else first.owner])

/-- The bus requests among the actions of a cell of cache `self`. -/
def busRequests (self : Nat) (actions : List ActionId) : List Req :=
  actions.filterMap fun
    | .getS => some ⟨requestTypeGetS, self⟩
    | .getM => some ⟨requestTypeGetM, self⟩
    | .putM => some ⟨requestTypePutM, self⟩
    | _ => none

/-- The parked requests after the actions of a cell. -/
def savedAfter (actions : List ActionId) (saved : List Req) (r : Req) : List Req :=
  if ActionId.saveReq ∈ actions then saved ++ [r]
  else if ActionId.data2Req ∈ actions ∨ ActionId.data2Both ∈ actions ∨ ActionId.removeSavedReq ∈ actions
  then []
  else saved

/-- Cache `self` takes a cell of its table for the request or data message `r`. -/
def Core.process (fsm : Fsm σ EventId ActionId) (llc self : Nat) (c : Core σ) (e : EventId) (r : Req)
    (exclusive : Bool) : Except Exit (Core σ × CoreOut) :=
  let actions := fsm.getActions c.state e
  if ActionId.fault ∈ actions then .error .fault
  else if ActionId.stall ∈ actions then .ok (c, { stalled := [r] })
  else
    .ok ({ state := fsm.getNextState c.state e, saved := savedAfter actions c.saved r },
      { bus := busRequests self actions
        data :=
          if ActionId.data2Req ∈ actions then supplies llc self false exclusive c.saved r.owner
          else if ActionId.data2Both ∈ actions then supplies llc self true exclusive c.saved r.owner
          else [] })

/-- The event a request is for cache `self`. -/
def Req.event (self : Nat) (r : Req) : Except Exit EventId :=
  if r.type = requestTypeGetS then .ok (if r.owner = self then .ownGetS else .otherGetS)
  else if r.type = requestTypeGetM then .ok (if r.owner = self then .ownGetM else .otherGetM)
  else if r.type = requestTypePutM then .ok (if r.owner = self then .ownPutM else .otherPutM)
  else if r.type = requestTypeInv then .ok .invalidation
  else .error .invalidTransaction

namespace HomeMsg

/-- The owner a message names. -/
def owner (llc : Nat) : HomeMsg → Nat
  | .request r => r.owner
  | .data o => o
  | .fill o => o
  | .replacement => llc

/-- Whether the per-line gate orders a message. -/
def isOrdered : HomeMsg → Bool
  | .request r => r.type == requestTypeGetS || r.type == requestTypeGetM || r.type == requestTypeInv
  | _ => false

/-- Whether a message carries data. -/
def hasData : HomeMsg → Bool
  | .data _ => true
  | .fill _ => true
  | _ => false

/-- Whether a message is main memory's answer to a read. -/
def isFill : HomeMsg → Bool
  | .fill _ => true
  | _ => false

end HomeMsg

namespace Home

/-- The event a message is for the last-level cache. -/
def event (llc : Nat) (h : Home τ) : HomeMsg → Except Exit LLCEventId
  | .data _ => .ok .dataFromLowerInterface
  | .fill _ => .ok .dataFromUpperInterface
  | .replacement => .ok .replacement
  | .request r =>
    if r.type = requestTypeGetS then .ok .getS
    else if r.type = requestTypeGetM then .ok .getM
    else if r.type = requestTypePutM then
      .ok (if r.owner = llc then .replacement
        else if some r.owner = h.owner then .putMFromOwner else .putMFromNonOwner)
    else if r.type = requestTypeInv ∧ r.owner = llc then .ok .ownInvalidation
    else .error .invalidTransaction

/-- The owner after the actions of a cell. -/
def ownerAfter (actions : List LLCActionId) (owner : Option Nat) (o : Nat) : Option Nat :=
  if LLCActionId.setOwner ∈ actions then some o
  else if LLCActionId.clearOwner ∈ actions then none
  else owner

/-- Where a line is after a transition to a valid state, with or without data written into it. -/
def locationAfter (location : Option LineLocation) (written : Bool) : Option LineLocation :=
  match location with
  | none => some .mshr
  | some .mshr => some (if written then .array else .mshr)
  | some l => some l

/-- Whether a cell answers a request with data. -/
def responds (actions : List LLCActionId) : Bool :=
  LLCActionId.sendData ∈ actions || LLCActionId.sendExeclusiveData ∈ actions

/-- The owners a cell answers: the requester, or for a fill every pending one. -/
def answered (actions : List LLCActionId) (m : HomeMsg) (o : Nat) (pending : List Nat) : List Nat :=
  if responds actions then if m.isFill then pending else [o] else []

/-- The pending owners after a cell. -/
def pendingAfter (actions : List LLCActionId) (m : HomeMsg) (o : Nat) (pending : List Nat) : List Nat :=
  if LLCActionId.getData ∈ actions then pending ++ [o]
  else if responds actions && m.isFill then []
  else pending

/-- The last-level cache takes a cell of its table for a message of owner `o`. -/
def take (fsm : Fsm τ LLCEventId LLCActionId) (llc : Nat) (h : Home τ) (m : HomeMsg) (e : LLCEventId)
    (o : Nat) : Except Exit (Home τ × HomeOut) :=
  let actions := fsm.getActions h.state e
  let next := fsm.getNextState h.state e
  if LLCActionId.fault ∈ actions then .error .fault
  else if LLCActionId.stall ∈ actions then .error .stall
  else
    .ok ({ state := next
           owner := if fsm.isValidState next then ownerAfter actions h.owner o else none
           location := if fsm.isValidState next then locationAfter h.location m.hasData else none
           pending := pendingAfter actions m o h.pending },
      { data :=
          (answered actions m o h.pending).map fun owner =>
            ⟨o, owner, decide (LLCActionId.sendExeclusiveData ∈ actions)⟩
        memory := if LLCActionId.getData ∈ actions then [o] else []
        bus := if LLCActionId.issueInv ∈ actions then [⟨requestTypeInv, llc⟩] else [] })

/-- The last-level cache processes a message. -/
def process (fsm : Fsm τ LLCEventId LLCActionId) (llc : Nat) (h : Home τ) (m : HomeMsg) :
    Except Exit (Home τ × HomeOut) :=
  match h.event llc m with
  | .error e => .error e
  | .ok e => h.take fsm llc m e (m.owner llc)

/-- Whether a message may be processed now: data always, anything else off the Stall cells. -/
def ready (fsm : Fsm τ LLCEventId LLCActionId) (llc : Nat) (h : Home τ) (m : HomeMsg) : Bool :=
  m.hasData ||
    match h.event llc m with
    | .error _ => true
    | .ok e => LLCActionId.stall ∉ fsm.getActions h.state e

/-- The first message of the queue that the gate and the Stall cells let through. -/
def firstReady (fsm : Fsm τ LLCEventId LLCActionId) (llc : Nat) (h : Home τ) (older : List HomeMsg) :
    List HomeMsg → Option (HomeMsg × List HomeMsg)
  | [] => none
  | m :: rest =>
    if (m.isOrdered && older.any HomeMsg.isOrdered) || !h.ready fsm llc m then
      h.firstReady fsm llc (older ++ [m]) rest
    else some (m, older ++ rest)

end Home

variable {n : Nat}

/-- What a private cache emits, put where it belongs. -/
def Skeleton.emitCore (s : Skeleton n σ τ) (i : Fin n) (out : CoreOut) : Skeleton n σ τ :=
  { s with
    waiting := Function.update s.waiting i (s.waiting i ++ out.stalled)
    bus := s.bus ++ out.bus
    flight := s.flight ++ out.data }

/-- What all private caches emit for one broadcast. -/
def Skeleton.emitAll (s : Skeleton n σ τ) (out : Fin n → CoreOut) : Skeleton n σ τ :=
  { s with
    waiting := fun i => s.waiting i ++ (out i).stalled
    bus := s.bus ++ (List.finRange n).flatMap fun i => (out i).bus
    flight := s.flight ++ (List.finRange n).flatMap fun i => (out i).data }

/-- What the last-level cache emits. -/
def Skeleton.emitHome (s : Skeleton n σ τ) (out : HomeOut) : Skeleton n σ τ :=
  { s with
    bus := s.bus ++ out.bus
    flight := s.flight ++ out.data
    memory := s.memory ++ out.memory }

/-- The tables of a system, and how a private cache reads data that may grant exclusiveness. -/
structure Tables (σ τ : Type) where
  l1 : Fsm σ EventId ActionId
  l1Initial : σ
  llc : Fsm τ LLCEventId LLCActionId
  llcInitial : τ
  /-- The event of a data message, and the mark it keeps when it is passed on. -/
  dataEvent : Bool → EventId × Bool

namespace Skeleton

variable (T : Tables σ τ) (llc : Nat)

/-- The last-level cache processes one message that it has taken from its queue. -/
def homeStep (s : Skeleton n σ τ) (m : HomeMsg) : Except Exit (Skeleton n σ τ) :=
  match s.home.process T.llc llc m with
  | .error e => .error e
  | .ok (h, out) => .ok ({ s with home := h }.emitHome out)

/-- The last-level cache processes ready messages until none is left. -/
def drain : Nat → Skeleton n σ τ → Except Exit (Skeleton n σ τ)
  | 0, s => .ok s
  | fuel + 1, s =>
    match s.home.firstReady T.llc llc [] s.queue with
    | none => .ok s
    | some (m, queue) =>
      match homeStep T llc { s with queue := queue } m with
      | .error e => .error e
      | .ok s' => drain fuel s'

/-- The last-level cache works on a queue. -/
def drainQueue (s : Skeleton n σ τ) (queue : List HomeMsg) : Except Exit (Skeleton n σ τ) :=
  drain T llc (queue.length + 1) { s with queue := queue }

/-- The position behind the last fill of a queue. -/
def behindFill : List HomeMsg → Nat
  | [] => 0
  | m :: rest =>
    match behindFill rest with
    | 0 => if m.isFill then 1 else 0
    | k + 1 => k + 2

/-- Private cache `i` takes a cell of its table. -/
def runCore (s : Skeleton n σ τ) (i : Fin n) (e : EventId) (r : Req) (exclusive : Bool) :
    Except Exit (Skeleton n σ τ) :=
  match (s.core i).process T.l1 llc i e r exclusive with
  | .error e => .error e
  | .ok (c, out) => .ok ({ s with core := Function.update s.core i c }.emitCore i out)

/-- What a private cache makes of a broadcast request. -/
def snoop (s : Skeleton n σ τ) (r : Req) (i : Fin n) : Except Exit (Core σ × CoreOut) :=
  match r.event i with
  | .error e => .error e
  | .ok e => (s.core i).process T.l1 llc i e r (r.type == 2)

/-- A broadcast: every private cache takes a cell, then the last-level cache drains its queue. -/
def broadcast (s : Skeleton n σ τ) (r : Req) : Except Exit (Skeleton n σ τ) :=
  match Lib.sequence (s.snoop T llc r) with
  | .error e => .error e
  | .ok results =>
    let s' := { s with core := fun i => (results i).1 }.emitAll fun i => (results i).2
    s'.drainQueue T llc (s'.queue ++ [.request r])

end Skeleton

/-- The events of a processor request and of a replacement. -/
def requestEvents : List EventId := [.load, .store, .replacement]

/-- The steps of the skeleton. -/
inductive SkeletonLabel (n : Nat)
  | core (i : Fin n) (e : EventId)
  | evict
  | grant (k : Nat)
  | retry (i : Fin n) (k : Nat)
  | deliver (k : Nat)
  | fill (k : Nat)

/-- One step of the skeleton; `none` where the label is not enabled. -/
def Skeleton.step (T : Tables σ τ) (llc : Nat) (s : Skeleton n σ τ) :
    SkeletonLabel n → Option (Except Exit (Skeleton n σ τ))
  | .core i e =>
    if e ∈ requestEvents ∧ ActionId.stall ∉ T.l1.getActions (s.core i).state e then
      some (s.runCore T llc i e ⟨if e = .store then 1 else 0, i⟩ false)
    else none
  | .evict =>
    if s.home.location = some .array then
      some ({ s with home := { s.home with location := some .pwb } }.drainQueue T llc
        (s.queue ++ [HomeMsg.replacement]))
    else none
  | .grant k =>
    match s.bus[k]? with
    | some r => some ({ s with bus := s.bus.eraseIdx k }.broadcast T llc r)
    | none => none
  | .retry i k =>
    match (s.waiting i)[k]? with
    | some r =>
      match r.event i with
      | .error _ => none
      | .ok e =>
        if ActionId.stall ∈ T.l1.getActions (s.core i).state e then none
        else
          some ({ s with waiting := Function.update s.waiting i ((s.waiting i).eraseIdx k) }.runCore T
            llc i e r (r.type == 2))
    | none => none
  | .deliver k =>
    match s.flight[k]? with
    | some f =>
      let s' := { s with flight := s.flight.eraseIdx k }
      if f.dest = llc then some (s'.drainQueue T llc (s.queue ++ [HomeMsg.data f.owner]))
      else if h : f.dest < n then
        let read := T.dataEvent f.exclusive
        some (s'.runCore T llc ⟨f.dest, h⟩ read.1 ⟨0, f.owner⟩ read.2)
      else none
    | none => none
  | .fill k =>
    match s.memory[k]? with
    | some o =>
      let pos := Skeleton.behindFill s.queue
      some ({ s with memory := s.memory.eraseIdx k }.drainQueue T llc
        (s.queue.take pos ++ HomeMsg.fill o :: s.queue.drop pos))
    | none => none

/-- The first skeleton. -/
def Skeleton.initial (T : Tables σ τ) (n : Nat) : Skeleton n σ τ where
  core _ := ⟨T.l1Initial, []⟩
  waiting _ := []
  home := ⟨T.llcInitial, none, none, []⟩
  queue := []
  bus := []
  flight := []
  memory := []

/-- The runs of the skeleton. -/
def skeletonSystem (T : Tables σ τ) (n llc : Nat) :
    Lib.TransitionSystem (Skeleton n σ τ) (SkeletonLabel n) where
  init s := s = .initial T n
  step s l s' := s.step T llc l = some (.ok s')

end Octopus.Snoop
