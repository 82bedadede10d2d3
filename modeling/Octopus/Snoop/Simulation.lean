import Octopus.Snoop.HomeSimulation

/-!
# The snooping system refines its skeleton

Every step of a snooping system, from a reachable state, is a step of the skeleton, and a step
that ends in a Fault cell is a fault of the skeleton. What carries the argument is that messages
and lines have the bytes they should have.
-/

namespace Octopus.Snoop

open LineController

variable {t : Topology} {σ τ : Type}

/-- The tables of two protocols, with the way private caches read data. -/
structure Lawful (P : Protocols σ τ) (holds : σ → Bool) (llcHolds : τ → Bool) where
  l1 : LawfulL1 P.l1 holds
  llc : LawfulLLC P.llc llcHolds
  dataEvent : Bool → EventId × Bool
  /-- How data is read, mark included. -/
  readEvent_data : ∀ id msg, msg.source = .upperInterconnect → msg.data.isSome →
    ∃ msg', P.l1.readEvent id msg = .ok ((dataEvent (msg.complementaryValue == 2)).1, msg') ∧
      (msg'.complementaryValue == 2) = (dataEvent (msg.complementaryValue == 2)).2 ∧
      msg'.data = msg.data ∧ msg'.dataSize = msg.dataSize ∧ msg'.owner = msg.owner
  dataEvent_isData : ∀ x, isDataEvent (dataEvent x).1
  /-- Data is never parked and never stalls. -/
  data_row : ∀ s x, ActionId.saveReq ∉ P.l1.fsm.getActions s (dataEvent x).1 ∧
    ActionId.stall ∉ P.l1.fsm.getActions s (dataEvent x).1
  /-- Processor requests and replacements are never parked. -/
  core_row : ∀ s e, e = .load ∨ e = .store ∨ e = .replacement →
    ActionId.saveReq ∉ P.l1.fsm.getActions s e ∧ ActionId.data2Req ∉ P.l1.fsm.getActions s e ∧
      ActionId.data2Both ∉ P.l1.fsm.getActions s e

/-- The tables of lawful protocols. -/
def Lawful.tables {P : Protocols σ τ} {holds : σ → Bool} {llcHolds : τ → Bool}
    (hP : Lawful P holds llcHolds) : Tables σ τ where
  l1 := P.l1.fsm
  l1Initial := P.l1.initial
  llc := P.llc.fsm
  llcInitial := P.llc.initial
  dataEvent := hP.dataEvent

/-- The skeleton of the last-level cache's queue. -/
abbrev absQueue (buffer : List FRFCFSBuffer.Element) : List HomeMsg :=
  buffer.map fun e => absHomeMsg e.item

/-- The skeleton of a state. -/
def abs (P : Protocols σ τ) (s : System t σ τ) : Skeleton t.n σ τ where
  core i := absCore P.l1.initial (s.l1 i)
  waiting i := (s.waiting i).map reqOf
  home := absHome P.llc.initial s.llc
  queue := absQueue s.queue.buffer
  bus := s.bus.map reqOf
  flight := s.flight.map absFlight
  memory := s.memory.map Message.owner

/-- The skeleton of a label. -/
def absLabel : Label t.n → SkeletonLabel t.n
  | .load i _ => .core i .load
  | .store i _ _ => .core i .store
  | .replacement i => .core i .replacement
  | .evict => .evict
  | .grant k => .grant k
  | .retry i k => .retry i k
  | .deliver k => .deliver k
  | .fill k => .fill k

/-- A queued element is well formed, and only data is marked ready. -/
structure ElementOk (t : Topology) (e : FRFCFSBuffer.Element) : Prop where
  item : HomeMsgOk t e.item
  state : e.state = .ready → e.item.data.isSome

/-- Messages and lines have the bytes they should have. -/
structure System.Ok (P : Protocols σ τ) (holds : σ → Bool) (llcHolds : τ → Bool) (s : System t σ τ) :
    Prop where
  core : ∀ i, holds (absCore P.l1.initial (s.l1 i)).state → (s.l1 i).slot.readCacheLine.isSome
  home : llcHolds (absHome P.llc.initial s.llc).state → s.llc.slot.readCacheLine.isSome
  waiting : ∀ i, ∀ m ∈ s.waiting i, m.data = none ∧ m.source = .upperInterconnect
  queue : ∀ e ∈ s.queue.buffer, ElementOk t e
  bus : ∀ m ∈ s.bus, m.data = none
  flight : ∀ f ∈ s.flight, f.msg.data.isSome ∧ t.blockSize ≤ f.msg.dataSize
  maxSize : s.queue.maxSize = none

/-- The gate orders a message as it orders its skeleton. -/
theorem isOrdered_abs {msg : Message} (h : HomeMsgOk t msg) :
    (absHomeMsg msg).isOrdered = msg.isOrdered := by
  rw [absHomeMsg]
  cases hdata : msg.data with
  | some bytes =>
    rw [Message.isOrdered_eq_false_of_data (by simp [hdata])]
    split <;> simp [HomeMsg.isOrdered]
  | none =>
    cases hs : msg.source with
    | upperInterconnect => exact absurd (h.upper hs).1 (by simp [hdata])
    | self =>
      simp [HomeMsg.isOrdered, Message.isOrdered, Message.isDemandRequest, Message.isInvalidation, hs,
        (h.self hs).2.2]
    | lowerInterconnect =>
      simp [HomeMsg.isOrdered, Message.isOrdered, Message.isDemandRequest, Message.isInvalidation, hs,
        hdata, reqOf, requestTypeGetS, requestTypeGetM, requestTypeInv]

/-- A message has data exactly when its skeleton does. -/
theorem hasData_abs {msg : Message} (h : HomeMsgOk t msg) : (absHomeMsg msg).hasData = msg.data.isSome := by
  rw [absHomeMsg]
  split
  · next hs => simp [HomeMsg.hasData, (h.self hs).1]
  · next hs => simp [HomeMsg.hasData, (h.upper hs).1]
  · split <;> simp_all [HomeMsg.hasData]

/-- The readiness of a message in a scan of the last-level cache's queue. -/
theorem checkState_abs {P : LLCProtocol τ} (c : LineController τ) {msg : Message} (h : HomeMsgOk t msg)
    (state : FRFCFSState) :
    (llcScan P t.llcConfig c).checkState msg state =
      (if (absHome P.initial c).ready P.fsm t.llcId (absHomeMsg msg) then .ready else .nonReady, msg) := by
  have hevent := readEvent_abs P.initial c h
  simp only [llcScan, LLCProtocol.getRequestState, Home.ready, hasData_abs h, hevent,
    Topology.llcConfig]
  cases LLCMSIProtocol.readEvent t.llcId (c.slot.readLineBits P.initial) msg with
  | error e => simp
  | ok o =>
    cases o with
    | none => simp
    | some e =>
      by_cases hstall : LLCActionId.stall ∈
          P.fsm.getActions (c.slot.readLineBits P.initial).state e <;>
        cases msg.data.isSome <;> simp [Fsm.hasAction, absHome, hstall]

/-- A scan of the last-level cache's queue finds what the skeleton's scan finds. -/
theorem firstReady_abs {P : LLCProtocol τ} (c : LineController τ)
    (older : List FRFCFSBuffer.Element) {buf : List FRFCFSBuffer.Element} (holder : ∀ e ∈ older, ElementOk t e)
    (hbuf : ∀ e ∈ buf, ElementOk t e) :
    let found := FRFCFSBuffer.firstReady (llcScan P t.llcConfig c) older buf
    (∀ e ∈ found.2, ElementOk t e) ∧
      match found.1 with
      | some msg => HomeMsgOk t msg ∧
        (absHome P.initial c).firstReady P.fsm t.llcId (absQueue older) (absQueue buf) =
          some (absHomeMsg msg, absQueue found.2)
      | none =>
        absQueue found.2 = absQueue (older ++ buf) ∧
        (absHome P.initial c).firstReady P.fsm t.llcId (absQueue older) (absQueue buf) = none := by
  induction buf generalizing older with
  | nil => exact ⟨holder, by simp [FRFCFSBuffer.firstReady, Home.firstReady]⟩
  | cons e rest ih =>
    have he := hbuf e List.mem_cons_self
    have hrest : ∀ x ∈ rest, ElementOk t x := fun x hx => hbuf x (List.mem_cons_of_mem e hx)
    have hgate : FRFCFSBuffer.gated (llcScan P t.llcConfig c) older e.item =
        ((absHomeMsg e.item).isOrdered && (absQueue older).any HomeMsg.isOrdered) := by
      rw [FRFCFSBuffer.gated, isOrdered_abs he.item, List.any_map]
      congr 1
      rw [Bool.eq_iff_iff]
      simp only [List.any_eq_true]
      exact exists_congr fun x => and_congr_right fun hx => by
        simp [isOrdered_abs (holder x hx).item, llcScan]
    have hstep : ∀ x : FRFCFSBuffer.Element, x.item = e.item → ElementOk t x →
        ∀ y ∈ older ++ [x], ElementOk t y := by
      intro x _ hx y hy
      rcases List.mem_append.1 hy with hy | hy
      · exact holder y hy
      · rwa [List.mem_singleton.1 hy]
    have hfound : ∀ y, y ∈ older ∨ y ∈ rest → ElementOk t y := fun y hy => hy.elim (holder y) (hrest y)
    have hhold : (llcScan P t.llcConfig c).hold e.item = false := rfl
    rw [FRFCFSBuffer.firstReady, absQueue, absQueue, List.map_cons, Home.firstReady, ← hgate]
    cases hg : FRFCFSBuffer.gated (llcScan P t.llcConfig c) older e.item with
    | true => simpa [hg, hhold] using ih (older ++ [e]) (hstep e rfl he) hrest
    | false =>
      by_cases hready : e.state = .ready
      · have hr : (absHome P.initial c).ready P.fsm t.llcId (absHomeMsg e.item) = true := by
          simp [Home.ready, hasData_abs he.item, he.state hready]
        simpa [hr, hready, hhold] using ⟨hfound, he.item⟩
      · have hc := checkState_abs (P := P) c he.item e.state
        cases hr : (absHome P.initial c).ready P.fsm t.llcId (absHomeMsg e.item) with
        | true =>
          rw [hr] at hc
          simpa [hr, hready, hc, hhold] using ⟨hfound, he.item⟩
        | false =>
          rw [hr] at hc
          have hnew : ElementOk t ⟨e.item, .nonReady⟩ := ⟨he.item, fun h => by simp at h⟩
          simpa [hr, hready, hc, hhold] using ih (older ++ [⟨e.item, .nonReady⟩]) (hstep _ rfl hnew) hrest

/-- `getFirstReady` on a queue marked dirty takes what the skeleton's scan finds. -/
theorem getFirstReady_abs {P : LLCProtocol τ} (c : LineController τ) {q q' : FRFCFSBuffer}
    {o : Option Message} (hq : ∀ e ∈ q.buffer, ElementOk t e) (hdirty : q.dirty = true)
    (h : q.getFirstReady (llcScan P t.llcConfig c) = (o, q')) :
    (∀ e ∈ q'.buffer, ElementOk t e) ∧ q'.maxSize = q.maxSize ∧
      match o with
      | some msg => q'.dirty = true ∧ HomeMsgOk t msg ∧
        (absHome P.initial c).firstReady P.fsm t.llcId [] (absQueue q.buffer) =
          some (absHomeMsg msg, absQueue q'.buffer)
      | none => absQueue q'.buffer = absQueue q.buffer ∧
        (absHome P.initial c).firstReady P.fsm t.llcId [] (absQueue q.buffer) = none := by
  obtain ⟨hrest, hfound⟩ := firstReady_abs (P := P) c [] (by simp) hq
  rw [FRFCFSBuffer.getFirstReady] at h
  simp only [hdirty, Bool.not_true, Bool.and_false, Bool.false_eq_true, if_false] at h
  generalize FRFCFSBuffer.firstReady (llcScan P t.llcConfig c) [] q.buffer = found at hrest hfound h
  obtain ⟨_ | msg, buffer⟩ := found
  · obtain ⟨rfl, rfl⟩ := Prod.mk.inj h
    exact ⟨hrest, rfl, by simpa using hfound.1, hfound.2⟩
  · obtain ⟨rfl, rfl⟩ := Prod.mk.inj h
    exact ⟨hrest, rfl, by simp, hfound.1, hfound.2⟩

/-- Emissions one after the other. -/
theorem emitHome_append {n : Nat} (s : Skeleton n σ τ) (o o' : HomeOut) :
    (s.emitHome o).emitHome o' = s.emitHome (o.append o') := by
  simp [Skeleton.emitHome, HomeOut.append]

/-- Draining the queue of the last-level cache drains the skeleton's queue. -/
theorem drain_abs {P : Protocols σ τ} {holds : σ → Bool} {llcHolds : τ → Bool}
    (hP : Lawful P holds llcHolds) {fuel : Nat} {c c' : LineController τ} {q q' : FRFCFSBuffer}
    {out : List Emission} (hq : ∀ e ∈ q.buffer, ElementOk t e) (hdirty : q.dirty = true)
    (hc : llcHolds (absHome P.llc.initial c).state → c.slot.readCacheLine.isSome)
    (h : drain P.llc t.llcConfig fuel c q = .ok (c', q', out)) (s : Skeleton t.n σ τ)
    (hhome : s.home = absHome P.llc.initial c) (hqueue : s.queue = absQueue q.buffer) :
    s.drain hP.tables t.llcId fuel =
        .ok ({ s with home := absHome P.llc.initial c', queue := absQueue q'.buffer }.emitHome
          (absHomeOut out)) ∧
      (llcHolds (absHome P.llc.initial c').state → c'.slot.readCacheLine.isSome) ∧
      (∀ e ∈ q'.buffer, ElementOk t e) ∧ (∀ e ∈ out, HomeEmissionOk t e) ∧ q'.maxSize = q.maxSize := by
  induction fuel generalizing c q out s with
  | zero =>
    obtain ⟨rfl, rfl, rfl⟩ : c = c' ∧ q = q' ∧ [] = out := by simpa [drain] using h
    refine ⟨?_, hc, hq, by simp, rfl⟩
    simp [Skeleton.drain, Skeleton.emitHome, absHomeOut, emitted, flights, ← hhome, ← hqueue]
  | succ fuel ih =>
    rw [drain] at h
    rw [Skeleton.drain, hhome, hqueue]
    split at h
    · next q₁ hfirst =>
      obtain ⟨rfl, rfl, rfl⟩ : c = c' ∧ q₁ = q' ∧ [] = out := by simpa using h
      obtain ⟨hok, hmax, hbuf, hnone⟩ := getFirstReady_abs c hq hdirty hfirst
      refine ⟨?_, hc, hok, by simp, hmax⟩
      simp only [Lawful.tables, hnone]
      simp [Skeleton.emitHome, absHomeOut, emitted, flights, ← hhome, hbuf, ← hqueue]
    · next msg q₁ hfirst =>
      obtain ⟨hok, hmax, hdirty₁, hmsg, hsome⟩ := getFirstReady_abs c hq hdirty hfirst
      split at h
      · simp at h
      · next c₁ out₁ hprocess =>
        split at h
        · simp at h
        · next c₂ q₂ out₂ hdrain =>
          obtain ⟨rfl, rfl, rfl⟩ : c₂ = c' ∧ q₂ = q' ∧ out₁ ++ out₂ = out := by simpa using h
          obtain ⟨habs, hbytes, hem⟩ := llcProcess_abs hP.llc hmsg hc hprocess
          obtain ⟨hskel, hbytes₂, hok₂, hem₂, hmax₂⟩ := ih hok hdirty₁ hbytes hdrain
            ({ s with home := absHome P.llc.initial c₁, queue := absQueue q₁.buffer }.emitHome
              (absHomeOut out₁)) rfl rfl
          refine ⟨?_, hbytes₂, hok₂, fun e he => (List.mem_append.1 he).elim (hem e) (hem₂ e),
            hmax₂.trans hmax⟩
          simp only [Lawful.tables, hsome, Skeleton.homeStep, habs]
          simp only [Lawful.tables] at hskel
          rw [hskel, absHomeOut_append, ← emitHome_append]
          rfl

/-- A fault while the last-level cache drains its queue is a fault of the skeleton. -/
theorem drain_abs_fault {P : Protocols σ τ} {holds : σ → Bool} {llcHolds : τ → Bool}
    (hP : Lawful P holds llcHolds) {fuel : Nat} {c : LineController τ} {q : FRFCFSBuffer}
    (hq : ∀ e ∈ q.buffer, ElementOk t e) (hdirty : q.dirty = true)
    (hc : llcHolds (absHome P.llc.initial c).state → c.slot.readCacheLine.isSome)
    (h : drain P.llc t.llcConfig fuel c q = .error .fault) (s : Skeleton t.n σ τ)
    (hhome : s.home = absHome P.llc.initial c) (hqueue : s.queue = absQueue q.buffer) :
    s.drain hP.tables t.llcId fuel = .error .fault := by
  induction fuel generalizing c q s with
  | zero => simp [drain] at h
  | succ fuel ih =>
    rw [drain] at h
    rw [Skeleton.drain, hhome, hqueue]
    split at h
    · simp at h
    · next msg q₁ hfirst =>
      obtain ⟨hok, hmax, hdirty₁, hmsg, hsome⟩ := getFirstReady_abs c hq hdirty hfirst
      simp only [Lawful.tables, hsome, Skeleton.homeStep]
      split at h
      · next e hprocess =>
        obtain rfl : e = .fault := by simpa using h
        rw [llcProcess_abs_fault hP.llc hmsg hprocess]
      · next c₁ out₁ hprocess =>
        obtain ⟨habs, hbytes, -⟩ := llcProcess_abs hP.llc hmsg hc hprocess
        rw [habs]
        split at h
        · next e hdrain =>
          obtain rfl : e = .fault := by simpa using h
          exact ih hok hdirty₁ hbytes hdrain
            ({ s with home := absHome P.llc.initial c₁, queue := absQueue q₁.buffer }.emitHome
              (absHomeOut out₁)) rfl rfl
        · simp at h

/-- The skeleton of what the last-level cache emits. -/
theorem abs_emitLLC {P : Protocols σ τ} (s : System t σ τ) (out : List Emission) :
    abs P (s.emitLLC out) = (abs P s).emitHome (absHomeOut out) := by
  simp [abs, System.emitLLC, Skeleton.emitHome, absHomeOut]

/-- Every delivery of well-formed messages is well formed. -/
theorem flights_ok {p : Message → Prop} {msgs : List Message} (h : ∀ m ∈ msgs, p m) :
    ∀ f ∈ flights msgs, p f.msg := by
  intro f hf
  obtain ⟨m, hm, hf⟩ := List.mem_flatMap.1 hf
  obtain ⟨d, -, rfl⟩ := List.mem_map.1 hf
  exact h m hm

/-- What is emitted on a port and channel inherits what holds of its emissions. -/
theorem emitted_ok {p : Message → Prop} {port : Port} {type : MessageType} {out : List Emission}
    (h : ∀ e ∈ out, e.port = port → e.type = type → p e.msg) : ∀ m ∈ emitted port type out, p m := by
  intro m hm
  obtain ⟨e, he, hsome⟩ := List.mem_filterMap.1 hm
  split at hsome
  · next hcond =>
    obtain rfl := Option.some.inj hsome
    exact h e he hcond.1 hcond.2
  · simp at hsome

section Steps

variable {P : Protocols σ τ} {holds : σ → Bool} {llcHolds : τ → Bool} (hP : Lawful P holds llcHolds)
  {s s' : System t σ τ}

include hP

/-- Draining a queue in a well-formed state. -/
theorem drainLLC_abs (hs : s.Ok P holds llcHolds) {q : FRFCFSBuffer}
    (hq : ∀ e ∈ q.buffer, ElementOk t e) (hdirty : q.dirty = true) (hmax : q.maxSize = none)
    (h : s.drainLLC P.llc q = .ok s') :
    s'.Ok P holds llcHolds ∧
      (abs P s).drainQueue hP.tables t.llcId (absQueue q.buffer) = .ok (abs P s') := by
  rw [System.drainLLC] at h
  split at h
  · simp at h
  · next c q' out hdrain =>
    obtain rfl := Except.ok.inj h
    obtain ⟨habs, hbytes, hok, hem, hmax'⟩ := drain_abs hP hq hdirty hs.home hdrain
      { abs P s with queue := absQueue q.buffer } rfl rfl
    refine ⟨⟨hs.core, hbytes, hs.waiting, hok, ?_, ?_, hmax'.trans hmax⟩, ?_⟩
    · intro m hm
      rcases List.mem_append.1 hm with hm | hm
      · exact hs.bus m hm
      · exact emitted_ok (p := fun m => m.data = none) (fun e he => (hem e he).2) m hm
    · intro f hf
      rcases List.mem_append.1 hf with hf | hf
      · exact hs.flight f hf
      · exact flights_ok (p := fun m => m.data.isSome ∧ t.blockSize ≤ m.dataSize)
          (emitted_ok fun e he => (hem e he).1) f hf
    · rw [Skeleton.drainQueue, abs_emitLLC]
      simpa [abs] using habs

/-- A fault while the queue is drained. -/
theorem drainLLC_abs_fault (hs : s.Ok P holds llcHolds) {q : FRFCFSBuffer}
    (hq : ∀ e ∈ q.buffer, ElementOk t e) (hdirty : q.dirty = true)
    (h : s.drainLLC P.llc q = .error .fault) :
    (abs P s).drainQueue hP.tables t.llcId (absQueue q.buffer) = .error .fault := by
  rw [System.drainLLC] at h
  split at h
  · next e hdrain =>
    obtain rfl : e = .fault := by simpa using h
    simpa [Skeleton.drainQueue] using drain_abs_fault hP hq hdirty hs.home hdrain
      { abs P s with queue := absQueue q.buffer } rfl rfl
  · simp at h

/-- A message that enters the last-level cache from below. -/
theorem receiveLLC_abs (hs : s.Ok P holds llcHolds) {msg : Message} (hmsg : HomeMsgOk t msg)
    (h : s.receiveLLC P.llc msg = .ok s') :
    s'.Ok P holds llcHolds ∧
      (abs P s).drainQueue hP.tables t.llcId ((abs P s).queue ++ [absHomeMsg msg]) = .ok (abs P s') := by
  rw [System.receiveLLC, FRFCFSBuffer.pushBack] at h
  simp only [Bool.not_true, Bool.false_and, Bool.false_eq_true, if_false] at h
  have hq : ∀ e ∈ s.queue.buffer ++ [⟨msg, .nonReady⟩], ElementOk t e := by
    intro e he
    rcases List.mem_append.1 he with he | he
    · exact hs.queue e he
    · rw [List.mem_singleton.1 he]
      exact ⟨hmsg, fun h => by simp at h⟩
  simpa [abs] using drainLLC_abs hP hs
    (q := { s.queue with buffer := s.queue.buffer ++ [⟨msg, .nonReady⟩], dirty := true }) hq rfl hs.maxSize h

/-- A fault after a message has entered the last-level cache from below. -/
theorem receiveLLC_abs_fault (hs : s.Ok P holds llcHolds) {msg : Message} (hmsg : HomeMsgOk t msg)
    (h : s.receiveLLC P.llc msg = .error .fault) :
    (abs P s).drainQueue hP.tables t.llcId ((abs P s).queue ++ [absHomeMsg msg]) = .error .fault := by
  rw [System.receiveLLC, FRFCFSBuffer.pushBack] at h
  simp only [Bool.not_true, Bool.false_and, Bool.false_eq_true, if_false] at h
  have hq : ∀ e ∈ s.queue.buffer ++ [⟨msg, .nonReady⟩], ElementOk t e := by
    intro e he
    rcases List.mem_append.1 he with he | he
    · exact hs.queue e he
    · rw [List.mem_singleton.1 he]
      exact ⟨hmsg, fun h => by simp at h⟩
  simpa [abs] using drainLLC_abs_fault hP hs
    (q := { s.queue with buffer := s.queue.buffer ++ [⟨msg, .nonReady⟩], dirty := true }) hq rfl h

/-- What a message read by private cache `i` must satisfy for its row to be that of the skeleton. -/
structure CoreMsgOk (state : σ) (i : Fin t.n) (msg msg' : Message) (e : EventId) : Prop where
  read : P.l1.readEvent i msg = .ok (e, msg')
  data : isDataEvent e → msg'.data.isSome ∧ t.blockSize ≤ msg'.dataSize
  other : isDataEvent e = false → ∀ s, P.l1.fsm.hasAction s e .data2Req ∨
    P.l1.fsm.hasAction s e .data2Both → msg'.data = none
  stalled : ActionId.stall ∈ P.l1.fsm.getActions state e →
    msg'.data = none ∧ msg'.source = .upperInterconnect

omit hP in
/-- The skeleton of what one private cache emits. -/
theorem abs_emitL1 (s : System t σ τ) (i : Fin t.n) (out : List Emission) :
    abs P (s.emitL1 i out) = (abs P s).emitCore i (absCoreOut out) := by
  simp only [abs, System.emitL1, Skeleton.emitCore, absCoreOut, Skeleton.mk.injEq, List.map_append,
    true_and, and_true]
  funext j
  by_cases hj : j = i
  · subst hj
    simp
  · simp [hj]

omit hP in
/-- What a private cache emits keeps the state well formed. -/
theorem emitL1_ok (hs : s.Ok P holds llcHolds) {i : Fin t.n} {out : List Emission}
    (hem : ∀ e ∈ out, EmissionOk t.blockSize e)
    (hstalled : ∀ m ∈ emitted .processingQueue .request out,
      m.data = none ∧ m.source = .upperInterconnect) : (s.emitL1 i out).Ok P holds llcHolds where
  core := hs.core
  home := hs.home
  waiting j m hm := by
    by_cases hj : j = i
    · subst hj
      simp only [System.emitL1, Function.update_self, List.mem_append] at hm
      exact hm.elim (hs.waiting j m) (hstalled m)
    · exact hs.waiting j m (by simpa [System.emitL1, hj] using hm)
  queue := hs.queue
  bus m hm := by
    rcases List.mem_append.1 hm with hm | hm
    · exact hs.bus m hm
    · exact emitted_ok (p := fun m => m.data = none) (fun e he => (hem e he).2) m hm
  flight f hf := by
    rcases List.mem_append.1 hf with hf | hf
    · exact hs.flight f hf
    · exact flights_ok (p := fun m => m.data.isSome ∧ t.blockSize ≤ m.dataSize)
        (emitted_ok fun e he => (hem e he).1) f hf
  maxSize := hs.maxSize

/-- One private cache processes a message. -/
theorem runL1_abs (hs : s.Ok P holds llcHolds) {i : Fin t.n} {msg msg' : Message} {e : EventId}
    (hmsg : CoreMsgOk (P := P) (absCore P.l1.initial (s.l1 i)).state i msg msg' e)
    (h : s.runL1 P.l1 i msg = .ok s') :
    s'.Ok P holds llcHolds ∧
      (abs P s).runCore hP.tables t.llcId i e (reqOf msg') (msg'.complementaryValue == 2) =
        .ok (abs P s') := by
  rw [System.runL1] at h
  split at h
  · simp at h
  · next c out hprocess =>
    obtain rfl := Except.ok.inj h
    obtain ⟨habs, hbytes, hem, hstalled⟩ :=
      process_abs hP.l1 hmsg.read hmsg.data hmsg.other (hs.core i) hprocess
    have hs₁ : { s with l1 := Function.update s.l1 i c }.Ok P holds llcHolds := by
      refine ⟨fun j => ?_, hs.home, hs.waiting, hs.queue, hs.bus, hs.flight, hs.maxSize⟩
      by_cases hj : j = i
      · subst hj
        simpa using hbytes
      · simpa [hj] using hs.core j
    refine ⟨emitL1_ok hs₁ hem fun m hm => ?_, ?_⟩
    · obtain ⟨rfl, hstall⟩ := hstalled m hm
      exact hmsg.stalled hstall
    · rw [abs_emitL1, Skeleton.runCore]
      have hcore : ((abs P s).core i).process hP.tables.l1 t.llcId i e (reqOf msg')
          (msg'.complementaryValue == 2) = .ok (absCore P.l1.initial c, absCoreOut out) := habs
      rw [hcore]
      refine congrArg Except.ok (congrArg (Skeleton.emitCore · i (absCoreOut out)) ?_)
      simp only [abs, Skeleton.mk.injEq, and_true]
      funext j
      by_cases hj : j = i
      · subst hj
        simp
      · simp [hj]

/-- A fault of one private cache. -/
theorem runL1_abs_fault {i : Fin t.n} {msg msg' : Message} {e : EventId} {exclusive : Bool}
    (hread : P.l1.readEvent i msg = .ok (e, msg')) (h : s.runL1 P.l1 i msg = .error .fault) :
    (abs P s).runCore hP.tables t.llcId i e (reqOf msg') exclusive = .error .fault := by
  rw [System.runL1] at h
  split at h
  · next x hprocess =>
    obtain rfl : x = .fault := by simpa using h
    have hfault := process_abs_fault hP.l1 (t.l1Config i) t.llcId exclusive hread hprocess
    have hcore : ((abs P s).core i).process hP.tables.l1 t.llcId i e (reqOf msg') exclusive = .error .fault := hfault
    rw [Skeleton.runCore, hcore]
  · simp at h

omit hP in
/-- A bus message is read as its request is. -/
theorem readEvent_bus {id : Nat} {msg : Message} (hdata : msg.data = none)
    (hsource : msg.source = .upperInterconnect) :
    MSIProtocol.readEvent id msg = (reqOf msg).event id := by
  simp only [MSIProtocol.readEvent, Req.event, hsource, hdata, reqOf, Option.isSome_none,
    Bool.false_eq_true, if_false]
  rfl

omit hP in
/-- No request is read as data. -/
theorem event_not_data {id : Nat} {r : Req} {e : EventId} (h : r.event id = .ok e) :
    isDataEvent e = false := by
  rw [Req.event] at h
  split_ifs at h <;> obtain rfl := Except.ok.inj h <;> rfl

/-- A data-less message from above whose event is known. -/
theorem coreMsgOk_bus (state : σ) {i : Fin t.n} {msg : Message} {e : EventId} (hdata : msg.data = none)
    (hsource : msg.source = .upperInterconnect) (hevent : (reqOf msg).event i = .ok e) :
    CoreMsgOk (P := P) state i msg msg e where
  read := by
    rw [hP.l1.readEvent_other _ _ (by simp [hdata]), readEvent_bus hdata hsource, hevent]
    rfl
  data h := by simp [event_not_data hevent] at h
  other _ _ _ := hdata
  stalled _ := ⟨hdata, hsource⟩

omit hP in
/-- The skeleton of what all private caches emit. -/
theorem abs_emitAll (s : System t σ τ) (out : Fin t.n → List Emission) :
    abs P (s.emitAll out) = (abs P s).emitAll fun i => absCoreOut (out i) := by
  simp [abs, System.emitAll, Skeleton.emitAll, absCoreOut, List.map_flatMap, flights,
    List.flatMap_assoc]

omit hP in
/-- What the private caches emit keeps the state well formed. -/
theorem emitAll_ok (hs : s.Ok P holds llcHolds) {out : Fin t.n → List Emission}
    (hem : ∀ i, ∀ e ∈ out i, EmissionOk t.blockSize e)
    (hstalled : ∀ i, ∀ m ∈ emitted .processingQueue .request (out i),
      m.data = none ∧ m.source = .upperInterconnect) : (s.emitAll out).Ok P holds llcHolds where
  core := hs.core
  home := hs.home
  waiting i m hm := (List.mem_append.1 hm).elim (hs.waiting i m) (hstalled i m)
  queue := hs.queue
  bus m hm := by
    rcases List.mem_append.1 hm with hm | hm
    · exact hs.bus m hm
    · obtain ⟨i, -, hi⟩ := List.mem_flatMap.1 hm
      exact emitted_ok (p := fun m => m.data = none) (fun e he => (hem i e he).2) m hi
  flight f hf := by
    rcases List.mem_append.1 hf with hf | hf
    · exact hs.flight f hf
    · refine flights_ok (p := fun m => m.data.isSome ∧ t.blockSize ≤ m.dataSize) (fun m hm => ?_) f hf
      obtain ⟨i, -, hi⟩ := List.mem_flatMap.1 hm
      exact emitted_ok (p := fun m => m.data.isSome ∧ t.blockSize ≤ m.dataSize)
        (fun e he => (hem i e he).1) m hi
  maxSize := hs.maxSize

/-- Every private cache takes the cell of its skeleton for a broadcast. -/
theorem snoop_abs (hs : s.Ok P holds llcHolds) {i : Fin t.n} (msg : Message) (hdata : msg.data = none)
    (hsource : msg.source = .upperInterconnect) {c : LineController σ} {out : List Emission}
    (h : P.l1.process (t.l1Config i) (s.l1 i) msg = .ok (c, out)) :
    (abs P s).snoop hP.tables t.llcId (reqOf msg) i = .ok (absCore P.l1.initial c, absCoreOut out) ∧
      (holds (absCore P.l1.initial c).state → c.slot.readCacheLine.isSome) ∧
      (∀ e ∈ out, EmissionOk t.blockSize e) ∧
      ∀ m ∈ emitted .processingQueue .request out, m.data = none ∧ m.source = .upperInterconnect := by
  rw [Skeleton.snoop]
  cases hevent : (reqOf msg).event i with
  | error x =>
    rw [L1Protocol.process, L1Protocol.processRequest, Topology.l1Config] at h
    rw [hP.l1.readEvent_other _ _ (by simp [hdata]), readEvent_bus hdata hsource, hevent] at h
    simp [Except.map] at h
  | ok e =>
    have hmsg := coreMsgOk_bus hP (absCore P.l1.initial (s.l1 i)).state hdata hsource hevent
    obtain ⟨habs, hbytes, hem, hstalled⟩ :=
      process_abs hP.l1 hmsg.read hmsg.data hmsg.other (hs.core i) h
    refine ⟨habs, hbytes, hem, fun m hm => ?_⟩
    obtain ⟨rfl, -⟩ := hstalled m hm
    exact ⟨hdata, hsource⟩

/-- A fault of a private cache in a broadcast. -/
theorem snoop_abs_fault {i : Fin t.n} (msg : Message) (hdata : msg.data = none)
    (hsource : msg.source = .upperInterconnect)
    (h : P.l1.process (t.l1Config i) (s.l1 i) msg = .error .fault) :
    (abs P s).snoop hP.tables t.llcId (reqOf msg) i = .error .fault := by
  rw [Skeleton.snoop]
  cases hevent : (reqOf msg).event i with
  | error x =>
    rw [L1Protocol.process, L1Protocol.processRequest, Topology.l1Config] at h
    rw [hP.l1.readEvent_other _ _ (by simp [hdata]), readEvent_bus hdata hsource, hevent] at h
    simpa [Except.map] using h
  | ok e =>
    exact process_abs_fault hP.l1 (t.l1Config i) t.llcId _
      (coreMsgOk_bus hP (absCore P.l1.initial (s.l1 i)).state hdata hsource hevent).read h

omit hP in
/-- A bus request, once it reaches the last-level cache, is well formed. -/
theorem homeMsgOk_bus {msg : Message} (hdata : msg.data = none) :
    HomeMsgOk t { msg with source := .lowerInterconnect } where
  size h := by simp [hdata] at h
  self h := by simp at h
  upper h := by simp at h

/-- What all private caches make of a broadcast is what their skeletons make of it. -/
theorem snoopAll_abs (hs : s.Ok P holds llcHolds) {msg : Message} (hdata : msg.data = none)
    {results : Fin t.n → LineController σ × List Emission}
    (h : Lib.sequence (fun i => P.l1.process (t.l1Config i) (s.l1 i)
      { msg with source := .upperInterconnect }) = .ok results) :
    ({ s with l1 := fun i => (results i).1 }.emitAll fun i => (results i).2).Ok P holds llcHolds ∧
      (abs P s).broadcast hP.tables t.llcId (reqOf msg) =
        (abs P ({ s with l1 := fun i => (results i).1 }.emitAll fun i => (results i).2)).drainQueue
          hP.tables t.llcId
          ((abs P s).queue ++ [absHomeMsg { msg with source := .lowerInterconnect }]) := by
  have hsnoop := fun i => snoop_abs hP hs { msg with source := .upperInterconnect } hdata rfl
    (Lib.sequence_eq_ok.1 h i)
  have hs₁ : System.Ok P holds llcHolds { s with l1 := fun i => (results i).1 } :=
    ⟨fun i => (hsnoop i).2.1, hs.home, hs.waiting, hs.queue, hs.bus, hs.flight, hs.maxSize⟩
  refine ⟨emitAll_ok hs₁ (fun i => (hsnoop i).2.2.1) fun i => (hsnoop i).2.2.2, ?_⟩
  have hseq : Lib.sequence ((abs P s).snoop hP.tables t.llcId (reqOf msg)) =
      .ok fun i => (absCore P.l1.initial (results i).1, absCoreOut (results i).2) :=
    Lib.sequence_eq_ok.2 fun i => (hsnoop i).1
  rw [Skeleton.broadcast, hseq, abs_emitAll]
  simp [absHomeMsg, hdata, reqOf, abs, Skeleton.emitAll]

/-- A broadcast is a broadcast of the skeleton. -/
theorem broadcast_abs (hs : s.Ok P holds llcHolds) {msg : Message} (hdata : msg.data = none)
    (h : s.broadcast P msg = .ok s') :
    s'.Ok P holds llcHolds ∧ (abs P s).broadcast hP.tables t.llcId (reqOf msg) = .ok (abs P s') := by
  rw [System.broadcast] at h
  split at h
  · simp at h
  · next results hresults =>
    obtain ⟨hs₁, heq⟩ := snoopAll_abs hP hs hdata hresults
    obtain ⟨hok, habs⟩ := receiveLLC_abs hP hs₁ (homeMsgOk_bus hdata) h
    exact ⟨hok, heq.trans habs⟩

/-- A fault in a broadcast is a fault of the skeleton's broadcast. -/
theorem broadcast_abs_fault (hs : s.Ok P holds llcHolds) {msg : Message} (hdata : msg.data = none)
    (h : s.broadcast P msg = .error .fault) :
    (abs P s).broadcast hP.tables t.llcId (reqOf msg) = .error .fault := by
  rw [System.broadcast] at h
  split at h
  · next e hresults =>
    obtain rfl : e = .fault := by simpa using h
    have hseq : Lib.sequence ((abs P s).snoop hP.tables t.llcId (reqOf msg)) = .error .fault :=
      Lib.sequence_eq_error_of
        (fun i r hr => ⟨_, (snoop_abs hP hs { msg with source := .upperInterconnect } hdata
          rfl hr).1⟩)
        (fun i hi => snoop_abs_fault hP { msg with source := .upperInterconnect } hdata rfl hi)
        hresults
    rw [Skeleton.broadcast, hseq]
  · next results hresults =>
    obtain ⟨hs₁, heq⟩ := snoopAll_abs hP hs hdata hresults
    exact heq.trans (receiveLLC_abs_fault hP hs₁ (homeMsgOk_bus hdata) h)

/-- Whether a message may run in a private cache is decided by its row in the skeleton. -/
theorem readyL1_abs {i : Fin t.n} {msg msg' : Message} {e : EventId}
    (hread : P.l1.readEvent i msg = .ok (e, msg')) :
    s.readyL1 P.l1 i msg = true ↔
      ActionId.stall ∉ hP.tables.l1.getActions ((abs P s).core i).state e := by
  have hline : ((s.l1 i).slot.readLineBits P.l1.initial).state = (absCore P.l1.initial (s.l1 i)).state := rfl
  rw [System.readyL1, L1Protocol.getRequestState, hread]
  by_cases hstall : ActionId.stall ∈ P.l1.fsm.getActions (absCore P.l1.initial (s.l1 i)).state e <;>
    simp [Fsm.hasAction, hline, hstall, Lawful.tables, abs]

/-- A processor request or replacement that may run is a core step of the skeleton. -/
theorem request_abs (hs : s.Ok P holds llcHolds) {i : Fin t.n} {msg : Message} {e : EventId}
    (he : e = .load ∨ e = .store ∨ e = .replacement)
    (hread : P.l1.readEvent i msg = .ok (e, msg)) (howner : msg.owner = i)
    (htype : msg.complementaryValue = if e = .store then 1 else 0) {r : Except Exit (System t σ τ)}
    (h : s.request P.l1 i msg = some r) :
    (∀ s', r = .ok s' → s'.Ok P holds llcHolds ∧
      (abs P s).step hP.tables t.llcId (.core i e) = some (.ok (abs P s'))) ∧
    (r = .error .fault → (abs P s).step hP.tables t.llcId (.core i e) = some (.error .fault)) := by
  rw [System.request] at h
  split at h
  · next hready =>
    obtain rfl := Option.some.inj h
    have hstall := (readyL1_abs hP hread).1 hready
    have hs₁ : System.Ok P holds llcHolds { s with nextId := s.nextId + 1 } :=
      ⟨hs.core, hs.home, hs.waiting, hs.queue, hs.bus, hs.flight, hs.maxSize⟩
    have hreq : reqOf msg = ⟨if e = .store then 1 else 0, i⟩ := by simp [reqOf, htype, howner]
    have hmark : (msg.complementaryValue == 2) = false := by
      rw [htype]
      split <;> rfl
    have hmsg : CoreMsgOk (P := P) (absCore P.l1.initial (s.l1 i)).state i msg msg e := by
      refine ⟨hread, fun hd => ?_, fun _ st hst => ?_, fun hst => absurd hst hstall⟩
      · rcases he with rfl | rfl | rfl <;> simp [isDataEvent] at hd
      · obtain ⟨-, hreq, hboth⟩ := hP.core_row st e he
        simp [Fsm.hasAction, hreq, hboth] at hst
    rw [Skeleton.step, if_pos ⟨by simpa [requestEvents] using he, hstall⟩, ← hreq, ← hmark]
    refine ⟨fun s' hr => ?_, fun hr => ?_⟩
    · obtain ⟨hok, habs⟩ := runL1_abs hP hs₁ (s := { s with nextId := s.nextId + 1 }) hmsg hr
      exact ⟨hok, congrArg some habs⟩
    · exact congrArg some (runL1_abs_fault hP (s := { s with nextId := s.nextId + 1 }) hread hr)
  · simp at h

omit hP in
/-- A fill enters the queue behind the fills that are there. -/
theorem behindSource_abs {buf : List FRFCFSBuffer.Element} (hbuf : ∀ e ∈ buf, ElementOk t e) :
    FRFCFSBuffer.behindSource .upperInterconnect buf = Skeleton.behindFill (absQueue buf) := by
  induction buf with
  | nil => rfl
  | cons e rest ih =>
    have hfill : (absHomeMsg e.item).isFill = decide (e.item.source = .upperInterconnect) := by
      rw [absHomeMsg]
      split <;> try split
      all_goals simp [HomeMsg.isFill, *]
    have hcons : absQueue (e :: rest) = absHomeMsg e.item :: absQueue rest := rfl
    rw [FRFCFSBuffer.behindSource, hcons, Skeleton.behindFill, hfill,
      ih fun x hx => hbuf x (List.mem_cons_of_mem e hx)]
    cases Skeleton.behindFill (absQueue rest) with
    | zero => simp only [decide_eq_true_eq]
    | succ k => rfl

omit hP in
/-- Main memory's answer is well formed. -/
theorem homeMsgOk_fill (read : Message) : HomeMsgOk t (fillMessage t read) where
  size _ := t.blockSize_le
  self h := by simp [fillMessage] at h
  upper _ := by simp [fillMessage]

omit hP in
/-- A message the last-level cache sends itself is well formed. -/
theorem homeMsgOk_evict (s : System t σ τ) : HomeMsgOk t (s.evictMessage t.llcConfig) where
  size h := by simp [System.evictMessage] at h
  self _ := by simp [System.evictMessage, Topology.llcConfig]
  upper h := by simp [System.evictMessage] at h

/-- The type of a data message plays no role in its row. -/
theorem runCore_data (s : Skeleton t.n σ τ) (i : Fin t.n) (x : Bool) (type type' owner : Nat)
    (exclusive : Bool) :
    s.runCore hP.tables t.llcId i (hP.dataEvent x).1 ⟨type, owner⟩ exclusive =
      s.runCore hP.tables t.llcId i (hP.dataEvent x).1 ⟨type', owner⟩ exclusive := by
  obtain ⟨hsave, hstall⟩ := hP.data_row (s.core i).state x
  simp [Skeleton.runCore, Core.process, Lawful.tables, savedAfter, hsave, hstall]

/-- What a step of the system says about the same step of the skeleton. -/
def StepAbs (s : System t σ τ) (l : Label t.n) (r : Except Exit (System t σ τ)) : Prop :=
  (∀ s', r = .ok s' → s'.Ok P holds llcHolds ∧
    (abs P s).step hP.tables t.llcId (absLabel l) = some (.ok (abs P s'))) ∧
  (r = .error .fault → (abs P s).step hP.tables t.llcId (absLabel l) = some (.error .fault))

/-- The self-generated replacement of the last-level cache. -/
theorem evict_abs (hs : s.Ok P holds llcHolds) {r : Except Exit (System t σ τ)}
    (h : s.step P .evict = some r) : StepAbs hP s .evict r := by
  rw [System.step] at h
  split at h
  · next line hslot =>
    split at h
    · next hloc =>
      obtain rfl := Option.some.inj h
      have hs₁ : System.Ok P holds llcHolds
          { s with llc := { s.llc with slot := s.llc.slot.moveLine2WB }, nextId := s.nextId + 1 } := by
        refine ⟨hs.core, fun hh => ?_, hs.waiting, hs.queue, hs.bus, hs.flight, hs.maxSize⟩
        have := hs.home (by simpa [absHome, hslot, Slot.moveLine2WB, Slot.readLineBits] using hh)
        simpa [hslot, Slot.moveLine2WB, Slot.readCacheLine] using this
      have hlocation : (abs P s).home.location = some .array := by simp [abs, absHome, hslot, hloc]
      have heq : (abs P s).step hP.tables t.llcId .evict =
          some ((abs P { s with
            llc := { s.llc with slot := s.llc.slot.moveLine2WB }
            nextId := s.nextId + 1 }).drainQueue hP.tables t.llcId
              ((abs P s).queue ++ [absHomeMsg (s.evictMessage t.llcConfig)])) := by
        rw [Skeleton.step, if_pos hlocation]
        simp [abs, absHome, hslot, Slot.moveLine2WB, Slot.readLineBits, absHomeMsg, System.evictMessage]
      refine ⟨fun s' hr => ?_, fun hr => ?_⟩
      · obtain ⟨hok, habs⟩ := receiveLLC_abs hP hs₁ (homeMsgOk_evict s) hr
        exact ⟨hok, heq.trans (congrArg some habs)⟩
      · exact heq.trans (congrArg some (receiveLLC_abs_fault hP hs₁ (homeMsgOk_evict s) hr))
    · simp at h
  · simp at h

/-- A granted request. -/
theorem grant_abs (hs : s.Ok P holds llcHolds) {k : Nat} {r : Except Exit (System t σ τ)}
    (h : s.step P (.grant k) = some r) : StepAbs hP s (.grant k) r := by
  rw [System.step] at h
  split at h
  · next msg hmsg =>
    obtain rfl := Option.some.inj h
    have hs₁ : System.Ok P holds llcHolds { s with bus := s.bus.eraseIdx k } :=
      ⟨hs.core, hs.home, hs.waiting, hs.queue, fun m hm => hs.bus m (List.mem_of_mem_eraseIdx hm),
        hs.flight, hs.maxSize⟩
    have hdata := hs.bus msg (List.mem_of_getElem? hmsg)
    have heq : (abs P s).step hP.tables t.llcId (.grant k) =
        some ((abs P { s with bus := s.bus.eraseIdx k }).broadcast hP.tables t.llcId (reqOf msg)) := by
      simp [Skeleton.step, abs, hmsg, List.eraseIdx_map]
    refine ⟨fun s' hr => ?_, fun hr => ?_⟩
    · obtain ⟨hok, habs⟩ := broadcast_abs hP hs₁ hdata hr
      exact ⟨hok, heq.trans (congrArg some habs)⟩
    · exact heq.trans (congrArg some (broadcast_abs_fault hP hs₁ hdata hr))
  · simp at h

/-- A request that waited on a Stall cell. -/
theorem retry_abs (hs : s.Ok P holds llcHolds) {i : Fin t.n} {k : Nat} {r : Except Exit (System t σ τ)}
    (h : s.step P (.retry i k) = some r) : StepAbs hP s (.retry i k) r := by
  rw [System.step] at h
  split at h
  · next msg hmsg =>
    split at h
    · next hready =>
      obtain rfl := Option.some.inj h
      have hmem := List.mem_of_getElem? hmsg
      obtain ⟨hdata, hsource⟩ := hs.waiting i msg hmem
      set s₁ : System t σ τ :=
        { s with waiting := Function.update s.waiting i ((s.waiting i).eraseIdx k) }
      have hs₁ : s₁.Ok P holds llcHolds := by
        refine ⟨hs.core, hs.home, fun j m hm => ?_, hs.queue, hs.bus, hs.flight, hs.maxSize⟩
        by_cases hj : j = i
        · subst hj
          exact hs.waiting j m (List.mem_of_mem_eraseIdx (by simpa [s₁] using hm))
        · exact hs.waiting j m (by simpa [s₁, hj] using hm)
      have hread := hP.l1.readEvent_other i msg (by simp [hdata])
      rw [readEvent_bus hdata hsource] at hread
      cases hevent : (reqOf msg).event i with
      | error x =>
        rw [System.readyL1, L1Protocol.getRequestState, hread, hevent] at hready
        simp [Except.map] at hready
      | ok e =>
        rw [hevent] at hread
        have hstall := (readyL1_abs hP hread).1 hready
        have heq : (abs P s).step hP.tables t.llcId (.retry i k) =
            some ((abs P s₁).runCore hP.tables t.llcId i e (reqOf msg)
              (msg.complementaryValue == 2)) := by
          have hget : ((abs P s).waiting i)[k]? = some (reqOf msg) := by simp [abs, hmsg]
          have habs : abs P s₁ = { abs P s with
              waiting := Function.update (abs P s).waiting i (((abs P s).waiting i).eraseIdx k) } := by
            simp only [abs, s₁, Skeleton.mk.injEq, true_and, and_true]
            funext j
            by_cases hj : j = i
            · subst hj
              simp [List.eraseIdx_map]
            · simp [hj]
          simp only [Skeleton.step, hget, hevent, habs]
          rw [if_neg hstall]
          rfl
        have hmsgOk := coreMsgOk_bus hP (absCore P.l1.initial (s₁.l1 i)).state hdata hsource hevent
        refine ⟨fun s' hr => ?_, fun hr => ?_⟩
        · obtain ⟨hok, habs⟩ := runL1_abs hP hs₁ hmsgOk hr
          exact ⟨hok, heq.trans (congrArg some habs)⟩
        · exact heq.trans (congrArg some (runL1_abs_fault hP hread hr))
    · simp at h
  · simp at h

/-- A data message that reaches its addressee. -/
theorem deliver_abs (hs : s.Ok P holds llcHolds) {k : Nat} {r : Except Exit (System t σ τ)}
    (h : s.step P (.deliver k) = some r) : StepAbs hP s (.deliver k) r := by
  rw [System.step] at h
  split at h
  · next f hf =>
    have hget : (abs P s).flight[k]? = some (absFlight f) := by simp [abs, hf]
    obtain ⟨hdata, hsize⟩ := hs.flight f (List.mem_of_getElem? hf)
    set s₁ : System t σ τ := { s with flight := s.flight.eraseIdx k }
    have hs₁ : s₁.Ok P holds llcHolds :=
      ⟨hs.core, hs.home, hs.waiting, hs.queue, hs.bus,
        fun g hg => hs.flight g (List.mem_of_mem_eraseIdx hg), hs.maxSize⟩
    have habs₁ : abs P s₁ = { abs P s with flight := (abs P s).flight.eraseIdx k } := by
      simp [abs, s₁, List.eraseIdx_map]
    dsimp only at h
    split at h
    · next hdest =>
      obtain rfl := Option.some.inj h
      have hmsg : HomeMsgOk t { f.msg with source := .lowerInterconnect } :=
        ⟨fun _ => hsize, fun h => by simp at h, fun h => by simp at h⟩
      have heq : (abs P s).step hP.tables t.llcId (.deliver k) =
          some ((abs P s₁).drainQueue hP.tables t.llcId ((abs P s₁).queue ++
            [absHomeMsg { f.msg with source := .lowerInterconnect }])) := by
        simp [Skeleton.step, hget, absFlight, hdest, habs₁, absHomeMsg, hdata]
      refine ⟨fun s' hr => ?_, fun hr => ?_⟩
      · obtain ⟨hok, habs⟩ := receiveLLC_abs hP hs₁ hmsg hr
        exact ⟨hok, heq.trans (congrArg some habs)⟩
      · exact heq.trans (congrArg some (receiveLLC_abs_fault hP hs₁ hmsg hr))
    · next hdest =>
      split at h
      · next hlt =>
        obtain rfl := Option.some.inj h
        set msg : Message := { f.msg with source := .upperInterconnect }
        obtain ⟨msg', hread, hmark, hdata', hsize', howner⟩ :=
          hP.readEvent_data f.dest msg rfl hdata
        have hmsg : CoreMsgOk (P := P) (absCore P.l1.initial (s₁.l1 ⟨f.dest, hlt⟩)).state ⟨f.dest, hlt⟩
            msg msg' (hP.dataEvent (msg.complementaryValue == 2)).1 :=
          ⟨hread, fun _ => ⟨hdata' ▸ hdata, hsize' ▸ hsize⟩,
            fun hother => by simp [hP.dataEvent_isData] at hother,
            fun hstall => absurd hstall (hP.data_row _ _).2⟩
        have heq : (abs P s).step hP.tables t.llcId (.deliver k) =
            some ((abs P s₁).runCore hP.tables t.llcId ⟨f.dest, hlt⟩
              (hP.dataEvent (msg.complementaryValue == 2)).1 (reqOf msg')
              (msg'.complementaryValue == 2)) := by
          rw [show reqOf msg' = ⟨msg'.complementaryValue, f.msg.owner⟩ by simp [reqOf, howner, msg],
            runCore_data hP _ _ _ _ 0, hmark]
          simp only [Skeleton.step, hget]
          simp [absFlight, hdest, hlt, habs₁, Lawful.tables, msg]
        refine ⟨fun s' hr => ?_, fun hr => ?_⟩
        · obtain ⟨hok, habs⟩ := runL1_abs hP hs₁ hmsg hr
          exact ⟨hok, heq.trans (congrArg some habs)⟩
        · exact heq.trans (congrArg some (runL1_abs_fault hP hread hr))
      · simp at h
  · simp at h

/-- Main memory's answer to a read. -/
theorem fill_abs (hs : s.Ok P holds llcHolds) {k : Nat} {r : Except Exit (System t σ τ)}
    (h : s.step P (.fill k) = some r) : StepAbs hP s (.fill k) r := by
  rw [System.step] at h
  split at h
  · next read hread =>
    obtain rfl := Option.some.inj h
    have hget : (abs P s).memory[k]? = some read.owner := by simp [abs, hread]
    have hs₁ : System.Ok P holds llcHolds { s with memory := s.memory.eraseIdx k } :=
      ⟨hs.core, hs.home, hs.waiting, hs.queue, hs.bus, hs.flight, hs.maxSize⟩
    have hq : ∀ e ∈ (s.queue.pushFrontOrdered (fillMessage t read)).buffer, ElementOk t e := by
      intro e he
      simp only [FRFCFSBuffer.pushFrontOrdered, List.mem_append, List.mem_cons] at he
      rcases he with he | rfl | he
      · exact hs.queue e (List.mem_of_mem_take he)
      · exact ⟨homeMsgOk_fill read, fun _ => by simp [fillMessage]⟩
      · exact hs.queue e (List.mem_of_mem_drop he)
    have heq : (abs P s).step hP.tables t.llcId (.fill k) =
        some ((abs P { s with memory := s.memory.eraseIdx k }).drainQueue hP.tables t.llcId
          (absQueue (s.queue.pushFrontOrdered (fillMessage t read)).buffer)) := by
      have hmsg : absHomeMsg (fillMessage t read) = .fill read.owner := rfl
      have hpos := behindSource_abs hs.queue
      simp only [Skeleton.step, hget, FRFCFSBuffer.pushFrontOrdered, absQueue, List.map_append,
        List.map_cons, hmsg, List.map_take, List.map_drop]
      simp only [show (fillMessage t read).source = .upperInterconnect from rfl, hpos]
      simp [abs, List.eraseIdx_map]
    refine ⟨fun s' hr => ?_, fun hr => ?_⟩
    · obtain ⟨hok, habs⟩ := drainLLC_abs hP hs₁ hq rfl hs.maxSize hr
      exact ⟨hok, heq.trans (congrArg some habs)⟩
    · exact heq.trans (congrArg some (drainLLC_abs_fault hP hs₁ hq rfl hr))
  · simp at h

/-- Every step of the system, faults included, is a step of the skeleton. -/
theorem step_abs (hs : s.Ok P holds llcHolds) {l : Label t.n} {r : Except Exit (System t σ τ)}
    (h : s.step P l = some r) : StepAbs hP s l r := by
  cases l with
  | load i offset =>
    rw [System.step] at h
    split at h
    · exact request_abs hP hs (.inl rfl) (by rw [hP.l1.readEvent_other _ _ (by simp [System.cpuMessage])]; rfl)
        rfl rfl h
    · simp at h
  | store i offset bytes =>
    rw [System.step] at h
    split at h
    · exact request_abs hP hs (.inr (.inl rfl))
        (by rw [hP.l1.readEvent_other _ _ (by simp [System.cpuMessage])]; rfl) rfl rfl h
    · simp at h
  | replacement i =>
    rw [System.step] at h
    refine request_abs hP hs (.inr (.inr rfl)) ?_ rfl rfl h
    rw [hP.l1.readEvent_other _ _ (by simp [System.evictMessage])]
    simp [MSIProtocol.readEvent, System.evictMessage, Topology.l1Config, Except.map]
  | evict => exact evict_abs hP hs h
  | grant k => exact grant_abs hP hs h
  | retry i k => exact retry_abs hP hs h
  | deliver k => exact deliver_abs hP hs h
  | fill k => exact fill_abs hP hs h

/-- Messages and lines have the bytes they should have in every reachable state. -/
theorem ok_inductive : (system t P).Inductive (System.Ok P holds llcHolds) where
  init s hs := by
    obtain rfl : s = .initial t σ τ := hs
    constructor <;> simp [System.initial, absCore, absHome, Slot.readLineBits, hP.l1.holds_initial,
      hP.llc.holds_initial]
  step s l s' _ hs hstep := ((step_abs hP hs hstep).1 s' rfl).1

/-- The snooping system refines its skeleton. -/
def simulation : (system t P).Simulation (skeletonSystem hP.tables t.n t.llcId) where
  abs := abs P
  lab := absLabel
  init s hs := by
    obtain rfl : s = .initial t σ τ := hs
    simp [skeletonSystem, abs, System.initial, Skeleton.initial, absCore, absHome, Slot.readLineBits,
      Lawful.tables]
  step s l s' hr hstep := ((step_abs hP ((ok_inductive hP).reachable hr) hstep).1 s' rfl).2

/-- A fault of the system in a reachable state is a fault of the skeleton. -/
theorem fault_abs (hr : (system t P).Reachable s) {l : Label t.n}
    (h : s.step P l = some (.error .fault)) :
    (abs P s).step hP.tables t.llcId (absLabel l) = some (.error .fault) :=
  (step_abs hP ((ok_inductive hP).reachable hr) h).2 rfl

end Steps

end Octopus.Snoop
