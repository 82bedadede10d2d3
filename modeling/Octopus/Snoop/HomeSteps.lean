import Octopus.Snoop.Invariant

/-!
# The last-level cache keeps the token invariant

One lemma for each message the last-level cache can process, and from them that a drain keeps
the invariant and reaches no Fault cell.
-/

namespace Octopus.Snoop

open Lib Lib.Itinerary
open Lib.Stop (visit home serve)

variable {σ τ : Type} {n llc : Nat} {T : Tables σ τ} {ph : Phases σ τ} {t : Token}
  {s : Skeleton n σ τ}

/-- A request of the queue, behind replacements only. -/
structure Queued (queue : List HomeMsg) (m : HomeMsg) (pre post : List HomeMsg) : Prop where
  queue : queue = pre ++ m :: post
  pre : ∀ x ∈ pre, x = .replacement

/-- The messages in front of a request the gate lets through are replacements. -/
theorem queued_of_firstReady {m : HomeMsg} {queue : List HomeMsg} (hI : TokenInv ph llc t s)
    (hm : m.isOrdered) (hfirst : s.home.firstReady T.llc llc [] s.queue = some (m, queue)) :
    ∃ pre post, Queued s.queue m pre post ∧ queue = pre ++ post ∧ s.home.ready T.llc llc m = true := by
  obtain ⟨pre, post, hqueue, rfl, hord, hready⟩ := Home.firstReady_eq_some hfirst
  refine ⟨pre, post, ⟨hqueue, fun x hx => ?_⟩, by simp, hready⟩
  have hx' : x.isOrdered = false := hord hm x (by simpa using hx)
  rcases hI.queue x (by simp [hqueue, hx]) with rfl | rfl | ⟨i, -, rfl | rfl⟩
  · rfl
  all_goals simp [HomeMsg.isOrdered, requestTypeGetS, requestTypeGetM, requestTypeInv] at hx'

/-- The view and the stops of a queue with a request at its front, up to replacements. -/
theorem Queued.view_eq {queue pre post : List HomeMsg} {r : Req} (h : Queued queue (.request r) pre post)
    (base v : View) :
    View.after base v queue = View.after base (View.step base v r).1 (pre ++ post) ∧
      View.stops base v queue =
        (View.step base v r).2 ++ View.stops base (View.step base v r).1 (pre ++ post) := by
  obtain ⟨hafter, hstops⟩ := View.replacements h.pre base v (.request r :: post)
  obtain ⟨hafter', hstops'⟩ := View.replacements h.pre base (View.step base v r).1 post
  rw [h.queue, hafter, hstops, hafter', hstops', View.after, View.stops]
  exact ⟨rfl, rfl⟩

/-- The cores look on while a data message is sent to the reader at the head of the itinerary. -/
theorem CoresOk.serve {i o : Nat} {V : List (Stop Nat)} {v : View} {core : Fin n → Core σ}
    {flight : List Supply} (h : CoresOk ph llc ⟨.home, serve i :: V, v⟩ core flight) :
    CoresOk ph llc ⟨.home, V, v⟩ core (flight ++ [⟨i, o, false⟩]) where
  phase j := (h.phase j).pop (by simp) (by simp) fun y => by
    rw [landing_eq_zero (by simp)]
    by_cases hi : i = j <;> cases y <;> simp [hi]
  alone := h.alone

/-- The cores look on while the token is sent to the head of the itinerary. -/
theorem CoresOk.launch {i o : Nat} {x : Bool} {V : List (Stop Nat)} {v : View} {core : Fin n → Core σ}
    {flight : List Supply} (h : CoresOk ph llc ⟨.home, visit x i :: V, v⟩ core flight) :
    CoresOk ph llc ⟨.flying, visit x i :: V, v⟩ core (flight ++ [⟨i, o, x⟩]) where
  phase j := (h.phase j).setPlace (by simp) (by simp) fun y => by
    rw [landing_eq_zero (by simp)]
    by_cases hi : i = j <;> by_cases hx : x = y <;> simp [landing, hi, hx]
  alone := h.alone

/-- The cores look on while the token comes home. -/
theorem CoresOk.comeHome {V : List (Stop Nat)} {v : View} {core : Fin n → Core σ}
    {flight flight' : List Supply} (h : CoresOk ph llc ⟨.flying, home :: V, v⟩ core flight)
    (hflight : ∀ i : Fin n, arriving flight' i = arriving flight i) :
    CoresOk ph llc ⟨.home, V, v⟩ core flight' where
  phase j := by
    have hhome : (ph.core (core j).state).Ok llc .home (home :: V) j (arriving flight j) (core j).saved :=
      (h.phase j).setPlace (by simp) (by simp) fun y => by
        rw [landing_eq_zero (by simp), landing_eq_zero (by simp)]
    refine hhome.pop (by simp) (by simp) fun y => ?_
    rw [landing_eq_zero (by simp), hflight j]
    simp
  alone := h.alone

/-- A copy on its way to a reader is no token. -/
theorem TokenOk.serve {i o : Nat} {V : List (Stop Nat)} {v : View} {flight : List Supply}
    (h : TokenOk ph n llc ⟨.home, serve i :: V, v⟩ flight) (hn : n ≤ llc) :
    TokenOk ph n llc ⟨.home, V, v⟩ (flight ++ [⟨i, o, false⟩]) where
  head := trivial
  homeArriving := by
    have hi : i ≠ llc := by
      have := h.bound_serve i (by simp)
      omega
    simpa [hi] using h.homeArriving
  exclusive f hf := by
    rcases List.mem_append.1 hf with hf | hf
    · exact h.exclusive f hf
    · obtain rfl := List.mem_singleton.1 hf
      simp
  free := h.free
  bound x j hj := h.bound x j (List.mem_cons_of_mem _ hj)
  bound_serve j hj := h.bound_serve j (List.mem_cons_of_mem _ hj)

/-- The token on its way to the head of the itinerary. -/
theorem TokenOk.launch {i : Nat} {x : Bool} {V : List (Stop Nat)} {v : View} {flight : List Supply}
    (h : TokenOk ph n llc ⟨.home, visit x i :: V, v⟩ flight) (hn : n ≤ llc) :
    TokenOk ph n llc ⟨.flying, visit x i :: V, v⟩ (flight ++ [⟨i, i, x⟩]) where
  head := .inr ⟨x, i, V, rfl⟩
  homeArriving := by
    have hi : i ≠ llc := by
      have := h.bound x i (by simp)
      omega
    simpa [hi] using h.homeArriving
  exclusive f hf := by
    rcases List.mem_append.1 hf with hf | hf
    · exact h.exclusive f hf
    · obtain rfl := List.mem_singleton.1 hf
      simp
  free := h.free
  bound := h.bound
  bound_serve := h.bound_serve

/-- The bus with an invalidation more. -/
theorem BusOk.issueInv {core : Fin n → Core σ} {bus : List Req} (hn : n ≤ llc)
    (h : BusOk ph llc core bus) : BusOk ph llc core (bus ++ [⟨requestTypeInv, llc⟩]) where
  pending i := by
    have hne : llc ≠ i := by omega
    simp [List.filter_append, h.pending i, hne]
  owner r hr := by
    rcases List.mem_append.1 hr with hr | hr
    · exact h.owner r hr
    · exact .inr (List.mem_singleton.1 hr)

/-- A request in the queue that is not a recall does not count as one. -/
theorem recalls_request (llc : Nat) {queue pre post : List HomeMsg} (bus : List Req) {r : Req}
    (hqueue : queue = pre ++ .request r :: post) (hr : r.type ≠ requestTypeInv) :
    recalls llc (pre ++ post) bus = recalls llc queue bus := by
  have hne : r ≠ ⟨requestTypeInv, llc⟩ := fun h => hr (by rw [h])
  simp [recalls, hqueue, List.count_append, hne]

/-- A line that is being recalled or may be stays where it is. -/
theorem locationAfter_eq {location : Option LineLocation} {count : Nat}
    (h : location = some .array ∧ count = 0 ∨ location = some .pwb ∧ count = 1) (written : Bool) :
    Home.locationAfter location written = location := by
  rcases h with ⟨rfl, -⟩ | ⟨rfl, -⟩ <;> rfl

variable (hL : TokenLaws T ph)

include hL

/--
What the last-level cache does with a message of a cell with known, harmless actions keeps the
invariant, if the new parts of the state agree with a token.
-/
theorem homeStep_closes {m : HomeMsg} {e : LLCEventId} {a : List LLCActionId} {p' : HomePhase}
    (t' : Token) (owner' : Option Nat) (pending' memory' : List Nat) (data : List Supply) (bus' : List Req)
    (he : s.home.event llc m = .ok e)
    (ha : ph.home (T.llc.getNextState s.home.state e) = p' ∧ T.llc.getActions s.home.state e = a)
    (hfault : LLCActionId.fault ∉ a) (hstall : LLCActionId.stall ∉ a) (hp' : p' ≠ .unreachable)
    (howner : (if p'.isValid then Home.ownerAfter a s.home.owner (m.owner llc) else none) = owner')
    (hpending : Home.pendingAfter a m (m.owner llc) s.home.pending = pending')
    (hdata : ((Home.answered a m (m.owner llc) s.home.pending).map fun owner =>
      (⟨m.owner llc, owner, decide (LLCActionId.sendExeclusiveData ∈ a)⟩ : Supply)) = data)
    (hmemory : s.memory ++ (if LLCActionId.getData ∈ a then [m.owner llc] else []) = memory')
    (hbus : (if LLCActionId.issueInv ∈ a then [⟨requestTypeInv, llc⟩] else []) = bus')
    (token : TokenOk ph n llc t' (s.flight ++ data))
    (cores : CoresOk ph llc t' s.core (s.flight ++ data))
    (home : p'.Ok ph.base t'.place t'.route t'.view owner' pending' memory' s.queue)
    (located : p'.Located
      (if p'.isValid then Home.locationAfter s.home.location m.hasData else none)
      (recalls llc s.queue (s.bus ++ bus')))
    (queue : ∀ m ∈ s.queue, QueueOk n llc m) (bus : BusOk ph llc s.core (s.bus ++ bus'))
    (waiting : ∀ i, s.waiting i = []) :
    ∃ t' s', Skeleton.homeStep T llc s m = .ok s' ∧ TokenInv ph llc t' s' := by
  obtain ⟨rfl, rfl⟩ := ha
  have hvalid := hL.home_valid _ hp'
  subst hdata hmemory hbus
  simp only [Skeleton.homeStep, Home.process, he, Home.take, if_neg hfault, if_neg hstall]
  refine ⟨t', _, rfl, ?_⟩
  exact {
    token := token
    cores := cores
    home := by simpa only [Skeleton.emitHome, hvalid, howner, hpending] using home
    located := by simpa only [Skeleton.emitHome, hvalid] using located
    queue := queue
    bus := bus
    waiting := waiting }


omit hL in
/-- Requests in the queue that a private cache made. -/
theorem owner_lt_of_queueOk {type i : Nat} (hI : ∀ m ∈ s.queue, QueueOk n llc m)
    (htype : type = requestTypeGetS ∨ type = requestTypeGetM)
    (hmem : HomeMsg.request ⟨type, i⟩ ∈ s.queue) : i < n := by
  rcases hI _ hmem with h | h | ⟨j, hj, h | h⟩
  · simp at h
  · rcases htype with rfl | rfl <;> simp [requestTypeGetS, requestTypeGetM, requestTypeInv] at h
  · obtain ⟨-, rfl⟩ : _ ∧ i = j := by simpa using h
    exact hj
  · obtain ⟨-, rfl⟩ : _ ∧ i = j := by simpa using h
    exact hj

omit hL in
/-- The rest of a queue is as good as the queue. -/
theorem Queued.queueOk {queue pre post : List HomeMsg} {m : HomeMsg} (h : Queued queue m pre post)
    (hI : ∀ m ∈ queue, QueueOk n llc m) : ∀ m ∈ pre ++ post, QueueOk n llc m := by
  intro x hx
  refine hI x ?_
  rw [h.queue]
  rcases List.mem_append.1 hx with hx | hx
  · exact List.mem_append_left _ hx
  · exact List.mem_append_right _ (List.mem_cons_of_mem m hx)

/-- The last-level cache processes a queued read. -/
theorem homeStep_getS (hn : n ≤ llc) {i : Nat} {pre post : List HomeMsg} (hI : TokenInv ph llc t s)
    (hq : Queued s.queue (.request ⟨requestTypeGetS, i⟩) pre post)
    (hready : s.home.ready T.llc llc (.request ⟨requestTypeGetS, i⟩) = true) :
    ∃ t' s', Skeleton.homeStep T llc { s with queue := pre ++ post } (.request ⟨requestTypeGetS, i⟩) =
      .ok s' ∧ TokenInv ph llc t' s' := by
  obtain ⟨place, route, view⟩ := t
  have hlaw := hL.homeGetS s.home.state
  have he : s.home.event llc (.request ⟨requestTypeGetS, i⟩) = .ok .getS := by simp [Home.event]
  have hstall : LLCActionId.stall ∉ T.llc.getActions s.home.state .getS := by
    simpa [Home.ready, HomeMsg.hasData, he] using hready
  have hi : i < n := owner_lt_of_queueOk hI.queue (.inl rfl) (by rw [hq.queue]; simp)
  have hrecalls := recalls_request llc s.bus hq.queue
    (by simp [requestTypeGetS, requestTypeInv])
  have hview := hq.view_eq ph.base
  have htoken := hI.token
  have hcores := hI.cores
  have hhome := hI.home
  have hlocated := hI.located
  cases hp : ph.home s.home.state with
  | resident isFree valid =>
    rw [hp] at hlaw hhome hlocated
    obtain ⟨rfl, howner, hpending, hmemory, rfl, rfl⟩ := hhome
    obtain ⟨hafter, hroute⟩ := hview (.resident isFree)
    rw [hroute] at htoken hcores
    cases isFree <;> cases valid <;> simp only [homeGetSLaw, decide_eq_true_eq] at hlaw
    · -- the line is fetched to serve the reader
      refine homeStep_closes hL (s := { s with queue := pre ++ post }) _ none [i] [i] [] [] he hlaw
        (by simp) (by simp) (by simp) ?_ ?_ ?_ ?_ rfl (by simpa using htoken) (by simpa using hcores) ?_ ?_
        (hq.queueOk hI.queue) (by simpa using hI.bus) hI.waiting
      · simp [HomePhase.isValid, Home.ownerAfter, howner]
      · simp [Home.pendingAfter, HomeMsg.owner, hpending]
      · simp [Home.answered, Home.responds]
      · simp [hmemory, HomeMsg.owner]
      · exact ⟨rfl, rfl, i, rfl, rfl, rfl, hafter⟩
      · rw [List.append_nil, hrecalls]
        exact ⟨by simp [HomePhase.isValid, Home.locationAfter, hlocated.1], hlocated.2⟩
    · -- the reader is served
      refine homeStep_closes hL (s := { s with queue := pre ++ post }) _ none [] [] [⟨i, i, false⟩] [] he hlaw
        (by simp) (by simp) (by simp) ?_ ?_ ?_ ?_ rfl (TokenOk.serve htoken hn)
        (CoresOk.serve hcores) ?_ ?_ (hq.queueOk hI.queue) (by simpa using hI.bus) hI.waiting
      · simp [HomePhase.isValid, Home.ownerAfter, howner]
      · simp [Home.pendingAfter, Home.responds, HomeMsg.isFill, hpending]
      · simp [Home.answered, Home.responds, HomeMsg.owner, HomeMsg.isFill]
      · simp [hmemory]
      · exact ⟨rfl, rfl, rfl, rfl, rfl, hafter⟩
      · rw [List.append_nil, hrecalls]
        simp only [HomePhase.isValid, if_true, locationAfter_eq hlocated]
        exact hlocated
    · -- the line is fetched for a reader that will hold the token
      refine homeStep_closes hL (s := { s with queue := pre ++ post }) _ (some i) [i] [i] [] [] he hlaw
        (by simp) (by simp) (by simp) ?_ ?_ ?_ ?_ rfl (by simpa using htoken) (by simpa using hcores) ?_ ?_
        (hq.queueOk hI.queue) (by simpa using hI.bus) hI.waiting
      · simp [HomePhase.isValid, Home.ownerAfter, HomeMsg.owner]
      · simp [Home.pendingAfter, HomeMsg.owner, hpending]
      · simp [Home.answered, Home.responds]
      · simp [hmemory, HomeMsg.owner]
      · exact ⟨rfl, i, rfl, rfl, rfl, rfl, hafter⟩
      · rw [List.append_nil, hrecalls]
        exact ⟨by simp [HomePhase.isValid, Home.locationAfter, hlocated.1], hlocated.2⟩
    · -- the token is sent to the reader
      refine homeStep_closes hL (s := { s with queue := pre ++ post }) _ (some i) [] [] [⟨i, i, true⟩] [] he
        hlaw (by simp) (by simp) (by simp) ?_ ?_ ?_ ?_ rfl (TokenOk.launch htoken hn)
        (CoresOk.launch hcores) ?_ ?_ (hq.queueOk hI.queue) (by simpa using hI.bus) hI.waiting
      · simp [HomePhase.isValid, Home.ownerAfter, HomeMsg.owner]
      · simp [Home.pendingAfter, Home.responds, HomeMsg.isFill, hpending]
      · simp [Home.answered, Home.responds, HomeMsg.owner, HomeMsg.isFill]
      · simp [hmemory]
      · exact ⟨by simp, rfl, rfl, i, true, [], rfl, by simp, rfl, hafter⟩
      · rw [List.append_nil, hrecalls]
        simp only [HomePhase.isValid, if_true, locationAfter_eq hlocated]
        exact hlocated
  | owned =>
    rw [hp] at hlaw hhome hlocated
    simp only [homeGetSLaw, decide_eq_true_eq] at hlaw
    obtain ⟨hplace, hpending, hmemory, o, x, A, howner, hA, rfl, rfl⟩ := hhome
    obtain ⟨hafter, hroute⟩ := hview (.own o)
    refine homeStep_closes hL (s := { s with queue := pre ++ post }) _ none [] [] [] [] he hlaw
      (by simp) (by simp) (by simp) ?_ ?_ ?_ ?_ rfl (by simpa using htoken) (by simpa using hcores) ?_ ?_
      (hq.queueOk hI.queue) (by simpa using hI.bus) hI.waiting
    · simp [HomePhase.isValid, Home.ownerAfter]
    · simp [Home.pendingAfter, Home.responds, hpending]
    · simp [Home.answered, Home.responds]
    · simp [hmemory]
    · refine ⟨hplace, rfl, rfl, rfl, A ++ [visit x o, serve i], by simp [hA], ?_, hafter⟩
      rw [hroute]
      simp [View.step, View.resident]
    · rw [List.append_nil, hrecalls]
      simp only [HomePhase.isValid, if_true, locationAfter_eq hlocated]
      exact hlocated
  | unreachable =>
    rw [hp] at hhome
    exact absurd hhome id
  | _ =>
    rw [hp] at hlaw
    simp only [homeGetSLaw, decide_eq_true_eq] at hlaw
    simp [hlaw] at hstall

/-- The last-level cache processes a queued write. -/
theorem homeStep_getM (hn : n ≤ llc) {i : Nat} {pre post : List HomeMsg} (hI : TokenInv ph llc t s)
    (hq : Queued s.queue (.request ⟨requestTypeGetM, i⟩) pre post)
    (hready : s.home.ready T.llc llc (.request ⟨requestTypeGetM, i⟩) = true) :
    ∃ t' s', Skeleton.homeStep T llc { s with queue := pre ++ post } (.request ⟨requestTypeGetM, i⟩) =
      .ok s' ∧ TokenInv ph llc t' s' := by
  obtain ⟨place, route, view⟩ := t
  have hlaw := hL.homeGetM s.home.state
  have he : s.home.event llc (.request ⟨requestTypeGetM, i⟩) = .ok .getM := by
    simp [Home.event, requestTypeGetM, requestTypeGetS]
  have hstall : LLCActionId.stall ∉ T.llc.getActions s.home.state .getM := by
    simpa [Home.ready, HomeMsg.hasData, he] using hready
  have hrecalls := recalls_request llc s.bus hq.queue
    (by simp [requestTypeGetM, requestTypeInv])
  have hstep : ∀ v, View.step ph.base v ⟨requestTypeGetM, i⟩ = (.own i, [visit false i]) := by
    intro v
    simp [View.step, requestTypeGetM, requestTypeGetS]
  have hview := hq.view_eq ph.base
  have htoken := hI.token
  have hcores := hI.cores
  have hhome := hI.home
  have hlocated := hI.located
  cases hp : ph.home s.home.state with
  | resident isFree valid =>
    rw [hp] at hlaw hhome hlocated
    obtain ⟨rfl, howner, hpending, hmemory, rfl, rfl⟩ := hhome
    obtain ⟨hafter, hroute⟩ := hview (.resident isFree)
    rw [hstep] at hafter hroute
    rw [hroute] at htoken hcores
    cases valid <;> simp only [homeGetMLaw, decide_eq_true_eq] at hlaw
    · -- the line is fetched for the writer
      refine homeStep_closes hL (s := { s with queue := pre ++ post }) _ (some i) [i] [i] [] [] he hlaw
        (by simp) (by simp) (by simp) ?_ ?_ ?_ ?_ rfl (by simpa using htoken) (by simpa using hcores) ?_ ?_
        (hq.queueOk hI.queue) (by simpa using hI.bus) hI.waiting
      · simp [HomePhase.isValid, Home.ownerAfter, HomeMsg.owner]
      · simp [Home.pendingAfter, HomeMsg.owner, hpending]
      · simp [Home.answered, Home.responds]
      · simp [hmemory, HomeMsg.owner]
      · exact ⟨rfl, i, rfl, rfl, rfl, rfl, hafter⟩
      · rw [List.append_nil, hrecalls]
        exact ⟨by simp [HomePhase.isValid, Home.locationAfter, hlocated.1], hlocated.2⟩
    · -- the token is sent to the writer
      refine homeStep_closes hL (s := { s with queue := pre ++ post }) _ (some i) [] [] [⟨i, i, false⟩] [] he
        hlaw (by simp) (by simp) (by simp) ?_ ?_ ?_ ?_ rfl (TokenOk.launch htoken hn)
        (CoresOk.launch hcores) ?_ ?_ (hq.queueOk hI.queue) (by simpa using hI.bus) hI.waiting
      · simp [HomePhase.isValid, Home.ownerAfter, HomeMsg.owner]
      · simp [Home.pendingAfter, Home.responds, HomeMsg.isFill, hpending]
      · simp [Home.answered, Home.responds, HomeMsg.owner, HomeMsg.isFill]
      · simp [hmemory]
      · exact ⟨by simp, rfl, rfl, i, false, [], rfl, by simp, rfl, hafter⟩
      · rw [List.append_nil, hrecalls]
        simp only [HomePhase.isValid, if_true, locationAfter_eq hlocated]
        exact hlocated
  | owned =>
    -- the writer is the next owner; the present one hands the token on
    rw [hp] at hlaw hhome hlocated
    simp only [homeGetMLaw, decide_eq_true_eq] at hlaw
    obtain ⟨hplace, hpending, hmemory, o, x, A, howner, hA, rfl, rfl⟩ := hhome
    obtain ⟨hafter, hroute⟩ := hview (.own o)
    rw [hstep] at hafter hroute
    refine homeStep_closes hL (s := { s with queue := pre ++ post }) _ (some i) [] [] [] [] he hlaw
      (by simp) (by simp) (by simp) ?_ ?_ ?_ ?_ rfl (by simpa using htoken) (by simpa using hcores) ?_ ?_
      (hq.queueOk hI.queue) (by simpa using hI.bus) hI.waiting
    · simp [HomePhase.isValid, Home.ownerAfter, HomeMsg.owner]
    · simp [Home.pendingAfter, Home.responds, hpending]
    · simp [Home.answered, Home.responds]
    · simp [hmemory]
    · refine ⟨hplace, rfl, rfl, i, false, A ++ [visit x o], rfl, by simp [hA], ?_, hafter⟩
      rw [hroute]
      simp
    · rw [List.append_nil, hrecalls]
      simp only [HomePhase.isValid, if_true, locationAfter_eq hlocated]
      exact hlocated
  | unreachable =>
    rw [hp] at hhome
    exact absurd hhome id
  | _ =>
    rw [hp] at hlaw
    simp only [homeGetMLaw, decide_eq_true_eq] at hlaw
    simp [hlaw] at hstall

/-- The last-level cache processes its own invalidation. -/
theorem homeStep_inv {pre post : List HomeMsg} (hI : TokenInv ph llc t s)
    (hq : Queued s.queue (.request ⟨requestTypeInv, llc⟩) pre post) :
    ∃ t' s', Skeleton.homeStep T llc { s with queue := pre ++ post } (.request ⟨requestTypeInv, llc⟩) =
      .ok s' ∧ TokenInv ph llc t' s' := by
  obtain ⟨place, route, view⟩ := t
  have hlaw := hL.homeInvalidation s.home.state
  have he : s.home.event llc (.request ⟨requestTypeInv, llc⟩) = .ok .ownInvalidation := by
    simp [Home.event, requestTypeGetM, requestTypeGetS, requestTypePutM, requestTypeInv]
  have hrecalls : recalls llc s.queue s.bus = recalls llc (pre ++ post) s.bus + 1 := by
    simp [recalls, hq.queue, List.count_append]
    omega
  have hview := hq.view_eq ph.base
  have hhome := hI.home
  have hlocated := hI.located
  have hdone : (s.home.location = some .array ∧ recalls llc s.queue s.bus = 0 ∨
      s.home.location = some .pwb ∧ recalls llc s.queue s.bus = 1) →
      s.home.location = some .pwb ∧ recalls llc (pre ++ post) s.bus = 0 := by
    rintro (⟨-, hrec⟩ | ⟨hloc, hrec⟩)
    · omega
    · exact ⟨hloc, by omega⟩
  have hbase : View.resident ph.grantsExclusive = ph.base := rfl
  cases hp : ph.home s.home.state with
  | resident isFree valid =>
    rw [hp] at hlaw hhome hlocated
    obtain ⟨rfl, howner, hpending, hmemory, rfl, rfl⟩ := hhome
    obtain ⟨hafter, hroute⟩ := hview (.resident isFree)
    have hstep : View.step ph.base (.resident isFree) ⟨requestTypeInv, llc⟩ = (ph.base, []) := by
      cases isFree <;>
        simp [View.step, View.resident, requestTypeInv, requestTypeGetS, requestTypeGetM]
    rw [hstep] at hafter hroute
    cases valid with
    | false =>
      obtain ⟨-, hrec⟩ := hlocated
      omega
    | true =>
      simp only [homeInvalidationLaw, decide_eq_true_eq] at hlaw
      refine homeStep_closes hL (s := { s with queue := pre ++ post }) _ none [] [] [] [] he hlaw
        (by simp) (by simp) (by simp) ?_ ?_ ?_ ?_ rfl (by simpa using hI.token) (by simpa using hI.cores)
        ?_ ?_ (hq.queueOk hI.queue) (by simpa using hI.bus) hI.waiting
      · simp [HomePhase.isValid]
      · simp [Home.pendingAfter, Home.responds, hpending]
      · simp [Home.answered, Home.responds]
      · simp [hmemory]
      · exact ⟨rfl, rfl, rfl, rfl, hroute, hafter⟩
      · rw [List.append_nil]
        exact ⟨by simp [HomePhase.isValid], (hdone hlocated).2⟩
  | owned =>
    rw [hp] at hlaw hhome hlocated
    simp only [homeInvalidationLaw, decide_eq_true_eq] at hlaw
    obtain ⟨hplace, hpending, hmemory, o, x, A, howner, hA, rfl, rfl⟩ := hhome
    obtain ⟨hafter, hroute⟩ := hview (.own o)
    rw [View.step_inv_own] at hafter hroute
    refine homeStep_closes hL (s := { s with queue := pre ++ post }) _ none [] [] [] [] he hlaw
      (by simp) (by simp) (by simp) ?_ ?_ ?_ ?_ rfl (by simpa using hI.token) (by simpa using hI.cores) ?_ ?_
      (hq.queueOk hI.queue) (by simpa using hI.bus) hI.waiting
    · simp [HomePhase.isValid, Home.ownerAfter]
    · simp [Home.pendingAfter, Home.responds, hpending]
    · simp [Home.answered, Home.responds]
    · simp [hmemory]
    · refine ⟨hplace, rfl, rfl, rfl, A ++ [visit x o], by simp [hA], ?_, hafter⟩
      rw [hroute, hbase]
      simp
    · rw [List.append_nil]
      obtain ⟨hloc, hrec⟩ := hdone hlocated
      exact ⟨by simp [HomePhase.isValid, Home.locationAfter, hloc], hrec⟩
  | awaiting isFree dropped =>
    rw [hp] at hlaw hhome hlocated
    cases dropped with
    | true =>
      obtain ⟨-, hrec⟩ := hlocated
      omega
    | false =>
      simp only [homeInvalidationLaw, decide_eq_true_eq] at hlaw
      obtain ⟨hplace, howner, hpending, hmemory, A, hA, rfl, rfl⟩ := hhome
      obtain ⟨hafter, hroute⟩ := hview (.resident isFree)
      have hstep : View.step ph.base (.resident isFree) ⟨requestTypeInv, llc⟩ = (ph.base, []) := by
        cases isFree <;>
          simp [View.step, View.resident, requestTypeInv, requestTypeGetS, requestTypeGetM]
      rw [hstep] at hafter hroute
      refine homeStep_closes hL (s := { s with queue := pre ++ post }) _ none [] [] [] [] he hlaw
        (by simp) (by simp) (by simp) ?_ ?_ ?_ ?_ rfl (by simpa using hI.token) (by simpa using hI.cores)
        ?_ ?_ (hq.queueOk hI.queue) (by simpa using hI.bus) hI.waiting
      · simp [HomePhase.isValid, Home.ownerAfter, howner]
      · simp [Home.pendingAfter, Home.responds, hpending]
      · simp [Home.answered, Home.responds]
      · simp [hmemory]
      · exact ⟨hplace, rfl, rfl, rfl, A, hA, by rw [hroute, hbase]; simp, hafter⟩
      · rw [List.append_nil]
        obtain ⟨hloc, hrec⟩ := hdone hlocated
        exact ⟨by simp [HomePhase.isValid, Home.locationAfter, hloc], hrec⟩
  | unreachable =>
    rw [hp] at hhome
    exact absurd hhome id
  | _ =>
    rw [hp] at hlocated
    obtain ⟨-, hrec⟩ := hlocated
    omega

/-- The last-level cache processes a replacement: the line is called back. -/
theorem homeStep_replacement (hn : n ≤ llc) {pre post : List HomeMsg} (hI : TokenInv ph llc t s)
    (hqueue : s.queue = pre ++ .replacement :: post)
    (hready : s.home.ready T.llc llc .replacement = true) :
    ∃ t' s', Skeleton.homeStep T llc { s with queue := pre ++ post } .replacement = .ok s' ∧
      TokenInv ph llc t' s' := by
  have hlaw := hL.homeReplacement s.home.state
  have he : s.home.event llc .replacement = .ok .replacement := rfl
  have hstall : LLCActionId.stall ∉ T.llc.getActions s.home.state .replacement := by
    simpa [Home.ready, HomeMsg.hasData, he] using hready
  have hrecalls : recalls llc (pre ++ post) (s.bus ++ [⟨requestTypeInv, llc⟩]) =
      recalls llc s.queue s.bus := by
    simp [recalls, hqueue, List.count_append]
    omega
  have hpos : 0 < recalls llc s.queue s.bus := by
    have hcount : 0 < s.queue.count .replacement := List.count_pos_iff.2 (by simp [hqueue])
    rw [recalls]
    omega
  have hq : ∀ m ∈ pre ++ post, QueueOk n llc m := by
    intro m hm
    refine hI.queue m ?_
    rw [hqueue]
    simp only [List.mem_append, List.mem_cons] at hm ⊢
    tauto
  have hafter := fun v => View.after_replacement ph.base v pre post
  have hstops := fun v => View.stops_replacement ph.base v pre post
  have hhome := hI.home
  have hlocated := hI.located
  rw [hqueue] at hhome
  cases hp : ph.home s.home.state with
  | resident isFree valid =>
    rw [hp] at hlaw hhome hlocated
    obtain ⟨hplace, howner, hpending, hmemory, hroute, hview⟩ := hhome
    cases valid with
    | false =>
      obtain ⟨-, hrec⟩ := hlocated
      omega
    | true =>
      simp only [homeReplacementLaw, decide_eq_true_eq] at hlaw
      refine homeStep_closes hL (s := { s with queue := pre ++ post }) t none [] [] [] _ he hlaw
        (by simp) (by simp) (by simp) ?_ ?_ ?_ ?_ rfl (by simpa using hI.token) (by simpa using hI.cores)
        ?_ ?_ hq (by simpa using BusOk.issueInv hn hI.bus) hI.waiting
      · simp [HomePhase.isValid, Home.ownerAfter, howner]
      · simp [Home.pendingAfter, Home.responds, hpending]
      · simp [Home.answered, Home.responds]
      · simp [hmemory]
      · exact ⟨hplace, rfl, rfl, rfl, hroute.trans (hstops _), hview.trans (hafter _)⟩
      · simp only [List.mem_singleton, if_true, hrecalls, HomePhase.isValid, locationAfter_eq hlocated]
        exact hlocated
  | owned =>
    rw [hp] at hlaw hhome hlocated
    obtain ⟨hplace, hpending, hmemory, o, x, A, howner, hA, hroute, hview⟩ := hhome
    simp only [homeReplacementLaw, decide_eq_true_eq] at hlaw
    refine homeStep_closes hL (s := { s with queue := pre ++ post }) t (some o) [] [] [] _ he hlaw
      (by simp) (by simp) (by simp) ?_ ?_ ?_ ?_ rfl (by simpa using hI.token) (by simpa using hI.cores)
      ?_ ?_ hq (by simpa using BusOk.issueInv hn hI.bus) hI.waiting
    · simp [HomePhase.isValid, Home.ownerAfter, howner]
    · simp [Home.pendingAfter, Home.responds, hpending]
    · simp [Home.answered, Home.responds]
    · simp [hmemory]
    · exact ⟨hplace, rfl, rfl, o, x, A, rfl, hA, by rw [hroute, hstops], hview.trans (hafter _)⟩
    · simp only [List.mem_singleton, if_true, hrecalls, HomePhase.isValid, locationAfter_eq hlocated]
      exact hlocated
  | unreachable =>
    rw [hp] at hhome
    exact absurd hhome id
  | _ =>
    rw [hp] at hlaw
    simp only [homeReplacementLaw, decide_eq_true_eq] at hlaw
    simp [hlaw] at hstall

/-- The last-level cache processes the first ready message of its queue. -/
theorem homeStep_queued (hn : n ≤ llc) {m : HomeMsg} {queue : List HomeMsg} (hI : TokenInv ph llc t s)
    (hfirst : s.home.firstReady T.llc llc [] s.queue = some (m, queue)) :
    ∃ t' s', Skeleton.homeStep T llc { s with queue := queue } m = .ok s' ∧ TokenInv ph llc t' s' := by
  obtain ⟨pre, post, hqueue, rfl, -, hready⟩ := Home.firstReady_eq_some hfirst
  rcases hI.queue m (by rw [hqueue]; simp) with rfl | rfl | ⟨i, -, rfl | rfl⟩
  · exact homeStep_replacement hL hn hI hqueue hready
  · obtain ⟨pre', post', hq, heq, -⟩ := queued_of_firstReady hI rfl hfirst
    rw [heq]
    exact homeStep_inv hL hI hq
  · obtain ⟨pre', post', hq, heq, hready'⟩ := queued_of_firstReady hI rfl hfirst
    rw [heq]
    exact homeStep_getS hL hn hI hq hready'
  · obtain ⟨pre', post', hq, heq, hready'⟩ := queued_of_firstReady hI rfl hfirst
    rw [heq]
    exact homeStep_getM hL hn hI hq hready'

/-- A drain succeeds, keeps the invariant and ends at rest. -/
theorem drain_inv (hn : n ≤ llc) {fuel : Nat} (hfuel : s.queue.length < fuel)
    (hI : ∃ t, TokenInv ph llc t s) :
    ∃ s', s.drain T llc fuel = .ok s' ∧ (∃ t, TokenInv ph llc t s') ∧ s'.AtRest T llc := by
  refine Skeleton.drain_total (I := fun s => ∃ t, TokenInv ph llc t s)
    (fun s m queue hI hfirst => ?_) hfuel hI
  obtain ⟨t, hI⟩ := hI
  obtain ⟨t', s', hs', hI'⟩ := homeStep_queued hL hn hI hfirst
  exact ⟨s', hs', t', hI'⟩

/-- The token comes home. -/
theorem homeStep_data (hn : n ≤ llc) {k : Nat} {f : Supply} (hI : TokenInv ph llc t s)
    (hf : s.flight[k]? = some f) (hdest : f.dest = llc) :
    ∃ t' s', Skeleton.homeStep T llc { s with flight := s.flight.eraseIdx k } (.data f.owner) = .ok s' ∧
      TokenInv ph llc t' s' := by
  obtain ⟨place, route, view⟩ := t
  have hlaw := hL.homeData s.home.state
  have he : s.home.event llc (.data f.owner) = .ok .dataFromLowerInterface := rfl
  have herase := arriving_eraseIdx hf
  have htotal : arriving (s.flight.eraseIdx k) llc false + arriving (s.flight.eraseIdx k) llc true + 1 =
      arriving s.flight llc false + arriving s.flight llc true := by
    have hfalse := herase llc false
    have htrue := herase llc true
    cases hx : f.exclusive <;> simp [hdest, hx] at hfalse htrue <;> omega
  have hhead := hI.token.homeArriving
  split at hhead
  case isFalse => omega
  case isTrue hflying =>
  obtain ⟨rfl, hhome⟩ := hflying
  obtain ⟨V, rfl⟩ : ∃ V, route = home :: V := by
    cases route with
    | nil => simp at hhome
    | cons a V => exact ⟨V, by simpa using hhome⟩
  have hnil : ∀ {A B : List (Stop Nat)} {b}, home ∉ A → home :: V = A ++ b :: B → A = [] ∧ b = home ∧ V = B := by
    intro A B b hA heq
    cases A with
    | nil => exact ⟨rfl, (List.cons.inj heq).1.symm, (List.cons.inj heq).2⟩
    | cons a A => exact absurd ((List.cons.inj heq).1 ▸ List.mem_cons_self) hA
  have hok := hI.home
  have hlocated := hI.located
  cases hp : ph.home s.home.state with
  | awaiting isFree dropped =>
    rw [hp] at hlaw hok hlocated
    obtain ⟨-, howner, hpending, hmemory, A, hA, hroute, hview⟩ := hok
    obtain ⟨rfl, -, rfl⟩ := hnil hA hroute
    simp only [homeDataLaw, decide_eq_true_eq] at hlaw
    obtain ⟨hp', ha⟩ := hlaw
    have hlocation : (HomePhase.resident isFree !dropped).Located
        (if (HomePhase.resident isFree !dropped).isValid then
          Home.locationAfter s.home.location (HomeMsg.data f.owner).hasData else none)
        (recalls llc s.queue s.bus) := by
      cases dropped with
      | true => exact ⟨by simp [HomePhase.isValid], hlocated.2⟩
      | false =>
        simp only [Bool.not_false, HomePhase.isValid, if_true, locationAfter_eq hlocated]
        exact hlocated
    have htoken : TokenOk ph n llc ⟨.home, View.stops ph.base (.resident isFree) s.queue, view⟩
        (s.flight.eraseIdx k) :=
      ⟨trivial, by simp; omega, fun g hg => hI.token.exclusive g (List.mem_of_mem_eraseIdx hg),
        hI.token.free, fun x i hi => hI.token.bound x i (List.mem_cons_of_mem _ hi),
        fun i hi => hI.token.bound_serve i (List.mem_cons_of_mem _ hi)⟩
    have hcores : CoresOk ph llc ⟨.home, View.stops ph.base (.resident isFree) s.queue, view⟩ s.core
        (s.flight.eraseIdx k) := by
      refine hI.cores.comeHome fun i => ?_
      funext x
      have hne : f.dest ≠ i := by omega
      simpa [hne] using herase i x
    rcases ha with ha | ha <;>
      refine homeStep_closes hL (s := { s with flight := s.flight.eraseIdx k })
        ⟨.home, View.stops ph.base (.resident isFree) s.queue, view⟩ none [] [] [] [] he ⟨hp', ha⟩
        (by simp) (by simp) (by simp) ?_ ?_ ?_ ?_ rfl (by simpa using htoken) (by simpa using hcores)
        ⟨rfl, rfl, rfl, rfl, rfl, hview⟩ (by rw [List.append_nil]; exact hlocation) hI.queue
        (by simpa using hI.bus) hI.waiting
    all_goals simp [Home.ownerAfter, howner, Home.pendingAfter, Home.responds, hpending, Home.answered, hmemory]
  | owned =>
    rw [hp] at hok
    obtain ⟨-, -, -, o, x, A, -, hA, hroute, -⟩ := hok
    exact absurd (hnil hA hroute).2.1 (by simp)
  | unreachable =>
    rw [hp] at hok
    exact absurd hok id
  | _ =>
    rw [hp] at hok
    exact absurd hok.1 (by simp)

/-- Main memory's answer is processed. -/
theorem homeStep_fill (hn : n ≤ llc) {k o : Nat} (hI : TokenInv ph llc t s)
    (ho : s.memory[k]? = some o) :
    ∃ t' s', Skeleton.homeStep T llc { s with memory := s.memory.eraseIdx k } (.fill o) = .ok s' ∧
      TokenInv ph llc t' s' := by
  obtain ⟨place, route, view⟩ := t
  have hlaw := hL.homeFill s.home.state
  have he : s.home.event llc (.fill o) = .ok .dataFromUpperInterface := rfl
  have hok := hI.home
  have hlocated := hI.located
  have htoken := hI.token
  have hcores := hI.cores
  have hone : ∀ {r}, s.memory = [r] → o = r ∧ s.memory.eraseIdx k = [] := by
    intro r hr
    rw [hr] at ho ⊢
    obtain ⟨hk, rfl⟩ := List.getElem?_eq_some_iff.1 ho
    obtain rfl : k = 0 := by simpa using hk
    simp
  cases hp : ph.home s.home.state with
  | fetchShared =>
    rw [hp] at hlaw hok hlocated
    simp only [homeFillLaw, decide_eq_true_eq] at hlaw
    obtain ⟨rfl, howner, r, hpending, hmemory, rfl, hview⟩ := hok
    obtain ⟨rfl, herase⟩ := hone hmemory
    refine homeStep_closes hL (s := { s with memory := s.memory.eraseIdx k }) _ none [] [] [⟨o, o, false⟩] []
      he hlaw (by simp) (by simp) (by simp) ?_ ?_ ?_ ?_ rfl (TokenOk.serve htoken hn)
      (CoresOk.serve hcores) ⟨rfl, rfl, rfl, rfl, rfl, hview⟩ ?_ hI.queue (by simpa using hI.bus) hI.waiting
    · simp [HomePhase.isValid, Home.ownerAfter, howner]
    · simp [Home.pendingAfter, Home.responds, HomeMsg.isFill]
    · simp [Home.answered, Home.responds, HomeMsg.owner, HomeMsg.isFill, hpending]
    · simp [herase]
    · rw [List.append_nil]
      exact .inl ⟨by simp [HomePhase.isValid, Home.locationAfter, hlocated.1, HomeMsg.hasData], hlocated.2⟩
  | fetchOwned x =>
    rw [hp] at hlaw hok hlocated
    simp only [homeFillLaw, decide_eq_true_eq] at hlaw
    obtain ⟨rfl, r, howner, hpending, hmemory, rfl, hview⟩ := hok
    obtain ⟨rfl, herase⟩ := hone hmemory
    refine homeStep_closes hL (s := { s with memory := s.memory.eraseIdx k }) _ (some o) [] [] [⟨o, o, x⟩] []
      he hlaw (by cases x <;> simp) (by cases x <;> simp) (by simp) ?_ ?_ ?_ ?_ ?_ (TokenOk.launch htoken hn)
      (CoresOk.launch hcores) ⟨by simp, rfl, rfl, o, x, [], rfl, by simp, rfl, hview⟩ ?_ hI.queue
      (by simpa using hI.bus) hI.waiting
    · cases x <;> simp [HomePhase.isValid, Home.ownerAfter, howner]
    · cases x <;> simp [Home.pendingAfter, Home.responds, HomeMsg.isFill]
    · cases x <;> simp [Home.answered, Home.responds, HomeMsg.owner, HomeMsg.isFill, hpending]
    · cases x <;> simp [herase]
    · cases x <;> simp
    · rw [List.append_nil]
      exact .inl ⟨by simp [HomePhase.isValid, Home.locationAfter, hlocated.1, HomeMsg.hasData], hlocated.2⟩
  | resident isFree valid =>
    rw [hp] at hok
    simp [hok.2.2.2.1] at ho
  | owned =>
    rw [hp] at hok
    simp [hok.2.2.1] at ho
  | awaiting isFree dropped =>
    rw [hp] at hok
    simp [hok.2.2.2.1] at ho
  | unreachable =>
    rw [hp] at hok
    exact absurd hok id

end Octopus.Snoop
