import Octopus.Snoop.HomeSteps

/-!
# The private caches keep the token invariant

Processor requests and replacements leave the token alone. A cache that gets the data it waits
for keeps it, or hands it over to whom its parked request names; a cache that gives the token up
on the bus hands it over in the same way.
-/

namespace Octopus.Snoop

open Lib Lib.Itinerary
open Lib.Stop (visit home serve)

variable {σ τ : Type} {n llc : Nat} {T : Tables σ τ} {ph : Phases σ τ} {t : Token}
  {s : Skeleton n σ τ}

section HomePhase

variable {p : HomePhase} {base v : View} {place place' : Place} {W : List (Stop Nat)}
  {owner : Option Nat} {pending memory : List Nat} {q : List HomeMsg}

/-- The token changes hands below the last-level cache. -/
theorem HomePhase.Ok.setPlace (h : p.Ok base place W v owner pending memory q) (hplace : place ≠ .home)
    (hplace' : place' ≠ .home) : p.Ok base place' W v owner pending memory q := by
  cases p with
  | resident | fetchShared | fetchOwned => exact absurd h.1 hplace
  | owned | awaiting => exact ⟨hplace', h.2⟩
  | unreachable => exact h

/-- A stop below the last-level cache is done. -/
theorem HomePhase.Ok.pop {x : Stop Nat} (h : p.Ok base place (x :: W) v owner pending memory q)
    (hplace : place ≠ .home) (hx : x ≠ home) (hW : W ≠ []) (hq : p = .owned → q = []) :
    p.Ok base place W v owner pending memory q := by
  have htail : ∀ {A B : List (Stop Nat)} {y}, home ∉ A → x :: W = A ++ y :: B → (A = [] → x ≠ y) →
      ∃ A', home ∉ A' ∧ W = A' ++ y :: B := by
    intro A B y hA heq hne
    cases A with
    | nil => exact absurd (List.cons.inj heq).1 (hne rfl)
    | cons a A => exact ⟨A, fun hmem => hA (List.mem_cons_of_mem a hmem), (List.cons.inj heq).2⟩
  cases p with
  | resident | fetchShared | fetchOwned => exact absurd h.1 hplace
  | owned =>
    obtain rfl := hq rfl
    obtain ⟨-, hpending, hmemory, o, y, A, howner, hA, hroute, hview⟩ := h
    obtain ⟨A', hA', hroute'⟩ := htail hA hroute (by
      rintro rfl
      exact absurd (List.cons.inj hroute).2 hW)
    exact ⟨hplace, hpending, hmemory, o, y, A', howner, hA', hroute', hview⟩
  | awaiting isFree dropped =>
    obtain ⟨-, howner, hpending, hmemory, A, hA, hroute, hview⟩ := h
    obtain ⟨A', hA', hroute'⟩ := htail hA hroute fun _ => hx
    exact ⟨hplace, howner, hpending, hmemory, A', hA', hroute', hview⟩
  | unreachable => exact h

/-- A request enters the queue of the last-level cache. -/
theorem HomePhase.Ok.append (h : p.Ok base place W v owner pending memory q) (r : Req) :
    p.Ok base place (W ++ (View.step base v r).2) (View.step base v r).1 owner pending memory
      (q ++ [.request r]) := by
  cases p with
  | resident isFree valid =>
    obtain ⟨hplace, howner, hpending, hmemory, rfl, rfl⟩ := h
    exact ⟨hplace, howner, hpending, hmemory, (View.stops_append ..).symm, (View.after_append ..).symm⟩
  | fetchShared =>
    obtain ⟨hplace, howner, i, hpending, hmemory, rfl, rfl⟩ := h
    exact ⟨hplace, howner, i, hpending, hmemory, by rw [View.stops_append]; rfl,
      (View.after_append ..).symm⟩
  | fetchOwned x =>
    obtain ⟨hplace, i, howner, hpending, hmemory, rfl, rfl⟩ := h
    exact ⟨hplace, i, howner, hpending, hmemory, by rw [View.stops_append]; rfl,
      (View.after_append ..).symm⟩
  | owned =>
    obtain ⟨hplace, hpending, hmemory, o, x, A, howner, hA, rfl, rfl⟩ := h
    exact ⟨hplace, hpending, hmemory, o, x, A, howner, hA, by rw [View.stops_append]; simp,
      (View.after_append ..).symm⟩
  | awaiting isFree dropped =>
    obtain ⟨hplace, howner, hpending, hmemory, A, hA, rfl, rfl⟩ := h
    exact ⟨hplace, howner, hpending, hmemory, A, hA, by rw [View.stops_append]; simp,
      (View.after_append ..).symm⟩
  | unreachable => exact h

/-- The line may be recalled once it is in the data array. -/
theorem HomePhase.Located.evict {recalls : Nat} (h : p.Located (some .array) recalls) :
    p.Located (some .pwb) (recalls + 1) := by
  cases p with
  | resident isFree valid =>
    cases valid with
    | false => simp [HomePhase.Located] at h
    | true => exact .inr ⟨rfl, by simpa [HomePhase.Located] using h⟩
  | owned => exact .inr ⟨rfl, by simpa [HomePhase.Located] using h⟩
  | awaiting isFree dropped =>
    cases dropped with
    | false => exact .inr ⟨rfl, by simpa [HomePhase.Located] using h⟩
    | true => simp [HomePhase.Located] at h
  | _ => simp [HomePhase.Located] at h

end HomePhase

/-- The last-level cache that lets a cache own the line never leaves a message in its queue. -/
theorem queue_eq_nil_of_owned (hL : TokenLaws T ph) (hI : TokenInv ph llc t s) (hrest : s.AtRest T llc)
    (howned : ph.home s.home.state = .owned) : s.queue = [] := by
  cases hqueue : s.queue with
  | nil => rfl
  | cons m queue =>
    rw [Skeleton.AtRest, hqueue] at hrest
    have hready := Home.ready_eq_false_of_firstReady hrest
    have hstall : ∀ {e a}, s.home.event llc m = .ok e → T.llc.getActions s.home.state e = a →
        LLCActionId.stall ∉ a → False := by
      intro e a he ha hnot
      simp [Home.ready, he, ha, hnot] at hready
    have hgetS := hL.homeGetS s.home.state
    have hgetM := hL.homeGetM s.home.state
    have hinv := hL.homeInvalidation s.home.state
    have hrepl := hL.homeReplacement s.home.state
    simp only [howned, homeGetSLaw, homeGetMLaw, homeInvalidationLaw, homeReplacementLaw,
      decide_eq_true_eq] at hgetS hgetM hinv hrepl
    rcases hI.queue m (by simp [hqueue]) with rfl | rfl | ⟨i, -, rfl | rfl⟩
    · exact (hstall rfl hrepl.2 (by simp)).elim
    · exact (hstall (by simp [Home.event, requestTypeInv, requestTypeGetS, requestTypeGetM, requestTypePutM])
        hinv.2 (by simp)).elim
    · exact (hstall (by simp [Home.event]) hgetS.2 (by simp)).elim
    · exact (hstall (by simp [Home.event, requestTypeGetS, requestTypeGetM]) hgetM.2 (by simp)).elim

/-- The invariant between two steps: a token, and a last-level cache at rest. -/
def Inv (T : Tables σ τ) (ph : Phases σ τ) (llc : Nat) (s : Skeleton n σ τ) : Prop :=
  (∃ t, TokenInv ph llc t s) ∧ s.AtRest T llc

section Requests

/-- One private cache changes, and the others look on. -/
theorem CoresOk.update {core : Fin n → Core σ} {flight flight' : List Supply}
    (h : CoresOk ph llc t core flight) (t' : Token) (hview : t'.view = t.view) {i : Fin n} {c : Core σ}
    (hphase : (ph.core c.state).Ok llc t'.place t'.route i (arriving flight' i) c.saved)
    (hothers : ∀ j : Fin n, (j : Nat) ≠ i →
      (ph.core (core j).state).Ok llc t'.place t'.route j (arriving flight' j) (core j).saved)
    (hcurrent : (ph.core c.state).isCurrent → (ph.core (core i).state).isCurrent) :
    CoresOk ph llc t' (Function.update core i c) flight' where
  phase j := by
    by_cases hj : j = i
    · subst hj
      simpa using hphase
    · simpa [hj] using hothers j fun heq => hj (Fin.ext heq)
  alone j hj := by
    rw [hview]
    by_cases hji : j = i
    · subst hji
      exact h.alone j (hcurrent (by simpa using hj))
    · exact h.alone j (by simpa [hji] using hj)

/-- A private cache puts a request on the bus. -/
theorem BusOk.request (h : BusOk ph llc s.core s.bus) {i : Fin n} {c : Core σ} {type : Nat}
    (hnone : ph.pending (s.core i).state = none) (hsome : ph.pending c.state = some type) :
    BusOk ph llc (Function.update s.core i c) (s.bus ++ [⟨type, i⟩]) where
  pending j := by
    by_cases hj : j = i
    · subst hj
      simp [List.filter_append, h.pending j, hnone, hsome]
    · have hne : (i : Nat) ≠ j := fun heq => hj (Fin.ext heq.symm)
      simp [List.filter_append, h.pending j, hj, hne]
  owner r hr := by
    rcases List.mem_append.1 hr with hr | hr
    · exact h.owner r hr
    · obtain rfl := List.mem_singleton.1 hr
      exact .inl i.isLt

/-- A private cache changes its state and keeps its request on the bus, if it has one. -/
theorem BusOk.update (h : BusOk ph llc s.core s.bus) {i : Fin n} {c : Core σ}
    (hpending : ph.pending c.state = ph.pending (s.core i).state) :
    BusOk ph llc (Function.update s.core i c) s.bus where
  pending j := by
    by_cases hj : j = i
    · subst hj
      simpa [hpending] using h.pending j
    · simpa [hj] using h.pending j
  owner := h.owner

/-- A cache drops a copy or stays as it is. -/
theorem Phase.Ok.drop {p p' : Phase} {place : Place} {W : List (Stop Nat)} {j : Nat} {k : Bool → Nat}
    {saved : List Req} (h : p.Ok llc place W j k saved) (hp : p' = p ∨ p = .shared ∧ p' = .idle) :
    p'.Ok llc place W j k saved := by
  rcases hp with rfl | ⟨rfl, rfl⟩
  · exact h
  · exact ⟨h.1, h.2.1, fun x => h.2.2.2 x j, h.2.2.1⟩

/-- The actions of a cell for a request: at most a request for the bus. -/
theorem Core.process_request {a : List ActionId} {c : Core σ} {e : EventId} (i : Nat) (r : Req) (x : Bool)
    (ha : T.l1.getActions c.state e = a)
    (hmem : (a = [] ∨ a = [.hit]) ∨ a = [.getS] ∨ a = [.getM] ∨ a = [.putM]) :
    c.process T.l1 llc i e r x = .ok (⟨T.l1.getNextState c.state e, c.saved⟩,
      { bus := (sentType a).toList.map fun type => ⟨type, i⟩ }) := by
  rw [Core.process, ha]
  rcases hmem with (rfl | rfl) | rfl | rfl | rfl <;> rfl

/-- A private cache takes a request of its processor, or evicts the line. -/
theorem runCore_request (hL : TokenLaws T ph) (hn : n ≤ llc) (hI : Inv T ph llc s) {i : Fin n} {e : EventId}
    (he : e ∈ requestEvents) (hstall : ActionId.stall ∉ T.l1.getActions (s.core i).state e) (r : Req)
    (x : Bool) : ∃ s', s.runCore T llc i e r x = .ok s' ∧ Inv T ph llc s' := by
  obtain ⟨⟨t, hI⟩, hrest⟩ := hI
  have hphase := hI.cores.phase i
  have hlaw := hL.request (s.core i).state e he fun heq => hstall (by simp [heq])
  generalize ha : T.l1.getActions (s.core i).state e = a at hlaw
  obtain ⟨hp, hsent⟩ : (ph.core (T.l1.getNextState (s.core i).state e) = ph.core (s.core i).state ∨
      ph.core (s.core i).state = .shared ∧ ph.core (T.l1.getNextState (s.core i).state e) = .idle) ∧
      ((a = [] ∨ a = [.hit]) ∧
          ph.pending (T.l1.getNextState (s.core i).state e) = ph.pending (s.core i).state ∨
        (a = [.getS] ∨ a = [.getM] ∨ a = [.putM]) ∧ ph.pending (s.core i).state = none ∧
          ph.pending (T.l1.getNextState (s.core i).state e) = sentType a) := by
    cases hq : ph.core (s.core i).state with
    | unreachable =>
      rw [hq] at hphase
      exact absurd hphase id
    | _ => simpa [requestLaw, hq] using hlaw
  have hcores := hI.cores.update (c := ⟨T.l1.getNextState (s.core i).state e, (s.core i).saved⟩)
    t rfl (hphase.drop hp) (fun j _ => hI.cores.phase j) fun hcurrent => by
      rcases hp with heq | ⟨-, heq⟩
      · rwa [← heq]
      · simp [heq, Phase.isCurrent] at hcurrent
  have hbus : BusOk ph llc (Function.update s.core i ⟨T.l1.getNextState (s.core i).state e, (s.core i).saved⟩)
      (s.bus ++ (sentType a).toList.map fun type => ⟨type, i⟩) := by
    rcases hsent with ⟨rfl | rfl, hpending⟩ | ⟨hmem, hnone, hsome⟩
    · simpa [sentType] using hI.bus.update hpending
    · simpa [sentType] using hI.bus.update hpending
    · obtain ⟨type, htype⟩ : ∃ type, sentType a = some type := by
        rcases hmem with rfl | rfl | rfl <;> exact ⟨_, rfl⟩
      rw [htype] at hsome ⊢
      exact hI.bus.request hnone hsome
  have hrecalls : recalls llc s.queue (s.bus ++ (sentType a).toList.map fun type => ⟨type, i⟩) =
      recalls llc s.queue s.bus := by
    have hne : (i : Nat) ≠ llc := by omega
    cases sentType a <;> simp [recalls, List.count_append, hne]
  rw [Skeleton.runCore, Core.process_request i r x ha (hsent.imp And.left And.left)]
  refine ⟨_, rfl, ⟨t, ?_⟩, hrest⟩
  exact {
    token := by simpa [Skeleton.emitCore] using hI.token
    cores := by simpa [Skeleton.emitCore] using hcores
    home := hI.home
    located := by simpa only [Skeleton.emitCore, hrecalls] using hI.located
    queue := hI.queue
    bus := hbus
    waiting := by simpa [Skeleton.emitCore] using hI.waiting }

/-- The last-level cache starts to evict the line. -/
theorem evict_inv (hL : TokenLaws T ph) (hn : n ≤ llc) (hI : Inv T ph llc s)
    (hlocation : s.home.location = some .array) :
    ∃ s', { s with home := { s.home with location := some .pwb } }.drainQueue T llc
      (s.queue ++ [HomeMsg.replacement]) = .ok s' ∧ Inv T ph llc s' := by
  obtain ⟨⟨t, hI⟩, -⟩ := hI
  have hafter := fun v => View.after_replacement ph.base v s.queue []
  have hstops := fun v => View.stops_replacement ph.base v s.queue []
  have hlocated := hI.located
  rw [hlocation] at hlocated
  refine drain_inv hL hn (by simp) ⟨t, ?_⟩
  exact {
    token := hI.token
    cores := hI.cores
    home := by
      have hhome := hI.home
      generalize ph.home s.home.state = p at hhome
      cases p with
      | unreachable => exact hhome
      | _ => simpa only [HomePhase.Ok, hafter, hstops, List.append_nil] using hhome
    located := by
      have hrecalls : recalls llc (s.queue ++ [.replacement]) s.bus = recalls llc s.queue s.bus + 1 := by
        simp [recalls, List.count_append]
        omega
      simpa only [hrecalls] using hlocated.evict
    queue := by
      intro m hm
      rcases List.mem_append.1 hm with hm | hm
      · exact hI.queue m hm
      · exact .inl (List.mem_singleton.1 hm)
    bus := hI.bus
    waiting := hI.waiting }

/-- A message that neither the gate nor a Stall cell holds back is processed at once. -/
theorem process_now (hL : TokenLaws T ph) (hn : n ≤ llc) (hrest : s.AtRest T llc) {m : HomeMsg}
    (hgate : m.isOrdered = false ∨ s.queue = []) (hready : s.home.ready T.llc llc m = true)
    (h : ∃ t' s', s.homeStep T llc m = .ok s' ∧ TokenInv ph llc t' s') :
    ∃ s', s.drainQueue T llc (s.queue ++ [m]) = .ok s' ∧ Inv T ph llc s' := by
  obtain ⟨t', s', hs', hI'⟩ := h
  have hqueue := (Skeleton.homeStep_frame hs').2.2
  have hcond : ¬ (((m.isOrdered && s.queue.any HomeMsg.isOrdered) || !s.home.ready T.llc llc m) = true) := by
    rcases hgate with hord | hnil
    · simp [hord, hready]
    · simp [hnil, hready]
  rw [Skeleton.drainQueue_append hrest, if_neg hcond, hs']
  exact drain_inv hL hn (by simp [hqueue]) ⟨t', hI'⟩

/-- The token is delivered to the last-level cache. -/
theorem deliverHome_inv (hL : TokenLaws T ph) (hn : n ≤ llc) (hI : Inv T ph llc s) {k : Nat} {f : Supply}
    (hf : s.flight[k]? = some f) (hdest : f.dest = llc) :
    ∃ s', { s with flight := s.flight.eraseIdx k }.drainQueue T llc (s.queue ++ [HomeMsg.data f.owner]) =
      .ok s' ∧ Inv T ph llc s' := by
  obtain ⟨⟨t, hI⟩, hrest⟩ := hI
  exact process_now (s := { s with flight := s.flight.eraseIdx k }) hL hn hrest (.inl rfl)
    (by simp [Home.ready, HomeMsg.hasData]) (homeStep_data hL hn hI hf hdest)

/-- Main memory's answer is delivered to the last-level cache. -/
theorem fill_inv (hL : TokenLaws T ph) (hn : n ≤ llc) (hI : Inv T ph llc s) {k o : Nat}
    (ho : s.memory[k]? = some o) :
    ∃ s', { s with memory := s.memory.eraseIdx k }.drainQueue T llc
      (s.queue.take (Skeleton.behindFill s.queue) ++
        HomeMsg.fill o :: s.queue.drop (Skeleton.behindFill s.queue)) = .ok s' ∧ Inv T ph llc s' := by
  obtain ⟨⟨t, hI⟩, -⟩ := hI
  have hpos : ∀ q : List HomeMsg, (∀ m ∈ q, QueueOk n llc m) → Skeleton.behindFill q = 0 := by
    intro q
    induction q with
    | nil => simp [Skeleton.behindFill]
    | cons m q ih =>
      intro hq
      have hm : m.isFill = false := by
        rcases hq m List.mem_cons_self with rfl | rfl | ⟨i, -, rfl | rfl⟩ <;> rfl
      rw [Skeleton.behindFill, ih fun x hx => hq x (List.mem_cons_of_mem m hx)]
      simp [hm]
  obtain ⟨t', s', hs', hI'⟩ := homeStep_fill hL hn hI ho
  have hqueue := (Skeleton.homeStep_frame hs').2.2
  rw [hpos s.queue hI.queue, List.take_zero, List.drop_zero, List.nil_append, Skeleton.drainQueue,
    Skeleton.drain_succ (Home.firstReady_cons (by simp [Home.ready, HomeMsg.hasData]))]
  simp only [hs']
  exact drain_inv hL hn (by simp [hqueue]) ⟨t', hI'⟩

end Requests

section Handover

/--
How a cache hands the token over: the stops that are done with it, the data messages it sends,
and the stop the token is then on its way to.
-/
inductive Passes (llc : Nat) : List (Stop Nat) → List Supply → Stop Nat → Prop
  | home (o : Nat) (x : Bool) : Passes llc [home] [⟨llc, o, x⟩] home
  | serve (i : Nat) : Passes llc [serve i, home] [⟨llc, i, false⟩, ⟨i, i, false⟩] home
  | visit (i : Nat) : Passes llc [visit false i] [⟨i, i, false⟩] (visit false i)

variable {o : Nat} {x : Bool} {seg post : List (Stop Nat)} {data : List Supply} {next : Stop Nat}
  {place : Place} {v : View} {flight flight' : List Supply}

/-- The stops that are left were there before. -/
theorem Passes.subset {y : Stop Nat} (h : Passes llc seg data next) (hy : y ∈ next :: post) :
    y ∈ seg ++ post := by
  cases h <;> simp at hy ⊢ <;> tauto

/-- Nothing is sent to a cache that the stops do not name. -/
theorem Passes.arriving_eq_zero {j : Nat} (h : Passes llc seg data next)
    (hvisit : ∀ y, Stop.visit y j ∉ seg) (hserve : Stop.serve j ∉ seg) (hj : j ≠ llc) (y : Bool) : arriving data j y = 0 := by
  cases h with
  | home => simp [hj.symm]
  | serve i =>
    have hi : i ≠ j := fun heq => hserve (by simp [heq])
    simp [hj.symm, hi]
  | visit i =>
    have hi : i ≠ j := fun heq => hvisit false (by simp [heq])
    simp [hi]

/-- A cache looks on while `o` hands the token over. -/
theorem Phase.Ok.handover {p : Phase} {j : Nat} {k k' : Bool → Nat} {saved : List Req}
    (h : p.Ok llc place (visit x o :: seg ++ post) j k saved) (hj : j ≠ o) (hjllc : j ≠ llc)
    (hpass : Passes llc seg data next) (hk : ∀ y, k' y = k y + arriving data j y) :
    p.Ok llc .flying (next :: post) j k' saved := by
  cases hpass with
  | home =>
    refine h.release hj fun y => ?_
    rw [hk, landing_eq_zero (by simp)]
    simp [hjllc.symm]
  | serve i =>
    have hflying : p.Ok llc .flying (serve i :: home :: post) j k saved :=
      h.release hj fun y => by rw [landing_eq_zero (by simp), Nat.add_zero]
    refine hflying.pop (by simp) (by simp) fun y => ?_
    rw [hk, landing_eq_zero (by simp)]
    by_cases hi : i = j <;> cases y <;> simp [hjllc.symm, hi]
  | visit i =>
    refine h.release hj fun y => ?_
    rw [hk]
    by_cases hi : i = j <;> cases y <;> simp [landing, hi]

/-- The token itself while it is handed over. -/
theorem TokenOk.handover (h : TokenOk ph n llc ⟨place, visit x o :: seg ++ post, v⟩ flight) (hn : n ≤ llc)
    (hpass : Passes llc seg data next) (hsub : ∀ f ∈ flight', f ∈ flight)
    (harriving : ∀ y, arriving flight' llc y = arriving flight llc y) (hv : View)
    (hfree : hv = .free → ph.grantsExclusive) :
    TokenOk ph n llc ⟨.flying, next :: post, hv⟩ (flight' ++ data) := by
  have hzero : arriving flight' llc false + arriving flight' llc true = 0 := by
    rw [harriving, harriving, h.homeArriving]
    simp
  have hbound : ∀ {i}, Stop.serve i ∈ seg ∨ visit false i ∈ seg → i < n := by
    rintro i (hi | hi)
    · exact h.bound_serve i (by simp [hi])
    · exact h.bound false i (by simp [hi])
  have hmem : ∀ {y}, y ∈ next :: post → y ∈ visit x o :: seg ++ post := fun hy =>
    List.mem_cons_of_mem _ (hpass.subset hy)
  refine ⟨?_, ?_, ?_, hfree, fun y i hi => h.bound y i (hmem hi), fun i hi => h.bound_serve i (hmem hi)⟩
  · cases hpass with
    | home | serve => exact .inl ⟨post, rfl⟩
    | visit i => exact .inr ⟨false, i, post, rfl⟩
  · cases hpass with
    | home o x => cases x <;> simp <;> omega
    | serve i =>
      have hi : i ≠ llc := by
        have := hbound (.inl List.mem_cons_self)
        omega
      simp [hi]
      omega
    | visit i =>
      have hi : i ≠ llc := by
        have := hbound (.inr List.mem_cons_self)
        omega
      simp [hi]
      omega
  · intro f hf
    rcases List.mem_append.1 hf with hf | hf
    · exact h.exclusive f (hsub f hf)
    · cases hpass with
      | home o x =>
        obtain rfl := List.mem_singleton.1 hf
        simp
      | serve i =>
        rcases List.mem_pair.1 hf with rfl | rfl <;> simp
      | visit i =>
        obtain rfl := List.mem_singleton.1 hf
        simp

/-- The last-level cache while the token is handed over below it. -/
theorem HomePhase.Ok.handover {p : HomePhase} {base : View} {owner : Option Nat} {pending memory : List Nat}
    {q : List HomeMsg} (h : p.Ok base place (visit x o :: seg ++ post) v owner pending memory q)
    (hplace : place ≠ .home) (hq : p = .owned → q = []) (hpass : Passes llc seg data next) :
    p.Ok base .flying (next :: post) v owner pending memory q := by
  have hflying : p.Ok base .flying (visit x o :: seg ++ post) v owner pending memory q :=
    h.setPlace hplace (by simp)
  cases hpass with
  | home => exact hflying.pop (by simp) (by simp) (by simp) hq
  | serve i => exact (hflying.pop (by simp) (by simp) (by simp) hq).pop (by simp) (by simp) (by simp) hq
  | visit i => exact hflying.pop (by simp) (by simp) (by simp) hq

end Handover

section Delivery

variable {k : Nat} {f : Supply} {o : Fin n}

/-- The data a cache sends on when it gets the token. -/
def Plan.sent (llc self : Nat) (x : Bool) (saved : List Req) (owner : Nat) : Plan → List Supply
  | .keep => []
  | .downgrade | .passShared => supplies llc self true x saved owner
  | .pass => supplies llc self false x saved owner

/-- A cache gets the token. -/
theorem Core.process_arrived (T : Tables σ τ) (llc : Nat) (c : Core σ) {e : EventId} {plan : Plan} (i : Nat) (r : Req) (x : Bool)
    (ha : T.l1.getActions c.state e = plan.arrived.2) :
    c.process T.l1 llc i e r x = .ok
      (⟨T.l1.getNextState c.state e, if plan = .keep then c.saved else []⟩,
        { data := plan.sent llc i x c.saved r.owner }) := by
  rw [Core.process, ha]
  cases plan <;> rfl

/--
A private cache takes a cell for the data it waits for: the invariant holds if the new parts of
the state agree with a token.
-/
theorem runCore_data_closes (hL : TokenLaws T ph) (hI : TokenInv ph llc t s) (hrest : s.AtRest T llc)
    (t' : Token) {x y : Bool} {r : Req} {c : Core σ} {data : List Supply}
    (hwaiting : (ph.core (s.core o).state).isWaiting)
    (hprocess : (s.core o).process T.l1 llc o (T.dataEvent x).1 r y = .ok (c, { data := data }))
    (hc : c.state = T.l1.getNextState (s.core o).state (T.dataEvent x).1)
    (token : TokenOk ph n llc t' (s.flight.eraseIdx k ++ data))
    (cores : CoresOk ph llc t' (Function.update s.core o c) (s.flight.eraseIdx k ++ data))
    (home : (ph.home s.home.state).Ok ph.base t'.place t'.route t'.view s.home.owner s.home.pending s.memory
      s.queue) :
    ∃ s', { s with flight := s.flight.eraseIdx k }.runCore T llc o (T.dataEvent x).1 r y = .ok s' ∧
      Inv T ph llc s' := by
  obtain ⟨hnone, hnone'⟩ := hL.pending_data (s.core o).state x hwaiting
  simp only [Skeleton.runCore, hprocess]
  refine ⟨_, rfl, ⟨t', ?_⟩, hrest⟩
  exact {
    token := token
    cores := cores
    home := home
    located := by simpa [Skeleton.emitCore] using hI.located
    queue := hI.queue
    bus := by simpa [Skeleton.emitCore] using hI.bus.update (by rw [hc, hnone, hnone'])
    waiting := by simpa [Skeleton.emitCore] using hI.waiting }

/-- The data on its way once one message is delivered. -/
theorem arriving_delivered (hf : s.flight[k]? = some f) (hdest : f.dest = o) :
    (∀ y, arriving (s.flight.eraseIdx k) o y + (if f.exclusive = y then 1 else 0) = arriving s.flight o y) ∧
      ∀ j, j ≠ (o : Nat) → arriving (s.flight.eraseIdx k) j = arriving s.flight j := by
  refine ⟨fun y => ?_, fun j hj => ?_⟩
  · simpa [hdest] using arriving_eraseIdx hf o y
  · funext y
    simpa [hdest, hj.symm] using arriving_eraseIdx hf j y

/-- A copy arrives at a private cache that waits for one. -/
theorem deliver_copy (hL : TokenLaws T ph) (hn : n ≤ llc) (hI : TokenInv ph llc t s)
    (hrest : s.AtRest T llc) (hf : s.flight[k]? = some f) (hdest : f.dest = o)
    (hwaiting : (ph.core (s.core o).state).isWaiting) (hreads : Reads t.route o (arriving s.flight o))
    {current : Bool} (hserved : current → ServedAfter (o : Nat) t.route)
    (hcurrent : current → (ph.core (s.core o).state).isCurrent) {a : List ActionId} (r : Req) (y : Bool)
    (hp : ph.core (T.l1.getNextState (s.core o).state (T.dataEvent f.exclusive).1) =
      if current then .shared else .idle)
    (ha : T.l1.getActions (s.core o).state (T.dataEvent f.exclusive).1 = a)
    (hsaved : a = [.hit] ∧ (s.core o).saved = [] ∨ a = [.hit, .removeSavedReq]) :
    ∃ s', { s with flight := s.flight.eraseIdx k }.runCore T llc o (T.dataEvent f.exclusive).1 r y = .ok s' ∧
      Inv T ph llc s' := by
  obtain ⟨herase, hothers⟩ := arriving_delivered hf hdest
  obtain ⟨-, hzero, hserve⟩ := hreads.arrive herase
  have hprocess : (s.core o).process T.l1 llc o (T.dataEvent f.exclusive).1 r y =
      .ok (⟨T.l1.getNextState (s.core o).state (T.dataEvent f.exclusive).1, []⟩, { data := [] }) := by
    rw [Core.process, ha]
    rcases hsaved with ⟨rfl, hnil⟩ | rfl
    · simp [savedAfter, busRequests, hnil]
    · rfl
  refine runCore_data_closes hL hI hrest t hwaiting hprocess rfl ?_ ?_ hI.home
  · have hllc := hothers llc (by omega)
    have htoken := hI.token
    exact ⟨htoken.head, by simpa [hllc] using htoken.homeArriving,
      fun g hg => htoken.exclusive g (List.mem_of_mem_eraseIdx (by simpa using hg)), htoken.free,
      htoken.bound, htoken.bound_serve⟩
  · refine hI.cores.update t rfl ?_ (fun j hj => ?_) fun hc => ?_
    · rw [hp, List.append_nil]
      cases current with
      | true => exact ⟨rfl, hzero, hserve, (hserved rfl).unvisited hserve⟩
      | false => exact ⟨rfl, hzero, hreads.visit_notMem, hserve⟩
    · rw [List.append_nil, hothers j hj]
      exact hI.cores.phase j
    · cases current with
      | true => exact hcurrent rfl
      | false => simp [hp, Phase.isCurrent] at hc

/-- What a cache that does not keep the token does with it. -/
theorem Plan.Ok.passes {plan : Plan} {V : List (Stop Nat)} {x : Bool} {j : Nat} {saved : List Req} {owner : Nat}
    (h : plan.Ok llc (visit x j :: V) x j saved) (hvisit : ∀ y, visit y j ∉ V) (hserve : serve j ∉ V)
    (hj : j ≠ llc) (howner : x = true → owner = j) :
    plan = .keep ∧ saved = [] ∧ V = [] ∨ plan ≠ .keep ∧ ∃ seg next post, V = seg ++ post ∧
      Passes llc seg (plan.sent llc j false saved owner) next ∧ (plan = .downgrade → Unvisited (next :: post)) := by
  have hfollows : ∀ {post}, Follows (visit x j :: V) x j post → V = post := fun hV =>
    (hV.eq_tail (hvisit x)).symm
  have hserves : ∀ {i post}, V = serve i :: home :: post →
      Passes llc [serve i, home] (supplies llc j true false [⟨requestTypeGetS, i⟩] owner) home := by
    rintro i post rfl
    have hi : i ≠ j := fun heq => hserve (by simp [heq])
    simpa [supplies, supplyTo, hi] using @Passes.serve llc i
  cases plan with
  | keep => exact .inl ⟨rfl, h.1, hfollows h.2⟩
  | downgrade =>
    obtain ⟨i, post, rfl, hV, hpost⟩ := h
    exact .inr ⟨by simp, _, _, post, hfollows hV, hserves (hfollows hV),
      fun _ => unvisited_home.2 hpost⟩
  | passShared =>
    obtain ⟨i, post, rfl, hV⟩ := h
    exact .inr ⟨by simp, _, _, post, hfollows hV, hserves (hfollows hV), by simp⟩
  | pass =>
    obtain ⟨seg, post, hsaved, hV⟩ := h
    obtain rfl := hfollows hV
    refine .inr ⟨by simp, seg, ?_⟩
    cases hsaved with
    | drop =>
      refine ⟨home, post, rfl, ?_, by simp⟩
      simpa [Plan.sent, supplies, supplyTo, howner rfl] using @Passes.home llc j false
    | getS x i =>
      have hi : i ≠ j := fun heq => hserve (by simp [heq])
      refine ⟨home, post, rfl, ?_, by simp⟩
      simpa [Plan.sent, supplies, supplyTo, hi] using @Passes.serve llc i
    | getM x i =>
      have hi : i ≠ j := fun heq => hvisit false (by simp [heq])
      refine ⟨visit false i, post, rfl, ?_, by simp⟩
      simpa [Plan.sent, supplies, supplyTo, hi, requestTypeGetM, requestTypeGetS] using
        @Passes.visit llc i
    | inv x =>
      refine ⟨home, post, rfl, ?_, by simp⟩
      simpa [Plan.sent, supplies, supplyTo, hj.symm, requestTypeInv, requestTypeGetS] using
        @Passes.home llc llc false

/-- The token arrives at a private cache that waits for it. -/
theorem deliver_token (hL : TokenLaws T ph) (hn : n ≤ llc) (hI : TokenInv ph llc t s)
    (hrest : s.AtRest T llc) (hf : s.flight[k]? = some f) (hdest : f.dest = o)
    (hwaiting : (ph.core (s.core o).state).isWaiting) {x : Bool}
    (hawaits : Awaits t.place t.route x o (arriving s.flight o)) {plan : Plan}
    (hplan : plan.Ok llc t.route x o (s.core o).saved)
    (hcurrent : plan.isCurrent → (ph.core (s.core o).state).isCurrent)
    (harrived : (ph.core (T.l1.getNextState (s.core o).state (T.dataEvent f.exclusive).1),
      T.l1.getActions (s.core o).state (T.dataEvent f.exclusive).1) = plan.arrived)
    (hmark : (T.dataEvent f.exclusive).2 = false) :
    ∃ s', { s with flight := s.flight.eraseIdx k }.runCore T llc o (T.dataEvent f.exclusive).1 ⟨0, f.owner⟩
      (T.dataEvent f.exclusive).2 = .ok s' ∧ Inv T ph llc s' := by
  obtain ⟨place, route, view⟩ := t
  have ho : (o : Nat) ≠ llc := by omega
  obtain ⟨herase, hothers⟩ := arriving_delivered hf hdest
  obtain ⟨rfl, hzero, hflying, V, hroute, hvisit, hserve⟩ := hawaits.arrive herase
  obtain rfl : place = .flying := hflying
  obtain rfl : route = visit f.exclusive (o : Nat) :: V := hroute
  have hprocess := Core.process_arrived T llc (s.core o) o ⟨0, f.owner⟩ false
    (congrArg Prod.snd harrived)
  have hp : ph.core (T.l1.getNextState (s.core o).state (T.dataEvent f.exclusive).1) = plan.arrived.1 :=
    congrArg Prod.fst harrived
  have howner : f.exclusive = true → f.owner = o := by
    intro hx
    have hdest' := hI.token.exclusive f (List.mem_of_getElem? hf) hx
    omega
  have hsub : ∀ g ∈ s.flight.eraseIdx k, g ∈ s.flight := fun g hg => List.mem_of_mem_eraseIdx hg
  have hllc := hothers llc ho.symm
  rw [hmark]
  rcases hplan.passes hvisit hserve ho howner with ⟨rfl, hsaved, rfl⟩ | ⟨hkeep, seg, next, post, rfl, hpass, hpost⟩
  · -- the cache keeps the token
    refine runCore_data_closes hL hI hrest ⟨.held, [visit f.exclusive (o : Nat)], view⟩ hwaiting hprocess rfl ?_ ?_
      (hI.home.setPlace (by simp) (by simp))
    · have htoken := hI.token
      exact ⟨⟨_, _, _, rfl⟩, by simpa [Plan.sent, hllc] using htoken.homeArriving,
        fun g hg => htoken.exclusive g (hsub g (by simpa [Plan.sent] using hg)), htoken.free,
        htoken.bound, htoken.bound_serve⟩
    · refine hI.cores.update ⟨.held, [visit f.exclusive (o : Nat)], view⟩ rfl ?_ (fun j hj => ?_)
        fun _ => hcurrent rfl
      · rw [hp]
        exact ⟨by simpa using hsaved, by simpa [Plan.sent] using hzero, rfl, _, rfl⟩
      · rw [Plan.sent, List.append_nil, hothers j hj]
        refine (hI.cores.phase j).setPlace (by simp) (fun _ y => by simp [hj.symm]) fun y => ?_
        rw [landing_eq_zero fun _ => by simp [hj.symm], landing_eq_zero (by simp)]
  · -- the cache hands the token over
    refine runCore_data_closes hL hI hrest ⟨.flying, next :: post, view⟩ hwaiting hprocess rfl ?_ ?_
      (hI.home.handover (by simp) (queue_eq_nil_of_owned hL hI hrest) hpass)
    · exact hI.token.handover hn hpass hsub (fun y => congrFun hllc y) view hI.token.free
    · refine hI.cores.update ⟨.flying, next :: post, view⟩ rfl ?_ (fun j hj => ?_) fun hc => ?_
      · have hsent := hpass.arriving_eq_zero (fun y hy => hvisit y (List.mem_append_left _ hy))
          (fun hs => hserve (List.mem_append_left _ hs)) ho
        have hzero' : ∀ y, arriving (s.flight.eraseIdx k ++ plan.sent llc o false (s.core o).saved f.owner) o y =
            0 := fun y => by rw [arriving_append, hzero, hsent]
        have hserve' : serve (o : Nat) ∉ next :: post := fun hs => hserve (hpass.subset hs)
        rw [hp, if_neg hkeep]
        cases plan with
        | keep => exact absurd rfl hkeep
        | downgrade => exact ⟨rfl, hzero', hserve', hpost rfl⟩
        | passShared | pass => exact ⟨rfl, hzero', fun y hy => hvisit y (hpass.subset hy), hserve'⟩
      · exact (hI.cores.phase j).handover hj (by omega) hpass fun y => by rw [arriving_append, hothers j hj]
      · have harrive : plan.arrived.1.isCurrent = plan.isCurrent := by cases plan <;> rfl
        exact hcurrent (by rwa [hp, harrive] at hc)

/--
Data is delivered to a private cache. A copy that is stale on arrival, and whose reader also
parked a request, is excepted.
-/
theorem deliver_inv (hL : TokenLaws T ph) (hn : n ≤ llc) (hI : Inv T ph llc s)
    (hf : s.flight[k]? = some f) (hdest : f.dest = o)
    (hstale : f.exclusive = false → ph.core (s.core o).state ≠ .reading .passShared) :
    ∃ s', { s with flight := s.flight.eraseIdx k }.runCore T llc o (T.dataEvent f.exclusive).1 ⟨0, f.owner⟩
      (T.dataEvent f.exclusive).2 = .ok s' ∧ Inv T ph llc s' := by
  obtain ⟨⟨t, hI⟩, hrest⟩ := hI
  have hphase := hI.cores.phase o
  have hplain := hL.plainData (s.core o).state
  have hexclusive := hL.exclusiveData (s.core o).state
  have hreading := hL.reading_exclusive (s.core o).state
  obtain ⟨herase, -⟩ := arriving_delivered hf hdest
  have hnone : ¬ ∀ y, arriving s.flight o y = 0 := by
    intro hzero
    have := herase f.exclusive
    rw [hzero, if_pos rfl] at this
    omega
  cases hp : ph.core (s.core o).state with
  | idle =>
    rw [hp] at hphase
    exact absurd hphase.2.1 hnone
  | shared =>
    rw [hp] at hphase
    exact absurd hphase.2.1 hnone
  | reader current =>
    rw [hp] at hphase hplain
    obtain ⟨hsaved, hreads, hserved⟩ := hphase
    simp only [plainDataLaw, decide_eq_true_eq] at hplain
    obtain ⟨hx, -⟩ := hreads.arrive herase
    exact deliver_copy hL hn hI hrest hf hdest (by rw [hp]; rfl) hreads hserved
      (fun hc => by rwa [hp]) _ _ (by rw [hx]; exact hplain.1) (by rw [hx]; exact hplain.2) (.inl ⟨rfl, hsaved⟩)
  | reading plan =>
    rw [hp] at hphase hplain hexclusive
    rcases hphase with ⟨hreads, hserved, hsaved⟩ | ⟨hawaits, hplan⟩
    · obtain ⟨hx, -⟩ := hreads.arrive herase
      have hne : plan ≠ .passShared := fun heq => hstale hx (by rw [hp, heq])
      have hcopy : ph.core (T.l1.getNextState (s.core o).state (T.dataEvent false).1) =
            (if plan.isCurrent then .shared else .idle) ∧
          (T.l1.getActions (s.core o).state (T.dataEvent false).1 = [.hit] ∧ (s.core o).saved = [] ∨
            T.l1.getActions (s.core o).state (T.dataEvent false).1 = [.hit, .removeSavedReq]) := by
        cases plan with
        | keep =>
          simp only [plainDataLaw, decide_eq_true_eq] at hplain
          exact ⟨hplain.1, .inl ⟨hplain.2, hsaved rfl⟩⟩
        | downgrade | pass =>
          simp only [plainDataLaw, decide_eq_true_eq] at hplain
          exact ⟨hplain.1, .inr hplain.2⟩
        | passShared => exact absurd rfl hne
      exact deliver_copy hL hn hI hrest hf hdest (by rw [hp]; rfl) hreads hserved
        (fun hc => by rwa [hp]) _ _ (by rw [hx]; exact hcopy.1) rfl (by rw [hx]; exact hcopy.2)
    · obtain ⟨hx, -⟩ := hawaits.arrive herase
      simp only [exclusiveDataLaw, decide_eq_true_eq] at hexclusive
      exact deliver_token hL hn hI hrest hf hdest (by rw [hp]; rfl) hawaits hplan (fun hc => by rwa [hp])
        (by rw [hx]; exact hexclusive) (by rw [hx]; exact hL.exclusive_mark (hreading plan hp))
  | filling readable plan =>
    rw [hp] at hphase hplain
    obtain ⟨hawaits, hplan, -⟩ := hphase
    obtain ⟨hx, -⟩ := hawaits.arrive herase
    simp only [plainDataLaw, decide_eq_true_eq] at hplain
    exact deliver_token hL hn hI hrest hf hdest (by rw [hp]; rfl) hawaits hplan (fun hc => by rwa [hp])
      (by rw [hx]; exact hplain) (by rw [hx]; exact hL.plain_mark)
  | holding =>
    rw [hp] at hphase
    exact absurd hphase.2.1 hnone
  | recalled =>
    rw [hp] at hphase
    exact absurd hphase.2.1 hnone
  | unreachable =>
    rw [hp] at hphase
    exact absurd hphase id

end Delivery

end Octopus.Snoop
