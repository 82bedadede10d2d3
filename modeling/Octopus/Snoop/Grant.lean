import Octopus.Snoop.CoreSteps

/-!
# A granted request keeps the token invariant

The bus shows a request to every private cache and then to the last-level cache. Most caches look
on: the itinerary grows by the stops of the request. A cache that holds the token may hand it
over at once.
-/

namespace Octopus.Snoop

open Lib Lib.Itinerary
open Lib.Stop (visit home serve)

variable {σ τ : Type} {n llc : Nat} {T : Tables σ τ} {ph : Phases σ τ} {t : Token}
  {s : Skeleton n σ τ} {r : Req} {i : Nat} {j : Fin n}

/-- What a private cache is after a broadcast. -/
def Skeleton.snooped (T : Tables σ τ) (s : Skeleton n σ τ) (r : Req) (j : Fin n) : Core σ :=
  match r.event j with
  | .error _ => s.core j
  | .ok e =>
    ⟨T.l1.getNextState (s.core j).state e,
      savedAfter (T.l1.getActions (s.core j).state e) (s.core j).saved r⟩

/-- What a private cache that sends no data makes of a request. -/
structure LooksOn (T : Tables σ τ) (ph : Phases σ τ) (llc : Nat) (t : Token) (s : Skeleton n σ τ) (r : Req)
    (j : Fin n) : Prop where
  quiet : ∃ e a, r.event j = .ok e ∧ T.l1.getActions (s.core j).state e = a ∧ (a = [] ∨ a = [.saveReq])
  phase : (ph.core (s.snooped T r j).state).Ok llc t.place (t.route ++ (View.step ph.base t.view r).2) j
    (arriving s.flight j) (s.snooped T r j).saved
  alone : (ph.core (s.snooped T r j).state).isCurrent →
    (View.step ph.base t.view r).1 ≠ .free ∧ ∀ o, (View.step ph.base t.view r).1 = .own o → o = j
  pending : ph.pending (s.snooped T r j).state = if r.owner = j then none else ph.pending (s.core j).state

section Events

/-- The event of a read. -/
theorem Req.event_getS (i self : Nat) :
    Req.event self ⟨requestTypeGetS, i⟩ = .ok (if i = self then .ownGetS else .otherGetS) := rfl

/-- The event of a write. -/
theorem Req.event_getM (i self : Nat) :
    Req.event self ⟨requestTypeGetM, i⟩ = .ok (if i = self then .ownGetM else .otherGetM) := rfl

/-- The event of a write-back. -/
theorem Req.event_putM (i self : Nat) :
    Req.event self ⟨requestTypePutM, i⟩ = .ok (if i = self then .ownPutM else .otherPutM) := rfl

/-- The event of an invalidation. -/
theorem Req.event_inv (i self : Nat) : Req.event self ⟨requestTypeInv, i⟩ = .ok .invalidation := rfl

end Events

section Laws

variable {p p' : Phase} {a : List ActionId}

/-- A read of another cache leaves who has the line in the end, and only the holder sends data. -/
theorem otherGetSLaw_quiet (h : otherGetSLaw p p' a) (hp : p ≠ .unreachable) (hhold : p ≠ .holding) :
    (a = [] ∨ a = [.saveReq]) ∧ (p'.isCurrent → p.isCurrent) := by
  cases p with
  | reading plan | filling r plan => cases plan <;> simp_all [otherGetSLaw, Phase.isCurrent, Plan.isCurrent]
  | _ => simp_all [otherGetSLaw]

/-- A write of another cache leaves nobody else with the line, and only the holder sends data. -/
theorem otherGetMLaw_quiet (h : otherGetMLaw p p' a) (hp : p ≠ .unreachable) (hhold : p ≠ .holding) :
    (a = [] ∨ a = [.saveReq]) ∧ p'.isCurrent = false := by
  cases p with
  | reading plan | filling r plan => cases plan <;> simp_all [otherGetMLaw, Phase.isCurrent, Plan.isCurrent]
  | _ => simp_all [otherGetMLaw, Phase.isCurrent]

/-- An invalidation leaves nobody with the line, and only the holder sends data. -/
theorem invalidationLaw_quiet (h : invalidationLaw p p' a) (hp : p ≠ .unreachable)
    (hhold : p = .holding → a = []) : (a = [] ∨ a = [.saveReq]) ∧ p'.isCurrent = false := by
  cases p with
  | reading plan => simp_all [invalidationLaw, Phase.isCurrent, Plan.isCurrent]
  | filling r plan =>
    cases plan <;> simp_all [invalidationLaw, Phase.isCurrent, Plan.isCurrent]
    rcases h.1 with rfl | rfl <;> rfl
  | _ => simp_all [invalidationLaw, Phase.isCurrent]

end Laws

/-- The token is at home, or the itinerary says where it is going. -/
theorem TokenOk.place_or_route {flight : List Supply} (h : TokenOk ph n llc t flight) :
    t.place = .home ∨ t.route ≠ [] := by
  have hhead := h.head
  cases hplace : t.place with
  | home => exact .inl rfl
  | flying =>
    rw [hplace] at hhead
    rcases hhead with ⟨V, hV⟩ | ⟨x, b, V, hV⟩ <;> exact .inr (by simp [hV])
  | held =>
    rw [hplace] at hhead
    obtain ⟨x, b, V, hV⟩ := hhead
    exact .inr (by simp [hV])

/-- A phase that agrees with a token is one the tables reach. -/
theorem CoresOk.ne_unreachable {core : Fin n → Core σ} {flight : List Supply}
    (h : CoresOk ph llc t core flight) (j : Fin n) : ph.core (core j).state ≠ .unreachable := by
  intro heq
  have hphase := h.phase j
  rw [heq] at hphase
  exact hphase

variable (hL : TokenLaws T ph) (hI : TokenInv ph llc t s)

include hL hI

/-- A read is granted; a cache that does not hold the token looks on. -/
theorem looksOn_getS (hhold : ph.core (s.core j).state ≠ .holding)
    (hown : i = j → ph.pending (s.core j).state = some requestTypeGetS) :
    LooksOn T ph llc t s ⟨requestTypeGetS, i⟩ j := by
  have hphase := hI.cores.phase j
  have hreach := hI.cores.ne_unreachable j
  have hview : (View.step ph.base t.view ⟨requestTypeGetS, i⟩).1 = if t.view = .free then .own i else .shared := by
    cases t.view <;> rfl
  by_cases hij : i = j
  · obtain ⟨hidle, hp, hpending, ha⟩ := hL.ownGetS (s.core j).state (hown hij)
    rw [hidle] at hphase
    refine ⟨⟨_, _, by rw [Req.event_getS, if_pos hij], ha, .inl rfl⟩, ?_, ?_, ?_⟩
    · simp only [Skeleton.snooped, Req.event_getS, if_pos hij, hp, ha]
      subst hij
      simpa [savedAfter] using hphase.ownGetS hI.token.place_or_route hI.token.free
    · rw [hview]
      split <;> simp [hij]
    · simp only [Skeleton.snooped, Req.event_getS, if_pos hij, hpending]
  · have hlaw := hL.otherGetS (s.core j).state
    obtain ⟨hquiet, hcurrent⟩ := otherGetSLaw_quiet hlaw hreach hhold
    refine ⟨⟨_, _, by rw [Req.event_getS, if_neg hij], rfl, hquiet⟩, ?_, ?_, ?_⟩
    · simp only [Skeleton.snooped, Req.event_getS, if_neg hij]
      exact hphase.otherGetS hlaw hhold hij (hI.home.ends ph.base_ne_own) fun hc => (hI.cores.alone j hc).1
    · simp only [Skeleton.snooped, Req.event_getS, if_neg hij]
      intro hc
      obtain ⟨hfree, -⟩ := hI.cores.alone j (hcurrent hc)
      simp [hview, hfree]
    · simp only [Skeleton.snooped, Req.event_getS, if_neg hij]
      exact hL.pending_kept _ _ (by simp) hreach

/-- A write is granted; a cache that does not hold the token looks on. -/
theorem looksOn_getM (hhold : ph.core (s.core j).state ≠ .holding)
    (hown : i = j → ph.pending (s.core j).state = some requestTypeGetM) :
    LooksOn T ph llc t s ⟨requestTypeGetM, i⟩ j := by
  have hphase := hI.cores.phase j
  have hreach := hI.cores.ne_unreachable j
  have hstep : View.step ph.base t.view ⟨requestTypeGetM, i⟩ = (.own i, [visit false i]) := rfl
  by_cases hij : i = j
  · obtain ⟨hcore, hp, hpending, ha⟩ := hL.ownGetM (s.core j).state (hown hij)
    refine ⟨⟨_, _, by rw [Req.event_getM, if_pos hij], ha, .inl rfl⟩, ?_, ?_, ?_⟩
    · simp only [Skeleton.snooped, Req.event_getM, if_pos hij, hp, ha, hstep]
      subst hij
      simpa [savedAfter] using hphase.ownGetM hcore hI.token.place_or_route
    · rw [hstep]
      simp [hij]
    · simp only [Skeleton.snooped, Req.event_getM, if_pos hij, hpending]
  · have hlaw := hL.otherGetM (s.core j).state
    obtain ⟨hquiet, hcurrent⟩ := otherGetMLaw_quiet hlaw hreach hhold
    refine ⟨⟨_, _, by rw [Req.event_getM, if_neg hij], rfl, hquiet⟩, ?_, ?_, ?_⟩
    · simp only [Skeleton.snooped, Req.event_getM, if_neg hij, hstep]
      exact hphase.otherGetM hlaw hhold hij
    · simp only [Skeleton.snooped, Req.event_getM, if_neg hij, hcurrent]
      simp
    · simp only [Skeleton.snooped, Req.event_getM, if_neg hij]
      exact hL.pending_kept _ _ (by simp) hreach

/-- An invalidation is granted; a cache that does not give the token up looks on. -/
theorem looksOn_inv (hn : n ≤ llc)
    (hhold : ph.core (s.core j).state = .holding → T.l1.getActions (s.core j).state .invalidation = []) :
    LooksOn T ph llc t s ⟨requestTypeInv, llc⟩ j := by
  have hlaw := hL.invalidation (s.core j).state
  have hreach := hI.cores.ne_unreachable j
  obtain ⟨hquiet, hcurrent⟩ := invalidationLaw_quiet hlaw hreach hhold
  refine ⟨⟨_, _, Req.event_inv _ _, rfl, hquiet⟩, ?_, ?_, ?_⟩
  · simp only [Skeleton.snooped, Req.event_inv]
    exact (hI.cores.phase j).invalidation hlaw hhold (hI.home.ends ph.base_ne_own)
  · simp only [Skeleton.snooped, Req.event_inv, hcurrent]
    simp
  · have hne : llc ≠ j := by omega
    simp only [Skeleton.snooped, Req.event_inv, if_neg hne]
    exact hL.pending_kept _ _ (by simp) hreach

/-- A write-back is granted; other caches, and a cache that has nothing to write back, look on. -/
theorem looksOn_putM (hown : i = j → ph.pending (s.core j).state = some requestTypePutM ∧
      ph.core (s.core j).state = .idle) : LooksOn T ph llc t s ⟨requestTypePutM, i⟩ j := by
  have hphase := hI.cores.phase j
  have hends := hI.home.ends ph.base_ne_own
  have hother : t.view ≠ .own i → View.step ph.base t.view ⟨requestTypePutM, i⟩ = (t.view, []) := by
    intro hne
    simp [View.step, requestTypePutM, requestTypeGetS, requestTypeGetM, requestTypeInv, hne]
  by_cases hij : i = j
  · obtain ⟨hput, hidle⟩ := hown hij
    obtain ⟨hlaw, hpending⟩ := hL.ownPutM (s.core j).state hput
    rw [hidle] at hlaw hphase
    simp only [ownPutMLaw, decide_eq_true_eq] at hlaw
    have hstep := hother fun hv => by
      obtain ⟨x, hlast⟩ := (hends i).2 hv
      exact hphase.2.2.1 x (hij ▸ List.mem_of_getLast? hlast)
    refine ⟨⟨_, _, by rw [Req.event_putM, if_pos hij], hlaw.2, .inl rfl⟩, ?_, ?_, ?_⟩
    · simp only [Skeleton.snooped, Req.event_putM, if_pos hij, hlaw.1, hlaw.2, hstep, List.append_nil]
      exact hphase
    · simp only [Skeleton.snooped, Req.event_putM, if_pos hij, hlaw.1]
      simp [Phase.isCurrent]
    · simp only [Skeleton.snooped, Req.event_putM, if_pos hij, hpending]
  · obtain ⟨hstate, ha⟩ := hL.otherPutM (s.core j).state (hI.cores.ne_unreachable j)
    refine ⟨⟨_, _, by rw [Req.event_putM, if_neg hij], ha, .inl rfl⟩, ?_, ?_, ?_⟩
    · simp only [Skeleton.snooped, Req.event_putM, if_neg hij, hstate, ha]
      by_cases hv : t.view = .own i
      · have hcurrent : ¬ (ph.core (s.core j).state).isCurrent := fun hc => hij ((hI.cores.alone j hc).2 i hv)
        have hstep : View.step ph.base t.view ⟨requestTypePutM, i⟩ = (ph.base, [home]) := by
          simp [View.step, requestTypePutM, requestTypeGetS, requestTypeGetM, requestTypeInv, hv]
        rw [hstep]
        refine hphase.append ⟨?_, ?_⟩ ?_ (by simp) (by simp) (by simp)
        · intro heq
          simp [heq, Phase.isCurrent, Plan.isCurrent] at hcurrent
        · intro readable heq
          simp [heq, Phase.isCurrent, Plan.isCurrent] at hcurrent
        · intro heq
          simp [heq, Phase.isCurrent] at hcurrent
      · rw [hother hv, List.append_nil]
        exact hphase
    · simp only [Skeleton.snooped, Req.event_putM, if_neg hij, hstate]
      intro hc
      obtain ⟨hfree, halone⟩ := hI.cores.alone j hc
      rw [hother fun hv => hij (halone i hv)]
      exact ⟨hfree, halone⟩
    · simp only [Skeleton.snooped, Req.event_putM, if_neg hij, hstate]

omit hL hI

section Broadcast

/-- A cache that looks on sends nothing. -/
theorem LooksOn.snoop (h : LooksOn T ph llc t s r j) :
    s.snoop T llc r j = .ok (s.snooped T r j, { data := [] }) := by
  obtain ⟨e, a, he, ha, hquiet⟩ := h.quiet
  simp only [Skeleton.snoop, Skeleton.snooped, he, Core.process, ha]
  rcases hquiet with rfl | rfl <;> rfl

/-- A cache that sends data. -/
theorem snoop_supply {e : EventId} {both : Bool} (he : r.event j = .ok e)
    (ha : T.l1.getActions (s.core j).state e = [if both then .data2Both else .data2Req]) :
    s.snoop T llc r j =
      .ok (s.snooped T r j, { data := supplies llc j both (r.type == 2) (s.core j).saved r.owner }) := by
  simp only [Skeleton.snoop, Skeleton.snooped, he, Core.process, ha]
  cases both <;> rfl

/-- A broadcast in which no private cache fails. -/
theorem broadcast_eq {data : Fin n → List Supply}
    (h : ∀ j, s.snoop T llc r j = .ok (s.snooped T r j, { data := data j })) :
    s.broadcast T llc r =
      { s with core := s.snooped T r, flight := s.flight ++ (List.finRange n).flatMap data }.drainQueue T llc
        (s.queue ++ [HomeMsg.request r]) := by
  have hbus : (List.finRange n).flatMap (fun _ => ([] : List Req)) = [] := flatMap_finRange_eq_nil fun _ => rfl
  rw [Skeleton.broadcast, sequence_eq_ok.2 h]
  simp [Skeleton.emitAll, hbus]

/-- The bus without the granted request. -/
theorem BusOk.grant {core core' : Fin n → Core σ} {bus : List Req} {k : Nat} (h : BusOk ph llc core bus)
    (hk : bus[k]? = some r)
    (hpending : ∀ j : Fin n, ph.pending (core' j).state =
      if r.owner = j then none else ph.pending (core j).state) : BusOk ph llc core' (bus.eraseIdx k) where
  pending j := by
    obtain ⟨hlt, rfl⟩ := List.getElem?_eq_some_iff.1 hk
    have hperm := (List.getElem_cons_eraseIdx_perm hlt).filter (·.owner = (j : Nat))
    rw [h.pending j] at hperm
    rw [hpending j]
    by_cases hj : bus[k].owner = j
    · rw [List.filter_cons_of_pos (by simpa using hj)] at hperm
      have hlen := hperm.length_eq
      have hle : (ph.pending (core j).state).toList.length ≤ 1 := by cases ph.pending (core j).state <;> simp
      simp only [List.length_cons, List.length_map] at hlen
      rw [if_pos hj]
      exact List.eq_nil_of_length_eq_zero (by omega)
    · rw [List.filter_cons_of_neg (by simpa using hj)] at hperm
      rw [if_neg hj]
      cases hp : ph.pending (core j).state with
      | none => simpa [hp] using hperm
      | some type => simpa [hp] using hperm
  owner q hq := h.owner q (List.mem_of_mem_eraseIdx hq)

/-- The granted request is the one its owner's state accounts for. -/
theorem BusOk.pending_of_mem {core : Fin n → Core σ} {bus : List Req} (h : BusOk ph llc core bus)
    (hr : r ∈ bus) (hj : r.owner = j) : ph.pending (core j).state = some r.type := by
  have hmem : r ∈ bus.filter (·.owner = (j : Nat)) := List.mem_filter.2 ⟨hr, by simpa using hj⟩
  rw [h.pending j] at hmem
  obtain ⟨type, htype, rfl⟩ := List.mem_map.1 hmem
  simpa using htype

/-- The recalls under way when a request moves from the bus to the queue. -/
theorem recalls_grant (llc : Nat) (queue : List HomeMsg) {bus : List Req} {k : Nat} (hk : bus[k]? = some r) :
    recalls llc (queue ++ [.request r]) (bus.eraseIdx k) = recalls llc queue bus := by
  obtain ⟨hlt, rfl⟩ := List.getElem?_eq_some_iff.1 hk
  have hperm := (List.getElem_cons_eraseIdx_perm hlt).count_eq (⟨requestTypeInv, llc⟩ : Req)
  rw [List.count_cons] at hperm
  by_cases hr : bus[k] = ⟨requestTypeInv, llc⟩ <;>
    simp [recalls, List.count_append, hr] at hperm ⊢ <;> omega

end Broadcast

section Quiet

variable {k : Nat}

/-- The stops of a request name its owner. -/
theorem View.mem_step {base v : View} {y : Stop Nat} (hy : y ∈ (View.step base v r).2) :
    y = home ∨ (r.type = requestTypeGetS ∨ r.type = requestTypeGetM) ∧
      (y = serve r.owner ∨ ∃ x, y = visit x r.owner) := by
  simp only [View.step] at hy
  split_ifs at hy with hS hM hI hP
  · cases v <;> simp at hy
    · exact .inr ⟨.inl hS, .inr ⟨true, hy⟩⟩
    · exact .inr ⟨.inl hS, .inl hy⟩
    · rcases hy with rfl | rfl
      · exact .inr ⟨.inl hS, .inl rfl⟩
      · exact .inl rfl
  · exact .inr ⟨.inr hM, .inr ⟨false, List.mem_singleton.1 hy⟩⟩
  · cases v <;> simp at hy
    exact .inl hy
  · exact .inl (List.mem_singleton.1 hy)
  · simp at hy

/-- A request makes the line free only if that is what a line nobody has is. -/
theorem View.step_free {base v : View} (h : (View.step base v r).1 = .free) : v = .free ∨ base = .free := by
  simp only [View.step] at h
  split_ifs at h
  · cases v <;> simp at h
  · cases v with
    | own o => exact .inr h
    | _ => exact .inr h
  · exact .inr h
  · exact .inl h

/-- Only a token that may be granted to a reader makes a free line. -/
theorem Phases.base_free (h : ph.base = .free) : ph.grantsExclusive := by
  cases hg : ph.grantsExclusive with
  | true => rfl
  | false => simp [Phases.base, View.resident, hg] at h

/-- The itinerary grows by the stops of a request. -/
theorem TokenOk.append {flight : List Supply} (h : TokenOk ph n llc t flight)
    (howner : r.type = requestTypeGetS ∨ r.type = requestTypeGetM → r.owner < n) :
    TokenOk ph n llc ⟨t.place, t.route ++ (View.step ph.base t.view r).2, (View.step ph.base t.view r).1⟩
      flight := by
  have hhead := h.head
  have hroute : ∀ V, t.place = .flying → (t.route ++ V).head? = t.route.head? := by
    intro V hplace
    rw [hplace] at hhead
    rcases hhead with ⟨W, hW⟩ | ⟨x, b, W, hW⟩ <;> simp [hW]
  refine ⟨?_, ?_, h.exclusive, fun hfree => ?_, fun x i hi => ?_, fun i hi => ?_⟩
  · cases hplace : t.place with
    | home => trivial
    | flying =>
      rw [hplace] at hhead
      rcases hhead with ⟨W, hW⟩ | ⟨x, b, W, hW⟩
      · exact .inl ⟨_, by rw [hW, List.cons_append]⟩
      · exact .inr ⟨x, b, _, by rw [hW, List.cons_append]⟩
    | held =>
      rw [hplace] at hhead
      obtain ⟨x, b, W, hW⟩ := hhead
      exact ⟨x, b, _, by rw [hW, List.cons_append]⟩
  · rw [h.homeArriving]
    by_cases hplace : t.place = .flying
    · rw [hroute _ hplace]
    · simp [hplace]
  · rcases View.step_free hfree with hv | hbase
    · exact h.free hv
    · exact Phases.base_free hbase
  · rcases List.mem_append.1 hi with hi | hi
    · exact h.bound x i hi
    · rcases View.mem_step hi with heq | ⟨htype, heq | ⟨y, heq⟩⟩
      · simp at heq
      · simp at heq
      · obtain ⟨-, rfl⟩ := Stop.visit.inj heq
        exact howner htype
  · rcases List.mem_append.1 hi with hi | hi
    · exact h.bound_serve i hi
    · rcases View.mem_step hi with heq | ⟨htype, heq | ⟨y, heq⟩⟩
      · simp at heq
      · obtain rfl := Stop.serve.inj heq
        exact howner htype
      · simp at heq

include hL hI

/-- A request that every private cache looks on at, and that the last-level cache queues. -/
theorem grant_queued (hn : n ≤ llc) (hk : s.bus[k]? = some r) (hquiet : ∀ j, LooksOn T ph llc t s r j)
    (hr : QueueOk n llc (.request r)) :
    ∃ s', { s with bus := s.bus.eraseIdx k }.broadcast T llc r = .ok s' ∧ Inv T ph llc s' := by
  have hnil : (List.finRange n).flatMap (fun _ => ([] : List Supply)) = [] := flatMap_finRange_eq_nil fun _ => rfl
  rw [broadcast_eq (s := { s with bus := s.bus.eraseIdx k }) fun j => (hquiet j).snoop, hnil, List.append_nil]
  refine drain_inv hL hn (by simp)
    ⟨⟨t.place, t.route ++ (View.step ph.base t.view r).2, (View.step ph.base t.view r).1⟩, ?_⟩
  exact {
    token := hI.token.append fun htype => by
      rcases hr with hr | hr | ⟨i, hi, hr | hr⟩
      · simp at hr
      · obtain rfl := HomeMsg.request.inj hr
        simp [requestTypeInv, requestTypeGetS, requestTypeGetM] at htype
      · obtain rfl := HomeMsg.request.inj hr
        exact hi
      · obtain rfl := HomeMsg.request.inj hr
        exact hi
    cores := ⟨fun j => (hquiet j).phase, fun j => (hquiet j).alone⟩
    home := hI.home.append r
    located := by simpa only [recalls_grant llc s.queue hk] using hI.located
    queue := by
      intro m hm
      rcases List.mem_append.1 hm with hm | hm
      · exact hI.queue m hm
      · rwa [List.mem_singleton.1 hm]
    bus := hI.bus.grant hk fun j => (hquiet j).pending
    waiting := hI.waiting }

/-- A stale write-back reaches the last-level cache: a Fault cell if it fetches the line. -/
theorem homeStep_putMFromNonOwner (hi : i ≠ llc) (howner : s.home.owner ≠ some i) :
    s.home.ready T.llc llc (.request ⟨requestTypePutM, i⟩) = true ∧
      ((ph.home s.home.state).isFetching ∧
          s.homeStep T llc (.request ⟨requestTypePutM, i⟩) = .error .fault ∨
        ∃ t' s', s.homeStep T llc (.request ⟨requestTypePutM, i⟩) = .ok s' ∧ TokenInv ph llc t' s') := by
  have he : s.home.event llc (.request ⟨requestTypePutM, i⟩) = .ok .putMFromNonOwner := by
    simp [Home.event, requestTypePutM, requestTypeGetS, requestTypeGetM, hi, howner.symm]
  have hhome := hI.home
  have hlocated := hI.located
  cases hfetch : (ph.home s.home.state).isFetching with
  | true =>
    have ha := hL.homePutMFromNonOwner_fetching _ hfetch
    refine ⟨by simp [Home.ready, he, ha], .inl ⟨rfl, ?_⟩⟩
    simp [Skeleton.homeStep, Home.process, he, Home.take, ha]
  | false =>
    have hreach : ph.home s.home.state ≠ .unreachable := by
      intro heq
      rw [heq] at hhome
      exact hhome
    obtain ⟨hstate, ha⟩ := hL.homePutMFromNonOwner _ hfetch hreach
    refine ⟨by simp [Home.ready, he, ha], .inr (homeStep_closes hL t s.home.owner s.home.pending s.memory [] [] he ⟨by rw [hstate], ha⟩
      (by simp) (by simp) hreach ?_ ?_ ?_ ?_ rfl (by simpa using hI.token) (by simpa using hI.cores) hhome
      ?_ hI.queue (by simpa using hI.bus) hI.waiting)⟩
    · cases hp : ph.home s.home.state with
      | resident isFree valid =>
        rw [hp] at hhome
        cases valid <;> simp [HomePhase.isValid, Home.ownerAfter, hhome.2.1]
      | _ => simp [HomePhase.isValid, Home.ownerAfter]
    · simp [Home.pendingAfter, Home.responds]
    · simp [Home.answered, Home.responds]
    · simp
    · rw [List.append_nil]
      generalize ph.home s.home.state = p at hlocated hfetch
      cases p with
      | resident isFree valid =>
        cases valid with
        | false => exact ⟨rfl, hlocated.2⟩
        | true =>
          simp only [HomePhase.isValid, if_true, locationAfter_eq hlocated]
          exact hlocated
      | owned =>
        simp only [HomePhase.isValid, if_true, locationAfter_eq hlocated]
        exact hlocated
      | awaiting isFree dropped =>
        cases dropped with
        | false =>
          simp only [HomePhase.isValid, if_true, locationAfter_eq hlocated]
          exact hlocated
        | true => exact ⟨by simp [HomePhase.isValid, Home.locationAfter, hlocated.1], hlocated.2⟩
      | fetchShared | fetchOwned => simp [HomePhase.isFetching] at hfetch
      | unreachable => exact hlocated

omit hL hI

end Quiet

section Handover

variable {k : Nat} {o : Fin n} {x : Bool} {seg post : List (Stop Nat)} {data : List Supply}
  {next : Stop Nat}

/-- Cache `o` hands the token over when it sees a request, and the other caches look on. -/
structure HandsOver (T : Tables σ τ) (ph : Phases σ τ) (llc : Nat) (t : Token) (s : Skeleton n σ τ) (r : Req)
    (o : Fin n) (x : Bool) (seg post : List (Stop Nat)) (data : List Supply) (next : Stop Nat) : Prop where
  held : t.place = .held
  route : t.route ++ (View.step ph.base t.view r).2 = visit x (o : Nat) :: seg ++ post
  sends : ∃ e both, r.event o = .ok e ∧
    T.l1.getActions (s.core o).state e = [if both then .data2Both else .data2Req] ∧
    data = supplies llc o both (r.type == 2) (s.core o).saved r.owner
  passes : Passes llc seg data next
  zero : ∀ y, arriving s.flight o y = 0
  visit_notMem : ∀ y, visit y (o : Nat) ∉ seg ++ post
  serve_notMem : serve (o : Nat) ∉ seg ++ post
  phase : ph.core (s.snooped T r o).state = .idle ∨ ph.core (s.snooped T r o).state = .shared ∧
    Unvisited (next :: post) ∧ (View.step ph.base t.view r).1 = .shared
  pending : ph.pending (s.snooped T r o).state = if r.owner = o then none else ph.pending (s.core o).state
  others : ∀ j : Fin n, (j : Nat) ≠ o → LooksOn T ph llc t s r j

/-- The private caches after one of them has handed the token over. -/
theorem HandsOver.cores (h : HandsOver T ph llc t s r o x seg post data next) (hn : n ≤ llc) :
    CoresOk ph llc ⟨.flying, next :: post, (View.step ph.base t.view r).1⟩ (s.snooped T r) (s.flight ++ data) where
  phase j := by
    by_cases hj : (j : Nat) = o
    · obtain rfl := Fin.ext hj
      obtain ⟨e, both, he, ha, -⟩ := h.sends
      have hsaved : (s.snooped T r j).saved = [] := by
        simp only [Skeleton.snooped, he, ha]
        cases both <;> rfl
      have hzero : ∀ y, arriving (s.flight ++ data) j y = 0 := fun y => by
        rw [arriving_append, h.zero, h.passes.arriving_eq_zero
          (fun y hy => h.visit_notMem y (List.mem_append_left _ hy))
          (fun hy => h.serve_notMem (List.mem_append_left _ hy)) (by omega)]
      have hserve : serve (j : Nat) ∉ next :: post := fun hy => h.serve_notMem (h.passes.subset hy)
      rcases h.phase with hp | ⟨hp, hunvisited, -⟩
      · rw [hp]
        exact ⟨hsaved, hzero, fun y hy => h.visit_notMem y (h.passes.subset hy), hserve⟩
      · rw [hp]
        exact ⟨hsaved, hzero, hserve, hunvisited⟩
    · have hphase := (h.others j hj).phase
      rw [h.route] at hphase
      exact hphase.handover hj (by omega) h.passes fun y => by rw [arriving_append]
  alone j hc := by
    by_cases hj : (j : Nat) = o
    · obtain rfl := Fin.ext hj
      rcases h.phase with hp | ⟨-, -, hview⟩
      · simp [hp, Phase.isCurrent] at hc
      · simp [hview]
    · exact (h.others j hj).alone hc

/-- The bus after a cache has handed the token over. -/
theorem HandsOver.bus (h : HandsOver T ph llc t s r o x seg post data next) (hbus : BusOk ph llc s.core s.bus)
    (hk : s.bus[k]? = some r) : BusOk ph llc (s.snooped T r) (s.bus.eraseIdx k) :=
  hbus.grant hk fun j => by
    by_cases hj : (j : Nat) = o
    · obtain rfl := Fin.ext hj
      exact h.pending
    · exact (h.others j hj).pending

/-- The broadcast of a request at which one cache hands the token over. -/
theorem HandsOver.broadcast_eq (h : HandsOver T ph llc t s r o x seg post data next) (bus : List Req) :
    { s with bus := bus }.broadcast T llc r =
      { s with core := s.snooped T r, bus := bus, flight := s.flight ++ data }.drainQueue T llc
        (s.queue ++ [HomeMsg.request r]) := by
  have hdata : (List.finRange n).flatMap (fun j => if j = o then data else []) = data := by
    rw [flatMap_finRange_eq o fun j hj => if_neg hj, if_pos rfl]
  have hsnoop : ∀ j, { s with bus := bus }.snoop T llc r j =
      .ok (s.snooped T r j, { data := if j = o then data else [] }) := by
    intro j
    by_cases hj : j = o
    · subst hj
      obtain ⟨e, both, he, ha, hdata⟩ := h.sends
      rw [if_pos rfl, hdata]
      exact snoop_supply he ha
    · rw [if_neg hj]
      exact (h.others j fun heq => hj (Fin.ext heq)).snoop
  rw [Octopus.Snoop.broadcast_eq hsnoop, hdata]
  rfl

/-- The token of a cache that has it for good, and the last-level cache then. -/
structure Holder (ph : Phases σ τ) (t : Token) (s : Skeleton n σ τ) (o : Fin n) (x : Bool) : Prop where
  held : t.place = .held
  route : t.route = [visit x (o : Nat)]
  view : t.view = .own o
  saved : (s.core o).saved = []
  zero : ∀ y, arriving s.flight o y = 0
  owned : ph.home s.home.state = .owned
  owner : s.home.owner = some (o : Nat)
  queue : s.queue = []
  pending : s.home.pending = []
  memory : s.memory = []
  unique : ∀ j : Fin n, (j : Nat) ≠ o → ph.core (s.core j).state ≠ .holding

include hL hI

/-- A cache in the phase of a holder is one. -/
theorem holder (hrest : s.AtRest T llc) (ho : ph.core (s.core o).state = .holding) :
    ∃ x, Holder ph t s o x := by
  have hphase := hI.cores.phase o
  rw [ho] at hphase
  obtain ⟨hsaved, hzero, hheld, x, hroute⟩ := hphase
  have hhome := hI.home
  have hunique : ∀ j : Fin n, (j : Nat) ≠ o → ph.core (s.core j).state ≠ .holding := by
    intro j hj hhold
    have hphase := hI.cores.phase j
    rw [hhold] at hphase
    obtain ⟨-, -, -, y, hy⟩ := hphase
    rw [hroute] at hy
    exact hj (Stop.visit.inj (List.cons.inj hy).1).2.symm
  have hview : t.view = .own o := (hhome.ends ph.base_ne_own o).1 ⟨x, by rw [hroute]; rfl⟩
  cases hp : ph.home s.home.state with
  | owned =>
    have hqueue := queue_eq_nil_of_owned hL hI hrest hp
    rw [hp, hqueue] at hhome
    obtain ⟨-, hpending, hmemory, b, y, A, howner, hA, heq, -⟩ := hhome
    rw [hroute] at heq
    have hnil : A = [] := by
      cases A with
      | nil => rfl
      | cons a A => simp [View.stops] at heq
    subst hnil
    obtain ⟨-, rfl⟩ : x = y ∧ (o : Nat) = b := by simpa [View.stops] using heq
    exact ⟨x, hheld, hroute, hview, hsaved, hzero, hp, howner, hqueue, hpending, hmemory, hunique⟩
  | awaiting isFree dropped =>
    rw [hp] at hhome
    obtain ⟨-, -, -, -, A, hA, heq, -⟩ := hhome
    rw [hroute] at heq
    have hmem : (home : Stop Nat) ∈ [visit x (o : Nat)] := by
      rw [heq]
      simp
    simp at hmem
  | unreachable =>
    rw [hp] at hhome
    exact absurd hhome id
  | _ =>
    rw [hp, hheld] at hhome
    exact absurd hhome.1 (by simp)

variable (data) in
/-- The last-level cache learns at once that the token it let a cache own has changed hands. -/
theorem HandsOver.owned (hn : n ≤ llc) (hrest : s.AtRest T llc) (hk : s.bus[k]? = some r)
    (h : HandsOver T ph llc t s r o x seg [] data next) (hH : Holder ph t s o x) {e : LLCEventId} {p' : HomePhase}
    {a : List LLCActionId} (he : s.home.event llc (.request r) = .ok e)
    (hlaw : ph.home (T.llc.getNextState s.home.state e) = p' ∧ T.llc.getActions s.home.state e = a)
    (ha : a = [.clearOwner] ∨ a = [.setOwner]) (hvalid : p'.isValid) (hp' : p' ≠ .unreachable)
    (howner : r.type = requestTypeGetS ∨ r.type = requestTypeGetM → r.owner < n)
    (hok : p'.Ok ph.base .flying [next] (View.step ph.base t.view r).1
      (Home.ownerAfter a (some (o : Nat)) r.owner) [] [] [])
    (hlocated : p'.Located s.home.location (recalls llc [] (s.bus.eraseIdx k))) :
    ∃ s', { s with bus := s.bus.eraseIdx k }.broadcast T llc r = .ok s' ∧ Inv T ph llc s' := by
  have htoken := hI.token.append howner
  rw [h.route] at htoken
  have hlocation : Home.locationAfter s.home.location false = s.home.location := by
    have hlocated := hI.located
    rw [hH.owned] at hlocated
    exact locationAfter_eq hlocated false
  have hready : s.home.ready T.llc llc (.request r) = true := by
    rcases ha with rfl | rfl <;> simp [Home.ready, he, hlaw.2]
  rw [h.broadcast_eq]
  refine process_now (s := { s with
    bus := s.bus.eraseIdx k, core := s.snooped T r, flight := s.flight ++ data }) hL hn hrest (.inr hH.queue) hready
    (homeStep_closes hL ⟨.flying, [next], (View.step ph.base t.view r).1⟩
      (Home.ownerAfter a (some (o : Nat)) r.owner) [] [] [] [] he hlaw ?_ ?_ hp' ?_ ?_ ?_ ?_ ?_ ?_ ?_ ?_ ?_ ?_
      ?_ hI.waiting)
  · rcases ha with rfl | rfl <;> simp
  · rcases ha with rfl | rfl <;> simp
  · simp [hvalid, hH.owner, HomeMsg.owner]
  · rcases ha with rfl | rfl <;> simp [Home.pendingAfter, Home.responds, hH.pending]
  · rcases ha with rfl | rfl <;> simp [Home.answered, Home.responds]
  · rcases ha with rfl | rfl <;> simp [hH.memory]
  · rcases ha with rfl | rfl <;> simp
  · rw [List.append_nil]
    exact htoken.handover hn h.passes (fun f hf => hf) (fun _ => rfl) _ htoken.free
  · rw [List.append_nil]
    exact h.cores hn
  · simpa only [hH.queue] using hok
  · simp only [hvalid, if_true, HomeMsg.hasData, hlocation, hH.queue, List.append_nil]
    exact hlocated
  · simp [hH.queue]
  · rw [List.append_nil]
    exact h.bus hI.bus hk

omit hL hI

variable (llc) in
/-- The recalls that are left once a request has left the bus. -/
theorem recalls_eraseIdx (hk : s.bus[k]? = some r) :
    recalls llc [] (s.bus.eraseIdx k) + (if r = ⟨requestTypeInv, llc⟩ then 1 else 0) = recalls llc [] s.bus := by
  have hgrant := recalls_grant llc [] hk
  rw [← hgrant]
  by_cases hr : r = ⟨requestTypeInv, llc⟩ <;> simp [recalls, hr]
  omega

include hL hI

/-- A read is granted. -/
theorem grant_getS (hn : n ≤ llc) (hrest : s.AtRest T llc) (hk : s.bus[k]? = some ⟨requestTypeGetS, i⟩)
    (hi : i < n) :
    ∃ s', { s with bus := s.bus.eraseIdx k }.broadcast T llc ⟨requestTypeGetS, i⟩ = .ok s' ∧
      Inv T ph llc s' := by
  have hown : ∀ j : Fin n, i = j → ph.pending (s.core j).state = some requestTypeGetS := fun j hj =>
    hI.bus.pending_of_mem (List.mem_of_getElem? hk) hj
  by_cases hhold : ∃ o : Fin n, ph.core (s.core o).state = .holding
  · obtain ⟨o, ho⟩ := hhold
    obtain ⟨x, hH⟩ := holder hL hI hrest ho
    have hio : i ≠ o := by
      intro heq
      have hidle := (hL.ownGetS _ (hown o heq)).1
      simp [ho] at hidle
    have hlaw := hL.otherGetS (s.core o).state
    simp only [ho, otherGetSLaw, decide_eq_true_eq] at hlaw
    have hrecalls := recalls_eraseIdx llc hk
    have hlocated := hI.located
    rw [hH.owned, hH.queue] at hlocated
    have hhome := hL.homeGetS s.home.state
    simp only [hH.owned, homeGetSLaw, decide_eq_true_eq] at hhome
    have hstep : View.step ph.base t.view ⟨requestTypeGetS, i⟩ = (.shared, [serve i, home]) := by
      rw [hH.view]
      rfl
    refine HandsOver.owned hL hI [⟨llc, i, false⟩, ⟨i, i, false⟩] hn hrest hk ⟨hH.held, ?_, ?_,
      Passes.serve i, hH.zero, by simp, by simp [hio.symm], ?_, ?_,
      fun j hj => looksOn_getS hL hI (hH.unique j hj) (hown j)⟩ hH (by simp [Home.event]) hhome (.inl rfl)
      rfl (by simp) (fun _ => hi) ?_ ?_
    · rw [hstep, hH.route]
      rfl
    · refine ⟨_, true, Req.event_getS _ _, by rw [if_neg hio]; exact hlaw.2, ?_⟩
      simp [supplies, supplyTo, hH.saved, hio, requestTypeGetS]
    · simp only [Skeleton.snooped, Req.event_getS, if_neg hio, hstep]
      rcases hlaw.1 with hp | hp
      · exact .inr ⟨hp, by simp, trivial⟩
      · exact .inl hp
    · simp only [Skeleton.snooped, Req.event_getS, if_neg hio]
      exact hL.pending_kept _ _ (by simp) (by simp [ho])
    · rw [hstep]
      exact ⟨by simp, by simp [Home.ownerAfter], rfl, rfl, [], by simp, rfl, rfl⟩
    · have hne : (⟨requestTypeGetS, i⟩ : Req) ≠ ⟨requestTypeInv, llc⟩ := by
        simp [requestTypeGetS, requestTypeInv]
      rw [if_neg hne, Nat.add_zero] at hrecalls
      simpa only [HomePhase.Located, hrecalls] using hlocated
  · exact grant_queued hL hI hn hk
      (fun j => looksOn_getS hL hI (fun hj => hhold ⟨j, hj⟩) (hown j)) (.inr (.inr ⟨i, hi, .inl rfl⟩))

/-- A write is granted. -/
theorem grant_getM (hn : n ≤ llc) (hrest : s.AtRest T llc) (hk : s.bus[k]? = some ⟨requestTypeGetM, i⟩)
    (hi : i < n) :
    ∃ s', { s with bus := s.bus.eraseIdx k }.broadcast T llc ⟨requestTypeGetM, i⟩ = .ok s' ∧
      Inv T ph llc s' := by
  have hown : ∀ j : Fin n, i = j → ph.pending (s.core j).state = some requestTypeGetM := fun j hj =>
    hI.bus.pending_of_mem (List.mem_of_getElem? hk) hj
  by_cases hhold : ∃ o : Fin n, ph.core (s.core o).state = .holding
  · obtain ⟨o, ho⟩ := hhold
    obtain ⟨x, hH⟩ := holder hL hI hrest ho
    have hio : i ≠ o := by
      intro heq
      have hcore := (hL.ownGetM _ (hown o heq)).1
      simp [ho] at hcore
    have hlaw := hL.otherGetM (s.core o).state
    simp only [ho, otherGetMLaw, decide_eq_true_eq] at hlaw
    have hrecalls := recalls_eraseIdx llc hk
    have hlocated := hI.located
    rw [hH.owned, hH.queue] at hlocated
    have hhome := hL.homeGetM s.home.state
    simp only [hH.owned, homeGetMLaw, decide_eq_true_eq] at hhome
    have hstep : View.step ph.base t.view ⟨requestTypeGetM, i⟩ = (.own i, [visit false i]) := rfl
    refine HandsOver.owned hL hI [⟨i, i, false⟩] hn hrest hk ⟨hH.held, ?_, ?_,
      Passes.visit i, hH.zero, by simp [hio.symm], by simp, .inl ?_, ?_,
      fun j hj => looksOn_getM hL hI (hH.unique j hj) (hown j)⟩ hH
      (by simp [Home.event, requestTypeGetM, requestTypeGetS]) hhome (.inr rfl)
      rfl (by simp) (fun _ => hi) ?_ ?_
    · rw [hstep, hH.route]
      rfl
    · refine ⟨_, false, Req.event_getM _ _, by rw [if_neg hio]; exact hlaw.2, ?_⟩
      simp [supplies, supplyTo, hH.saved, hio, requestTypeGetM]
    · simp only [Skeleton.snooped, Req.event_getM, if_neg hio]
      exact hlaw.1
    · simp only [Skeleton.snooped, Req.event_getM, if_neg hio]
      exact hL.pending_kept _ _ (by simp) (by simp [ho])
    · rw [hstep]
      exact ⟨by simp, rfl, rfl, i, false, [], by simp [Home.ownerAfter], by simp, rfl, rfl⟩
    · have hne : (⟨requestTypeGetM, i⟩ : Req) ≠ ⟨requestTypeInv, llc⟩ := by
        simp [requestTypeGetM, requestTypeInv]
      rw [if_neg hne, Nat.add_zero] at hrecalls
      simpa only [HomePhase.Located, hrecalls] using hlocated
  · exact grant_queued hL hI hn hk
      (fun j => looksOn_getM hL hI (fun hj => hhold ⟨j, hj⟩) (hown j)) (.inr (.inr ⟨i, hi, .inr rfl⟩))

/-- An invalidation of the last-level cache is granted. -/
theorem grant_invalidation (hn : n ≤ llc) (hrest : s.AtRest T llc)
    (hk : s.bus[k]? = some ⟨requestTypeInv, llc⟩) :
    ∃ s', { s with bus := s.bus.eraseIdx k }.broadcast T llc ⟨requestTypeInv, llc⟩ = .ok s' ∧
      Inv T ph llc s' := by
  by_cases hhold : ∃ o : Fin n, ph.core (s.core o).state = .holding ∧
      T.l1.getActions (s.core o).state .invalidation ≠ []
  · obtain ⟨o, ho, hsend⟩ := hhold
    obtain ⟨x, hH⟩ := holder hL hI hrest ho
    have hlaw := hL.invalidation (s.core o).state
    simp only [ho, invalidationLaw, decide_eq_true_eq] at hlaw
    obtain ⟨hp, ha⟩ := hlaw.resolve_right fun h => hsend h.2
    have hrecalls := recalls_eraseIdx llc hk
    have hlocated := hI.located
    rw [hH.owned, hH.queue] at hlocated
    have hhome := hL.homeInvalidation s.home.state
    simp only [hH.owned, homeInvalidationLaw, decide_eq_true_eq] at hhome
    have hstep : View.step ph.base t.view ⟨requestTypeInv, llc⟩ = (ph.base, [home]) := by
      rw [hH.view, View.step_inv_own]
    have ho' : llc ≠ o := by omega
    refine HandsOver.owned hL hI [⟨llc, llc, false⟩] hn hrest hk ⟨hH.held, ?_, ?_,
      Passes.home llc false, hH.zero, by simp, by simp, .inl ?_, ?_,
      fun j hj => looksOn_inv hL hI hn fun hjh => absurd hjh (hH.unique j hj)⟩ hH
      (by simp [Home.event, requestTypeInv, requestTypeGetM, requestTypeGetS, requestTypePutM]) hhome (.inl rfl)
      rfl (by simp) (by simp [requestTypeInv, requestTypeGetM, requestTypeGetS]) ?_ ?_
    · rw [hstep, hH.route]
      rfl
    · refine ⟨_, false, Req.event_inv _ _, ha, ?_⟩
      simp [supplies, supplyTo, hH.saved, ho', requestTypeInv]
    · simp only [Skeleton.snooped, Req.event_inv]
      exact hp
    · simp only [Skeleton.snooped, Req.event_inv, if_neg ho']
      exact hL.pending_kept _ _ (by simp) (by simp [ho])
    · rw [hstep]
      exact ⟨by simp, by simp [Home.ownerAfter], rfl, rfl, [], by simp, rfl, rfl⟩
    · rw [if_pos rfl] at hrecalls
      rcases hlocated with ⟨-, hzero⟩ | ⟨hpwb, hone⟩
      · omega
      · exact ⟨hpwb, by omega⟩
  · refine grant_queued hL hI hn hk (fun j => looksOn_inv hL hI hn fun hj => ?_) (.inr (.inl rfl))
    by_contra hne
    exact hhold ⟨j, hj, hne⟩

/-- A recalled cache writes the line back: the last-level cache waits for it already. -/
theorem grant_putM_recalled (hn : n ≤ llc) (hrest : s.AtRest T llc) (hk : s.bus[k]? = some ⟨requestTypePutM, o⟩)
    (ho : ph.core (s.core o).state = .recalled) :
    ∃ s', { s with bus := s.bus.eraseIdx k }.broadcast T llc ⟨requestTypePutM, o⟩ = .ok s' ∧
      Inv T ph llc s' := by
  have hput := hI.bus.pending_of_mem (List.mem_of_getElem? hk) rfl
  have hllc : (o : Nat) ≠ llc := by omega
  obtain ⟨hlaw, hpending⟩ := hL.ownPutM (s.core o).state hput
  simp only [ho, ownPutMLaw, decide_eq_true_eq] at hlaw
  have hphase := hI.cores.phase o
  rw [ho] at hphase
  obtain ⟨hsaved, hzero, hheld, hserve, x, post, hroute, hpost⟩ := hphase
  have hview : t.view ≠ .own o := by
    intro heq
    obtain ⟨y, hlast⟩ := (hI.home.ends ph.base_ne_own o).2 heq
    rw [hroute, List.getLast?_cons_cons] at hlast
    have hmem := List.mem_of_getLast? hlast
    simp only [List.mem_cons, reduceCtorEq, false_or] at hmem
    exact hpost y hmem
  have hstep : View.step ph.base t.view ⟨requestTypePutM, o⟩ = (t.view, []) := by
    simp [View.step, requestTypePutM, requestTypeGetS, requestTypeGetM, requestTypeInv, hview]
  have hother : ∀ j : Fin n, (j : Nat) ≠ o → LooksOn T ph llc t s ⟨requestTypePutM, o⟩ j := fun j hj =>
    looksOn_putM hL hI fun heq => absurd heq.symm hj
  have h : HandsOver T ph llc t s ⟨requestTypePutM, o⟩ o x [home] post [⟨llc, o, true⟩] home := by
    refine ⟨hheld, ?_, ⟨_, false, Req.event_putM _ _, by rw [if_pos rfl]; exact hlaw.2, ?_⟩, Passes.home o true,
      hzero, by simpa using hpost, ?_, .inl ?_, ?_, hother⟩
    · rw [hstep, hroute]
      simp
    · simp [supplies, supplyTo, hsaved, requestTypePutM]
    · rw [hroute] at hserve
      exact fun hmem => hserve (List.mem_cons_of_mem _ hmem)
    · simp only [Skeleton.snooped, Req.event_putM, if_true]
      exact hlaw.1
    · simp only [Skeleton.snooped, Req.event_putM, if_true, hpending]
  have hhome := hI.home
  have hlocated := hI.located
  have howned : ph.home s.home.state ≠ .owned := by
    intro howned
    have hqueue := queue_eq_nil_of_owned hL hI hrest howned
    rw [howned, hqueue] at hhome
    obtain ⟨-, -, -, b, y, A, -, hA, heq, -⟩ := hhome
    rw [hroute] at heq
    have hmem : home ∈ A ++ [visit y b] := by
      have : home ∈ visit x (o : Nat) :: home :: post := by simp
      rwa [heq] at this
    simp [hA] at hmem
  have htoken := hI.token
  have hroute' : t.route = visit x (o : Nat) :: [home] ++ post := hroute
  have hI' : TokenInv ph llc ⟨.flying, home :: post, t.view⟩
      { s with core := s.snooped T ⟨requestTypePutM, o⟩, bus := s.bus.eraseIdx k,
               flight := s.flight ++ [⟨llc, o, true⟩] } := by
    have hcores := h.cores hn
    rw [hstep] at hcores
    have htoken : TokenOk ph n llc ⟨t.place, visit x (o : Nat) :: [home] ++ post, t.view⟩ s.flight := by
      rw [← hroute']
      exact hI.token
    rw [hroute'] at hhome
    exact {
      token := htoken.handover hn h.passes (fun f hf => hf) (fun _ => rfl) _ htoken.free
      cores := hcores
      home := hhome.handover (by simp [hheld]) (fun heq => absurd heq howned) h.passes
      located := by
        have hrecalls : recalls llc s.queue (s.bus.eraseIdx k) = recalls llc s.queue s.bus := by
          have hgrant := recalls_grant llc s.queue hk
          rw [← hgrant]
          simp [recalls, List.count_append, requestTypePutM, requestTypeInv]
        simpa only [hrecalls] using hlocated
      queue := hI.queue
      bus := h.bus hI.bus hk
      waiting := hI.waiting }
  have hne : s.home.owner ≠ some (o : Nat) ∧ (ph.home s.home.state).isFetching = false := by
    rw [hheld] at hhome
    cases hp : ph.home s.home.state with
    | awaiting isFree dropped =>
      rw [hp] at hhome
      exact ⟨by simp [hhome.2.1], rfl⟩
    | owned => exact absurd hp howned
    | unreachable =>
      rw [hp] at hhome
      exact absurd hhome id
    | _ =>
      rw [hp] at hhome
      exact absurd hhome.1 (by simp)
  obtain ⟨hready, hcase⟩ := homeStep_putMFromNonOwner hL hI' hllc hne.1
  rw [h.broadcast_eq]
  refine process_now (s := { s with
    core := s.snooped T ⟨requestTypePutM, o⟩, bus := s.bus.eraseIdx k, flight := s.flight ++ [⟨llc, o, true⟩] })
    hL hn hrest (.inl rfl) hready (hcase.resolve_left fun hfetch => ?_)
  simp [hne.2] at hfetch

/-- The owner of the line writes it back. -/
theorem grant_putM_holding (hn : n ≤ llc) (hrest : s.AtRest T llc) (hk : s.bus[k]? = some ⟨requestTypePutM, o⟩)
    (ho : ph.core (s.core o).state = .holding) :
    ∃ s', { s with bus := s.bus.eraseIdx k }.broadcast T llc ⟨requestTypePutM, o⟩ = .ok s' ∧
      Inv T ph llc s' := by
  obtain ⟨x, hH⟩ := holder hL hI hrest ho
  have hput := hI.bus.pending_of_mem (List.mem_of_getElem? hk) rfl
  have hllc : (o : Nat) ≠ llc := by omega
  obtain ⟨hlaw, hpending⟩ := hL.ownPutM (s.core o).state hput
  simp only [ho, ownPutMLaw, decide_eq_true_eq] at hlaw
  have hrecalls := recalls_eraseIdx llc hk
  have hlocated := hI.located
  rw [hH.owned, hH.queue] at hlocated
  have hstep : View.step ph.base t.view ⟨requestTypePutM, o⟩ = (ph.base, [home]) := by
    simp [View.step, requestTypePutM, requestTypeGetS, requestTypeGetM, requestTypeInv, hH.view]
  refine HandsOver.owned hL hI [⟨llc, o, true⟩] hn hrest hk ⟨hH.held, ?_, ?_,
    Passes.home o true, hH.zero, by simp, by simp, .inl ?_, ?_,
    fun j hj => looksOn_putM hL hI fun heq => absurd heq.symm hj⟩ hH
    (by simp [Home.event, requestTypePutM, requestTypeGetM, requestTypeGetS, hllc, hH.owner])
    (hL.homePutMFromOwner _ hH.owned) (.inl rfl) rfl (by simp)
    (by simp [requestTypePutM, requestTypeGetM, requestTypeGetS]) ?_ ?_
  · rw [hstep, hH.route]
    rfl
  · refine ⟨_, false, Req.event_putM _ _, by rw [if_pos rfl]; exact hlaw.2, ?_⟩
    simp [supplies, supplyTo, hH.saved, requestTypePutM]
  · simp only [Skeleton.snooped, Req.event_putM, if_true]
    exact hlaw.1
  · simp only [Skeleton.snooped, Req.event_putM, if_true, hpending]
  · rw [hstep]
    exact ⟨by simp, by simp [Home.ownerAfter], rfl, rfl, [], by simp, rfl, rfl⟩
  · have hne : (⟨requestTypePutM, o⟩ : Req) ≠ ⟨requestTypeInv, llc⟩ := by
      simp [requestTypePutM, requestTypeInv]
    rw [if_neg hne, Nat.add_zero] at hrecalls
    simpa only [HomePhase.Located, hrecalls] using hlocated

/-- A write-back is granted of a cache that has handed the line over since. -/
theorem grant_putM_idle (hn : n ≤ llc) (hrest : s.AtRest T llc) (hk : s.bus[k]? = some ⟨requestTypePutM, o⟩)
    (ho : ph.core (s.core o).state = .idle) :
    (∃ s', { s with bus := s.bus.eraseIdx k }.broadcast T llc ⟨requestTypePutM, o⟩ = .ok s' ∧
        Inv T ph llc s') ∨
      (ph.home s.home.state).isFetching ∧
        { s with bus := s.bus.eraseIdx k }.broadcast T llc ⟨requestTypePutM, o⟩ = .error .fault := by
  have hllc : (o : Nat) ≠ llc := by omega
  have hput := hI.bus.pending_of_mem (List.mem_of_getElem? hk) rfl
  have hquiet : ∀ j : Fin n, LooksOn T ph llc t s ⟨requestTypePutM, o⟩ j := fun j =>
    looksOn_putM hL hI fun heq => by
      obtain rfl := Fin.ext heq
      exact ⟨hput, ho⟩
  have hphase := hI.cores.phase o
  rw [ho] at hphase
  have hview : t.view ≠ .own o := by
    intro heq
    obtain ⟨y, hlast⟩ := (hI.home.ends ph.base_ne_own o).2 heq
    exact hphase.2.2.1 y (List.mem_of_getLast? hlast)
  have hstep : View.step ph.base t.view ⟨requestTypePutM, o⟩ = (t.view, []) := by
    simp [View.step, requestTypePutM, requestTypeGetS, requestTypeGetM, requestTypeInv, hview]
  have hnil : (List.finRange n).flatMap (fun _ => ([] : List Supply)) = [] := flatMap_finRange_eq_nil fun _ => rfl
  rw [broadcast_eq (s := { s with bus := s.bus.eraseIdx k }) fun j => (hquiet j).snoop, hnil, List.append_nil]
  have hI' : TokenInv ph llc t { s with core := s.snooped T ⟨requestTypePutM, o⟩, bus := s.bus.eraseIdx k } := {
    token := hI.token
    cores := ⟨fun j => by simpa only [hstep, List.append_nil] using (hquiet j).phase,
      fun j => by simpa only [hstep] using (hquiet j).alone⟩
    home := hI.home
    located := by
      have hrecalls : recalls llc s.queue (s.bus.eraseIdx k) = recalls llc s.queue s.bus := by
        rw [← recalls_grant llc s.queue hk]
        simp [recalls, List.count_append, requestTypePutM, requestTypeInv]
      simpa only [hrecalls] using hI.located
    queue := hI.queue
    bus := hI.bus.grant hk fun j => (hquiet j).pending
    waiting := hI.waiting }
  have hhome := hI.home
  have howner : s.home.owner ≠ some (o : Nat) := by
    intro heq
    cases hp : ph.home s.home.state with
    | resident isFree valid =>
      rw [hp] at hhome
      simp [hhome.2.1] at heq
    | fetchShared =>
      rw [hp] at hhome
      simp [hhome.2.1] at heq
    | fetchOwned x =>
      rw [hp] at hhome
      obtain ⟨-, b, hb, -, -, hroute, -⟩ := hhome
      obtain rfl : b = o := by simpa [hb] using heq
      exact hphase.2.2.1 x (by simp [hroute])
    | owned =>
      rw [hp] at hhome
      obtain ⟨-, -, -, b, x, A, hb, -, hroute, -⟩ := hhome
      obtain rfl : b = o := by simpa [hb] using heq
      exact hphase.2.2.1 x (by simp [hroute])
    | awaiting isFree dropped =>
      rw [hp] at hhome
      simp [hhome.2.1] at heq
    | unreachable =>
      rw [hp] at hhome
      exact hhome
  obtain ⟨hready, hcase⟩ := homeStep_putMFromNonOwner hL hI' hllc howner
  rcases hcase with ⟨hfetch, hfault⟩ | hok
  · refine .inr ⟨hfetch, ?_⟩
    have hdrain := Skeleton.drainQueue_append (s := { s with
      core := s.snooped T ⟨requestTypePutM, o⟩, bus := s.bus.eraseIdx k }) hrest
      (HomeMsg.request ⟨requestTypePutM, o⟩)
    have hord : (HomeMsg.request ⟨requestTypePutM, o⟩).isOrdered = false := rfl
    have hready' : s.home.ready T.llc llc (.request ⟨requestTypePutM, o⟩) = true := hready
    rwa [if_neg (by simp [hready', hord]), hfault] at hdrain
  · exact .inl (process_now (s := { s with
      core := s.snooped T ⟨requestTypePutM, o⟩, bus := s.bus.eraseIdx k }) hL hn hrest (.inl rfl) hready hok)

/-- A granted request keeps the invariant, unless it is a write-back that faults. -/
theorem grant_inv (hn : n ≤ llc) (hrest : s.AtRest T llc) (hk : s.bus[k]? = some r) :
    (∃ s', { s with bus := s.bus.eraseIdx k }.broadcast T llc r = .ok s' ∧ Inv T ph llc s') ∨
      (r.type = requestTypePutM ∧ (ph.home s.home.state).isFetching) ∧
        { s with bus := s.bus.eraseIdx k }.broadcast T llc r = .error .fault := by
  have hmem := List.mem_of_getElem? hk
  rcases hI.bus.owner r hmem with hi | rfl
  · have hput := hI.bus.pending_of_mem (j := ⟨r.owner, hi⟩) hmem rfl
    have htype := hL.pending_type (s.core ⟨r.owner, hi⟩).state
    rw [hput] at htype
    obtain ⟨type, i⟩ := r
    simp only [List.mem_cons, reduceCtorEq, Option.some.injEq, List.not_mem_nil, or_false, false_or] at htype
    rcases htype with rfl | rfl | rfl
    · exact .inl (grant_getS hL hI hn hrest hk hi)
    · exact .inl (grant_getM hL hI hn hrest hk hi)
    · obtain ⟨hlaw, -⟩ := hL.ownPutM _ hput
      cases hp : ph.core (s.core ⟨i, hi⟩).state with
      | idle =>
        refine (grant_putM_idle (o := ⟨i, hi⟩) hL hI hn hrest hk hp).imp id fun h => ⟨⟨rfl, h.1⟩, h.2⟩
      | holding => exact .inl (grant_putM_holding (o := ⟨i, hi⟩) hL hI hn hrest hk hp)
      | recalled => exact .inl (grant_putM_recalled (o := ⟨i, hi⟩) hL hI hn hrest hk hp)
      | _ => simp [hp, ownPutMLaw] at hlaw
  · exact .inl (grant_invalidation hL hI hn hrest hk)

omit hL hI

end Handover

end Octopus.Snoop
