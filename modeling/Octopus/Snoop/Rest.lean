import Octopus.Snoop.MESI

/-!
# Nothing on its way is rest

Where no request waits for the bus, no data message is on its way and main memory owes no answer, the token
has arrived: the last-level cache has it, or the cache that the last-level cache names as the owner. Then no
queued message waits for it either, and every controller is in a stable state. So a state of the skeleton that
is not at rest always has a message that can be taken.
-/

namespace Octopus.Snoop

open Lib Lib.Itinerary
open Lib.Stop (visit home serve)

variable {σ τ : Type} {n llc : Nat} {T : Tables σ τ} {ph : Phases σ τ} {s : Skeleton n σ τ} {t : Token}

/-- What rest asks of the tables: which states are stable, and that a recalled cache writes back. -/
structure RestLaws (T : Tables σ τ) (ph : Phases σ τ) : Prop where
  recalled : ∀ s, ph.core s = .recalled → ph.pending s ≠ none
  core : ∀ s, ph.pending s = none → ph.core s = .idle ∨ ph.core s = .shared ∨ ph.core s = .holding →
    T.l1.isStable s = true
  home : ∀ s, ph.home s = .owned ∨ (∃ isFree valid, ph.home s = .resident isFree valid) → T.llc.isStable s = true

/-- No message waits for a grant, a delivery or an answer of main memory. -/
structure Skeleton.Settled (s : Skeleton n σ τ) : Prop where
  bus : s.bus = []
  flight : s.flight = []
  memory : s.memory = []

section Caches

variable {place : Place} {W V : List (Stop Nat)} {j : Nat} {k : Bool → Nat} {saved : List Req} {p : Phase} {x y : Bool}
  {i : Nat}

/-- A cache to which no data is on its way does not wait for the token at the head of the itinerary. -/
theorem not_awaits_head (h : Awaits place (visit x j :: V) y j k) (hk : ∀ x, k x = 0) (hplace : place ≠ .home) :
    False := by
  have hxy : x = y := by
    by_contra hne
    apply h.other
    rw [← Bool.eq_not_of_ne hne]
    exact List.mem_cons_self
  subst hxy
  cases place with
  | home => exact hplace rfl
  | flying =>
    have harrive := h.arriving
    rw [hk, landing, if_pos ⟨rfl, rfl⟩] at harrive
    omega
  | held => exact h.not_held rfl rfl

/-- Without data on its way, the cache at the head of the itinerary has the token, for good or recalled. -/
theorem Phase.Ok.held_of_head (h : p.Ok llc place (visit x j :: V) j k saved) (hk : ∀ x, k x = 0)
    (hplace : place ≠ .home) : place = .held ∧ (p = .holding ∧ V = [] ∨ p = .recalled) := by
  have hmem : visit x j ∈ visit x j :: V := List.mem_cons_self
  cases p with
  | idle => exact absurd hmem (h.2.2.1 x)
  | shared => exact absurd hmem (h.2.2.2 x j)
  | reader current => exact absurd hmem (h.2.1.visit_notMem x)
  | reading plan =>
    cases h with
    | inl hreads => exact absurd hmem (hreads.1.visit_notMem x)
    | inr hawaits => exact (not_awaits_head hawaits.1 hk hplace).elim
  | filling readable plan => exact (not_awaits_head h.1 hk hplace).elim
  | holding =>
    cases h.2.2.2 with
    | intro y hroute => exact ⟨h.2.2.1, .inl ⟨rfl, (List.cons.inj hroute).2⟩⟩
  | recalled => exact ⟨h.2.2.1, .inr rfl⟩
  | unreachable => exact h.elim

/-- Without data on its way and without stops to come, a cache has the line or has nothing to do with it. -/
theorem Phase.Ok.rests_of_nil (h : p.Ok llc place [] j k saved) (hk : ∀ x, k x = 0) : p = .idle ∨ p = .shared := by
  have hreads : ¬ Reads [] j k := by
    intro hreads
    have hcount := hreads.count
    simp [hk] at hcount
  have hawaits : ∀ y, ¬ Awaits place [] y j k := by
    intro y hawaits
    have hcount := hawaits.count
    simp at hcount
  cases p with
  | idle => exact .inl rfl
  | shared => exact .inr rfl
  | reader current => exact absurd h.2.1 hreads
  | reading plan =>
    cases h with
    | inl h => exact absurd h.1 hreads
    | inr h => exact absurd h.1 (hawaits true)
  | filling readable plan => exact absurd h.1 (hawaits false)
  | holding =>
    cases h.2.2.2 with
    | intro y hroute => simp at hroute
  | recalled =>
    cases h.2.2.2.2 with
    | intro y hroute =>
      cases hroute with
      | intro post hroute => simp at hroute
  | unreachable => exact h.elim

/-- Without data on its way, a cache that is not the holder at the end of the itinerary waits for nothing. -/
theorem Phase.Ok.rests_of_other (h : p.Ok llc .held [visit x i] j k saved) (hk : ∀ x, k x = 0) (hij : j ≠ i) :
    p = .idle ∨ p = .shared := by
  have hreads : ¬ Reads [visit x i] j k := by
    intro hreads
    have hcount := hreads.count
    simp [hk] at hcount
  have hawaits : ∀ y, ¬ Awaits .held [visit x i] y j k := by
    intro y hawaits
    have hcount := hawaits.count
    simp [Ne.symm hij] at hcount
  cases p with
  | idle => exact .inl rfl
  | shared => exact .inr rfl
  | reader current => exact absurd h.2.1 hreads
  | reading plan =>
    cases h with
    | inl h => exact absurd h.1 hreads
    | inr h => exact absurd h.1 (hawaits true)
  | filling readable plan => exact absurd h.1 (hawaits false)
  | holding =>
    cases h.2.2.2 with
    | intro y hroute => exact absurd (Stop.visit.inj (List.cons.inj hroute).1).2.symm hij
  | recalled =>
    cases h.2.2.2.2 with
    | intro y hroute =>
      cases hroute with
      | intro post hroute => simp at hroute
  | unreachable => exact h.elim

end Caches

section Home

/-- A queued message whose row does not stall is ready. -/
theorem stall_mem_of_not_ready {h : Home τ} {m : HomeMsg} {e : LLCEventId} (hready : h.ready T.llc llc m = false)
    (hevent : h.event llc m = .ok e) : LLCActionId.stall ∈ T.llc.getActions h.state e := by
  rw [Home.ready, hevent] at hready
  simpa using (Bool.or_eq_false_iff.1 hready).2

/-- A last-level cache that has the token stalls no read, no write and, while the line is there, no recall. -/
theorem resident_row (hL : TokenLaws T ph) {h : τ} {isFree valid : Bool} (hh : ph.home h = .resident isFree valid) :
    LLCActionId.stall ∉ T.llc.getActions h .getS ∧ LLCActionId.stall ∉ T.llc.getActions h .getM ∧
      (valid = true → LLCActionId.stall ∉ T.llc.getActions h .replacement ∧
        LLCActionId.stall ∉ T.llc.getActions h .ownInvalidation) := by
  have hgetS := hL.homeGetS h
  have hgetM := hL.homeGetM h
  have hrepl := hL.homeReplacement h
  have hinv := hL.homeInvalidation h
  rw [hh] at hgetS hgetM hrepl hinv
  cases valid with
  | true =>
    simp only [homeGetMLaw, homeReplacementLaw, homeInvalidationLaw, decide_eq_true_eq] at hgetM hrepl hinv
    refine ⟨?_, by simp [hgetM.2], fun _ => ⟨by simp [hrepl.2], by simp [hinv.2]⟩⟩
    cases isFree <;> simp only [homeGetSLaw, decide_eq_true_eq] at hgetS <;> simp [hgetS.2]
  | false =>
    simp only [homeGetMLaw, decide_eq_true_eq] at hgetM
    refine ⟨?_, by simp [hgetM.2], fun hvalid => absurd hvalid (by simp)⟩
    cases isFree <;> simp only [homeGetSLaw, decide_eq_true_eq] at hgetS <;> simp [hgetS.2]

/-- The queue of a last-level cache that has the token is empty at rest. -/
theorem queue_eq_nil_of_resident (hL : TokenLaws T ph) (hI : TokenInv ph llc t s) (hrest : s.AtRest T llc)
    {isFree valid : Bool} (hresident : ph.home s.home.state = .resident isFree valid) : s.queue = [] := by
  cases hqueue : s.queue with
  | nil => rfl
  | cons m queue =>
    rw [Skeleton.AtRest, hqueue] at hrest
    have hready := Home.ready_eq_false_of_firstReady hrest
    have hrow := resident_row hL hresident
    have hvalid : m = .replacement ∨ m = .request ⟨requestTypeInv, llc⟩ → valid = true := by
      intro hm
      cases valid with
      | true => rfl
      | false =>
        have hlocated := hI.located
        rw [hresident, hqueue] at hlocated
        have hcount := hlocated.2
        rw [recalls] at hcount
        cases hm with
        | inl hm => rw [hm, List.count_cons_self] at hcount; omega
        | inr hm => rw [hm, List.count_cons_self] at hcount; omega
    cases hI.queue m (by simp [hqueue]) with
    | inl hm =>
      have hstall := stall_mem_of_not_ready hready (e := .replacement) (by rw [hm]; rfl)
      exact absurd hstall (hrow.2.2 (hvalid (.inl hm))).1
    | inr hm =>
      cases hm with
      | inl hm =>
        have hstall := stall_mem_of_not_ready hready (e := .ownInvalidation)
          (by simp [hm, Home.event, requestTypeInv, requestTypeGetS, requestTypeGetM, requestTypePutM])
        exact absurd hstall (hrow.2.2 (hvalid (.inr hm))).2
      | inr hm =>
        cases hm with
        | intro i hm =>
          cases hm.2 with
          | inl hm =>
            exact absurd (stall_mem_of_not_ready hready (e := .getS) (by simp [hm, Home.event])) hrow.1
          | inr hm =>
            have hstall := stall_mem_of_not_ready hready (e := .getM)
              (by simp [hm, Home.event, requestTypeGetS, requestTypeGetM])
            exact absurd hstall hrow.2.1

/-- Where nothing is on its way, no private cache has a request on the bus. -/
theorem TokenInv.pending_eq_none (hI : TokenInv ph llc t s) (hbus : s.bus = []) (i : Fin n) :
    ph.pending (s.core i).state = none := by
  have hpending := hI.bus.pending i
  rw [hbus] at hpending
  cases hp : ph.pending (s.core i).state with
  | none => rfl
  | some type => simp [hp] at hpending

/-- Where nothing is on its way, a token that is not at home is held by the one cache that is still to have it. -/
theorem TokenInv.held_of_settled (hR : RestLaws T ph) (hI : TokenInv ph llc t s) (hs : s.Settled)
    (hplace : t.place ≠ .home) :
    t.place = .held ∧ ∃ x, ∃ b : Fin n, t.route = [visit x (b : Nat)] ∧ ph.core (s.core b).state = .holding := by
  have hvisit : ∃ x b V, t.route = visit x b :: V := by
    have hhead := hI.token.head
    cases hp : t.place with
    | home => exact absurd hp hplace
    | held =>
      rw [hp] at hhead
      exact hhead
    | flying =>
      rw [hp] at hhead
      cases hhead with
      | inl hhome =>
        have harriving := hI.token.homeArriving
        cases hhome with
        | intro V hV => simp [hs.flight, hp, hV] at harriving
      | inr hvisit => exact hvisit
  cases hvisit with
  | intro x hvisit =>
    cases hvisit with
    | intro b hvisit =>
      cases hvisit with
      | intro V hV =>
        have hb : b < n := hI.token.bound x b (by simp [hV])
        have hphase := hI.cores.phase ⟨b, hb⟩
        rw [hV] at hphase
        have hheld := hphase.held_of_head (fun x => by simp [hs.flight]) hplace
        refine ⟨hheld.1, x, ⟨b, hb⟩, ?_⟩
        cases hheld.2 with
        | inl hholding => exact ⟨by rw [hV, hholding.2], hholding.1⟩
        | inr hrecalled =>
          exact absurd (hI.pending_eq_none hs.bus ⟨b, hb⟩) (hR.recalled _ hrecalled)

/-- Where nothing is on its way, the last-level cache has the token or lets a cache own it. -/
theorem TokenInv.home_of_settled (hR : RestLaws T ph) (hI : TokenInv ph llc t s) (hs : s.Settled) :
    ph.home s.home.state = .owned ∨ ∃ isFree valid, ph.home s.home.state = .resident isFree valid := by
  have hhome := hI.home
  cases hp : ph.home s.home.state with
  | resident isFree valid => exact .inr ⟨isFree, valid, rfl⟩
  | owned => exact .inl rfl
  | fetchShared =>
    rw [hp] at hhome
    cases hhome.2.2 with
    | intro r hr =>
      have hmemory := hr.2.1
      simp [hs.memory] at hmemory
  | fetchOwned x =>
    rw [hp] at hhome
    cases hhome.2 with
    | intro r hr =>
      have hmemory := hr.2.2.1
      simp [hs.memory] at hmemory
  | awaiting isFree dropped =>
    rw [hp] at hhome
    have hheld := hI.held_of_settled hR hs hhome.1
    cases hhome.2.2.2.2 with
    | intro A hA =>
      cases hheld.2 with
      | intro x hheld =>
        cases hheld with
        | intro b hheld =>
          have hroute := hA.2.1
          rw [hheld.1] at hroute
          have hmem : Stop.home ∈ [visit x (b : Nat)] := by
            rw [hroute]
            simp
          simp at hmem
  | unreachable =>
    rw [hp] at hhome
    exact hhome.elim

/-- Where nothing is on its way, nothing is queued and every controller is in a stable state. -/
theorem quiet_of_settled (hL : TokenLaws T ph) (hR : RestLaws T ph) (hI : Inv T ph llc s) (hs : s.Settled) :
    s.queue = [] ∧ (∀ i, T.l1.isStable (s.core i).state = true) ∧ T.llc.isStable s.home.state = true := by
  cases hI with
  | intro hI hrest =>
    cases hI with
    | intro t hI =>
      have hhome := hI.home_of_settled hR hs
      have hqueue : s.queue = [] := by
        cases hhome with
        | inl howned => exact queue_eq_nil_of_owned hL hI hrest howned
        | inr hresident =>
          cases hresident with
          | intro isFree hresident =>
            cases hresident with
            | intro valid hresident => exact queue_eq_nil_of_resident hL hI hrest hresident
      have hzero : ∀ j x, arriving s.flight j x = 0 := fun j x => by rw [hs.flight, arriving_nil]
      refine ⟨hqueue, fun i => hR.core _ (hI.pending_eq_none hs.bus i) ?_, hR.home _ hhome⟩
      have hphase := hI.cores.phase i
      have hrow := hI.home
      cases hhome with
      | inl howned =>
        rw [howned] at hrow
        have hheld := hI.held_of_settled hR hs hrow.1
        cases hheld.2 with
        | intro x hheld' =>
          cases hheld' with
          | intro b hb =>
            by_cases hib : i = b
            · exact .inr (.inr (hib ▸ hb.2))
            · rw [hheld.1, hb.1] at hphase
              have hother := hphase.rests_of_other (hzero i) fun heq => hib (Fin.ext heq)
              cases hother with
              | inl hidle => exact .inl hidle
              | inr hshared => exact .inr (.inl hshared)
      | inr hresident =>
        cases hresident with
        | intro isFree hresident =>
          cases hresident with
          | intro valid hresident =>
            rw [hresident, hqueue] at hrow
            rw [show t.route = [] from hrow.2.2.2.2.1] at hphase
            cases hphase.rests_of_nil (hzero i) with
            | inl hidle => exact .inl hidle
            | inr hshared => exact .inr (.inl hshared)

end Home

/-- The MSI tables rest. -/
theorem msi_restLaws : RestLaws msiLawful.tables msiPhases := by constructor <;> decide

/-- The MESI tables rest. -/
theorem mesi_restLaws : RestLaws mesiLawful.tables mesiPhases := by constructor <;> decide

end Octopus.Snoop
