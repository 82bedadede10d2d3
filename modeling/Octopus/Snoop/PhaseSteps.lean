import Octopus.Snoop.Laws

/-!
# How the phase of one private cache changes

One lemma for each thing that can happen to the itinerary while a private cache looks on, and
one for each request it sees: the phase after the cell agrees with the longer itinerary.
-/

namespace Octopus.Snoop

open Lib Lib.Itinerary
open Lib.Stop (visit home serve)

variable {llc j : Nat} {place place' : Place} {W V : List (Stop Nat)} {k k' : Bool → Nat}
  {saved : List Req} {p p' : Phase} {plan : Plan} {v base : View}

/-- A plan survives the end of another stop. -/
theorem Plan.Ok.tail {x : Bool} {s : Stop Nat} (h : plan.Ok llc (s :: W) x j saved)
    (hs : s ≠ visit x j) : plan.Ok llc W x j saved := by
  cases plan with
  | keep => exact ⟨h.1, h.2.tail hs⟩
  | downgrade =>
    obtain ⟨i, post, hsaved, hfollows, hpost⟩ := h
    exact ⟨i, post, hsaved, hfollows.tail hs, hpost⟩
  | passShared =>
    obtain ⟨i, post, hsaved, hfollows⟩ := h
    exact ⟨i, post, hsaved, hfollows.tail hs⟩
  | pass =>
    obtain ⟨seg, post, hsaved, hfollows⟩ := h
    exact ⟨seg, post, hsaved, hfollows.tail hs⟩

/-- A plan other than keeping the token survives new stops, visits only if it is not current. -/
theorem Plan.Ok.append {x : Bool} (h : plan.Ok llc W x j saved) (hkeep : plan ≠ .keep)
    (hV : plan.isCurrent → Unvisited V) : plan.Ok llc (W ++ V) x j saved := by
  cases plan with
  | keep => exact absurd rfl hkeep
  | downgrade =>
    obtain ⟨i, post, hsaved, hfollows, hpost⟩ := h
    exact ⟨i, post ++ V, hsaved, by simpa using hfollows.append V, unvisited_append.2 ⟨hpost, hV rfl⟩⟩
  | passShared =>
    obtain ⟨i, post, hsaved, hfollows⟩ := h
    exact ⟨i, post ++ V, hsaved, by simpa using hfollows.append V⟩
  | pass =>
    obtain ⟨seg, post, hsaved, hfollows⟩ := h
    exact ⟨seg, post ++ V, hsaved, by simpa using hfollows.append V⟩

/-- A shared plan is a plan to pass the token on. -/
theorem Plan.Ok.pass_of_shared {x : Bool} (h : Plan.passShared.Ok llc W x j saved) :
    Plan.pass.Ok llc W x j saved := by
  obtain ⟨i, post, rfl, hfollows⟩ := h
  exact ⟨[serve i, home], post, .getS x i, hfollows⟩

/-- A plan to downgrade may be given up. -/
theorem Plan.Ok.shared_of_downgrade {x : Bool} (h : Plan.downgrade.Ok llc W x j saved) :
    Plan.passShared.Ok llc W x j saved := by
  obtain ⟨i, post, hsaved, hfollows, -⟩ := h
  exact ⟨i, post, hsaved, hfollows⟩

/-- Another stop is done, by the token on its way or by the home of the token. -/
theorem Phase.Ok.pop {s : Stop Nat} (h : p.Ok llc place (s :: W) j k saved)
    (hs : ∀ y, s ≠ visit y j) (hplace : place ≠ .held)
    (hk : ∀ y, k' y = k y + (if s = serve j ∧ y = false then 1 else 0) + landing place W y j) :
    p.Ok llc place W j k' saved := by
  have hzero : (∀ y, visit y j ∉ W) → serve j ≠ s → (∀ y, k y = 0) → ∀ y, k' y = 0 := by
    intro hvisit hserve hk₀ y
    have hland : landing place W y j = 0 :=
      landing_eq_zero fun _ hhead => hvisit y (List.mem_of_head? hhead)
    rw [hk, hk₀, hland]
    simp [Ne.symm hserve]
  cases p with
  | idle =>
    obtain ⟨hsaved, hk₀, hvisit, hserve⟩ := h
    simp only [List.mem_cons, not_or] at hvisit hserve
    exact ⟨hsaved, hzero (fun y => (hvisit y).2) hserve.1 hk₀, fun y => (hvisit y).2, hserve.2⟩
  | shared =>
    obtain ⟨hsaved, hk₀, hserve, hvisit⟩ := h
    simp only [List.mem_cons, not_or] at hserve
    have hW : Unvisited W := fun y i hmem => hvisit y i (List.mem_cons_of_mem s hmem)
    exact ⟨hsaved, hzero (fun y => hW y j) hserve.1 hk₀, hserve.2, hW⟩
  | reader current => exact ⟨h.1, h.2.1.pop hk, fun hc => (h.2.2 hc).tail⟩
  | reading plan =>
    rcases h with ⟨hreads, hserved, hsaved⟩ | ⟨hawaits, hplan⟩
    · exact .inl ⟨hreads.pop hk, fun hc => (hserved hc).tail, hsaved⟩
    · exact .inr ⟨hawaits.pop hs hplace hk, hplan.tail (hs true)⟩
  | filling readable plan =>
    exact ⟨h.1.pop hs hplace hk, h.2.1.tail (hs false), fun hr => (h.2.2 hr).tail hs⟩
  | holding => exact absurd h.2.2.1 hplace
  | recalled => exact absurd h.2.2.1 hplace
  | unreachable => exact h

/-- The token changes its place while the cache does not hold it. -/
theorem Phase.Ok.setPlace (h : p.Ok llc place W j k saved)
    (hplace : place = .held → ∀ y, W.head? ≠ some (visit y j))
    (hplace' : place' = .held → ∀ y, W.head? ≠ some (visit y j))
    (hk : ∀ y, k' y + landing place W y j = k y + landing place' W y j) :
    p.Ok llc place' W j k' saved := by
  have hzero : (∀ y, visit y j ∉ W) → (∀ y, k y = 0) → ∀ y, k' y = 0 := by
    intro hvisit hk₀ y
    have hland : ∀ q, landing q W y j = 0 := fun q =>
      landing_eq_zero fun _ hhead => hvisit y (List.mem_of_head? hhead)
    have := hk y
    rw [hland, hland, hk₀] at this
    omega
  cases p with
  | idle => exact ⟨h.1, hzero h.2.2.1 h.2.1, h.2.2⟩
  | shared => exact ⟨h.1, hzero (fun y => h.2.2.2 y j) h.2.1, h.2.2⟩
  | reader current => exact ⟨h.1, h.2.1.setPlace hk, h.2.2⟩
  | reading plan =>
    rcases h with ⟨hreads, hserved, hsaved⟩ | ⟨hawaits, hplan⟩
    · exact .inl ⟨hreads.setPlace hk, hserved, hsaved⟩
    · exact .inr ⟨hawaits.setPlace (fun hp => hplace' hp true) hk, hplan⟩
  | filling readable plan => exact ⟨h.1.setPlace (fun hp => hplace' hp false) hk, h.2⟩
  | holding =>
    obtain ⟨-, -, hheld, x, rfl⟩ := h
    exact absurd rfl (hplace hheld x)
  | recalled =>
    obtain ⟨-, -, hheld, -, x, post, rfl, -⟩ := h
    exact absurd rfl (hplace hheld x)
  | unreachable => exact h

/-- A cache without plans to keep the token is not affected by new stops for others. -/
theorem Phase.Ok.append (h : p.Ok llc place W j k saved)
    (hkeep : p ≠ .reading .keep ∧ ∀ r, p ≠ .filling r .keep) (hhold : p ≠ .holding)
    (hvisit : ∀ y, visit y j ∉ V) (hserve : serve j ∉ V) (hV : p.isCurrent → Unvisited V) :
    p.Ok llc place (W ++ V) j k saved := by
  cases p with
  | idle =>
    exact ⟨h.1, h.2.1, fun y => by simp [h.2.2.1 y, hvisit y], by simp [h.2.2.2, hserve]⟩
  | shared => exact ⟨h.1, h.2.1, by simp [h.2.2.1, hserve], unvisited_append.2 ⟨h.2.2.2, hV rfl⟩⟩
  | reader current => exact ⟨h.1, h.2.1.append hvisit hserve, fun hc => (h.2.2 hc).append (hV hc)⟩
  | reading plan =>
    have hne : plan ≠ .keep := fun heq => hkeep.1 (heq ▸ rfl)
    rcases h with ⟨hreads, hserved, hsaved⟩ | ⟨hawaits, hplan⟩
    · exact .inl ⟨hreads.append hvisit hserve, fun hc => (hserved hc).append (hV hc), hsaved⟩
    · exact .inr ⟨hawaits.append hvisit hserve, hplan.append hne hV⟩
  | filling readable plan =>
    have hne : plan ≠ .keep := fun heq => hkeep.2 readable (heq ▸ rfl)
    exact ⟨h.1.append hvisit hserve, h.2.1.append hne hV, fun hr => (h.2.2 hr).append V⟩
  | holding => exact absurd rfl hhold
  | recalled =>
    obtain ⟨hsaved, hk, hheld, hW, x, post, rfl, hpost⟩ := h
    exact ⟨hsaved, hk, hheld, by simpa [hserve] using hW, x, post ++ V, by simp,
      fun y => by simp [hpost y, hvisit y]⟩
  | unreachable => exact h

/-- The token's last holder, if the cache plans to keep it, is the owner in the view. -/
theorem View.Ends.eq_own {x : Bool} (h : v.Ends W) (hj : Follows W x j []) : v = .own j :=
  (h j).1 ⟨x, hj.getLast?⟩

section OtherRequests

variable {i : Nat} {a : List ActionId}

/-- The stops a read of another cache adds are visits only from a free view. -/
theorem View.step_getS_unvisited (h : v ≠ .free) :
    Unvisited (View.step base v ⟨requestTypeGetS, i⟩).2 := by
  cases v with
  | free => exact absurd rfl h
  | shared => simp [View.step]
  | own o => simp [View.step]

variable (v base) in
/-- The stops a read adds concern the reader only. -/
theorem View.step_getS_other (hij : i ≠ j) :
    (∀ y, visit y j ∉ (View.step base v ⟨requestTypeGetS, i⟩).2) ∧
      serve j ∉ (View.step base v ⟨requestTypeGetS, i⟩).2 := by
  cases v <;> simp [View.step, hij.symm]

/-- A cache that does not hold the token sees another one read. -/
theorem Phase.Ok.otherGetS (h : p.Ok llc place W j k saved) (hlaw : otherGetSLaw p p' a)
    (hhold : p ≠ .holding) (hij : i ≠ j) (hends : v.Ends W) (halone : p.isCurrent → v ≠ .free) :
    p'.Ok llc place (W ++ (View.step base v ⟨requestTypeGetS, i⟩).2) j k
      (savedAfter a saved ⟨requestTypeGetS, i⟩) := by
  obtain ⟨hvisit, hserve⟩ := View.step_getS_other v base hij
  have happend : p ≠ .reading .keep ∧ (∀ r, p ≠ .filling r .keep) →
      p.Ok llc place (W ++ (View.step base v ⟨requestTypeGetS, i⟩).2) j k saved := fun hkeep =>
    h.append hkeep hhold hvisit hserve fun hc => View.step_getS_unvisited (halone hc)
  have hstops : ∀ {x}, Follows W x j [] →
      (View.step base v ⟨requestTypeGetS, i⟩).2 = [serve i, home] := by
    intro x hj
    rw [hends.eq_own hj]
    rfl
  cases p with
  | idle =>
    obtain ⟨rfl, rfl⟩ : p' = .idle ∧ a = [] := by simpa [otherGetSLaw] using hlaw
    exact happend ⟨by simp, by simp⟩
  | shared =>
    obtain ⟨rfl, rfl⟩ : p' = .shared ∧ a = [] := by simpa [otherGetSLaw] using hlaw
    exact happend ⟨by simp, by simp⟩
  | reader current =>
    obtain ⟨rfl, rfl⟩ : p' = .reader current ∧ a = [] := by simpa [otherGetSLaw] using hlaw
    exact happend ⟨by simp, by simp⟩
  | reading plan =>
    by_cases hplan : plan = .keep
    · subst hplan
      obtain ⟨rfl, rfl⟩ : p' = .reading .downgrade ∧ a = [.saveReq] := by simpa [otherGetSLaw] using hlaw
      rcases h with ⟨hreads, hserved, hsaved⟩ | ⟨hawaits, rfl, hfollows⟩
      · exact .inl ⟨hreads.append hvisit hserve,
          fun _ => (hserved rfl).append (View.step_getS_unvisited (halone rfl)), by simp⟩
      · refine .inr ⟨hawaits.append hvisit hserve, i, [], by simp [savedAfter], ?_, by simp⟩
        rw [hstops hfollows]
        exact hfollows.append _
    · obtain ⟨rfl, rfl⟩ : p' = .reading plan ∧ a = [] := by
        cases plan <;> simp_all [otherGetSLaw]
      exact happend ⟨by simpa using hplan, by simp⟩
  | filling readable plan =>
    by_cases hplan : plan = .keep
    · subst hplan
      obtain ⟨rfl, rfl⟩ : p' = .filling readable .downgrade ∧ a = [.saveReq] := by
        simpa [otherGetSLaw] using hlaw
      obtain ⟨hawaits, ⟨rfl, hfollows⟩, hfirst⟩ := h
      refine ⟨hawaits.append hvisit hserve, ⟨i, [], by simp [savedAfter], ?_, by simp⟩,
        fun hr => (hfirst hr).append _⟩
      rw [hstops hfollows]
      exact hfollows.append _
    · obtain ⟨rfl, rfl⟩ : p' = .filling readable plan ∧ a = [] := by
        cases plan <;> simp_all [otherGetSLaw]
      exact happend ⟨by simp, by simpa using hplan⟩
  | holding => exact absurd rfl hhold
  | recalled =>
    obtain ⟨rfl, rfl⟩ : p' = .recalled ∧ a = [] := by simpa [otherGetSLaw] using hlaw
    exact happend ⟨by simp, by simp⟩
  | unreachable => exact absurd h id

/-- A cache that does not hold the token sees another one write. -/
theorem Phase.Ok.otherGetM (h : p.Ok llc place W j k saved) (hlaw : otherGetMLaw p p' a)
    (hhold : p ≠ .holding) (hij : i ≠ j) :
    p'.Ok llc place (W ++ [visit false i]) j k (savedAfter a saved ⟨requestTypeGetM, i⟩) := by
  have hvisit : ∀ y, visit y j ∉ [visit false i] := by simp [hij.symm]
  have hserve : serve j ∉ [visit false i] := by simp
  have happend : p ≠ .reading .keep ∧ (∀ r, p ≠ .filling r .keep) → p.isCurrent = false →
      p.Ok llc place (W ++ [visit false i]) j k saved := fun hkeep hcurrent =>
    h.append hkeep hhold hvisit hserve fun hc => by simp [hcurrent] at hc
  cases p with
  | idle =>
    obtain ⟨rfl, rfl⟩ : p' = .idle ∧ a = [] := by simpa [otherGetMLaw] using hlaw
    exact happend ⟨by simp, by simp⟩ rfl
  | shared =>
    obtain ⟨rfl, rfl⟩ : p' = .idle ∧ a = [] := by simpa [otherGetMLaw] using hlaw
    obtain ⟨hsaved, hk, hW, hunvisited⟩ := h
    exact ⟨hsaved, hk, fun y => by simp [hunvisited y j, hij.symm], by simp [hW]⟩
  | reader current =>
    obtain ⟨rfl, rfl⟩ : p' = .reader false ∧ a = [] := by simpa [otherGetMLaw] using hlaw
    exact ⟨h.1, h.2.1.append hvisit hserve, by simp⟩
  | reading plan =>
    cases plan with
    | keep =>
      obtain ⟨rfl, rfl⟩ : p' = .reading .pass ∧ a = [.saveReq] := by simpa [otherGetMLaw] using hlaw
      rcases h with ⟨hreads, -, -⟩ | ⟨hawaits, rfl, hfollows⟩
      · exact .inl ⟨hreads.append hvisit hserve, by simp [Plan.isCurrent], by simp⟩
      · exact .inr ⟨hawaits.append hvisit hserve, [visit false i], [],
          by simpa [savedAfter] using Handoff.getM _ i, hfollows.append _⟩
    | downgrade =>
      obtain ⟨rfl, rfl⟩ : p' = .reading .passShared ∧ a = [] := by simpa [otherGetMLaw] using hlaw
      rcases h with ⟨hreads, -, -⟩ | ⟨hawaits, hplan⟩
      · exact .inl ⟨hreads.append hvisit hserve, by simp [Plan.isCurrent], by simp⟩
      · exact .inr ⟨hawaits.append hvisit hserve,
          hplan.shared_of_downgrade.append (by simp) (by simp [Plan.isCurrent])⟩
    | passShared =>
      obtain ⟨rfl, rfl⟩ : p' = .reading .passShared ∧ a = [] := by simpa [otherGetMLaw] using hlaw
      exact happend ⟨by simp, by simp⟩ rfl
    | pass =>
      obtain ⟨rfl, rfl⟩ : p' = .reading .pass ∧ a = [] := by simpa [otherGetMLaw] using hlaw
      exact happend ⟨by simp, by simp⟩ rfl
  | filling readable plan =>
    cases plan with
    | keep =>
      obtain ⟨rfl, rfl⟩ : p' = .filling readable .pass ∧ a = [.saveReq] := by
        simpa [otherGetMLaw] using hlaw
      obtain ⟨hawaits, ⟨rfl, hfollows⟩, hfirst⟩ := h
      exact ⟨hawaits.append hvisit hserve, ⟨[visit false i], [],
        by simpa [savedAfter] using Handoff.getM _ i, hfollows.append _⟩, fun hr => (hfirst hr).append _⟩
    | downgrade =>
      obtain ⟨rfl, rfl⟩ : p' = .filling readable .passShared ∧ a = [] := by
        simpa [otherGetMLaw] using hlaw
      obtain ⟨hawaits, hplan, hfirst⟩ := h
      exact ⟨hawaits.append hvisit hserve,
        hplan.shared_of_downgrade.append (by simp) (by simp [Plan.isCurrent]),
        fun hr => (hfirst hr).append _⟩
    | passShared =>
      obtain ⟨rfl, rfl⟩ : p' = .filling readable .passShared ∧ a = [] := by
        simpa [otherGetMLaw] using hlaw
      exact happend ⟨by simp, by simp⟩ rfl
    | pass =>
      obtain ⟨rfl, rfl⟩ : p' = .filling readable .pass ∧ a = [] := by simpa [otherGetMLaw] using hlaw
      exact happend ⟨by simp, by simp⟩ rfl
  | holding => exact absurd rfl hhold
  | recalled =>
    obtain ⟨rfl, rfl⟩ : p' = .recalled ∧ a = [] := by simpa [otherGetMLaw] using hlaw
    exact happend ⟨by simp, by simp⟩ rfl
  | unreachable => exact absurd h id

variable (llc v base) in
/-- The stops an invalidation adds: the token returns home if a cache owns it. -/
theorem View.step_inv_stops :
    Unvisited (View.step base v ⟨requestTypeInv, llc⟩).2 ∧
      ∀ j, serve j ∉ (View.step base v ⟨requestTypeInv, llc⟩).2 := by
  cases v <;> simp [View.step, requestTypeInv, requestTypeGetS, requestTypeGetM]

/-- An owner that is invalidated sends the token home. -/
theorem View.step_inv_own : View.step base (.own i) ⟨requestTypeInv, llc⟩ = (base, [home]) := by
  simp [View.step, requestTypeInv, requestTypeGetS, requestTypeGetM]

/-- A cache that keeps the token if it has it is invalidated. -/
theorem Phase.Ok.invalidation (h : p.Ok llc place W j k saved) (hlaw : invalidationLaw p p' a)
    (hhold : p = .holding → a = []) (hends : v.Ends W) :
    p'.Ok llc place (W ++ (View.step base v ⟨requestTypeInv, llc⟩).2) j k
      (savedAfter a saved ⟨requestTypeInv, llc⟩) := by
  obtain ⟨hunvisited, hserveAll⟩ := View.step_inv_stops llc v base
  have hserve := hserveAll j
  have hvisit := fun y => hunvisited y j
  have happend : p ≠ .reading .keep ∧ (∀ r, p ≠ .filling r .keep) → p ≠ .holding →
      p.Ok llc place (W ++ (View.step base v ⟨requestTypeInv, llc⟩).2) j k saved := fun hkeep hhold =>
    h.append hkeep hhold hvisit hserve fun _ => hunvisited
  have hstops : ∀ {x}, Follows W x j [] →
      (View.step base v ⟨requestTypeInv, llc⟩).2 = [home] := by
    intro x hj
    rw [hends.eq_own hj, View.step_inv_own]
  cases p with
  | idle =>
    obtain ⟨rfl, rfl⟩ : p' = .idle ∧ a = [] := by simpa [invalidationLaw] using hlaw
    exact happend ⟨by simp, by simp⟩ (by simp)
  | shared =>
    obtain ⟨rfl, rfl⟩ : p' = .idle ∧ a = [] := by simpa [invalidationLaw] using hlaw
    obtain ⟨hsaved, hk, hW, hW'⟩ := h
    exact ⟨hsaved, hk, fun y => by simp [hW' y j, hvisit y], by simp [hW, hserve]⟩
  | reader current =>
    obtain ⟨rfl, rfl⟩ : p' = .reader false ∧ a = [] := by simpa [invalidationLaw] using hlaw
    exact ⟨h.1, h.2.1.append hvisit hserve, by simp⟩
  | reading plan =>
    obtain ⟨rfl, rfl⟩ : p' = .reading .pass ∧ a = [] := by simpa [invalidationLaw] using hlaw
    rcases h with ⟨hreads, -, -⟩ | ⟨hawaits, hplan⟩
    · exact .inl ⟨hreads.append hvisit hserve, by simp [Plan.isCurrent], by simp⟩
    · refine .inr ⟨hawaits.append hvisit hserve, ?_⟩
      cases plan with
      | keep =>
        obtain ⟨rfl, hfollows⟩ := hplan
        rw [hstops hfollows]
        exact ⟨[home], [], .drop, hfollows.append _⟩
      | downgrade =>
        exact hplan.shared_of_downgrade.pass_of_shared.append (by simp) fun _ => hunvisited
      | passShared => exact hplan.pass_of_shared.append (by simp) fun _ => hunvisited
      | pass => exact hplan.append (by simp) fun _ => hunvisited
  | filling readable plan =>
    cases plan with
    | keep =>
      obtain ⟨hp', rfl⟩ : (p' = .filling readable .pass ∨ p' = .filling false .pass) ∧ a = [.saveReq] := by
        simpa [invalidationLaw] using hlaw
      obtain ⟨hawaits, ⟨rfl, hfollows⟩, hfirst⟩ := h
      have hplan : Plan.pass.Ok llc (W ++ (View.step base v ⟨requestTypeInv, llc⟩).2) false j
          (savedAfter [.saveReq] [] ⟨requestTypeInv, llc⟩) := by
        rw [hstops hfollows]
        exact ⟨[home], [], by simpa [savedAfter] using Handoff.inv _, hfollows.append _⟩
      rcases hp' with rfl | rfl
      · exact ⟨hawaits.append hvisit hserve, hplan, fun hr => (hfirst hr).append _⟩
      · exact ⟨hawaits.append hvisit hserve, hplan, by simp⟩
    | downgrade =>
      obtain ⟨rfl, rfl⟩ : p' = .filling readable .passShared ∧ a = [] := by
        simpa [invalidationLaw] using hlaw
      obtain ⟨hawaits, hplan, hfirst⟩ := h
      exact ⟨hawaits.append hvisit hserve,
        hplan.shared_of_downgrade.append (by simp) fun _ => hunvisited,
        fun hr => (hfirst hr).append _⟩
    | passShared =>
      obtain ⟨rfl, rfl⟩ : p' = .filling readable .passShared ∧ a = [] := by
        simpa [invalidationLaw] using hlaw
      exact happend ⟨by simp, by simp⟩ (by simp)
    | pass =>
      obtain ⟨rfl, rfl⟩ : p' = .filling readable .pass ∧ a = [] := by
        simpa [invalidationLaw] using hlaw
      exact happend ⟨by simp, by simp⟩ (by simp)
  | holding =>
    obtain rfl := hhold rfl
    obtain rfl : p' = .recalled := by simpa [invalidationLaw] using hlaw
    obtain ⟨hsaved, hk, hheld, x, rfl⟩ := h
    rw [hstops ⟨[], rfl⟩]
    exact ⟨hsaved, hk, hheld, by simp, x, [], by simp⟩
  | recalled =>
    obtain ⟨rfl, rfl⟩ : p' = .recalled ∧ a = [] := by simpa [invalidationLaw] using hlaw
    exact happend ⟨by simp, by simp⟩ (by simp)
  | unreachable => exact absurd h id

end OtherRequests

section OwnRequests

/-- A cache that starts to wait for the token is last in the itinerary. -/
theorem awaits_append_self {x : Bool} (hplace : place = .home ∨ W ≠ []) (hk : ∀ y, k y = 0)
    (hvisit : ∀ y, visit y j ∉ W) (hserve : serve j ∉ W) :
    Awaits place (W ++ [visit x j]) x j k where
  serve_notMem := by simp [hserve]
  count := by simp [List.count_append, List.count_eq_zero.2 (hvisit x)]
  other := by cases x <;> simp [hvisit]
  arriving := by
    rw [landing_append hplace, hk, landing_eq_zero]
    exact fun _ hhead => hvisit x (List.mem_of_head? hhead)
  arriving_other := hk _
  not_held hheld := by
    have hW : W ≠ [] := by
      rcases hplace with rfl | hW
      · simp at hheld
      · exact hW
    obtain ⟨s, V, rfl⟩ := List.exists_cons_of_ne_nil hW
    exact fun hhead => hvisit x (List.mem_of_head? hhead)

/-- A cache's own read is granted: it will be served a copy, or hold the token. -/
theorem Phase.Ok.ownGetS (h : Phase.idle.Ok llc place W j k saved) (hplace : place = .home ∨ W ≠ [])
    {exclusive : Bool} (hfree : v = .free → exclusive) :
    (if exclusive then Phase.reading .keep else .reader true).Ok llc place
      (W ++ (View.step base v ⟨requestTypeGetS, j⟩).2) j k saved := by
  obtain ⟨hsaved, hk, hvisit, hserve⟩ := h
  by_cases hv : v = .free
  · subst hv
    rw [if_pos (hfree rfl)]
    exact .inr ⟨awaits_append_self hplace hk hvisit hserve, hsaved, follows_append_self W true j⟩
  · have hstops : Unvisited (View.step base v ⟨requestTypeGetS, j⟩).2 := View.step_getS_unvisited hv
    have hcount : (View.step base v ⟨requestTypeGetS, j⟩).2.count (serve j) = 1 := by
      cases v with
      | free => exact absurd rfl hv
      | shared => simp [View.step]
      | own o => simp [View.step]
    have hreads : Reads (W ++ (View.step base v ⟨requestTypeGetS, j⟩).2) j k :=
      ⟨by rw [List.count_append, List.count_eq_zero.2 hserve, hcount, hk], hk true,
        fun y => by simp [hvisit y, hstops y j]⟩
    have hserved : ServedAfter j (W ++ (View.step base v ⟨requestTypeGetS, j⟩).2) :=
      servedAfter_append_of_mem W hstops (List.count_pos_iff.1 (by omega))
    cases exclusive with
    | true => exact .inl ⟨hreads, fun _ => hserved, fun _ => hsaved⟩
    | false => exact ⟨hsaved, hreads, fun _ => hserved⟩

/-- A cache's own write is granted: it will hold the token. -/
theorem Phase.Ok.ownGetM (h : p.Ok llc place W j k saved) (hp : p = .idle ∨ p = .shared)
    (hplace : place = .home ∨ W ≠ []) :
    (Phase.filling (p = .shared) .keep).Ok llc place (W ++ [visit false j]) j k saved := by
  rcases hp with rfl | rfl
  · obtain ⟨hsaved, hk, hvisit, hserve⟩ := h
    exact ⟨awaits_append_self hplace hk hvisit hserve, ⟨hsaved, follows_append_self W false j⟩, by simp⟩
  · obtain ⟨hsaved, hk, hserve, hunvisited⟩ := h
    exact ⟨awaits_append_self hplace hk (fun y => hunvisited y j) hserve,
      ⟨hsaved, follows_append_self W false j⟩, fun _ => hunvisited.firstVisit false j []⟩

end OwnRequests

/-- The token leaves `o`; the cache looks on. -/
theorem Phase.Ok.release {o : Nat} {x : Bool} (h : p.Ok llc place (visit x o :: W) j k saved)
    (hjo : j ≠ o) (hk : ∀ y, k' y = k y + landing .flying W y j) : p.Ok llc .flying W j k' saved := by
  have hne : ∀ y, (visit x o : Stop Nat) ≠ visit y j := fun y heq => hjo (Stop.visit.inj heq).2.symm
  have hflying : p.Ok llc .flying (visit x o :: W) j k saved :=
    h.setPlace (fun _ y => by simpa using hne y) (by simp) fun y => by
      rw [landing_eq_zero fun _ => by simpa using hne y, landing_eq_zero fun _ => by simpa using hne y]
  exact hflying.pop hne (by simp) fun y => by simp [hk y]

end Octopus.Snoop
