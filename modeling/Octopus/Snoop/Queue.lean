import Octopus.Snoop.Skeleton

/-!
# The queue of the last-level cache

How the scan of the queue and the drain behave: what the first ready message is, that a drain
ends at rest, and the rules that carry an invariant through a drain.
-/

namespace Octopus.Snoop

variable {σ τ : Type} {n : Nat}

namespace Home

variable {fsm : Fsm τ LLCEventId LLCActionId} {llc : Nat} {h : Home τ}

/-- The first ready message is a ready message that no older ordered one blocks. -/
theorem firstReady_eq_some {older queue rest : List HomeMsg} {m : HomeMsg}
    (hfirst : h.firstReady fsm llc older queue = some (m, rest)) :
    ∃ pre post, queue = pre ++ m :: post ∧ rest = older ++ pre ++ post ∧
      (m.isOrdered → ∀ x ∈ older ++ pre, x.isOrdered = false) ∧ h.ready fsm llc m = true := by
  induction queue generalizing older with
  | nil => simp [firstReady] at hfirst
  | cons x queue ih =>
    rw [firstReady] at hfirst
    split at hfirst
    · obtain ⟨pre, post, rfl, rfl, hord, hready⟩ := ih hfirst
      exact ⟨x :: pre, post, rfl, by simp, by simpa using hord, hready⟩
    · next hcond =>
      obtain ⟨rfl, rfl⟩ : x = m ∧ older ++ queue = rest := by simpa using hfirst
      simp only [Bool.or_eq_true, Bool.and_eq_true, List.any_eq_true, Bool.not_eq_true', not_or,
        not_and, not_exists, Bool.not_eq_false] at hcond
      exact ⟨[], queue, rfl, by simp, fun hm y hy => by simpa using hcond.1 hm y (by simpa using hy),
        hcond.2⟩

/-- Scanning a queue at rest with a new message at its end. -/
theorem firstReady_append {older queue : List HomeMsg}
    (hrest : h.firstReady fsm llc older queue = none) (m : HomeMsg) :
    h.firstReady fsm llc older (queue ++ [m]) =
      if (m.isOrdered && (older ++ queue).any HomeMsg.isOrdered) || !h.ready fsm llc m then none
      else some (m, older ++ queue) := by
  induction queue generalizing older with
  | nil => simp [firstReady]
  | cons x queue ih =>
    rw [firstReady] at hrest
    split at hrest
    · next hcond =>
      rw [List.cons_append, firstReady, if_pos hcond, ih hrest]
      simp
    · simp at hrest

/-- A ready message at the front of a queue is the first one. -/
theorem firstReady_cons {m : HomeMsg} {queue : List HomeMsg} (hready : h.ready fsm llc m = true) :
    h.firstReady fsm llc [] (m :: queue) = some (m, queue) := by
  simp [firstReady, hready]

/-- The queue of a cache at rest has no ready message at its front. -/
theorem ready_eq_false_of_firstReady {m : HomeMsg} {queue : List HomeMsg}
    (hrest : h.firstReady fsm llc [] (m :: queue) = none) : h.ready fsm llc m = false := by
  by_contra hready
  rw [firstReady_cons (by simpa using hready)] at hrest
  simp at hrest

end Home

namespace Skeleton

variable {T : Tables σ τ} {llc : Nat}

/-- No message of the queue can be processed now. -/
def AtRest (T : Tables σ τ) (llc : Nat) (s : Skeleton n σ τ) : Prop :=
  s.home.firstReady T.llc llc [] s.queue = none

/-- The last-level cache leaves its queue, the private caches and their stalled requests alone. -/
theorem homeStep_frame {s s' : Skeleton n σ τ} {m : HomeMsg} (h : homeStep T llc s m = .ok s') :
    s'.core = s.core ∧ s'.waiting = s.waiting ∧ s'.queue = s.queue := by
  rw [homeStep] at h
  split at h
  · simp at h
  · obtain rfl := Except.ok.inj h
    exact ⟨rfl, rfl, rfl⟩

/-- Draining a queue at rest changes nothing. -/
theorem drain_atRest {s : Skeleton n σ τ} (h : s.AtRest T llc) (fuel : Nat) :
    drain T llc fuel s = .ok s := by
  cases fuel with
  | zero => rfl
  | succ fuel =>
    rw [AtRest] at h
    rw [drain, h]

/-- One round of a drain. -/
theorem drain_succ {s : Skeleton n σ τ} {m : HomeMsg} {queue : List HomeMsg}
    (h : s.home.firstReady T.llc llc [] s.queue = some (m, queue)) (fuel : Nat) :
    drain T llc (fuel + 1) s =
      match homeStep T llc { s with queue := queue } m with
      | Except.error e => .error e
      | .ok s' => drain T llc fuel s' := by
  cases hstep : homeStep T llc { s with queue := queue } m <;> simp only [drain, h, hstep]

/--
If every ready message can be processed and keeps a property, a drain succeeds, keeps the
property and ends at rest.
-/
theorem drain_total {I : Skeleton n σ τ → Prop}
    (hstep : ∀ s m queue, I s → s.home.firstReady T.llc llc [] s.queue = some (m, queue) →
      ∃ s', homeStep T llc { s with queue := queue } m = .ok s' ∧ I s')
    {fuel : Nat} {s : Skeleton n σ τ} (hfuel : s.queue.length < fuel) (hs : I s) :
    ∃ s', drain T llc fuel s = .ok s' ∧ I s' ∧ s'.AtRest T llc := by
  induction fuel generalizing s with
  | zero => omega
  | succ fuel ih =>
    cases hfirst : s.home.firstReady T.llc llc [] s.queue with
    | none => exact ⟨s, drain_atRest hfirst _, hs, hfirst⟩
    | some found =>
      obtain ⟨m, queue⟩ := found
      obtain ⟨s₁, hs₁, hI₁⟩ := hstep s m queue hs hfirst
      obtain ⟨pre, post, hqueue, rfl, -, -⟩ := Home.firstReady_eq_some hfirst
      have hlen : s₁.queue.length < fuel := by
        rw [(homeStep_frame hs₁).2.2]
        simp only [hqueue, List.length_append, List.length_cons, List.nil_append] at hfuel ⊢
        omega
      obtain ⟨s', hdrain, hI', hrest⟩ := ih hlen hI₁
      refine ⟨s', ?_, hI', hrest⟩
      simpa only [drain_succ hfirst, hs₁] using hdrain

/-- A message for the end of a queue at rest: it is processed at once, or it waits. -/
theorem drainQueue_append {s : Skeleton n σ τ} (h : s.AtRest T llc) (m : HomeMsg) :
    s.drainQueue T llc (s.queue ++ [m]) =
      if (m.isOrdered && s.queue.any HomeMsg.isOrdered) || !s.home.ready T.llc llc m then
        .ok { s with queue := s.queue ++ [m] }
      else
        match homeStep T llc s m with
        | Except.error e => .error e
        | .ok s' => drain T llc (s.queue.length + 1) s' := by
  have hfirst := Home.firstReady_append h m
  rw [drainQueue]
  split
  · next hcond =>
    rw [List.nil_append, if_pos hcond] at hfirst
    exact drain_atRest (s := { s with queue := s.queue ++ [m] }) hfirst _
  · next hcond =>
    rw [List.nil_append, if_neg hcond] at hfirst
    rw [drain_succ hfirst]
    simp

end Skeleton

end Octopus.Snoop
