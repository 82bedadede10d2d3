import Octopus.Lib.TransitionSystem
import Mathlib.Algebra.Order.Group.Nat

/-!
# Systems that settle

Some labels of a system are internal: its environment has no part in them. If every internal step lowers a
measure, internal runs are no longer than the measure says; if in addition some internal step is possible
until the system is at rest, it comes to rest.
-/

namespace Octopus.Lib.TransitionSystem

variable {σ ℓ : Type*} {M : TransitionSystem σ ℓ} {internal : ℓ → Prop} {s s' : σ} {labels : List ℓ}

/-- A run of internal steps. -/
inductive InternalRun (M : TransitionSystem σ ℓ) (internal : ℓ → Prop) : List ℓ → σ → σ → Prop
  | nil {s : σ} : InternalRun M internal [] s s
  | cons {l : ℓ} {labels : List ℓ} {s s' s'' : σ} : internal l → M.step s l s' →
      InternalRun M internal labels s' s'' → InternalRun M internal (l :: labels) s s''

/-- Internal steps stay among the reachable states. -/
theorem InternalRun.reachable (h : InternalRun M internal labels s s') (hr : M.Reachable s) : M.Reachable s' := by
  induction h with
  | nil => exact hr
  | cons _ hstep _ ih => exact ih (hr.step hstep)

/-- Internal steps lengthen the history of a run by internal steps. -/
theorem InternalRun.path (h : InternalRun M internal labels s s') {past : List (σ × ℓ)} (hp : M.Path past s) :
    ∃ new, M.Path (new ++ past) s' ∧ ∀ p ∈ new, internal p.2 := by
  induction h generalizing past with
  | nil => exact ⟨[], hp, fun p hp => absurd hp List.not_mem_nil⟩
  | @cons l labels s s' s'' hl hstep _ ih =>
    cases ih (hp.step hstep) with
    | intro new hnew =>
      refine ⟨new ++ [(s, l)], by simpa using hnew.1, fun p hp => ?_⟩
      cases List.mem_append.1 hp with
      | inl hp => exact hnew.2 p hp
      | inr hp =>
        rw [List.mem_singleton.1 hp]
        exact hl

/-- An internal run of a restricted system is one of the system. -/
theorem InternalRun.of_restrict {guard : σ → ℓ → Prop} (h : InternalRun (M.restrict guard) internal labels s s') :
    InternalRun M internal labels s s' := by
  induction h with
  | nil => exact .nil
  | cons hl hstep _ ih => exact .cons hl hstep.2 ih

/-- An internal run is one of a restricted system whose guard every step meets. -/
theorem InternalRun.restrict_of_forall {guard : σ → ℓ → Prop} (h : InternalRun M internal labels s s')
    (hguard : ∀ s l, guard s l) : InternalRun (M.restrict guard) internal labels s s' := by
  induction h with
  | nil => exact .nil
  | cons hl hstep _ ih => exact .cons hl ⟨hguard _ _, hstep⟩ ih

/-- A run of a restricted system, with its history, is one of the system. -/
theorem Path.of_restrict {guard : σ → ℓ → Prop} {past : List (σ × ℓ)} (hp : (M.restrict guard).Path past s) :
    M.Path past s := by
  induction hp with
  | init hinit => exact .init hinit
  | step _ hstep ih => exact ih.step hstep.2

/-- A run is one of a restricted system whose guard every step meets. -/
theorem Path.restrict_of_forall {guard : σ → ℓ → Prop} {past : List (σ × ℓ)} (hp : M.Path past s)
    (hguard : ∀ s l, guard s l) : (M.restrict guard).Path past s := by
  induction hp with
  | init hinit => exact .init hinit
  | step _ hstep ih => exact ih.step ⟨hguard _ _, hstep⟩

/-- An internal run is no longer than the measure is lowered. -/
theorem InternalRun.length_add_le {μ : σ → Nat} (h : InternalRun M internal labels s s') (hr : M.Reachable s)
    (hlower : ∀ s l s', M.Reachable s → internal l → M.step s l s' → μ s' < μ s) :
    labels.length + μ s' ≤ μ s := by
  induction h with
  | nil => exact Nat.le_of_eq (Nat.zero_add _)
  | cons hl hstep _ ih =>
    have hrest := ih (hr.step hstep)
    have hfirst := hlower _ _ _ hr hl hstep
    rw [List.length_cons]
    omega

/-- If what is not internal raises the measure by a fixed amount at most, it pays for the internal steps of a run. -/
theorem Path.countP_internal_le {μ : σ → Nat} {cost : Nat} [DecidablePred internal] {h : List (σ × ℓ)}
    (hp : M.Path h s) (hinit : ∀ s, M.init s → μ s = 0)
    (hlower : ∀ s l s', M.Reachable s → internal l → M.step s l s' → μ s' < μ s)
    (hraise : ∀ s l s', M.Reachable s → ¬ internal l → M.step s l s' → μ s' ≤ μ s + cost) :
    h.countP (fun p => decide (internal p.2)) + μ s ≤ cost * h.countP (fun p => decide (¬ internal p.2)) := by
  induction hp with
  | init hs => simp [hinit _ hs]
  | @step h s s' l hp hstep ih =>
    by_cases hl : internal l
    · have hless := hlower s l s' hp.reachable hl hstep
      simp only [List.countP_cons, hl, decide_true, not_true, decide_false, if_true]
      simp only [Bool.false_eq_true, if_false, Nat.add_zero]
      omega
    · have hmore := hraise s l s' hp.reachable hl hstep
      simp only [List.countP_cons, hl, decide_false, not_false_iff, decide_true, if_true, Nat.mul_add, Nat.mul_one]
      simp only [Bool.false_eq_true, if_false, Nat.add_zero]
      omega

/-- A system that can go on until it is at rest comes to rest. -/
theorem exists_internalRun {μ : σ → Nat} (rest : σ → Prop) (hr : M.Reachable s)
    (hlower : ∀ s l s', M.Reachable s → internal l → M.step s l s' → μ s' < μ s)
    (hgo : ∀ s, M.Reachable s → ¬ rest s → ∃ l s', internal l ∧ M.step s l s') :
    ∃ labels s', InternalRun M internal labels s s' ∧ rest s' := by
  induction hμ : μ s using Nat.strongRecOn generalizing s with
  | ind n ih =>
    by_cases hrest : rest s
    · exact ⟨[], s, .nil, hrest⟩
    · cases hgo s hr hrest with
      | intro l h =>
        cases h with
        | intro next hnext =>
          have hless := hlower s l next hr hnext.1 hnext.2
          have hend := ih (μ next) (hμ ▸ hless) (hr.step hnext.2) rfl
          cases hend with
          | intro labels hend =>
            cases hend with
            | intro last hlast => exact ⟨l :: labels, last, .cons hnext.1 hnext.2 hlast.1, hlast.2⟩

end Octopus.Lib.TransitionSystem
