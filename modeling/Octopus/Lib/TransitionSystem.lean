import Mathlib.Data.Set.Basic

/-!
# Labelled transition systems, invariants and simulations

The general notions that every system of this development is an instance of: runs from an
initial state, invariants proved from one step, runs whose steps all meet a guard, and
simulations along an abstraction function. Nothing here mentions caches.
-/

namespace Octopus.Lib

/-- A labelled transition system with its initial states. -/
structure TransitionSystem (σ ℓ : Type*) where
  /-- The states a run may start from. -/
  init : σ → Prop
  /-- The successors of a state under a label. -/
  step : σ → ℓ → σ → Prop

namespace TransitionSystem

variable {σ τ ℓ κ : Type*}

/-- The states some finite run reaches. -/
inductive Reachable (M : TransitionSystem σ ℓ) : σ → Prop
  | init {s : σ} : M.init s → Reachable M s
  | step {s s' : σ} {l : ℓ} : Reachable M s → M.step s l s' → Reachable M s'

/-- A run with its history: the steps taken, the last one first, each with the state it was
taken in. -/
inductive Path (M : TransitionSystem σ ℓ) : List (σ × ℓ) → σ → Prop
  | init {s : σ} : M.init s → Path M [] s
  | step {h : List (σ × ℓ)} {s s' : σ} {l : ℓ} : Path M h s → M.step s l s' → Path M ((s, l) :: h) s'

/-- The state a run ends in is reachable. -/
theorem Path.reachable {M : TransitionSystem σ ℓ} {h : List (σ × ℓ)} {s : σ} (hp : M.Path h s) :
    M.Reachable s := by
  induction hp with
  | init hinit => exact .init hinit
  | step _ hstep ih => exact ih.step hstep

/-- Running a step function along a list of labels is a run of the system. -/
theorem exists_path_of_foldlM {ε : Type*} {M : TransitionSystem σ ℓ} {f : σ → ℓ → Except ε σ}
    (hf : ∀ s l s', f s l = .ok s' → M.step s l s') {h : List (σ × ℓ)} {s s' : σ} (hp : M.Path h s)
    {labels : List ℓ} (hrun : labels.foldlM f s = .ok s') : ∃ h', M.Path h' s' := by
  induction labels generalizing h s with
  | nil =>
    obtain rfl : s = s' := by simpa [pure, Except.pure] using hrun
    exact ⟨h, hp⟩
  | cons l labels ih =>
    rw [List.foldlM_cons] at hrun
    cases hl : f s l with
    | error e => simp [hl, bind, Except.bind] at hrun
    | ok next =>
      simp only [hl, bind, Except.bind] at hrun
      exact ih (hp.step (hf s l next hl)) hrun

/-- A run along a list of labels whose last state passes a test. -/
theorem exists_path_of_run {ε : Type*} {M : TransitionSystem σ ℓ} {f : σ → ℓ → Except ε σ}
    (hf : ∀ s l s', f s l = .ok s' → M.step s l s') {s : σ} (hp : M.Path [] s) (labels : List ℓ)
    (test : σ → Bool) (hrun : (labels.foldlM f s).toOption.any test) :
    ∃ h s', M.Path h s' ∧ test s' := by
  cases hlabels : labels.foldlM f s with
  | error e => simp [hlabels, Except.toOption] at hrun
  | ok s' =>
    obtain ⟨h, hpath⟩ := exists_path_of_foldlM hf hp hlabels
    exact ⟨h, s', hpath, by simpa [hlabels, Except.toOption] using hrun⟩

/-- Running a partial step function along a list of labels reaches the state it ends in. -/
theorem Reachable.foldlM {M : TransitionSystem σ ℓ} {f : σ → ℓ → Option σ}
    (hf : ∀ s l s', f s l = some s' → M.step s l s') {labels : List ℓ} {s s' : σ} (h : M.Reachable s)
    (hrun : labels.foldlM f s = some s') : M.Reachable s' := by
  induction labels generalizing s with
  | nil =>
    obtain rfl : s = s' := by simpa using hrun
    exact h
  | cons l labels ih =>
    rw [List.foldlM_cons] at hrun
    obtain ⟨next, hnext, hrest⟩ := Option.bind_eq_some_iff.1 hrun
    exact ih (h.step (hf s l next hnext)) hrest

/-- A step of a partial step function with the history. -/
def recorded (f : σ → ℓ → Option σ) (x : List (σ × ℓ) × σ) (l : ℓ) : Option (List (σ × ℓ) × σ) :=
  (f x.2 l).map fun s => ((x.2, l) :: x.1, s)

/-- Running recorded steps along a list of labels is a run with its history. -/
theorem Path.foldlM {M : TransitionSystem σ ℓ} {f : σ → ℓ → Option σ} (hf : ∀ s l s', f s l = some s' → M.step s l s')
    {labels : List ℓ} {h h' : List (σ × ℓ)} {s s' : σ} (hp : M.Path h s)
    (hrun : labels.foldlM (recorded f) (h, s) = some (h', s')) : M.Path h' s' := by
  induction labels generalizing h s with
  | nil =>
    obtain ⟨rfl, rfl⟩ := Prod.mk.inj (Option.some.inj hrun)
    exact hp
  | cons l labels ih =>
    rw [List.foldlM_cons] at hrun
    obtain ⟨next, hnext, hrest⟩ := Option.bind_eq_some_iff.1 hrun
    obtain ⟨t, ht, rfl⟩ := Option.map_eq_some_iff.1 hnext
    exact ih (hp.step (hf s l t ht)) hrest

/-- The same system, taking only the steps that meet a guard on the source state and label. -/
def restrict (M : TransitionSystem σ ℓ) (guard : σ → ℓ → Prop) : TransitionSystem σ ℓ where
  init := M.init
  step s l s' := guard s l ∧ M.step s l s'

/-- Restricting a system reaches no new state. -/
theorem Reachable.of_restrict {M : TransitionSystem σ ℓ} {guard : σ → ℓ → Prop} {s : σ}
    (h : (M.restrict guard).Reachable s) : M.Reachable s := by
  induction h with
  | init hinit => exact .init hinit
  | step _ hstep ih => exact ih.step hstep.2

/-- Runs under a guard are runs under every guard that follows from it. -/
theorem Reachable.restrict_mono {M : TransitionSystem σ ℓ} {guard guard' : σ → ℓ → Prop} {s : σ}
    (h : (M.restrict guard).Reachable s) (hguard : ∀ s l, guard s l → guard' s l) :
    (M.restrict guard').Reachable s := by
  induction h with
  | init hinit => exact .init hinit
  | step _ hstep ih => exact ih.step ⟨hguard _ _ hstep.1, hstep.2⟩

/-- A guard that every step meets restricts nothing. -/
theorem Reachable.restrict_of_forall {M : TransitionSystem σ ℓ} {guard : σ → ℓ → Prop} {s : σ}
    (h : M.Reachable s) (hguard : ∀ s l, guard s l) : (M.restrict guard).Reachable s := by
  induction h with
  | init hinit => exact .init hinit
  | step _ hstep ih => exact ih.step ⟨hguard _ _, hstep⟩

/-- A partial step function that takes only the steps which meet a guard. -/
def guarded (guard : σ → ℓ → Prop) [∀ s l, Decidable (guard s l)] (f : σ → ℓ → Option σ) (s : σ) (l : ℓ) :
    Option σ :=
  if guard s l then f s l else none

/-- Running guarded steps along a list of labels is a run of the restricted system. -/
theorem Reachable.foldlM_guarded {M : TransitionSystem σ ℓ} {guard : σ → ℓ → Prop}
    [∀ s l, Decidable (guard s l)] {f : σ → ℓ → Option σ} (hf : ∀ s l s', f s l = some s' → M.step s l s')
    {labels : List ℓ} {s s' : σ} (h : M.init s) (hrun : labels.foldlM (guarded guard f) s = some s') :
    (M.restrict guard).Reachable s' := by
  have hinit : (M.restrict guard).Reachable s := .init h
  apply Reachable.foldlM ?_ hinit hrun
  intro s l s' hstep
  rw [guarded] at hstep
  split_ifs at hstep with hguard
  exact ⟨hguard, hf s l s' hstep⟩

/-- A property that holds initially and is kept by every step from a reachable state. -/
structure Inductive (M : TransitionSystem σ ℓ) (I : σ → Prop) : Prop where
  /-- Every initial state satisfies the property. -/
  init : ∀ s, M.init s → I s
  /-- One step from a reachable state that satisfies the property keeps it. -/
  step : ∀ s l s', M.Reachable s → I s → M.step s l s' → I s'

/-- The invariant rule: an inductive property holds in every reachable state. -/
theorem Inductive.reachable {M : TransitionSystem σ ℓ} {I : σ → Prop} (hI : M.Inductive I)
    {s : σ} (h : M.Reachable s) : I s := by
  induction h with
  | init hinit => exact hI.init _ hinit
  | step hr hstep ih => exact hI.step _ _ _ hr ih hstep

/-- An abstraction function along which the concrete system `C` takes only steps of `A`. -/
structure Simulation (C : TransitionSystem σ ℓ) (A : TransitionSystem τ κ) where
  /-- What the abstract system keeps of a concrete state. -/
  abs : σ → τ
  /-- The abstract label of a concrete one. -/
  lab : ℓ → κ
  /-- Initial states map to initial states. -/
  init : ∀ s, C.init s → A.init (abs s)
  /-- Every step from a reachable state maps to a step. -/
  step : ∀ s l s', C.Reachable s → C.step s l s' → A.step (abs s) (lab l) (abs s')

/-- Reachable states of the concrete system map to reachable states of the abstract one. -/
theorem Simulation.reachable {C : TransitionSystem σ ℓ} {A : TransitionSystem τ κ}
    (S : Simulation C A) {s : σ} (h : C.Reachable s) : A.Reachable (S.abs s) := by
  induction h with
  | init hinit => exact .init (S.init _ hinit)
  | step hr hstep ih => exact ih.step (S.step _ _ _ hr hstep)

/-- A simulation restricts to guarded runs when the abstract guard follows from the concrete one. -/
def Simulation.restrict {C : TransitionSystem σ ℓ} {A : TransitionSystem τ κ}
    (S : Simulation C A) (g : σ → ℓ → Prop) (g' : τ → κ → Prop)
    (h : ∀ s l, g s l → g' (S.abs s) (S.lab l)) :
    Simulation (C.restrict g) (A.restrict g') where
  abs := S.abs
  lab := S.lab
  init := S.init
  step s l s' hr hstep := ⟨h s l hstep.1, S.step s l s' hr.of_restrict hstep.2⟩

end TransitionSystem

end Octopus.Lib
