import Mathlib.Data.Fin.Tuple.Basic
import Mathlib.Data.List.FinRange

/-!
# Fallible computations, mapped and at every index

A mapped computation is taken apart by `map_eq_ok`. `sequence f` runs `f 0, …, f (n - 1)` in order and stops at the first failure. It models a
broadcast that several independent components consume.
-/

namespace Octopus.Lib

variable {ε α β : Type*}

/-- A mapped computation succeeds with the image of what it computes. -/
theorem map_eq_ok {f : α → β} {x : Except ε α} {y : β} : x.map f = .ok y ↔ ∃ a, x = .ok a ∧ f a = y := by
  cases x <;> simp [Except.map]

/-- Run the computations in index order, stopping at the first failure. -/
def sequence : {n : Nat} → (Fin n → Except ε α) → Except ε (Fin n → α)
  | 0, _ => .ok Fin.elim0
  | _ + 1, f =>
    match f 0 with
    | .error e => .error e
    | .ok a =>
      match sequence (fun i => f i.succ) with
      | .error e => .error e
      | .ok g => .ok (Fin.cons a g)

/-- A broadcast succeeds exactly when every component does, with the components' results. -/
theorem sequence_eq_ok {n : Nat} {f : Fin n → Except ε α} {g : Fin n → α} :
    sequence f = .ok g ↔ ∀ i, f i = .ok (g i) := by
  induction n with
  | zero => exact ⟨fun _ i => i.elim0, fun _ => congrArg Except.ok (funext fun i => i.elim0)⟩
  | succ n ih =>
    rw [Fin.forall_fin_succ, sequence]
    cases h0 : f 0 with
    | error e => simp
    | ok a =>
      cases hs : sequence (fun i => f i.succ) with
      | error e =>
        have hne : ¬ ∀ i : Fin n, f i.succ = .ok (g i.succ) := by
          intro hall
          have hok := (ih (f := fun i => f i.succ) (g := fun i => g i.succ)).2 hall
          simp [hok] at hs
        simp [hne]
      | ok t =>
        have hall := (ih (f := fun i => f i.succ) (g := t)).1 hs
        constructor
        · intro h
          obtain rfl : Fin.cons a t = g := by simpa using h
          exact ⟨rfl, fun i => by simpa using hall i⟩
        · rintro ⟨ha, hg⟩
          have ht : t = fun i => g i.succ := by
            funext i
            have := (hall i).symm.trans (hg i)
            simpa using this
          have ha' : a = g 0 := by simpa using ha
          subst ht ha'
          exact congrArg Except.ok (Fin.cons_self_tail g)

/-- A broadcast fails as another does if its components do no better and fail in the same way. -/
theorem sequence_eq_error_of {n : Nat} {f : Fin n → Except ε α} {g : Fin n → Except ε β} {e : ε}
    (hok : ∀ i a, f i = .ok a → ∃ b, g i = .ok b) (herror : ∀ i, f i = .error e → g i = .error e)
    (h : sequence f = .error e) : sequence g = .error e := by
  induction n with
  | zero => simp [sequence] at h
  | succ n ih =>
    rw [sequence] at h ⊢
    cases h0 : f 0 with
    | error e' =>
      obtain rfl : e' = e := by simpa [h0] using h
      rw [herror 0 h0]
    | ok a =>
      obtain ⟨b, hb⟩ := hok 0 a h0
      rw [hb]
      cases hs : sequence (fun i => f i.succ) with
      | error e' =>
        obtain rfl : e' = e := by simpa [h0, hs] using h
        simp only [ih (fun i => hok i.succ) (fun i => herror i.succ) hs]
      | ok t => simp [h0, hs] at h

/-- Concatenating lists over all indices leaves the one list that can be nonempty. -/
theorem flatMap_finRange_eq {n : Nat} {f : Fin n → List α} (i : Fin n)
    (h : ∀ j, j ≠ i → f j = []) : (List.finRange n).flatMap f = f i := by
  have hmem : ∀ (l : List (Fin n)), l.Nodup → l.flatMap f = if i ∈ l then f i else [] := by
    intro l
    induction l with
    | nil => simp
    | cons j l ih =>
      intro hnd
      obtain ⟨hj, hl⟩ := List.nodup_cons.1 hnd
      rw [List.flatMap_cons, ih hl]
      by_cases hji : j = i
      · subst hji
        simp [hj]
      · simp [h j hji, Ne.symm hji]
  simpa using hmem _ (List.nodup_finRange n)

/-- Concatenating empty lists over all indices gives the empty list. -/
theorem flatMap_finRange_eq_nil {n : Nat} {f : Fin n → List α} (h : ∀ j, f j = []) :
    (List.finRange n).flatMap f = [] := by
  simp [List.flatMap_eq_nil_iff, h]

end Octopus.Lib
