import Mathlib.Algebra.Order.Group.Nat
import Mathlib.Algebra.Order.Ring.Int
import Mathlib.Data.List.Basic

/-!
# Events that keep their distance

A rule of distance says that of any so many events the last lies at least a gap behind the first. Whether a time
keeps it can be read off the whole history of the events, or off the greatest of the bounds that each event has
set when it happened; for the latter, a window over the newest events is enough.
-/

namespace Octopus.Lib

variable {τ : Type*}

/-- A time keeps its distance from the events of a history, the newest first, if all of them but the newest
`nth - 1` lie a gap before it. -/
def Spaced [LE τ] [Add τ] (nth : Nat) (gap : τ) (past : List τ) (time : τ) : Prop :=
  ∀ p ∈ past.drop (nth - 1), p + gap ≤ time

/-- Nothing is too close to an empty history. -/
@[simp] theorem spaced_nil [LE τ] [Add τ] (nth : Nat) (gap time : τ) : Spaced nth gap [] time := by simp [Spaced]

/-- A new event sets one bound: it puts the `nth` last event a gap before the time. -/
theorem spaced_cons [LE τ] [Add τ] (nth : Nat) (gap now : τ) (past : List τ) (time : τ) :
    Spaced nth gap (now :: past) time ↔
      (∀ p, (now :: past)[nth - 1]? = some p → p + gap ≤ time) ∧ Spaced nth gap past time := by
  rw [Spaced, Spaced]
  cases nth - 1 with
  | zero => simp
  | succ k =>
    rw [List.drop_succ_cons, List.getElem?_cons_succ, List.drop_eq_getElem?_toList_append]
    simp [or_imp, forall_and]

/-- The newest events of a history, as many as a window has places; the places left over are blank. -/
def window (size : Nat) (blank : τ) (past : List τ) : List τ := (past ++ List.replicate size blank).take size

/-- A window has all its places. -/
@[simp] theorem length_window (size : Nat) (blank : τ) (past : List τ) : (window size blank past).length = size := by
  simp [window]

/-- A window over nothing is blank. -/
@[simp] theorem window_nil (size : Nat) (blank : τ) : window size blank [] = List.replicate size blank := by
  simp [window]

/-- A new event pushes the oldest one out of a window. -/
theorem window_cons {size : Nat} (hsize : 0 < size) (blank now : τ) (past : List τ) :
    window size blank (now :: past) = now :: (window size blank past).dropLast := by
  cases size with
  | zero => exact absurd hsize (Nat.lt_irrefl 0)
  | succ size =>
    rw [List.dropLast_eq_take, length_window, window, window, List.cons_append, List.take_succ_cons, List.take_take,
      Nat.add_sub_cancel, Nat.min_eq_left (Nat.le_succ size)]

/-- The places of a window. -/
theorem window_getElem? {size k : Nat} (hk : k < size) (blank : τ) (past : List τ) :
    (window size blank past)[k]? = some (past[k]?.getD blank) := by
  rw [window, List.getElem?_take_of_lt hk, List.getElem?_append]
  split_ifs with hpast
  · simp [hpast]
  · rw [List.getElem?_eq_none (Nat.le_of_not_lt hpast), Option.getD_none, List.getElem?_replicate, if_pos]
    omega

end Octopus.Lib
