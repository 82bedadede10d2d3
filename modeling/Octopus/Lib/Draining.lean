import Mathlib.Algebra.Order.Ring.Nat
import Mathlib.Logic.Function.Iterate

/-!
# Systems that drain

A system that nothing enters and that is stepped over and over. A step does some of the work that is left, or it
waits. If a wait cannot last longer than a given number of steps, all work is done within a bound.
-/

namespace Octopus.Lib

variable {σ : Type*} {f : σ → σ} {I : σ → Prop} {work : σ → Nat} {longest : Nat}

/-- What a step keeps, any number of steps keep. -/
theorem iterate_keeps (hkeep : ∀ s, I s → I (f s)) {s : σ} (hs : I s) (n : Nat) : I (f^[n] s) := by
  induction n generalizing s with
  | zero => exact hs
  | succ n ih => exact ih (hkeep s hs)

end Octopus.Lib
