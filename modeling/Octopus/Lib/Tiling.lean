import Mathlib.Algebra.Order.BigOperators.Group.List
import Mathlib.Algebra.Order.Ring.Int
import Mathlib.Data.List.Pairwise
import Mathlib.Order.Lattice

/-!
# Spans over a line of points

A sorted list of points cuts a line into stretches. A span from one point to another is as long as the
stretches inside it together, so the lengths of several spans add up to the stretches, each taken as often
as spans cover it. They add up to the whole line just when every stretch that has a length is covered
once, provided that none is covered twice, or that none is left out.
-/

namespace Octopus.Lib

/-- The stretches between consecutive points. -/
def stretches (pts : List Int) : List (Int × Int) := pts.zip pts.tail

/-- How many spans cover a stretch. -/
def cover (spans : List (Int × Int)) (s : Int × Int) : Nat :=
  spans.countP fun p => decide (p.1 ≤ s.1 ∧ s.2 ≤ p.2)

variable {pts : List Int} {spans : List (Int × Int)} {s : Int × Int} {a b x : Int}

@[simp] theorem stretches_cons_cons (a b : Int) (pts : List Int) :
    stretches (a :: b :: pts) = (a, b) :: stretches (b :: pts) := rfl

/-- The points are sorted if no stretch runs backwards. -/
theorem pairwise_le_iff : pts.Pairwise (· ≤ ·) ↔ ∀ s ∈ stretches pts, s.1 ≤ s.2 := by
  rw [← List.isChain_iff_pairwise]
  induction pts with
  | nil => simp [stretches]
  | cons a pts ih =>
    cases pts with
    | nil => simp [stretches]
    | cons b pts => rw [List.isChain_cons_cons, ih, stretches_cons_cons, List.forall_mem_cons]

/-- The differences along the points add up to the difference of the last one and the first one. -/
theorem sum_stretches (f : Int → Int) (a : Int) (pts : List Int) :
    ((stretches (a :: pts)).map fun s => f s.2 - f s.1).sum = f ((a :: pts).getLast (List.cons_ne_nil a pts)) - f a := by
  induction pts generalizing a with
  | nil => simp [stretches]
  | cons b pts ih =>
    rw [stretches_cons_cons, List.map_cons, List.sum_cons, ih, List.getLast_cons_cons]
    dsimp only
    omega

/-- A point lies outside of every stretch. -/
theorem le_or_le_of_mem (h : pts.Pairwise (· ≤ ·)) (hx : x ∈ pts) (hs : s ∈ stretches pts) : s.2 ≤ x ∨ x ≤ s.1 := by
  induction pts with
  | nil => cases hx
  | cons a pts ih =>
    cases pts with
    | nil => simp [stretches] at hs
    | cons b pts =>
      rw [stretches_cons_cons, List.mem_cons] at hs
      rw [List.pairwise_cons] at h
      rcases List.mem_cons.1 hx with rfl | hmem
      · refine .inr ?_
        rcases hs with rfl | hs
        · exact Int.le_refl _
        · exact h.1 _ (List.of_mem_zip hs).1
      · rcases hs with rfl | hs
        · refine .inl ?_
          rcases List.mem_cons.1 hmem with rfl | hmem
          · exact Int.le_refl _
          · exact (List.pairwise_cons.1 h.2).1 x hmem
        · exact ih h.2 hmem hs

/-- A span is as long as the stretches that it covers. -/
theorem span_eq_sum (h : pts.Pairwise (· ≤ ·)) (ha : a ∈ pts) (hb : b ∈ pts) (hab : a ≤ b) :
    b - a = ((stretches pts).map fun s => if a ≤ s.1 ∧ s.2 ≤ b then s.2 - s.1 else 0).sum := by
  have hclamp : (stretches pts).map (fun s => if a ≤ s.1 ∧ s.2 ≤ b then s.2 - s.1 else 0) =
      (stretches pts).map fun s => max a (min b s.2) - max a (min b s.1) := by
    refine List.map_congr_left fun s hs => ?_
    have hle := pairwise_le_iff.1 h s hs
    rcases le_or_le_of_mem h ha hs with hsa | hsa <;> rcases le_or_le_of_mem h hb hs with hsb | hsb <;>
    · split_ifs <;> omega
  cases pts with
  | nil => cases ha
  | cons first pts =>
    have hfirst : ∀ x ∈ first :: pts, first ≤ x :=
      List.forall_mem_cons.2 ⟨Int.le_refl _, (List.pairwise_cons.1 h).1⟩
    have hstart := hfirst a ha
    have hend : b ≤ (first :: pts).getLast (List.cons_ne_nil first pts) := h.rel_getLast hb
    rw [hclamp, sum_stretches fun t => max a (min b t)]
    omega

/-- The spans are together as long as the stretches, each taken as often as it is covered. -/
theorem sum_spans (h : pts.Pairwise (· ≤ ·)) (hspans : ∀ p ∈ spans, p.1 ∈ pts ∧ p.2 ∈ pts ∧ p.1 ≤ p.2) :
    (spans.map fun p => p.2 - p.1).sum = ((stretches pts).map fun s => cover spans s * (s.2 - s.1)).sum := by
  induction spans with
  | nil => simp [cover]
  | cons p spans ih =>
    obtain ⟨hp, hrest⟩ := List.forall_mem_cons.1 hspans
    have hcover : ∀ s, (cover (p :: spans) s : Int) * (s.2 - s.1) =
        (if p.1 ≤ s.1 ∧ s.2 ≤ p.2 then s.2 - s.1 else 0) + cover spans s * (s.2 - s.1) := by
      intro s
      rw [cover, List.countP_cons]
      by_cases hs : p.1 ≤ s.1 ∧ s.2 ≤ p.2
      · rw [if_pos (decide_eq_true hs), if_pos hs, Int.natCast_add, Int.add_mul, Int.add_comm]
        exact congrArg (· + _) (Int.one_mul _)
      · rw [if_neg (by simpa using hs), if_neg hs, Int.zero_add]
        rfl
    rw [List.map_cons, List.sum_cons, ih hrest, span_eq_sum h hp.1 hp.2.1 hp.2.2, ← List.sum_map_add]
    exact congrArg List.sum (List.map_congr_left fun s _ => (hcover s).symm)

/-- Two sums agree just when their terms do, if none of the terms is greater. -/
theorem sum_eq_sum_iff_of_le {α : Type*} {l : List α} {f g : α → Int} (h : ∀ x ∈ l, f x ≤ g x) :
    (l.map f).sum = (l.map g).sum ↔ ∀ x ∈ l, f x = g x := by
  induction l with
  | nil => simp
  | cons x l ih =>
    rw [List.forall_mem_cons] at h
    have hle : (l.map f).sum ≤ (l.map g).sum := List.sum_le_sum h.2
    rw [List.map_cons, List.map_cons, List.sum_cons, List.sum_cons, List.forall_mem_cons, ← ih h.2]
    have hx := h.1
    omega

/-- Spans one behind the other cover no stretch twice. -/
theorem cover_le_one (h : spans.Pairwise fun p q => p.2 ≤ q.1) (hs : s.1 < s.2) : cover spans s ≤ 1 := by
  induction spans with
  | nil => exact Nat.zero_le 1
  | cons p spans ih =>
    obtain ⟨hp, hrest⟩ := List.pairwise_cons.1 h
    rw [cover, List.countP_cons]
    by_cases hcovers : p.1 ≤ s.1 ∧ s.2 ≤ p.2
    · have hnone : cover spans s = 0 := by
        refine List.countP_eq_zero.2 fun q hq hcover => ?_
        have hq := hp q hq
        have hcover := of_decide_eq_true hcover
        omega
      exact Nat.le_of_eq (by rw [if_pos (decide_eq_true hcovers)]; exact congrArg (· + 1) hnone)
    · rw [if_neg (by simpa using hcovers), Nat.add_zero]
      exact ih hrest

/-- The stretches that have a length are covered once each. -/
def Tiled (pts : List Int) (spans : List (Int × Int)) : Prop :=
  ∀ s ∈ stretches pts, s.1 < s.2 → cover spans s = 1

instance : Decidable (Tiled pts spans) :=
  inferInstanceAs (Decidable (∀ s ∈ stretches pts, _ → _))

/-- The spans are as long as the line just when they tile it, if they leave no stretch out, or if they
cover none twice. -/
theorem sum_spans_eq_iff {first : Int} (h : (first :: pts).Pairwise (· ≤ ·))
    (hspans : ∀ p ∈ spans, p.1 ∈ first :: pts ∧ p.2 ∈ first :: pts ∧ p.1 ≤ p.2)
    (hcover : (∀ s ∈ stretches (first :: pts), s.1 < s.2 → cover spans s ≤ 1) ∨
      ∀ s ∈ stretches (first :: pts), s.1 < s.2 → 1 ≤ cover spans s) :
    (spans.map fun p => p.2 - p.1).sum = (first :: pts).getLast (List.cons_ne_nil first pts) - first ↔
      Tiled (first :: pts) spans := by
  have hsorted := pairwise_le_iff.1 h
  have hterm : ∀ s ∈ stretches (first :: pts), cover spans s * (s.2 - s.1) = s.2 - s.1 ↔
      (s.1 < s.2 → cover spans s = 1) := by
    intro s hs
    have hle := hsorted s hs
    rcases Int.lt_or_eq_of_le hle with hlt | heq
    · have hpos : s.2 - s.1 ≠ 0 := by omega
      rw [mul_eq_right₀ hpos]
      omega
    · rw [heq, Int.sub_self, Int.mul_zero]
      omega
  have hiff : (∀ s ∈ stretches (first :: pts), (cover spans s : Int) * (s.2 - s.1) = s.2 - s.1) ↔
      Tiled (first :: pts) spans := forall₂_congr hterm
  rw [sum_spans h hspans, ← sum_stretches (fun t => t), ← hiff]
  rcases hcover with hle | hge
  · refine sum_eq_sum_iff_of_le fun s hs => ?_
    rcases Int.lt_or_eq_of_le (hsorted s hs) with hlt | heq
    · exact mul_le_of_le_one_left (by omega) (by exact_mod_cast hle s hs hlt)
    · rw [heq, Int.sub_self, Int.mul_zero]
  · rw [eq_comm, sum_eq_sum_iff_of_le]
    · exact forall₂_congr fun s _ => eq_comm
    intro s hs
    rcases Int.lt_or_eq_of_le (hsorted s hs) with hlt | heq
    · exact le_mul_of_one_le_left (by omega) (by exact_mod_cast hge s hs hlt)
    · rw [heq, Int.sub_self, Int.mul_zero]

end Octopus.Lib
