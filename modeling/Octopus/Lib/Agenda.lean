import Mathlib.Data.List.Perm.Basic
import Mathlib.Order.Lattice

/-!
# Agendas

A map from ordered keys, kept as the list of its entries in the order of their keys, and what becomes
of it when its first entry is served and comes back under a later key: the keys are served in order.
Nothing here mentions clocks.
-/

namespace Octopus.Lib

variable {κ α : Type*} [LinearOrder κ]

/-- Add an entry at the place of its key. An entry that has the key already stays. -/
def insertEntry (k : κ) (a : α) : List (κ × α) → List (κ × α)
  | [] => [(k, a)]
  | e :: entries =>
    if k < e.1 then (k, a) :: e :: entries else if k = e.1 then e :: entries else e :: insertEntry k a entries

variable {k k' : κ} {a : α} {e : κ × α} {entries : List (κ × α)} {served : List κ}

/-- A new key adds its entry. -/
theorem perm_insertEntry (h : ∀ e ∈ entries, e.1 ≠ k) : (insertEntry k a entries).Perm ((k, a) :: entries) := by
  induction entries with
  | nil => rfl
  | cons e entries ih =>
    rw [List.forall_mem_cons] at h
    rw [insertEntry]
    split_ifs with hlt heq
    · rfl
    · exact absurd heq.symm h.1
    · exact ((ih h.2).cons e).trans (.swap (k, a) e entries)

/-- The entries after an insertion are old ones and the new one. -/
theorem mem_of_mem_insertEntry (h : e ∈ insertEntry k a entries) : e = (k, a) ∨ e ∈ entries := by
  induction entries with
  | nil => simpa [insertEntry] using h
  | cons e' entries ih =>
    rw [insertEntry] at h
    split_ifs at h with hlt heq
    · simpa using h
    · exact .inr h
    · rcases List.mem_cons.1 h with rfl | hmem
      · exact .inr List.mem_cons_self
      · exact (ih hmem).imp_right (List.mem_cons_of_mem e')

/-- Insertion keeps the order of the keys. -/
theorem pairwise_insertEntry (h : entries.Pairwise fun e e' => e.1 < e'.1) :
    (insertEntry k a entries).Pairwise fun e e' => e.1 < e'.1 := by
  induction entries with
  | nil => simp [insertEntry]
  | cons e entries ih =>
    obtain ⟨hhead, htail⟩ := List.pairwise_cons.1 h
    rw [insertEntry]
    split_ifs with hlt heq
    · refine List.pairwise_cons.2 ⟨fun e' he' => ?_, h⟩
      rcases List.mem_cons.1 he' with rfl | he'
      · exact hlt
      · exact hlt.trans (hhead e' he')
    · exact h
    · have hle : e.1 < k := lt_of_le_of_ne (not_lt.1 hlt) (Ne.symm heq)
      refine List.pairwise_cons.2 ⟨fun e' he' => ?_, ih htail⟩
      rcases mem_of_mem_insertEntry he' with rfl | he'
      · exact hle
      · exact hhead e' he'

/-- The served keys and the pending entries stand in order, all that is pending behind all that is served. -/
structure InOrder (served : List κ) (pending : List (κ × α)) : Prop where
  served_lt : served.Pairwise (· < ·)
  pending_lt : pending.Pairwise fun e e' => e.1 < e'.1
  later : ∀ k ∈ served, ∀ e ∈ pending, k < e.1

/-- The first entry is served and comes back under a later key. -/
theorem InOrder.serve (h : InOrder served ((k, a) :: entries)) (hk : k < k') :
    InOrder (served ++ [k]) (insertEntry k' a entries) := by
  obtain ⟨hhead, htail⟩ := List.pairwise_cons.1 h.pending_lt
  refine ⟨?_, pairwise_insertEntry htail, fun j hj e he => ?_⟩
  · rw [List.pairwise_append]
    refine ⟨h.served_lt, List.pairwise_singleton _ k, fun j hj i hi => ?_⟩
    rw [List.mem_singleton.1 hi]
    exact h.later j hj (k, a) List.mem_cons_self
  · have hle : j ≤ k := by
      rcases List.mem_append.1 hj with hj | hj
      · exact (h.later j hj (k, a) List.mem_cons_self).le
      · exact (List.mem_singleton.1 hj).le
    rcases mem_of_mem_insertEntry he with rfl | he
    · exact hle.trans_lt hk
    · exact hle.trans_lt (hhead e he)

end Octopus.Lib
