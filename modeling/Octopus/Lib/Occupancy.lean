import Mathlib.Data.Finset.Union
import Mathlib.Order.Interval.Finset.Nat

/-!
# Busy cycles

Users come and go; one that came at `a` and went at `r` was there in the cycles from `a` up to, not with,
`r`. The busy cycles up to now are those in which a user was there, present ones being there up to now.
They grow with the clock while a user is present, and neither an arrival nor a departure changes them.
-/

namespace Octopus.Lib

/-- The busy cycles, given the stays of the users that went and the arrivals of those that are there. -/
def busy (past : List (Nat × Nat)) (live : List Nat) (now : Nat) : Finset Nat :=
  (past.toFinset.biUnion fun stay => Finset.Ico stay.1 stay.2) ∪ live.toFinset.biUnion fun a => Finset.Ico a now

variable {past : List (Nat × Nat)} {live older younger : List Nat} {a now now' t : Nat}

/-- A cycle is busy if some user was there. -/
theorem mem_busy :
    t ∈ busy past live now ↔ (∃ stay ∈ past, stay.1 ≤ t ∧ t < stay.2) ∨ ∃ a ∈ live, a ≤ t ∧ t < now := by
  simp [busy, Finset.mem_union, Finset.mem_biUnion, Finset.mem_Ico]

/-- With nobody there the busy cycles do not depend on the clock. -/
theorem busy_nil (past : List (Nat × Nat)) (now : Nat) :
    busy past [] now = past.toFinset.biUnion fun stay => Finset.Ico stay.1 stay.2 := by
  simp [busy]

/-- A user that arrives now makes no cycle busy yet. -/
theorem busy_arrive (past : List (Nat × Nat)) (live : List Nat) (now : Nat) :
    busy past (live ++ [now]) now = busy past live now := by
  ext t
  rw [mem_busy, mem_busy]
  refine or_congr_right ⟨?_, fun ⟨a, ha, ht⟩ => ⟨a, List.mem_append_left _ ha, ht⟩⟩
  rintro ⟨a, ha, hle, hlt⟩
  rcases List.mem_append.1 ha with hold | hnew
  · exact ⟨a, hold, hle, hlt⟩
  · cases List.mem_singleton.1 hnew
    exact absurd hlt (Nat.not_lt.2 hle)

/-- A user that leaves now was there up to now. -/
theorem busy_leave (past : List (Nat × Nat)) (older younger : List Nat) (a now : Nat) :
    busy (past ++ [(a, now)]) (older ++ younger) now = busy past (older ++ a :: younger) now := by
  ext t
  rw [mem_busy, mem_busy]
  simp only [List.mem_append, List.mem_cons, List.not_mem_nil, or_false, or_and_right, exists_or, exists_eq_left]
  exact or_assoc.trans (or_congr_right or_left_comm)

/-- While a user is there, every cycle of the clock is busy. -/
theorem card_busy_advance (hlive : live ≠ []) (harrived : ∀ a ∈ live, a ≤ now) (hleft : ∀ stay ∈ past, stay.2 ≤ now)
    (hnow : now ≤ now') : (busy past live now').card = (busy past live now).card + (now' - now) := by
  have hsplit : busy past live now' = busy past live now ∪ Finset.Ico now now' := by
    ext t
    rw [Finset.mem_union, mem_busy, mem_busy, Finset.mem_Ico]
    constructor
    · rintro (hpast | ⟨a, ha, hle, hlt⟩)
      · exact .inl (.inl hpast)
      · rcases Nat.lt_or_ge t now with hbefore | hafter
        · exact .inl (.inr ⟨a, ha, hle, hbefore⟩)
        · exact .inr ⟨hafter, hlt⟩
    · rintro ((hpast | ⟨a, ha, hle, hlt⟩) | ⟨hle, hlt⟩)
      · exact .inl hpast
      · exact .inr ⟨a, ha, hle, Nat.lt_of_lt_of_le hlt hnow⟩
      · obtain ⟨a, ha⟩ := List.exists_mem_of_ne_nil live hlive
        exact .inr ⟨a, ha, Nat.le_trans (harrived a ha) hle, hlt⟩
  have hdisjoint : Disjoint (busy past live now) (Finset.Ico now now') := by
    rw [Finset.disjoint_left]
    intro t ht hico
    have hge := (Finset.mem_Ico.1 hico).1
    rcases mem_busy.1 ht with ⟨stay, hstay, -, hlt⟩ | ⟨a, -, -, hlt⟩
    · exact absurd (Nat.lt_of_lt_of_le hlt (hleft stay hstay)) (Nat.not_lt.2 hge)
    · exact absurd hlt (Nat.not_lt.2 hge)
  rw [hsplit, Finset.card_union_of_disjoint hdisjoint, Nat.card_Ico]

end Octopus.Lib
