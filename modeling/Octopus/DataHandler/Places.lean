import Octopus.Lib.TransitionSystem
import Octopus.DataHandler.Handler

/-!
# A block has one place

Every call of a controller keeps a block in at most one of the array, the holding registers and
the write-back buffer. So `findline` finds the one place of a block, and a call changes only the
block it is about and the victim it evicts.
-/

namespace Octopus

namespace DataHandler

variable {σ ρ : Type} {cfg : HandlerConfig σ ρ} {s : DataHandler σ ρ} {a b : BitVec 64} {w : Nat}

/-- The place of a block, among those where it could be. -/
def HeldAt (cfg : HandlerConfig σ ρ) (s : DataHandler σ ρ) (a : BitVec 64) : FoundAt → Prop
  | .way w => w < cfg.geometry.m_ways_count ∧ s.wayHolds cfg a w = true
  | .mshr => (s.m_miss_status_holding_regs (cfg.geometry.mask_offset a)).isSome
  | .pwb => (s.m_pending_write_back_regs (cfg.geometry.mask_offset a)).isSome

/-- The lines of the array are found under their addresses, and no block has two places. -/
structure Inv (cfg : HandlerConfig σ ρ) (s : DataHandler σ ρ) : Prop where
  unique : ∀ set w w', w < cfg.geometry.m_ways_count → w' < cfg.geometry.m_ways_count →
    (s.m_cache set w).bits.valid = true → (s.m_cache set w').bits.valid = true →
    (s.m_cache set w).tag = (s.m_cache set w').tag → w = w'
  addressed : ∀ set w, w < cfg.geometry.m_ways_count → (s.m_cache set w).bits.valid = true →
    ∃ a, set = cfg.geometry.calculate_set a ∧ (s.m_cache set w).tag = cfg.geometry.calculate_tag a
  mshr : ∀ b e, s.m_miss_status_holding_regs b = some e → cfg.geometry.mask_offset b = b ∧
    e.bits.valid = true ∧ ∀ w, ¬ s.HeldAt cfg b (.way w)
  pwb : ∀ b e, s.m_pending_write_back_regs b = some e → cfg.geometry.mask_offset b = b ∧
    e.bits.valid = true ∧ (∀ w, ¬ s.HeldAt cfg b (.way w)) ∧ s.m_miss_status_holding_regs b = none

/-- What a way holds depends on the block only. -/
theorem wayHolds_mask : s.wayHolds cfg (cfg.geometry.mask_offset a) w = s.wayHolds cfg a w := by
  simp [wayHolds]

/-- A way holds a block under its set and its tag. -/
theorem wayHolds_iff : s.wayHolds cfg a w = true ↔
    (s.m_cache (cfg.geometry.calculate_set a) w).bits.valid = true ∧
      (s.m_cache (cfg.geometry.calculate_set a) w).tag = cfg.geometry.calculate_tag a := by
  simp [wayHolds]

/-- Where a block is depends on the block only. -/
theorem heldAt_mask {p : FoundAt} : s.HeldAt cfg (cfg.geometry.mask_offset a) p ↔ s.HeldAt cfg a p := by
  cases p <;> simp [HeldAt, wayHolds_mask]

namespace Inv

/-- A block has at most one place. -/
theorem one_place (h : Inv cfg s) {p q : FoundAt} (hp : s.HeldAt cfg a p) (hq : s.HeldAt cfg a q) : p = q := by
  have hmshr : s.HeldAt cfg a .mshr → ∀ w, ¬ s.HeldAt cfg a (.way w) := by
    intro hm w hw
    obtain ⟨e, he⟩ := Option.isSome_iff_exists.1 hm
    exact (h.mshr _ e he).2.2 w (heldAt_mask.2 hw)
  have hpwb : s.HeldAt cfg a .pwb → (∀ w, ¬ s.HeldAt cfg a (.way w)) ∧ ¬ s.HeldAt cfg a .mshr := by
    intro hm
    obtain ⟨e, he⟩ := Option.isSome_iff_exists.1 hm
    obtain ⟨-, -, hway, hnone⟩ := h.pwb _ e he
    exact ⟨fun w hw => hway w (heldAt_mask.2 hw), by simp [HeldAt, hnone]⟩
  cases p with
  | way w =>
    cases q with
    | way w' =>
      obtain ⟨hv, ht⟩ := wayHolds_iff.1 hp.2
      obtain ⟨hv', ht'⟩ := wayHolds_iff.1 hq.2
      rw [h.unique _ w w' hp.1 hq.1 hv hv' (ht.trans ht'.symm)]
    | mshr => exact absurd hp (hmshr hq w)
    | pwb => exact absurd hp ((hpwb hq).1 w)
  | mshr =>
    cases q with
    | way w => exact absurd hq (hmshr hp w)
    | mshr => rfl
    | pwb => exact absurd hp (hpwb hq).2
  | pwb =>
    cases q with
    | way w => exact absurd hq ((hpwb hp).1 w)
    | mshr => exact absurd hq (hpwb hp).2
    | pwb => rfl

/-- `findway` finds the way that holds a block. -/
theorem findway_eq_some (h : Inv cfg s) : s.findway cfg a = some w ↔ s.HeldAt cfg a (.way w) := by
  constructor
  · intro hfind
    exact ⟨List.mem_range.1 (List.mem_of_find?_eq_some hfind), List.find?_some hfind⟩
  · intro hw
    cases hfind : s.findway cfg a with
    | none =>
      rw [findway, List.find?_eq_none] at hfind
      exact absurd hw.2 (hfind w (List.mem_range.2 hw.1))
    | some w' =>
      have hw' : s.HeldAt cfg a (.way w') :=
        ⟨List.mem_range.1 (List.mem_of_find?_eq_some hfind), List.find?_some hfind⟩
      rw [FoundAt.way.inj (h.one_place hw hw')]

/-- `findline` finds the place of a block. -/
theorem findline_eq_some (h : Inv cfg s) {p : FoundAt} : s.findline cfg a = some p ↔ s.HeldAt cfg a p := by
  have hsound : ∀ q, s.findline cfg a = some q → s.HeldAt cfg a q := by
    intro q hq
    rw [findline] at hq
    split at hq
    · next w hw =>
      obtain rfl := Option.some.inj hq
      exact h.findway_eq_some.1 hw
    · split_ifs at hq with hm hb
      · obtain rfl := Option.some.inj hq
        exact hm
      · obtain rfl := Option.some.inj hq
        exact hb
  refine ⟨hsound p, fun hp => ?_⟩
  cases hfind : s.findline cfg a with
  | some q => rw [h.one_place hp (hsound q hfind)]
  | none =>
    rw [findline] at hfind
    split at hfind
    · simp at hfind
    · next hway =>
      split_ifs at hfind with hm hb
      cases p with
      | way w => simp [h.findway_eq_some.2 hp] at hway
      | mshr => exact absurd hp hm
      | pwb => exact absurd hp hb

/-- `findline` finds nothing if the block has no place. -/
theorem findline_eq_none (h : Inv cfg s) : s.findline cfg a = none ↔ ∀ p, ¬ s.HeldAt cfg a p := by
  rw [Option.eq_none_iff_forall_ne_some]
  exact forall_congr' fun p => not_congr h.findline_eq_some

end Inv

end DataHandler

end Octopus
