import Octopus.DataHandler.Places

/-!
# The blocks a data handler holds

A data handler is a partial map from blocks to their place, bits and bytes. Every write of the
source to one of the three containers changes this map at one block, if the block has no other
place; a call is a few such writes.
-/

namespace Octopus

/-- A block the data handler holds. -/
structure Stored (σ : Type) where
  place : FoundAt
  bits : GenericCacheLine σ
  m_data : Option (List UInt8)
  deriving DecidableEq, Repr

/-- The line of a block at a place. -/
def CacheEntry.storedAt {σ : Type} (e : CacheEntry σ) (p : FoundAt) : Stored σ := ⟨p, e.bits, e.m_data⟩

/-- The blocks of a cache after one of them has changed. -/
def Geometry.replaced {σ : Type} (g : Geometry) (blocks : BitVec 64 → Option (Stored σ)) (a : BitVec 64)
    (o : Option (Stored σ)) : BitVec 64 → Option (Stored σ) :=
  fun b => if g.mask_offset b = g.mask_offset a then o else blocks b

namespace DataHandler

variable {σ ρ : Type} {cfg : HandlerConfig σ ρ} {s s' : DataHandler σ ρ} {a b : BitVec 64} {w : Nat}
  {p : FoundAt} {e : CacheEntry σ} {o : Option (CacheEntry σ)} {st : Stored σ}

/-- What the handler holds of a block. -/
def block (cfg : HandlerConfig σ ρ) (s : DataHandler σ ρ) (a : BitVec 64) : Option (Stored σ) :=
  (s.findline cfg a).bind fun p => (s.lineAt cfg a p).map (·.storedAt p)

/-- The line of a block that is held. -/
theorem lineAt_isSome (h : s.HeldAt cfg a p) : (s.lineAt cfg a p).isSome := by
  cases p with
  | way w => rfl
  | mshr => exact h
  | pwb => exact h

/-- The handler holds of a block what is at its place. -/
theorem Inv.block_eq_some (h : Inv cfg s) :
    s.block cfg a = some st ↔ s.HeldAt cfg a st.place ∧ (s.lineAt cfg a st.place).map (·.storedAt st.place) = some st := by
  rw [block, Option.bind_eq_some_iff]
  constructor
  · rintro ⟨p, hfind, hline⟩
    obtain ⟨e, he, rfl⟩ := Option.map_eq_some_iff.1 hline
    exact ⟨h.findline_eq_some.1 hfind, hline⟩
  · rintro ⟨hp, hline⟩
    exact ⟨_, h.findline_eq_some.2 hp, hline⟩

/-- The handler holds nothing of a block without a place. -/
theorem Inv.block_eq_none (h : Inv cfg s) : s.block cfg a = none ↔ ∀ p, ¬ s.HeldAt cfg a p := by
  rw [← h.findline_eq_none, block, Option.bind_eq_none_iff]
  constructor
  · intro hnone
    rw [h.findline_eq_none]
    intro p hp
    have hsome := lineAt_isSome hp
    have hmap := hnone p (h.findline_eq_some.2 hp)
    simp [Option.map_eq_none_iff.1 hmap] at hsome
  · intro hnone p hp
    simp [hnone] at hp

/-- The place of a block that is held. -/
theorem Inv.heldAt_of_block (h : Inv cfg s) (hb : s.block cfg a = some st) : s.HeldAt cfg a st.place :=
  (h.block_eq_some.1 hb).1

/-- What the handler holds of an address depends on its block only. -/
theorem block_mask : s.block cfg (cfg.geometry.mask_offset a) = s.block cfg a := by
  have hline : ∀ p, s.lineAt cfg (cfg.geometry.mask_offset a) p = s.lineAt cfg a p := by
    intro p
    cases p <;> simp [lineAt]
  have hholds : s.wayHolds cfg (cfg.geometry.mask_offset a) = s.wayHolds cfg a := funext fun w => wayHolds_mask
  have hway : s.findway cfg (cfg.geometry.mask_offset a) = s.findway cfg a := by
    rw [findway, findway, hholds]
  simp only [block, findline, hway, hline, Geometry.mask_offset_mask_offset]

/-- Addresses of one block. -/
theorem block_eq_of_mask (hab : cfg.geometry.mask_offset a = cfg.geometry.mask_offset b) :
    s.block cfg a = s.block cfg b := by
  rw [← block_mask, hab, block_mask]

/-- Where a block is depends on the block only. -/
theorem heldAt_congr (hab : cfg.geometry.mask_offset a = cfg.geometry.mask_offset b) :
    s.HeldAt cfg a p ↔ s.HeldAt cfg b p := by
  rw [← heldAt_mask, hab, heldAt_mask]

/-- A block is the same if its set's ways and its two registers are. -/
theorem block_congr (hway : ∀ w, s'.wayHolds cfg b w = s.wayHolds cfg b w)
    (hline : ∀ w, s.wayHolds cfg b w = true →
      s'.m_cache (cfg.geometry.calculate_set b) w = s.m_cache (cfg.geometry.calculate_set b) w)
    (hmshr : s'.m_miss_status_holding_regs (cfg.geometry.mask_offset b) =
      s.m_miss_status_holding_regs (cfg.geometry.mask_offset b))
    (hpwb : s'.m_pending_write_back_regs (cfg.geometry.mask_offset b) =
      s.m_pending_write_back_regs (cfg.geometry.mask_offset b)) :
    s'.block cfg b = s.block cfg b := by
  have hfindway : s'.findway cfg b = s.findway cfg b := by
    simp only [findway, funext hway]
  have hfind : s'.findline cfg b = s.findline cfg b := by
    simp only [findline, hfindway, hmshr, hpwb]
  rw [block, block, hfind]
  cases hp : s.findline cfg b with
  | none => rfl
  | some p =>
    suffices hlineAt : s'.lineAt cfg b p = s.lineAt cfg b p by simp [hlineAt]
    cases p with
    | way w =>
      rw [findline] at hp
      split at hp
      · next w' hw' =>
        obtain rfl : w' = w := by simpa using hp
        exact congrArg some (hline _ (List.find?_some hw'))
      · split_ifs at hp <;> simp at hp
    | mshr => exact hmshr
    | pwb => exact hpwb

/-- The invariant, from the places of the blocks. -/
theorem Inv.of_one_place (hone : ∀ a p q, s.HeldAt cfg a p → s.HeldAt cfg a q → p = q)
    (haddressed : ∀ set w, w < cfg.geometry.m_ways_count → (s.m_cache set w).bits.valid = true →
      ∃ a, set = cfg.geometry.calculate_set a ∧ (s.m_cache set w).tag = cfg.geometry.calculate_tag a)
    (hmshr : ∀ b e, s.m_miss_status_holding_regs b = some e → cfg.geometry.mask_offset b = b ∧ e.bits.valid = true)
    (hpwb : ∀ b e, s.m_pending_write_back_regs b = some e → cfg.geometry.mask_offset b = b ∧ e.bits.valid = true) :
    Inv cfg s where
  unique set w w' hw hw' hv hv' htag := by
    obtain ⟨a, rfl, ha⟩ := haddressed set w hw hv
    have hfirst : s.HeldAt cfg a (.way w) := ⟨hw, wayHolds_iff.2 ⟨hv, ha⟩⟩
    have hsecond : s.HeldAt cfg a (.way w') := ⟨hw', wayHolds_iff.2 ⟨hv', htag ▸ ha⟩⟩
    simpa using hone a _ _ hfirst hsecond
  addressed := haddressed
  mshr b e he := by
    obtain ⟨hb, hv⟩ := hmshr b e he
    have hheld : s.HeldAt cfg b .mshr := by simp [HeldAt, hb, he]
    exact ⟨hb, hv, fun w hw => by simpa using hone b _ _ hheld hw⟩
  pwb b e he := by
    obtain ⟨hb, hv⟩ := hpwb b e he
    have hheld : s.HeldAt cfg b .pwb := by simp [HeldAt, hb, he]
    refine ⟨hb, hv, fun w hw => by simpa using hone b _ _ hheld hw, Option.eq_none_iff_forall_ne_some.2 ?_⟩
    intro e' he'
    have hheld' : s.HeldAt cfg b .mshr := by simp [HeldAt, hb, he']
    simpa using hone b _ _ hheld hheld'

/-- A write that changes one block and keeps the invariant. -/
structure Puts (cfg : HandlerConfig σ ρ) (s : DataHandler σ ρ) (a : BitVec 64) (o : Option (Stored σ))
    (s' : DataHandler σ ρ) : Prop where
  inv : Inv cfg s'
  block : s'.block cfg = cfg.geometry.replaced (s.block cfg) a o

/-- A block has no place but one. -/
def OnlyAt (cfg : HandlerConfig σ ρ) (s : DataHandler σ ρ) (a : BitVec 64) (p : FoundAt) : Prop :=
  ∀ q, s.HeldAt cfg a q → q = p

/-- A block that is held is at its place only. -/
theorem Inv.onlyAt (h : Inv cfg s) (hp : s.HeldAt cfg a p) : s.OnlyAt cfg a p := fun _ hq => h.one_place hq hp

/-- A block that is not held may be anywhere. -/
theorem Inv.onlyAt_of_none (h : Inv cfg s) (ha : s.block cfg a = none) : s.OnlyAt cfg a p :=
  fun q hq => absurd hq (h.block_eq_none.1 ha q)

/-- A write changes one block if it gives the block one place and keeps the places of all others. -/
theorem Puts.of_places (h : Inv cfg s)
    (hself : ∀ q, s'.HeldAt cfg a q → q = p)
    (hother : ∀ b, cfg.geometry.mask_offset b ≠ cfg.geometry.mask_offset a → ∀ q, s'.HeldAt cfg b q → s.HeldAt cfg b q)
    (hblock : ∀ b, cfg.geometry.mask_offset b ≠ cfg.geometry.mask_offset a → s'.block cfg b = s.block cfg b)
    (haddressed : ∀ set w, w < cfg.geometry.m_ways_count → (s'.m_cache set w).bits.valid = true →
      ∃ a, set = cfg.geometry.calculate_set a ∧ (s'.m_cache set w).tag = cfg.geometry.calculate_tag a)
    (hmshr : ∀ b e, s'.m_miss_status_holding_regs b = some e → cfg.geometry.mask_offset b = b ∧ e.bits.valid = true)
    (hpwb : ∀ b e, s'.m_pending_write_back_regs b = some e → cfg.geometry.mask_offset b = b ∧ e.bits.valid = true)
    {o : Option (Stored σ)} (hown : Inv cfg s' → s'.block cfg a = o) : s.Puts cfg a o s' := by
  have hinv : Inv cfg s' := by
    refine Inv.of_one_place (fun b q r hq hr => ?_) haddressed hmshr hpwb
    by_cases hb : cfg.geometry.mask_offset b = cfg.geometry.mask_offset a
    · rw [hself q ((heldAt_congr hb).1 hq), hself r ((heldAt_congr hb).1 hr)]
    · exact h.one_place (hother b hb q hq) (hother b hb r hr)
  refine ⟨hinv, funext fun b => ?_⟩
  rw [Geometry.replaced]
  split_ifs with hb
  · rw [block_eq_of_mask hb, hown hinv]
  · exact hblock b hb

/-- The entries of the array after a write. -/
theorem setWay_m_cache {set set' : BitVec 64} {w' : Nat} :
    (s.setWay set w e).m_cache set' w' = if set' = set ∧ w' = w then e else s.m_cache set' w' := by
  simp only [setWay, Function.update_apply]
  split_ifs with hset hboth <;> simp_all

/-- What a way holds after a write to the array. -/
theorem setWay_wayHolds {set : BitVec 64} {w' : Nat} :
    (s.setWay set w e).wayHolds cfg b w' =
      if cfg.geometry.calculate_set b = set ∧ w' = w then e.bits.valid && e.tag == cfg.geometry.calculate_tag b
      else s.wayHolds cfg b w' := by
  simp only [wayHolds, setWay_m_cache]
  split_ifs <;> rfl

/-- A line written to a way that is empty, or holds the block already. -/
theorem Inv.setWay (h : Inv cfg s) (hw : w < cfg.geometry.m_ways_count) (honly : s.OnlyAt cfg a (.way w))
    (hold : (s.m_cache (cfg.geometry.calculate_set a) w).bits.valid = true →
      (s.m_cache (cfg.geometry.calculate_set a) w).tag = cfg.geometry.calculate_tag a)
    (htag : e.bits.valid = true → e.tag = cfg.geometry.calculate_tag a) :
    s.Puts cfg a (if e.bits.valid then some (e.storedAt (.way w)) else none)
      (s.setWay (cfg.geometry.calculate_set a) w e) := by
  have hway : ∀ b, cfg.geometry.mask_offset b ≠ cfg.geometry.mask_offset a → ∀ w',
      (s.setWay (cfg.geometry.calculate_set a) w e).wayHolds cfg b w' = s.wayHolds cfg b w' := by
    intro b hb w'
    rw [setWay_wayHolds]
    split_ifs with hset
    · obtain ⟨hset, rfl⟩ := hset
      have htags : cfg.geometry.calculate_tag a ≠ cfg.geometry.calculate_tag b :=
        fun heq => hb (cfg.geometry.mask_offset_eq_of_tag_set heq.symm hset)
      have hafter : (e.bits.valid && e.tag == cfg.geometry.calculate_tag b) = false := by
        cases hv : e.bits.valid with
        | false => rfl
        | true => simpa [htag hv] using htags
      rw [hafter, wayHolds, hset]
      cases hv : (s.m_cache (cfg.geometry.calculate_set a) w').bits.valid with
      | false => rfl
      | true => simpa [hold hv] using htags
    · rfl
  have hself : ∀ q, (s.setWay (cfg.geometry.calculate_set a) w e).HeldAt cfg a q → q = .way w := by
    intro q hq
    cases q with
    | way w' =>
      by_cases hww : w' = w
      · rw [hww]
      · refine honly (.way w') ⟨hq.1, ?_⟩
        have hholds := hq.2
        rwa [setWay_wayHolds, if_neg (by simp [hww])] at hholds
    | mshr => exact honly .mshr hq
    | pwb => exact honly .pwb hq
  refine Puts.of_places h hself (fun b hb q hq => ?_) (fun b hb => ?_) (fun set w' hw' hv => ?_)
    (fun b e he => ⟨(h.mshr b e he).1, (h.mshr b e he).2.1⟩)
    (fun b e he => ⟨(h.pwb b e he).1, (h.pwb b e he).2.1⟩) fun hinv => ?_
  · cases q with
    | way w' => exact ⟨hq.1, hway b hb w' ▸ hq.2⟩
    | mshr => exact hq
    | pwb => exact hq
  · refine block_congr (hway b hb) (fun w' hw' => ?_) rfl rfl
    rw [setWay_m_cache]
    split_ifs with hset
    · obtain ⟨hset, rfl⟩ := hset
      obtain ⟨hv, ht⟩ := wayHolds_iff.1 hw'
      rw [hset] at hv ht
      exact absurd (cfg.geometry.mask_offset_eq_of_tag_set (ht.symm.trans (hold hv)) hset) hb
    · rfl
  · rw [setWay_m_cache] at hv ⊢
    split_ifs at hv ⊢ with hset
    · exact ⟨a, hset.1, htag hv⟩
    · exact h.addressed set w' hw' hv
  · split_ifs with hv
    · refine hinv.block_eq_some.2 ⟨⟨hw, ?_⟩, ?_⟩
      · rw [setWay_wayHolds, if_pos ⟨rfl, rfl⟩]
        simp [hv, htag hv]
      · simp [lineAt, DataHandler.setWay, CacheEntry.storedAt]
    · refine hinv.block_eq_none.2 fun q hq => ?_
      obtain rfl := hself q hq
      have hholds := hq.2
      rw [setWay_wayHolds, if_pos ⟨rfl, rfl⟩] at hholds
      simp [hv] at hholds

/-- A holding register written or erased, for a block that is nowhere else. -/
theorem Inv.setMSHR (h : Inv cfg s) (honly : s.OnlyAt cfg a .mshr) (hvalid : ∀ e ∈ o, e.bits.valid = true) :
    s.Puts cfg a (o.map (·.storedAt .mshr)) (s.setMSHR (cfg.geometry.mask_offset a) o) := by
  have hself : ∀ q, (s.setMSHR (cfg.geometry.mask_offset a) o).HeldAt cfg a q → q = .mshr := by
    intro q hq
    cases q with
    | way w => exact honly (.way w) hq
    | mshr => rfl
    | pwb => exact honly .pwb hq
  refine Puts.of_places h hself (fun b hb q hq => ?_) (fun b hb => ?_) h.addressed (fun b e he => ?_)
    (fun b e he => ⟨(h.pwb b e he).1, (h.pwb b e he).2.1⟩) fun hinv => ?_
  · cases q with
    | way w => exact hq
    | mshr => simpa [HeldAt, DataHandler.setMSHR, Function.update_apply, hb] using hq
    | pwb => exact hq
  · refine block_congr (fun w => rfl) (fun w _ => rfl) ?_ rfl
    simp [DataHandler.setMSHR, hb]
  · simp only [DataHandler.setMSHR, Function.update_apply] at he
    split_ifs at he with hb
    · exact ⟨by simp [hb], hvalid e he⟩
    · exact ⟨(h.mshr b e he).1, (h.mshr b e he).2.1⟩
  · cases o with
    | none =>
      refine hinv.block_eq_none.2 fun q hq => ?_
      obtain rfl := hself q hq
      simp [HeldAt, DataHandler.setMSHR] at hq
    | some e =>
      refine hinv.block_eq_some.2 ⟨?_, ?_⟩
      · simp [HeldAt, DataHandler.setMSHR, CacheEntry.storedAt]
      · simp [lineAt, DataHandler.setMSHR, CacheEntry.storedAt]

/-- An entry of the write-back buffer written or erased, for a block that is nowhere else. -/
theorem Inv.setPWB (h : Inv cfg s) (honly : s.OnlyAt cfg a .pwb) (hvalid : ∀ e ∈ o, e.bits.valid = true) :
    s.Puts cfg a (o.map (·.storedAt .pwb)) (s.setPWB (cfg.geometry.mask_offset a) o) := by
  have hself : ∀ q, (s.setPWB (cfg.geometry.mask_offset a) o).HeldAt cfg a q → q = .pwb := by
    intro q hq
    cases q with
    | way w => exact honly (.way w) hq
    | mshr => exact honly .mshr hq
    | pwb => rfl
  refine Puts.of_places h hself (fun b hb q hq => ?_) (fun b hb => ?_) h.addressed
    (fun b e he => ⟨(h.mshr b e he).1, (h.mshr b e he).2.1⟩) (fun b e he => ?_) fun hinv => ?_
  · cases q with
    | way w => exact hq
    | mshr => exact hq
    | pwb => simpa [HeldAt, DataHandler.setPWB, Function.update_apply, hb] using hq
  · refine block_congr (fun w => rfl) (fun w _ => rfl) rfl ?_
    simp [DataHandler.setPWB, hb]
  · simp only [DataHandler.setPWB, Function.update_apply] at he
    split_ifs at he with hb
    · exact ⟨by simp [hb], hvalid e he⟩
    · exact ⟨(h.pwb b e he).1, (h.pwb b e he).2.1⟩
  · cases o with
    | none =>
      refine hinv.block_eq_none.2 fun q hq => ?_
      obtain rfl := hself q hq
      simp [HeldAt, DataHandler.setPWB] at hq
    | some e =>
      refine hinv.block_eq_some.2 ⟨?_, ?_⟩
      · simp [HeldAt, DataHandler.setPWB, CacheEntry.storedAt]
      · simp [lineAt, DataHandler.setPWB, CacheEntry.storedAt]

end DataHandler

end Octopus
