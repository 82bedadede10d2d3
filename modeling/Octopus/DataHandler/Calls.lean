import Octopus.DataHandler.Blocks

/-!
# What a call does to the blocks

Each call of a controller, on the map of the blocks: a call about a block changes this block only,
and a fill moves one victim to the write-back buffer if it finds no empty way.
-/

namespace Octopus

namespace DataHandler

variable {σ ρ : Type} {cfg : HandlerConfig σ ρ} {s s' : DataHandler σ ρ} {a b : BitVec 64} {w : Nat}
  {p : FoundAt} {e : CacheEntry σ} {st : Stored σ} {l : GenericCacheLine σ} {d : List UInt8} {allowed : Nat → Bool}

/-- The line of a block that is held. -/
theorem Inv.exists_line (h : Inv cfg s) (hb : s.block cfg a = some st) :
    ∃ e, s.lineAt cfg a st.place = some e ∧ e.bits = st.bits ∧ e.m_data = st.m_data := by
  obtain ⟨e, he, hst⟩ := Option.map_eq_some_iff.1 (h.block_eq_some.1 hb).2
  exact ⟨e, he, congrArg Stored.bits hst, congrArg Stored.m_data hst⟩

/-- A change of the line of a block that is held; a line in a register stays valid. -/
theorem Inv.modifyLine (h : Inv cfg s) (hp : s.HeldAt cfg a p) (he : s.lineAt cfg a p = some e)
    {f : CacheEntry σ → CacheEntry σ} (htag : (f e).tag = e.tag)
    (hvalid : p = .mshr ∨ p = .pwb → (f e).bits.valid = true) :
    s.Puts cfg a (if (f e).bits.valid then some ((f e).storedAt p) else none) (s.modifyLine cfg a f p) := by
  cases p with
  | way w =>
    obtain rfl : s.m_cache (cfg.geometry.calculate_set a) w = e := by simpa [lineAt] using he
    have hold := (wayHolds_iff.1 hp.2).2
    exact h.setWay hp.1 (h.onlyAt hp) (fun _ => hold) fun _ => htag.trans hold
  | mshr =>
    obtain he : s.m_miss_status_holding_regs (cfg.geometry.mask_offset a) = some e := he
    have hv := hvalid (.inl rfl)
    have hputs := h.setMSHR (o := some (f e)) (h.onlyAt hp) (by simpa using hv)
    simpa [DataHandler.modifyLine, he, hv] using hputs
  | pwb =>
    obtain he : s.m_pending_write_back_regs (cfg.geometry.mask_offset a) = some e := he
    have hv := hvalid (.inr rfl)
    have hputs := h.setPWB (o := some (f e)) (h.onlyAt hp) (by simpa using hv)
    simpa [DataHandler.modifyLine, he, hv] using hputs

/-- A change of a line queues no write-back. -/
theorem modifyLine_pending (f : CacheEntry σ → CacheEntry σ) :
    (s.modifyLine cfg a f p).m_pwb_pending_issue = s.m_pwb_pending_issue := by
  cases p <;> rfl

/-- A block in a register is found there after a change of its line. -/
theorem findline_modifyLine (f : CacheEntry σ → CacheEntry σ) (hp : p = .mshr ∨ p = .pwb) :
    (s.modifyLine cfg a f p).findline cfg a = s.findline cfg a := by
  rcases hp with rfl | rfl
  · rw [findline, findline]
    simp [modifyLine, setMSHR, findway]
    rfl
  · rw [findline, findline]
    simp [modifyLine, setPWB, findway]
    rfl

/-- The bits of a block that is not held are not updated. -/
theorem Inv.updateLineBits_of_none (h : Inv cfg s) (hb : s.block cfg a = none) :
    s.updateLineBits cfg a l = (false, s) := by
  simp only [DataHandler.updateLineBits, h.findline_eq_none.2 (h.block_eq_none.1 hb)]

/-- The bits of a block that is held are updated; a block whose bits turn invalid is held no more. -/
theorem Inv.updateLineBits (h : Inv cfg s) (hb : s.block cfg a = some st) :
    ∃ s', s.updateLineBits cfg a l = (true, s') ∧
      s.Puts cfg a (if l.valid then some { st with bits := l } else none) s' ∧
      s'.m_pwb_pending_issue = s.m_pwb_pending_issue := by
  have hp := h.heldAt_of_block hb
  obtain ⟨e, he, -, hdata⟩ := h.exists_line hb
  have hfind := h.findline_eq_some.2 hp
  obtain ⟨place, bits, m_data⟩ := st
  obtain rfl : e.m_data = m_data := hdata
  have hmodify := fun hvalid =>
    h.modifyLine (f := fun e => { e with bits := l }) hp he rfl hvalid
  simp only [CacheEntry.storedAt] at hmodify
  by_cases hv : l.valid = true
  · have hputs := hmodify fun _ => hv
    refine ⟨_, ?_, hputs, modifyLine_pending _⟩
    simp only [DataHandler.updateLineBits, hfind, hv, if_true]
    split <;> rfl
  · cases place with
    | way w =>
      have hputs := hmodify (by simp)
      refine ⟨_, ?_, hputs, modifyLine_pending _⟩
      have hnone : (s.modifyLine cfg a (fun e => { e with bits := l }) (.way w)).findline cfg a = none := by
        refine hputs.inv.findline_eq_none.2 (hputs.inv.block_eq_none.1 ?_)
        simp [hputs.block, Geometry.replaced, hv]
      simp only [DataHandler.updateLineBits, hfind, hnone]
    | mshr =>
      have hreg : (s.m_miss_status_holding_regs (cfg.geometry.mask_offset a)).isSome := hp
      have herase := h.setMSHR (o := none) (h.onlyAt hp) (by simp)
      refine ⟨s.setMSHR (cfg.geometry.mask_offset a) none, ?_, by simpa [hv] using herase, rfl⟩
      have hsome : ((s.modifyLine cfg a (fun e => { e with bits := l })
          .mshr).m_miss_status_holding_regs (cfg.geometry.mask_offset a)).isSome := by
        simpa [DataHandler.modifyLine, DataHandler.setMSHR] using hreg
      simp only [DataHandler.updateLineBits, hfind, findline_modifyLine _ (.inl rfl), hv, hsome]
      simp [DataHandler.modifyLine, DataHandler.setMSHR]
    | pwb =>
      have hreg : (s.m_pending_write_back_regs (cfg.geometry.mask_offset a)).isSome := hp
      have herase := h.setPWB (o := none) (h.onlyAt hp) (by simp)
      refine ⟨s.setPWB (cfg.geometry.mask_offset a) none, ?_, by simpa [hv] using herase, rfl⟩
      have hnone : s.m_miss_status_holding_regs (cfg.geometry.mask_offset a) = none := by
        obtain ⟨e, he⟩ := Option.isSome_iff_exists.1 hreg
        exact (h.pwb _ e he).2.2.2
      have hsome : ((s.modifyLine cfg a (fun e => { e with bits := l })
          .pwb).m_pending_write_back_regs (cfg.geometry.mask_offset a)).isSome := by
        simpa [DataHandler.modifyLine, DataHandler.setPWB] using hreg
      simp only [DataHandler.updateLineBits, hfind, findline_modifyLine _ (.inr rfl), hv, hsome]
      simp [DataHandler.modifyLine, DataHandler.setPWB, hnone]

/-- A block that is held nowhere enters a holding register, if its bits are valid. -/
theorem Inv.writeLine2MSHR (h : Inv cfg s) (hb : s.block cfg a = none) (hv : l.valid = true) :
    s.Puts cfg a (some ⟨.mshr, l, none⟩) (s.writeLine2MSHR cfg a l) := by
  have hnone : s.m_miss_status_holding_regs (cfg.geometry.mask_offset a) = none := by
    simpa [HeldAt] using h.block_eq_none.1 hb .mshr
  have hputs := h.setMSHR (o := some { CacheEntry.empty cfg.initial with bits := l })
    (h.onlyAt_of_none hb) (by simpa using hv)
  simpa [DataHandler.writeLine2MSHR, hv, hnone, CacheEntry.storedAt, CacheEntry.empty] using hputs

/-- What the handler holds does not depend on the policy, the cycle and the queue of write-backs. -/
theorem Puts.of_eq {o : Option (Stored σ)} {t : DataHandler σ ρ} (h : s.Puts cfg a o s')
    (hcache : t.m_cache = s'.m_cache) (hmshr : t.m_miss_status_holding_regs = s'.m_miss_status_holding_regs)
    (hpwb : t.m_pending_write_back_regs = s'.m_pending_write_back_regs) : s.Puts cfg a o t := by
  obtain ⟨cache, mshr, pwb, queue, policy, cycle, ready⟩ := t
  dsimp only at hcache hmshr hpwb
  subst hcache hmshr hpwb
  exact ⟨⟨h.inv.unique, h.inv.addressed, h.inv.mshr, h.inv.pwb⟩, h.block⟩

/-- The bytes of a block in the array are replaced. -/
theorem Inv.updateLineData_way (h : Inv cfg s) (hb : s.block cfg a = some st) (hw : st.place = .way w)
    (hs : s.updateLineData cfg allowed a d = some s') :
    s.Puts cfg a (some { st with m_data := some (d.take cfg.geometry.m_block_size) }) s' ∧
      s'.m_pwb_pending_issue = s.m_pwb_pending_issue := by
  have hp := h.heldAt_of_block hb
  obtain ⟨e, he, hbits, -⟩ := h.exists_line hb
  rw [hw] at hp he
  have hv : e.bits.valid = true := by
    obtain rfl : s.m_cache (cfg.geometry.calculate_set a) w = e := by simpa [lineAt] using he
    exact (wayHolds_iff.1 hp.2).1
  have hputs := h.modifyLine (f := (·.copyData cfg.geometry.m_block_size d)) hp he rfl fun _ => hv
  rw [DataHandler.updateLineData, h.findway_eq_some.2 hp] at hs
  dsimp only at hs
  split_ifs at hs
  obtain rfl := Option.some.inj hs
  obtain ⟨place, bits, m_data⟩ := st
  obtain rfl : place = .way w := hw
  obtain rfl : e.bits = bits := hbits
  refine ⟨?_, rfl⟩
  have hcopy : (if (e.copyData cfg.geometry.m_block_size d).bits.valid then
      some ((e.copyData cfg.geometry.m_block_size d).storedAt (.way w)) else none) =
      some ⟨.way w, e.bits, some (d.take cfg.geometry.m_block_size)⟩ := if_pos hv
  rw [hcopy] at hputs
  exact hputs.of_eq rfl rfl rfl

/-- The bytes of a block in the write-back buffer are replaced. -/
theorem Inv.updateLineData_pwb (h : Inv cfg s) (hb : s.block cfg a = some st) (hw : st.place = .pwb) :
    ∃ s', s.updateLineData cfg allowed a d = some s' ∧
      s.Puts cfg a (some { st with m_data := some (d.take cfg.geometry.m_block_size) }) s' ∧
      s'.m_pwb_pending_issue = s.m_pwb_pending_issue := by
  have hp := h.heldAt_of_block hb
  obtain ⟨e, he, hbits, -⟩ := h.exists_line hb
  rw [hw] at hp he
  obtain he : s.m_pending_write_back_regs (cfg.geometry.mask_offset a) = some e := he
  obtain ⟨-, hv, hways, hmshr⟩ := h.pwb _ e he
  have hfindway : s.findway cfg a = none :=
    Option.eq_none_iff_forall_ne_some.2 fun w hw => hways w (heldAt_mask.2 (h.findway_eq_some.1 hw))
  have hputs := h.setPWB (o := some (e.copyData cfg.geometry.m_block_size d)) (h.onlyAt hp)
    (by simpa [CacheEntry.copyData] using hv)
  refine ⟨s.setPWB (cfg.geometry.mask_offset a) (some (e.copyData cfg.geometry.m_block_size d)),
    by simp only [DataHandler.updateLineData, hfindway, hmshr, he], ?_, rfl⟩
  obtain ⟨place, bits, m_data⟩ := st
  obtain rfl : place = .pwb := hw
  obtain rfl : e.bits = bits := hbits
  exact hputs

/-- `findEmptyWay` finds an allowed empty way. -/
theorem findEmptyWay_eq_some (hw : s.findEmptyWay cfg allowed a = some w) :
    w < cfg.geometry.m_ways_count ∧ allowed w = true ∧
      (s.m_cache (cfg.geometry.calculate_set a) w).bits.valid = false := by
  have hfound := List.find?_some hw
  exact ⟨List.mem_range.1 (List.mem_of_find?_eq_some hw), by simpa using hfound⟩

/-- `findEmptyWay` finds nothing if the allowed ways are full. -/
theorem findEmptyWay_eq_none : s.findEmptyWay cfg allowed a = none ↔
    ∀ w < cfg.geometry.m_ways_count, allowed w = true →
      (s.m_cache (cfg.geometry.calculate_set a) w).bits.valid = true := by
  simp [findEmptyWay]

/-- A line of the array moves to the write-back buffer, under the address of its block. -/
theorem Inv.moveLine2WB (h : Inv cfg s) {set : BitVec 64} (hw : w < cfg.geometry.m_ways_count)
    (hv : (s.m_cache set w).bits.valid = true) {v : BitVec 64}
    (hvictim : v = cfg.geometry.calculate_address (s.m_cache set w).tag set) :
    cfg.geometry.mask_offset v = v ∧ s.block cfg v = some ((s.m_cache set w).storedAt (.way w)) ∧
      s.Puts cfg v (some ((s.m_cache set w).storedAt .pwb)) (s.moveLine2WB cfg set w) ∧
      (s.moveLine2WB cfg set w).m_pwb_pending_issue = s.m_pwb_pending_issue ++ [v] := by
  obtain ⟨a, rfl, htag⟩ := h.addressed set w hw hv
  rw [htag, cfg.geometry.calculate_address_eq] at hvictim
  have hset : cfg.geometry.calculate_set v = cfg.geometry.calculate_set a := by simp [hvictim]
  have htag' : (s.m_cache (cfg.geometry.calculate_set v) w).tag = cfg.geometry.calculate_tag v := by
    simp [htag, hvictim]
  have hmask : cfg.geometry.mask_offset v = v := by simp [hvictim]
  rw [← hset] at hv ⊢
  have hheld : s.HeldAt cfg v (.way w) := ⟨hw, wayHolds_iff.2 ⟨hv, htag'⟩⟩
  have hblock : s.block cfg v = some ((s.m_cache (cfg.geometry.calculate_set v) w).storedAt (.way w)) :=
    h.block_eq_some.2 ⟨hheld, rfl⟩
  have hnone : s.m_pending_write_back_regs v = none := by
    refine Option.eq_none_iff_forall_ne_some.2 fun e he => ?_
    exact (h.pwb v e he).2.2.1 w hheld
  have hcleared := h.setWay (e := { s.m_cache (cfg.geometry.calculate_set v) w with
    bits := { (s.m_cache (cfg.geometry.calculate_set v) w).bits with valid := false } }) hw (h.onlyAt hheld)
    (fun _ => htag') (by simp)
  have hmoved := hcleared.inv.setPWB (a := v) (o := some ((CacheEntry.empty cfg.initial).assign
    (s.m_cache (cfg.geometry.calculate_set v) w))) (hcleared.inv.onlyAt_of_none (by
      simp [hcleared.block, Geometry.replaced])) (by simpa [CacheEntry.assign] using hv)
  have hstored : ((CacheEntry.empty cfg.initial).assign (s.m_cache (cfg.geometry.calculate_set v) w)).storedAt .pwb =
      (s.m_cache (cfg.geometry.calculate_set v) w).storedAt .pwb := by
    cases hdata : (s.m_cache (cfg.geometry.calculate_set v) w).m_data <;>
      simp [CacheEntry.assign, CacheEntry.storedAt, CacheEntry.empty, hdata]
  have hwb : cfg.geometry.calculate_address (s.m_cache (cfg.geometry.calculate_set v) w).tag
      (cfg.geometry.calculate_set v) = v := by
    rw [htag', cfg.geometry.calculate_address_eq, hmask]
  refine ⟨hmask, hblock, ⟨?_, ?_⟩, by rw [DataHandler.moveLine2WB, hwb]⟩
  · have hinv := hmoved.of_eq (t := s.moveLine2WB cfg (cfg.geometry.calculate_set v) w) rfl rfl
      (by simp only [DataHandler.moveLine2WB, hwb, hnone, hmask]; rfl)
    exact hinv.inv
  · have hinv := hmoved.of_eq (t := s.moveLine2WB cfg (cfg.geometry.calculate_set v) w) rfl rfl
      (by simp only [DataHandler.moveLine2WB, hwb, hnone, hmask]; rfl)
    rw [hinv.block, hcleared.block]
    funext b
    simp only [Geometry.replaced, Option.map_some, hstored]
    split_ifs <;> rfl

/-- A block that changes twice. -/
@[simp] theorem replaced_replaced {blocks : BitVec 64 → Option (Stored σ)} {o o' : Option (Stored σ)} :
    cfg.geometry.replaced (cfg.geometry.replaced blocks a o) a o' = cfg.geometry.replaced blocks a o' := by
  funext b
  simp only [Geometry.replaced]
  split_ifs <;> rfl

/-- Two changes of one block. -/
theorem Puts.trans {o o' : Option (Stored σ)} {t : DataHandler σ ρ} (h : s.Puts cfg a o s')
    (h' : s'.Puts cfg a o' t) : s.Puts cfg a o' t := ⟨h'.inv, by rw [h'.block, h.block, replaced_replaced]⟩

/-- A line with bytes whose block is in a register is written to the empty way that is found. -/
theorem writeCacheLine_eq (hmshr : (s.m_miss_status_holding_regs (cfg.geometry.mask_offset a)).isSome)
    (hdata : e.m_data.isSome) (hw : s.findEmptyWay cfg allowed a = some w) :
    s.writeCacheLine cfg allowed a e = some (((s.occupy cfg).setWay (cfg.geometry.calculate_set a) w
      { (s.m_cache (cfg.geometry.calculate_set a) w).assign e with tag := cfg.geometry.calculate_tag a }).touch
        cfg a (.way w)) := by
  have hready : s.isReady cfg a = true := by simp [isReady, hmshr]
  simp only [DataHandler.writeCacheLine, hready, hw, hdata, if_true, Option.map_some]
  rfl

/-- A line with bytes moves from a holding register to an allowed empty way. -/
theorem Inv.writeCacheLine (h : Inv cfg s) (he : s.m_miss_status_holding_regs (cfg.geometry.mask_offset a) = some e)
    (hdata : e.m_data.isSome) (hw : s.findEmptyWay cfg allowed a = some w) :
    ∃ s', s.writeCacheLine cfg allowed a e = some s' ∧
      s.Puts cfg a (some (e.storedAt (.way w))) (s'.setMSHR (cfg.geometry.mask_offset a) none) ∧
      s'.m_pwb_pending_issue = s.m_pwb_pending_issue := by
  obtain ⟨hlt, -, hempty⟩ := findEmptyWay_eq_some hw
  have hheld : s.HeldAt cfg a .mshr := by simp [HeldAt, he]
  have hv : e.bits.valid = true := (h.mshr _ e he).2.1
  have herased := h.setMSHR (o := none) (h.onlyAt hheld) (by simp)
  have hwritten := herased.inv.setWay (a := a) (e :=
    { (s.m_cache (cfg.geometry.calculate_set a) w).assign e with tag := cfg.geometry.calculate_tag a })
    hlt (herased.inv.onlyAt_of_none (by simp [herased.block, Geometry.replaced]))
    (fun hv => absurd (hv.symm.trans hempty) (by simp)) (fun _ => rfl)
  have hstored : (if ((s.m_cache (cfg.geometry.calculate_set a) w).assign e).bits.valid then
      some (CacheEntry.storedAt { (s.m_cache (cfg.geometry.calculate_set a) w).assign e with
        tag := cfg.geometry.calculate_tag a } (.way w)) else none) = some (e.storedAt (.way w)) := by
    simp [CacheEntry.assign, CacheEntry.storedAt, hdata, hv]
  have hputs := herased.trans hwritten
  rw [hstored] at hputs
  exact ⟨_, writeCacheLine_eq (by simp [he]) hdata hw, hputs.of_eq rfl rfl rfl, rfl⟩

/--
The blocks after a fill: the block is in the array, and if the ways it may take are full, they have lost
one line to the write-back buffer.
-/
def Filled (cfg : HandlerConfig σ ρ) (allowed : Nat → Bool) (s : DataHandler σ ρ) (a : BitVec 64)
    (bits : GenericCacheLine σ) (d : List UInt8) (s' : DataHandler σ ρ) : Prop :=
  let set := cfg.geometry.calculate_set a
  match s.findEmptyWay cfg allowed a with
  | some w =>
    s'.block cfg = cfg.geometry.replaced (s.block cfg) a (some ⟨.way w, bits, some d⟩) ∧
      s'.m_pwb_pending_issue = s.m_pwb_pending_issue
  | none =>
    let w := (cfg.policy.getReplacementCandidate s.policy set allowed).1
    let victim := s.m_cache set w
    let v := cfg.geometry.calculate_address victim.tag set
    cfg.geometry.mask_offset v = v ∧ s.block cfg v = some (victim.storedAt (.way w)) ∧
      s'.block cfg = cfg.geometry.replaced
        (cfg.geometry.replaced (s.block cfg) v (some (victim.storedAt .pwb))) a (some ⟨.way w, bits, some d⟩) ∧
      s'.m_pwb_pending_issue = s.m_pwb_pending_issue ++ [v]

/-- An allowed way that a line has left is the only empty one. -/
theorem findEmptyWay_moveLine2WB (hfull : s.findEmptyWay cfg allowed a = none)
    (hw : w < cfg.geometry.m_ways_count) (hallowed : allowed w = true) :
    (s.moveLine2WB cfg (cfg.geometry.calculate_set a) w).findEmptyWay cfg allowed a = some w := by
  have hcache : ∀ w', ((s.moveLine2WB cfg (cfg.geometry.calculate_set a) w).m_cache
      (cfg.geometry.calculate_set a) w').bits.valid = if w' = w then false else
        (s.m_cache (cfg.geometry.calculate_set a) w').bits.valid := by
    intro w'
    simp only [moveLine2WB, setWay_m_cache, true_and]
    split_ifs <;> rfl
  cases hfound : (s.moveLine2WB cfg (cfg.geometry.calculate_set a) w).findEmptyWay cfg allowed a with
  | none =>
    have hv := findEmptyWay_eq_none.1 hfound w hw hallowed
    simp [hcache] at hv
  | some w' =>
    obtain ⟨hw', hallowed', hv⟩ := findEmptyWay_eq_some hfound
    rw [hcache] at hv
    split_ifs at hv with heq
    · rw [heq]
    · simp [findEmptyWay_eq_none.1 hfull w' hw' hallowed'] at hv

/-- A fill: a block moves from its holding register to the array, if it may take a way. -/
theorem Inv.updateLineData_mshr (h : Inv cfg s) (hb : s.block cfg a = some st) (hw : st.place = .mshr)
    (hsome : ∃ w < cfg.geometry.m_ways_count, allowed w = true) :
    ∃ s', s.updateLineData cfg allowed a d = some s' ∧ Inv cfg s' ∧
      s.Filled cfg allowed a st.bits (d.take cfg.geometry.m_block_size) s' := by
  have hp := h.heldAt_of_block hb
  obtain ⟨e, he, hbits, -⟩ := h.exists_line hb
  rw [hw] at hp he
  obtain he : s.m_miss_status_holding_regs (cfg.geometry.mask_offset a) = some e := he
  obtain ⟨-, hv, hways⟩ := h.mshr _ e he
  have hfindway : s.findway cfg a = none :=
    Option.eq_none_iff_forall_ne_some.2 fun w hw => hways w (heldAt_mask.2 (h.findway_eq_some.1 hw))
  have hwritten := h.setMSHR (o := some (e.copyData cfg.geometry.m_block_size d)) (h.onlyAt hp)
    (by simpa [CacheEntry.copyData] using hv)
  simp only [DataHandler.updateLineData, hfindway, he, Filled, ← hbits]
  cases hempty : s.findEmptyWay cfg allowed a with
  | some w =>
    have hempty' : (s.setMSHR (cfg.geometry.mask_offset a)
        (some (e.copyData cfg.geometry.m_block_size d))).findEmptyWay cfg allowed a = some w := hempty
    obtain ⟨s₁, hs₁, hputs, hqueue⟩ := hwritten.inv.writeCacheLine (a := a)
      (e := e.copyData cfg.geometry.m_block_size d) (by simp [DataHandler.setMSHR]) rfl hempty'
    refine ⟨_, by simp only [evictFor, hempty', hs₁, Option.map_some], hputs.inv, (hwritten.trans hputs).block, hqueue⟩
  | none =>
    have hempty' : (s.setMSHR (cfg.geometry.mask_offset a)
        (some (e.copyData cfg.geometry.m_block_size d))).findEmptyWay cfg allowed a = none := hempty
    obtain ⟨hlt, hallowed⟩ := cfg.policy.candidate_allowed s.policy (cfg.geometry.calculate_set a) allowed hsome
    generalize hchoice : cfg.policy.getReplacementCandidate s.policy (cfg.geometry.calculate_set a) allowed = choice
      at hlt hallowed
    let s₁ : DataHandler σ ρ := { s.setMSHR (cfg.geometry.mask_offset a)
      (some (e.copyData cfg.geometry.m_block_size d)) with policy := choice.2 }
    have hs₁ : s.Puts cfg a (some ((e.copyData cfg.geometry.m_block_size d).storedAt .mshr)) s₁ :=
      hwritten.of_eq rfl rfl rfl
    obtain ⟨hmask, hvictim, hmoved, hqueue⟩ := hs₁.inv.moveLine2WB hlt
      (findEmptyWay_eq_none.1 hempty' _ hlt hallowed) rfl
    have hne : ¬ cfg.geometry.mask_offset (cfg.geometry.calculate_address
        (s₁.m_cache (cfg.geometry.calculate_set a) choice.1).tag (cfg.geometry.calculate_set a)) =
          cfg.geometry.mask_offset a := by
      intro heq
      rw [block_eq_of_mask heq, hs₁.block] at hvictim
      simp [Geometry.replaced, CacheEntry.storedAt] at hvictim
    obtain ⟨s₃, hs₃, hputs, hqueue'⟩ := hmoved.inv.writeCacheLine (a := a)
      (e := e.copyData cfg.geometry.m_block_size d)
      (by simp [s₁, DataHandler.moveLine2WB, DataHandler.setMSHR, DataHandler.setPWB, DataHandler.setWay]) rfl
      (findEmptyWay_moveLine2WB hempty' hlt hallowed)
    refine ⟨s₃.setMSHR (cfg.geometry.mask_offset a) none, ?_, hputs.inv, hmask, ?_, ?_, hqueue'.trans hqueue⟩
    · have hevict : (s.setMSHR (cfg.geometry.mask_offset a)
          (some (e.copyData cfg.geometry.m_block_size d))).evictFor cfg allowed a =
            s₁.moveLine2WB cfg (cfg.geometry.calculate_set a) choice.1 := by
        simp only [evictFor, hempty', s₁, ← hchoice]
        rfl
      rw [hevict, hs₃]
      rfl
    · rw [hs₁.block, Geometry.replaced, if_neg hne] at hvictim
      exact hvictim
    · have hcache : s₁.m_cache = s.m_cache := rfl
      rw [hputs.block, hmoved.block, hs₁.block]
      funext b
      simp only [Geometry.replaced, hcache]
      split_ifs <;> rfl

/-- Bytes are written into a block that is held. -/
theorem Inv.modifyData (h : Inv cfg s) (hs : s.modifyData cfg a d = some s') :
    s' = s ∨ ∃ st bytes, s.block cfg a = some st ∧ s.Puts cfg a (some { st with m_data := some bytes }) s' ∧
      s'.m_pwb_pending_issue = s.m_pwb_pending_issue := by
  rw [DataHandler.modifyData] at hs
  split at hs
  · exact .inl (Option.some.inj hs).symm
  · next p hfind =>
    split_ifs at hs
    · split at hs
      · simp at hs
      · next bytes hbytes =>
        dsimp only at hs
        split_ifs at hs
        obtain rfl := Option.some.inj hs
        obtain ⟨e, he, hdata⟩ := Option.bind_eq_some_iff.1 hbytes
        have hp := h.findline_eq_some.1 hfind
        have hb : s.block cfg a = some (e.storedAt p) := h.block_eq_some.2 ⟨hp, by simp [CacheEntry.storedAt, he]⟩
        have hv : e.bits.valid = true := by
          cases p with
          | way w =>
            obtain rfl : s.m_cache (cfg.geometry.calculate_set a) w = e := by simpa [lineAt] using he
            exact (wayHolds_iff.1 hp.2).1
          | mshr => exact (h.mshr _ e he).2.1
          | pwb => exact (h.pwb _ e he).2.1
        have hputs := h.modifyLine (f := fun e => { e with
          m_data := some (overwrite bytes (a.toNat % cfg.geometry.m_block_size) d) }) hp he rfl fun _ => hv
        rw [if_pos hv] at hputs
        refine .inr ⟨_, _, hb, hputs.of_eq ?_ ?_ ?_, ?_⟩ <;> cases p <;> rfl
    · exact .inl (Option.some.inj hs).symm

/-- Reading changes no block. -/
theorem readCacheLine_eq : ∃ policy ready,
    s.readCacheLine cfg a = { s with policy := policy, m_ready_cycle := ready } := by
  rw [readCacheLine]
  split
  · exact ⟨_, _, rfl⟩
  · next p _ =>
    split_ifs
    · cases p <;> exact ⟨_, _, rfl⟩
    · exact ⟨_, _, rfl⟩

end DataHandler

namespace HandlerCall

variable {σ : Type}

/-- A call is about a block. -/
def About (g : Geometry) (b : BitVec 64) : HandlerCall σ → Prop
  | .updateLine a _ | .updateBits a _ | .updateData a _ | .modifyData a _ | .readLine a =>
    g.mask_offset b = g.mask_offset a
  | .popPendingWB | .updateCycle _ => False

/-- A call makes the bits of a block invalid. -/
def Invalidates (g : Geometry) (b : BitVec 64) : HandlerCall σ → Prop
  | .updateLine a line | .updateBits a line => g.mask_offset b = g.mask_offset a ∧ line.valid = false
  | _ => False

end HandlerCall

namespace DataHandler

variable {σ ρ : Type} {cfg : HandlerConfig σ ρ} {s s' : DataHandler σ ρ} {c : HandlerCall σ}

/-- What a call does to the blocks and to the queue of write-backs. -/
inductive CallEffect (cfg : HandlerConfig σ ρ) (s : DataHandler σ ρ) (c : HandlerCall σ) (s' : DataHandler σ ρ) : Prop
  | keep (hblock : s'.block cfg = s.block cfg) (hqueue : s'.m_pwb_pending_issue = s.m_pwb_pending_issue)
    (hpop : c ≠ .popPendingWB)
  | pop (v : BitVec 64) (hcall : c = .popPendingWB) (hblock : s'.block cfg = s.block cfg)
    (hqueue : s.m_pwb_pending_issue = v :: s'.m_pwb_pending_issue)
  | change (a : BitVec 64) (st st' : Stored σ) (habout : c.About cfg.geometry a) (hold : s.block cfg a = some st)
    (hplace : st'.place = st.place) (hblock : s'.block cfg = cfg.geometry.replaced (s.block cfg) a (some st'))
    (hqueue : s'.m_pwb_pending_issue = s.m_pwb_pending_issue)
  | enter (a : BitVec 64) (line : GenericCacheLine σ) (habout : c.About cfg.geometry a) (hold : s.block cfg a = none)
    (hblock : s'.block cfg = cfg.geometry.replaced (s.block cfg) a (some ⟨.mshr, line, none⟩))
    (hqueue : s'.m_pwb_pending_issue = s.m_pwb_pending_issue)
  | erase (a : BitVec 64) (habout : c.About cfg.geometry a) (hinvalid : c.Invalidates cfg.geometry a)
    (hblock : s'.block cfg = cfg.geometry.replaced (s.block cfg) a none)
    (hqueue : s'.m_pwb_pending_issue = s.m_pwb_pending_issue)
  | fill (a : BitVec 64) (data : List UInt8) (st : Stored σ) (habout : c.About cfg.geometry a)
    (hold : s.block cfg a = some st) (hplace : st.place = .mshr) (hfilled : s.Filled cfg cfg.m_all_mask a st.bits data s')

/-- A call keeps the invariant and has one of the effects. -/
theorem Inv.call (h : Inv cfg s) (hc : s.call cfg c = some s') :
    Inv cfg s' ∧ s.CallEffect cfg c s' := by
  have hbits : ∀ {a : BitVec 64} {line : GenericCacheLine σ} {st : Stored σ} {s' : DataHandler σ ρ},
      c.About cfg.geometry a → (line.valid = false → c.Invalidates cfg.geometry a) → c ≠ .popPendingWB →
      s.block cfg a = some st →
      s.Puts cfg a (if line.valid then some { st with bits := line } else none) s' →
      s'.m_pwb_pending_issue = s.m_pwb_pending_issue → Inv cfg s' ∧ s.CallEffect cfg c s' := by
    intro a line st s' habout hinvalid hpop hold hputs hqueue
    refine ⟨hputs.inv, ?_⟩
    cases hv : line.valid with
    | true => exact .change a st { st with bits := line } habout hold rfl (by simpa [hv] using hputs.block) hqueue
    | false => exact .erase a habout (hinvalid hv) (by simpa [hv] using hputs.block) hqueue
  cases c with
  | updateLine a line =>
    rw [DataHandler.call] at hc
    cases hold : s.block cfg a with
    | none =>
      rw [h.updateLineBits_of_none hold] at hc
      obtain rfl := Option.some.inj hc
      cases hv : line.valid with
      | true =>
        have hputs := h.writeLine2MSHR hold hv
        refine ⟨hputs.inv, .enter a line rfl hold hputs.block ?_⟩
        simp [DataHandler.writeLine2MSHR, hv, DataHandler.setMSHR]
      | false =>
        have heq : s.writeLine2MSHR cfg a line = s := by simp [DataHandler.writeLine2MSHR, hv]
        rw [heq]
        exact ⟨h, .keep rfl rfl (by simp)⟩
    | some st =>
      obtain ⟨s₁, hs₁, hputs, hqueue⟩ := h.updateLineBits (l := line) hold
      rw [hs₁] at hc
      obtain rfl := Option.some.inj hc
      exact hbits rfl (fun hv => ⟨rfl, hv⟩) (by simp) hold hputs hqueue
  | updateBits a line =>
    rw [DataHandler.call] at hc
    obtain rfl := Option.some.inj hc
    cases hold : s.block cfg a with
    | none =>
      rw [h.updateLineBits_of_none hold]
      exact ⟨h, .keep rfl rfl (by simp)⟩
    | some st =>
      obtain ⟨s₁, hs₁, hputs, hqueue⟩ := h.updateLineBits (l := line) hold
      rw [hs₁]
      exact hbits rfl (fun hv => ⟨rfl, hv⟩) (by simp) hold hputs hqueue
  | updateData a data =>
    rw [DataHandler.call] at hc
    cases hold : s.block cfg a with
    | none =>
      have hnone := h.block_eq_none.1 hold
      have hfindway : s.findway cfg a = none :=
        Option.eq_none_iff_forall_ne_some.2 fun w hw => hnone _ (h.findway_eq_some.1 hw)
      have hmshr : s.m_miss_status_holding_regs (cfg.geometry.mask_offset a) = none := by
        simpa [HeldAt] using hnone .mshr
      have hpwb : s.m_pending_write_back_regs (cfg.geometry.mask_offset a) = none := by
        simpa [HeldAt] using hnone .pwb
      simp [DataHandler.updateLineData, hfindway, hmshr, hpwb] at hc
    | some st =>
      cases hplace : st.place with
      | way w =>
        obtain ⟨hputs, hqueue⟩ := h.updateLineData_way hold hplace hc
        exact ⟨hputs.inv, .change a st { st with m_data := some (data.take cfg.geometry.m_block_size) } rfl hold rfl
          hputs.block hqueue⟩
      | mshr =>
        obtain ⟨s₁, hs₁, hinv, hfilled⟩ := h.updateLineData_mshr (d := data) hold hplace cfg.exists_way
        obtain rfl := Option.some.inj (hs₁.symm.trans hc)
        exact ⟨hinv, .fill a _ st rfl hold hplace hfilled⟩
      | pwb =>
        obtain ⟨s₁, hs₁, hputs, hqueue⟩ := h.updateLineData_pwb (d := data) hold hplace
        obtain rfl := Option.some.inj (hs₁.symm.trans hc)
        exact ⟨hputs.inv, .change a st { st with m_data := some (data.take cfg.geometry.m_block_size) } rfl hold rfl
          hputs.block hqueue⟩
  | modifyData a data =>
    obtain rfl | ⟨st, bytes, hold, hputs, hqueue⟩ := h.modifyData hc
    · exact ⟨h, .keep rfl rfl (by simp)⟩
    · exact ⟨hputs.inv, .change a st { st with m_data := some bytes } rfl hold rfl hputs.block hqueue⟩
  | readLine a =>
    obtain rfl := Option.some.inj hc
    obtain ⟨policy, ready, heq⟩ := @readCacheLine_eq _ _ cfg s a
    rw [heq]
    exact ⟨⟨h.unique, h.addressed, h.mshr, h.pwb⟩, .keep rfl rfl (by simp)⟩
  | popPendingWB =>
    rw [DataHandler.call] at hc
    split at hc
    · simp at hc
    · next v rest hqueue =>
      obtain rfl := Option.some.inj hc
      exact ⟨⟨h.unique, h.addressed, h.mshr, h.pwb⟩, .pop v rfl rfl hqueue⟩
  | updateCycle cycle =>
    obtain rfl := Option.some.inj hc
    exact ⟨⟨h.unique, h.addressed, h.mshr, h.pwb⟩, .keep rfl rfl (by simp)⟩

end DataHandler

end Octopus
