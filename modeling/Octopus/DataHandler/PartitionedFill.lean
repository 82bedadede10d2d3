import Mathlib.Data.List.Find
import Octopus.DataHandler.History
import Octopus.DataHandler.WayPartition

/-!
# Fills of a partitioned cache

The data handler under a way partition: the controller names the requester of a fill, and the fill
looks for an empty way and for a victim among the requester's ways. A fill changes one way of the
array, which is one of the requester's, exactly if the specification leaves the requester a way.
-/

namespace Octopus

/-- The parameters of a data handler with a way partition, whose masks have 32 bits. -/
structure PartitionConfig (σ ρ : Type) extends HandlerConfig σ ρ where
  /-- The policy before the first access: its records, or the numbers it will draw. -/
  firstPolicy : ρ
  ways_le : geometry.m_ways_count ≤ 32

namespace DataHandler

variable {σ ρ : Type} {cfg : HandlerConfig σ ρ} {allowed : Nat → Bool} {s : DataHandler σ ρ} {a : BitVec 64}
  {d : List UInt8} {e : CacheEntry σ} {w : Nat}

/-- The array after a line with bytes is written to the empty way that is found. -/
theorem writeCacheLine_m_cache (hmshr : (s.m_miss_status_holding_regs (cfg.geometry.mask_offset a)).isSome)
    (hdata : e.m_data.isSome) (hw : s.findEmptyWay cfg allowed a = some w) :
    ∃ s', s.writeCacheLine cfg allowed a e = some s' ∧
      s'.m_cache = (s.setWay (cfg.geometry.calculate_set a) w
        ⟨e.bits, cfg.geometry.calculate_tag a, e.m_data⟩).m_cache := by
  refine ⟨_, writeCacheLine_eq hmshr hdata hw, ?_⟩
  have hline : { (s.m_cache (cfg.geometry.calculate_set a) w).assign e with tag := cfg.geometry.calculate_tag a } =
      (⟨e.bits, cfg.geometry.calculate_tag a, e.m_data⟩ : CacheEntry σ) := by
    simp [CacheEntry.assign, hdata]
  rw [← hline]
  rfl

/-- A fill succeeds if it may take a way, and changes one of the ways that it may take. -/
theorem updateLineData_m_cache (hsome : ∃ w < cfg.geometry.m_ways_count, allowed w = true)
    (hway : s.findway cfg a = none)
    (he : s.m_miss_status_holding_regs (cfg.geometry.mask_offset a) = some e) :
    ∃ s' w, s.updateLineData cfg allowed a d = some s' ∧ w < cfg.geometry.m_ways_count ∧
      allowed w = true ∧ s'.m_cache = (s.setWay (cfg.geometry.calculate_set a) w
        ⟨e.bits, cfg.geometry.calculate_tag a, some (d.take cfg.geometry.m_block_size)⟩).m_cache := by
  let e' := e.copyData cfg.geometry.m_block_size d
  let s₁ := s.setMSHR (cfg.geometry.mask_offset a) (some e')
  have hmshr : (s₁.m_miss_status_holding_regs (cfg.geometry.mask_offset a)).isSome := by
    simp [s₁, setMSHR]
  simp only [updateLineData, hway, he]
  cases hempty : s.findEmptyWay cfg allowed a with
  | some w =>
    have hempty' : s₁.findEmptyWay cfg allowed a = some w := hempty
    obtain ⟨hlt, hallowed, -⟩ := findEmptyWay_eq_some hempty
    obtain ⟨s', hs', hcache⟩ := writeCacheLine_m_cache (e := e') hmshr rfl hempty'
    refine ⟨s'.setMSHR (cfg.geometry.mask_offset a) none, w, ?_, hlt, hallowed, hcache⟩
    have hevict : s₁.evictFor cfg allowed a = s₁ := by simp only [evictFor, hempty']
    rw [hevict, hs']
    rfl
  | none =>
    have hempty' : s₁.findEmptyWay cfg allowed a = none := hempty
    obtain ⟨hlt, hallowed⟩ := cfg.policy.candidate_allowed s.policy (cfg.geometry.calculate_set a) allowed hsome
    generalize hchoice : cfg.policy.getReplacementCandidate s.policy (cfg.geometry.calculate_set a) allowed = choice
      at hlt hallowed
    let s₂ : DataHandler σ ρ :=
      { s₁ with policy := choice.2 }.moveLine2WB cfg (cfg.geometry.calculate_set a) choice.1
    have hevict : s₁.evictFor cfg allowed a = s₂ := by
      have hpolicy : s₁.policy = s.policy := rfl
      simp only [evictFor, hempty', hpolicy, hchoice, s₂]
    obtain ⟨s', hs', hcache⟩ := writeCacheLine_m_cache (s := s₂) (e := e') hmshr rfl
      (findEmptyWay_moveLine2WB (s := { s₁ with policy := choice.2 }) hempty' hlt hallowed)
    refine ⟨s'.setMSHR (cfg.geometry.mask_offset a) none, choice.1, ?_, hlt, hallowed, ?_⟩
    · rw [hevict, hs']
      rfl
    · have hset : (s'.setMSHR (cfg.geometry.mask_offset a) none).m_cache = s'.m_cache := rfl
      rw [hset, hcache]
      funext set w
      simp only [setWay_m_cache, s₂, moveLine2WB]
      split_ifs with heq
      · rfl
      · rfl

/-- A fill fails if it may take no way. -/
theorem updateLineData_of_none (hnone : ∀ w < cfg.geometry.m_ways_count, allowed w = false)
    (hway : s.findway cfg a = none)
    (he : s.m_miss_status_holding_regs (cfg.geometry.mask_offset a) = some e) :
    s.updateLineData cfg allowed a d = none := by
  have hempty : ∀ s : DataHandler σ ρ, s.findEmptyWay cfg allowed a = none := by
    intro s
    refine findEmptyWay_eq_none.2 fun w hw hallowed => ?_
    simp [hnone w hw] at hallowed
  simp only [updateLineData, hway, he, writeCacheLine, hempty]
  simp

end DataHandler

/-- The calls of a controller, which names the requester of a fill before it. -/
inductive PartitionCall (σ : Type)
  | setRequester (core : Int)
  | call (c : HandlerCall σ)

/-- A data handler with a way partition; the requester `-1` is nobody. -/
structure PartitionedHandler (σ ρ : Type) where
  handler : DataHandler σ ρ
  m_requester : Int

namespace PartitionedHandler

variable {σ ρ : Type} (cfg : PartitionConfig σ ρ)

/-- A call; `none` where the controller exits. -/
def step (m : WayMasks) (t : PartitionedHandler σ ρ) : PartitionCall σ → Option (PartitionedHandler σ ρ)
  | .setRequester core => some { t with m_requester := core }
  | .call (.updateData address data) =>
    (t.handler.updateLineData cfg.toHandlerConfig (m.allowedWays t.m_requester).getLsbD address data).map
      fun s => { t with handler := s }
  | .call c => (t.handler.call cfg.toHandlerConfig c).map fun s => { t with handler := s }

/-- The runs of a data handler with a way partition. -/
def system (m : WayMasks) : Lib.TransitionSystem (PartitionedHandler σ ρ) (PartitionCall σ) where
  init t := t = ⟨DataHandler.start cfg.toHandlerConfig cfg.firstPolicy, -1⟩
  step t c t' := t.step cfg m c = some t'

/--
Every fill for a core, in any run under a specification: the fill succeeds, and it changes one way
of the array, which the specification gives to the core.
-/
def Isolated (spec : List Char) (core : Nat) : Prop :=
  ∃ entries m, readEntries spec = some entries ∧ WayMasks.ofEntries cfg.geometry.m_ways_count entries = some m ∧
    ∀ t, (system cfg m).Reachable t → t.m_requester = core →
      ∀ address data e, t.handler.findway cfg.toHandlerConfig address = none →
        t.handler.m_miss_status_holding_regs (cfg.geometry.mask_offset address) = some e →
        ∃ t' w, t.step cfg m (.call (.updateData address data)) = some t' ∧
          w < cfg.geometry.m_ways_count ∧ Given cfg.geometry.m_ways_count entries core w ∧
          t'.handler.m_cache = (t.handler.setWay (cfg.geometry.calculate_set address) w
            ⟨e.bits, cfg.geometry.calculate_tag address, some (data.take cfg.geometry.m_block_size)⟩).m_cache

variable {cfg} {spec : List Char} {core : Nat} {entries : List PartitionEntry} {m : WayMasks}

/-- Without a specification a call is one of the data handler that knows of none, whoever asks for it. -/
theorem step_unpartitioned (t : PartitionedHandler σ ρ) (c : HandlerCall σ) :
    t.step cfg (WayMasks.unpartitioned cfg.geometry.m_ways_count) (.call c) =
      (t.handler.call cfg.toHandlerConfig c).map fun s => { t with handler := s } := by
  have hall : ((WayMasks.unpartitioned cfg.geometry.m_ways_count).allowedWays t.m_requester).getLsbD =
      cfg.m_all_mask := by
    funext w
    have hmask : (WayMasks.unpartitioned cfg.geometry.m_ways_count).allowedWays t.m_requester =
        (WayMasks.unpartitioned cfg.geometry.m_ways_count).m_all_mask := by
      simp [WayMasks.allowedWays, WayMasks.unpartitioned]
    rw [hmask, WayMasks.getLsbD_all cfg.ways_le]
    rfl
  cases c with
  | updateData address data =>
    rw [step, hall]
    rfl
  | _ => rfl

/-- The specification leaves a core a way, unless the entry of the core names none of the cache. -/
theorem exists_given (hways : 0 < cfg.geometry.m_ways_count)
    (h : ∀ e, entryOf entries core = some e → ∃ w < cfg.geometry.m_ways_count, e.names w = true) :
    ∃ w < cfg.geometry.m_ways_count, Given cfg.geometry.m_ways_count entries core w := by
  cases hentry : entryOf entries core with
  | some e =>
    obtain ⟨w, hw, hname⟩ := h e hentry
    exact ⟨w, hw, by simpa [Given, hentry] using hname⟩
  | none =>
    by_cases hclaimed : ∀ w' < cfg.geometry.m_ways_count, ∃ e ∈ entries, e.names w' = true
    · exact ⟨0, hways, by simpa [Given, hentry] using .inr (.inr hclaimed)⟩
    · push Not at hclaimed
      obtain ⟨w, hw, hfree⟩ := hclaimed
      exact ⟨w, hw, by simpa [Given, hentry] using .inr (.inl (by simpa using hfree))⟩

/-- An empty array holds no block. -/
theorem findway_of_empty {cfg : HandlerConfig σ ρ} {s : DataHandler σ ρ}
    (hempty : ∀ set w, (s.m_cache set w).bits.valid = false) (a : BitVec 64) : s.findway cfg a = none := by
  rw [DataHandler.findway, List.find?_eq_none]
  intro w _
  simp [DataHandler.wayHolds, hempty]

/-- In an isolated cache the entry of the core names a way. -/
theorem Isolated.exists_names (h : Isolated cfg spec core) (hread : readEntries spec = some entries)
    {e : PartitionEntry} (he : entryOf entries core = some e) :
    ∃ w < cfg.geometry.m_ways_count, e.names w = true := by
  obtain ⟨entries', m, hread', hm, hfill⟩ := h
  obtain rfl := Option.some.inj (hread.symm.trans hread')
  by_contra hnames
  push Not at hnames
  have hnone : ∀ w < cfg.geometry.m_ways_count, (m.allowedWays core).getLsbD w = false := by
    intro w hw
    have hgiven := WayMasks.getLsbD_allowedWays cfg.ways_le hm core hw
    rw [Given, he] at hgiven
    exact Bool.eq_false_iff.2 fun hallowed => hnames w hw (hgiven.1 hallowed)
  -- the core misses on block 0 of an empty cache
  let start : PartitionedHandler σ ρ := ⟨DataHandler.start cfg.toHandlerConfig cfg.firstPolicy, -1⟩
  let named : PartitionedHandler σ ρ := { start with m_requester := core }
  let missed : PartitionedHandler σ ρ :=
    { named with handler := named.handler.writeLine2MSHR cfg.toHandlerConfig 0 ⟨true, cfg.initial, none⟩ }
  have hnamed : (system cfg m).Reachable named :=
    (Lib.TransitionSystem.Reachable.init rfl).step (l := .setRequester core) rfl
  have hfind : named.handler.findline cfg.toHandlerConfig 0 = none := by
    rw [DataHandler.findline, findway_of_empty fun _ _ => rfl]
    rfl
  have hmissed : (system cfg m).Reachable missed := by
    refine hnamed.step (l := .call (.updateLine 0 ⟨true, cfg.initial, none⟩)) ?_
    simp only [system, step, DataHandler.call, DataHandler.updateLineBits, hfind]
    rfl
  have hcache : missed.handler.m_cache = start.handler.m_cache := rfl
  have hway : missed.handler.findway cfg.toHandlerConfig 0 = none :=
    findway_of_empty (fun _ _ => by rw [hcache]; rfl) 0
  have hmshr : missed.handler.m_miss_status_holding_regs (cfg.geometry.mask_offset 0) =
      some ⟨⟨true, cfg.initial, none⟩, BitVec.allOnes 64, none⟩ := by
    simp [missed, named, start, DataHandler.writeLine2MSHR, DataHandler.setMSHR, DataHandler.start, CacheEntry.empty]
  obtain ⟨t', w, hstep, -⟩ := hfill missed hmissed rfl 0 [] _ hway hmshr
  have hfail : missed.handler.updateLineData cfg.toHandlerConfig (m.allowedWays missed.m_requester).getLsbD 0 [] =
      none := DataHandler.updateLineData_of_none hnone hway hmshr
  rw [step, hfail] at hstep
  simp at hstep

/--
The fills for a core succeed and stay within its ways exactly if the specification has a defined
meaning and the last entry that lists the core, if there is one, names a way of the cache.
-/
theorem isolated_iff (cfg : PartitionConfig σ ρ) (spec : List Char) (core : Nat) :
    Isolated cfg spec core ↔ ∃ entries, readEntries spec = some entries ∧ (∀ e ∈ entries, e.defined = true) ∧
      ∀ e, entryOf entries core = some e → ∃ w < cfg.geometry.m_ways_count, e.names w = true := by
  constructor
  · intro h
    have hentries := h
    obtain ⟨entries, m, hread, hm, -⟩ := hentries
    refine ⟨entries, hread, ?_, fun e he => h.exists_names hread he⟩
    have hsome : (WayMasks.ofEntries cfg.geometry.m_ways_count entries).isSome = true := by simp [hm]
    rw [WayMasks.isSome_ofEntries] at hsome
    simpa using hsome
  · rintro ⟨entries, hread, hdefined, hnames⟩
    have hsome : (WayMasks.ofEntries cfg.geometry.m_ways_count entries).isSome = true := by
      rw [WayMasks.isSome_ofEntries]
      simpa using hdefined
    obtain ⟨m, hm⟩ := Option.isSome_iff_exists.1 hsome
    refine ⟨entries, m, hread, hm, fun t _ hcore address data e hway he => ?_⟩
    obtain ⟨w, hw, hgiven⟩ := exists_given cfg.geometry.ways_pos hnames
    have hallowed : (m.allowedWays t.m_requester).getLsbD w = true := by
      rw [hcore]
      exact (WayMasks.getLsbD_allowedWays cfg.ways_le hm core hw).2 hgiven
    obtain ⟨s', v, hs', hv, hvallowed, hcache⟩ :=
      DataHandler.updateLineData_m_cache (d := data) ⟨w, hw, hallowed⟩ hway he
    refine ⟨{ t with handler := s' }, v, by simp [step, hs'], hv, ?_, hcache⟩
    rw [hcore] at hvallowed
    exact (WayMasks.getLsbD_allowedWays cfg.ways_le hm core hv).1 hvallowed

/-- A cache with one set of two ways under LRU. -/
def twoWays : PartitionConfig Bool (BitVec 64 → List Nat) where
  geometry := ⟨2, 1, 2, 1, 0, rfl, rfl, Nat.le_of_ble_eq_true rfl, Nat.two_pos⟩
  initial := false
  m_data_access_latency := 0
  m_data_array_pipelined := false
  policy := ReplacementPolicy.leastRecentlyUsed 2
  firstPolicy := fun _ => []
  ways_le := Nat.le_of_ble_eq_true rfl

/-- Way 2 is outside a cache of two ways: the core that owns it alone cannot fill. -/
theorem not_isolated_outside_way : ¬ Isolated twoWays "0:2".toList 0 := by
  intro h
  have hread : readEntries "0:2".toList = some [⟨0, 0, 2, 2⟩] := by decide
  have hentry : entryOf [⟨0, 0, 2, 2⟩] 0 = some ⟨0, 0, 2, 2⟩ := by decide
  obtain ⟨w, hw, hname⟩ := h.exists_names hread hentry
  have hlt : w < 2 := hw
  simp only [PartitionEntry.names, Bool.and_eq_true, decide_eq_true_eq] at hname
  omega

end PartitionedHandler

end Octopus
