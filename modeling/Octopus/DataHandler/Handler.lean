import Octopus.CacheLine
import Octopus.DataHandler.Geometry

/-!
# The data handler of a cache

`CacheDataHandler_COTS` keeps a block in the cache array, in a miss status holding register or in
the pending write-back buffer. An operation that the controller answers with an exit is `none`.
-/

namespace Octopus

/-- `GenericCacheLine` with its tag and its bytes, which may not be allocated yet. -/
structure CacheEntry (σ : Type) where
  bits : GenericCacheLine σ
  tag : BitVec 64
  m_data : Option (List UInt8)

namespace CacheEntry

variable {σ : Type}

/-- The line a controller constructs: no tag, no owner, no bytes. -/
def empty (initial : σ) : CacheEntry σ := ⟨⟨false, initial, none⟩, BitVec.allOnes 64, none⟩

/-- `operator=`: the bits, and the bytes if there are any; the tag stays. -/
def assign (e other : CacheEntry σ) : CacheEntry σ :=
  { e with bits := other.bits, m_data := if other.m_data.isSome then other.m_data else e.m_data }

/-- `copyData`: a block of bytes. -/
def copyData (e : CacheEntry σ) (blockSize : Nat) (data : List UInt8) : CacheEntry σ :=
  { e with m_data := some (data.take blockSize) }

end CacheEntry

/--
A replacement policy of a cache with a number of ways. A mask tells whether a way may be evicted: the
test `allowed & (1u << way)`.
-/
structure ReplacementPolicy (ρ : Type) (ways : Nat) where
  update : ρ → BitVec 64 → Nat → Nat → ρ
  /-- The way to evict from a set. -/
  getReplacementCandidate : ρ → BitVec 64 → (Nat → Bool) → Nat × ρ
  /-- An allowed way is chosen, if there is one. -/
  candidate_allowed : ∀ r set allowed, (∃ w < ways, allowed w = true) →
    (getReplacementCandidate r set allowed).1 < ways ∧ allowed (getReplacementCandidate r set allowed).1 = true

namespace ReplacementPolicy

/-- The choice without a mask: the least of the stamps a set has. -/
def oldest (stamps : List Nat) : Nat :=
  (List.range stamps.length).foldl (fun best i => if stamps[i]?.getD 0 < stamps[best]?.getD 0 then i else best) 0

/-- One round of the search for the allowed way with the least stamp, a way without one counting as 0. -/
def olderAllowed (stamps : List Nat) (allowed : Nat → Bool) (best : Option Nat) (i : Nat) : Option Nat :=
  if allowed i then
    match best with
    | none => some i
    | some b => if stamps[i]?.getD 0 < stamps[b]?.getD 0 then some i else some b
  else best

/-- The allowed way with the least stamp. -/
def oldestAllowed (stamps : List Nat) (ways : Nat) (allowed : Nat → Bool) : Option Nat :=
  (List.range ways).foldl (olderAllowed stamps allowed) none

/-- The search ends at an allowed way if it meets one. -/
theorem foldl_olderAllowed {stamps : List Nat} {allowed : Nat → Bool} {l : List Nat} {best : Option Nat}
    (hbest : ∀ b ∈ best, allowed b = true) (h : best.isSome ∨ ∃ i ∈ l, allowed i = true) :
    ∃ b, l.foldl (olderAllowed stamps allowed) best = some b ∧ allowed b = true ∧ (b ∈ l ∨ b ∈ best) := by
  induction l generalizing best with
  | nil =>
    obtain ⟨b, rfl⟩ := Option.isSome_iff_exists.1 (by simpa using h)
    exact ⟨b, rfl, hbest b rfl, .inr rfl⟩
  | cons i l ih =>
    have hnext : ∀ b ∈ olderAllowed stamps allowed best i, allowed b = true ∧ (b = i ∨ b ∈ best) := by
      intro b hb
      rw [olderAllowed.eq_def] at hb
      split_ifs at hb with hi
      · cases best with
        | none =>
          obtain rfl := Option.some.inj hb
          exact ⟨hi, .inl rfl⟩
        | some b' =>
          dsimp only at hb
          split_ifs at hb
          · obtain rfl := Option.some.inj hb
            exact ⟨hi, .inl rfl⟩
          · exact ⟨hbest b hb, .inr hb⟩
      · exact ⟨hbest b hb, .inr hb⟩
    have hsome : (olderAllowed stamps allowed best i).isSome ∨ ∃ j ∈ l, allowed j = true := by
      rw [olderAllowed.eq_def]
      by_cases hi : allowed i = true
      · left
        rw [if_pos hi]
        cases best with
        | none => rfl
        | some b =>
          dsimp only
          split_ifs <;> rfl
      · rw [if_neg hi]
        refine h.imp_right ?_
        rintro ⟨j, hj, hallowed⟩
        rcases List.mem_cons.1 hj with rfl | hj
        · exact absurd hallowed hi
        · exact ⟨j, hj, hallowed⟩
    obtain ⟨b, hfold, hallowed, hmem⟩ := ih (fun b hb => (hnext b hb).1) hsome
    refine ⟨b, hfold, hallowed, ?_⟩
    rcases hmem with hmem | hmem
    · exact .inl (List.mem_cons_of_mem i hmem)
    · rcases (hnext b hmem).2 with rfl | hb
      · exact .inl List.mem_cons_self
      · exact .inr hb

/--
`LeastRecentlyUsed`: the cycles of the last accesses of a set's ways. Without an allowed way it takes
the oldest way it has a record of.
-/
def leastRecentlyUsed (ways : Nat) : ReplacementPolicy (BitVec 64 → List Nat) ways where
  update r set way cycle := fun other =>
    if other = set then if way < (r set).length then (r set).set way cycle else r set ++ [cycle] else r other
  getReplacementCandidate r set allowed := ((oldestAllowed (r set) ways allowed).getD (oldest (r set)), r)
  candidate_allowed r set allowed := by
    rintro ⟨w, hw, hallowed⟩
    obtain ⟨b, hfold, hb, hmem⟩ := @foldl_olderAllowed (r set) allowed (List.range ways) none (by simp)
      (.inr ⟨w, List.mem_range.2 hw, hallowed⟩)
    have hlt : b < ways := by simpa using hmem
    rw [oldestAllowed, hfold]
    exact ⟨hlt, hb⟩

/-- `Random`, drawing from a sequence of numbers; without an allowed way it draws from all ways. -/
def random (ways : Nat) : ReplacementPolicy (Nat → Nat) ways where
  update r _ _ _ := r
  getReplacementCandidate r _ allowed :=
    let choices := (List.range ways).filter allowed
    (if choices.isEmpty then r 0 % ways else choices[r 0 % choices.length]?.getD 0, fun i => r (i + 1))
  candidate_allowed r set allowed := by
    rintro ⟨w, hw, hallowed⟩
    have hmem : w ∈ (List.range ways).filter allowed := by simp [hw, hallowed]
    generalize hchoices : (List.range ways).filter allowed = choices at hmem
    have hpos := List.length_pos_of_mem hmem
    have hne : choices.isEmpty = false := by simpa using List.ne_nil_of_mem hmem
    have hlt := Nat.mod_lt (r 0) hpos
    have hget : choices[r 0 % choices.length]?.getD 0 ∈ choices := by
      rw [List.getElem?_eq_getElem hlt, Option.getD_some]
      exact List.getElem_mem hlt
    simp only [hne, Bool.false_eq_true, if_false]
    rw [← hchoices] at hget
    rw [← hchoices]
    simpa using hget

end ReplacementPolicy

/-- The parameters of a data handler. -/
structure HandlerConfig (σ ρ : Type) where
  geometry : Geometry
  initial : σ
  m_data_access_latency : Nat
  m_data_array_pipelined : Bool
  policy : ReplacementPolicy ρ geometry.m_ways_count

/--
`m_all_mask`: every way of the cache. The source keeps a mask in 32 bits, so its masks are these up to
32 ways; from the way 32 on its test `1u << way` is undefined.
-/
def HandlerConfig.m_all_mask {σ ρ : Type} (cfg : HandlerConfig σ ρ) (w : Nat) : Bool := w < cfg.geometry.m_ways_count

/-- Without a partition there is a way to take. -/
theorem HandlerConfig.exists_way {σ ρ : Type} (cfg : HandlerConfig σ ρ) :
    ∃ w < cfg.geometry.m_ways_count, cfg.m_all_mask w = true :=
  ⟨0, cfg.geometry.ways_pos, decide_eq_true cfg.geometry.ways_pos⟩

/-- The state of a data handler: the array by set and way, the two buffers by block address. -/
structure DataHandler (σ ρ : Type) where
  m_cache : BitVec 64 → Nat → CacheEntry σ
  m_miss_status_holding_regs : BitVec 64 → Option (CacheEntry σ)
  m_pending_write_back_regs : BitVec 64 → Option (CacheEntry σ)
  /-- The evicted addresses whose write-back has not been issued. -/
  m_pwb_pending_issue : List (BitVec 64)
  policy : ρ
  m_cycle : Nat
  m_ready_cycle : Nat

/-- Where `findline` finds a block. -/
inductive FoundAt
  | way (w : Nat)
  | mshr
  | pwb
  deriving DecidableEq, Repr

namespace DataHandler

variable {σ ρ : Type} (cfg : HandlerConfig σ ρ) (s : DataHandler σ ρ)

/-- Whether a way of a block's set holds the block. -/
def wayHolds (address : BitVec 64) (w : Nat) : Bool :=
  (s.m_cache (cfg.geometry.calculate_set address) w).bits.valid &&
    (s.m_cache (cfg.geometry.calculate_set address) w).tag == cfg.geometry.calculate_tag address

/-- `CacheDataHandler::findline`: the way that holds a block. -/
def findway (address : BitVec 64) : Option Nat :=
  (List.range cfg.geometry.m_ways_count).find? (s.wayHolds cfg address)

/-- `CacheDataHandler_COTS::findline`: the array first, then the two buffers. -/
def findline (address : BitVec 64) : Option FoundAt :=
  match s.findway cfg address with
  | some w => some (.way w)
  | none =>
    if (s.m_miss_status_holding_regs (cfg.geometry.mask_offset address)).isSome then some .mshr
    else if (s.m_pending_write_back_regs (cfg.geometry.mask_offset address)).isSome then some .pwb
    else none

/-- Write an entry of the array. -/
def setWay (set : BitVec 64) (w : Nat) (e : CacheEntry σ) : DataHandler σ ρ :=
  { s with m_cache := Function.update s.m_cache set (Function.update (s.m_cache set) w e) }

/-- Write or erase a holding register. -/
def setMSHR (block : BitVec 64) (e : Option (CacheEntry σ)) : DataHandler σ ρ :=
  { s with m_miss_status_holding_regs := Function.update s.m_miss_status_holding_regs block e }

/-- Write or erase an entry of the write-back buffer. -/
def setPWB (block : BitVec 64) (e : Option (CacheEntry σ)) : DataHandler σ ρ :=
  { s with m_pending_write_back_regs := Function.update s.m_pending_write_back_regs block e }

/-- Change the line a block was found at. -/
def modifyLine (address : BitVec 64) (f : CacheEntry σ → CacheEntry σ) : FoundAt → DataHandler σ ρ
  | .way w =>
    s.setWay (cfg.geometry.calculate_set address) w (f (s.m_cache (cfg.geometry.calculate_set address) w))
  | .mshr =>
    s.setMSHR (cfg.geometry.mask_offset address)
      ((s.m_miss_status_holding_regs (cfg.geometry.mask_offset address)).map f)
  | .pwb =>
    s.setPWB (cfg.geometry.mask_offset address)
      ((s.m_pending_write_back_regs (cfg.geometry.mask_offset address)).map f)

/-- The line a block was found at. -/
def lineAt (address : BitVec 64) : FoundAt → Option (CacheEntry σ)
  | .way w => some (s.m_cache (cfg.geometry.calculate_set address) w)
  | .mshr => s.m_miss_status_holding_regs (cfg.geometry.mask_offset address)
  | .pwb => s.m_pending_write_back_regs (cfg.geometry.mask_offset address)

/-- `isReady` for an address: the two buffers always are, the array when it is not busy. -/
def isReady (address : BitVec 64) : Bool :=
  (s.m_miss_status_holding_regs (cfg.geometry.mask_offset address)).isSome ||
    (s.m_pending_write_back_regs (cfg.geometry.mask_offset address)).isSome ||
    cfg.m_data_array_pipelined || s.m_ready_cycle ≤ s.m_cycle

/-- The array is busy for its latency, unless it is pipelined. -/
def occupy : DataHandler σ ρ :=
  { s with m_ready_cycle :=
      if cfg.m_data_array_pipelined then s.m_ready_cycle else s.m_cycle + cfg.m_data_access_latency }

/-- Tell the replacement policy of an access; it ignores accesses to the two buffers. -/
def touch (address : BitVec 64) : FoundAt → DataHandler σ ρ
  | .way w => { s with policy := cfg.policy.update s.policy (cfg.geometry.calculate_set address) w s.m_cycle }
  | _ => s

/-- `CacheDataHandler_COTS::updateLineBits`: a buffered line whose bits turn invalid is erased. -/
def updateLineBits (address : BitVec 64) (line : GenericCacheLine σ) : Bool × DataHandler σ ρ :=
  let block := cfg.geometry.mask_offset address
  match s.findline cfg address with
  | none => (false, s)
  | some found =>
    let s' := s.modifyLine cfg address (fun e => { e with bits := line }) found
    match s'.findline cfg address with
    | some .mshr | some .pwb =>
      if line.valid then (true, s')
      else if (s'.m_miss_status_holding_regs block).isSome then (true, s'.setMSHR block none)
      else if (s'.m_pending_write_back_regs block).isSome then (true, s'.setPWB block none)
      else (true, s')
    | _ => (true, s')

/-- `writeLine2MSHR`. -/
def writeLine2MSHR (address : BitVec 64) (line : GenericCacheLine σ) : DataHandler σ ρ :=
  let block := cfg.geometry.mask_offset address
  if line.valid then
    s.setMSHR block
      (some { (s.m_miss_status_holding_regs block).getD (CacheEntry.empty cfg.initial) with bits := line })
  else s

/-- `findEmptyWay`: an empty way among the allowed ones. -/
def findEmptyWay (allowed : Nat → Bool) (address : BitVec 64) : Option Nat :=
  (List.range cfg.geometry.m_ways_count).find? fun w =>
    allowed w && !(s.m_cache (cfg.geometry.calculate_set address) w).bits.valid

/-- `moveLine2WB`: move a line of the array to the write-back buffer and queue its write-back. -/
def moveLine2WB (set : BitVec 64) (w : Nat) : DataHandler σ ρ :=
  let line := s.m_cache set w
  let wb_address := cfg.geometry.calculate_address line.tag set
  let buffered := (s.m_pending_write_back_regs wb_address).getD (CacheEntry.empty cfg.initial)
  { (s.setPWB wb_address (some (buffered.assign line))).setWay set w
      { line with bits := { line.bits with valid := false } } with
    m_pwb_pending_issue := s.m_pwb_pending_issue ++ [wb_address] }

/-- Make room in a set that has no empty way among the allowed ones. -/
def evictFor (allowed : Nat → Bool) (address : BitVec 64) : DataHandler σ ρ :=
  match s.findEmptyWay cfg allowed address with
  | some _ => s
  | none =>
    let set := cfg.geometry.calculate_set address
    let choice := cfg.policy.getReplacementCandidate s.policy set allowed
    { s with policy := choice.2 }.moveLine2WB cfg set choice.1

/-- `writeCacheLine` for a line that is ready: into an empty way among the allowed ones, if there is one. -/
def writeCacheLine (allowed : Nat → Bool) (address : BitVec 64) (line : CacheEntry σ) : Option (DataHandler σ ρ) :=
  let set := cfg.geometry.calculate_set address
  if s.isReady cfg address then
    (s.findEmptyWay cfg allowed address).map fun w =>
      let s' := if line.m_data.isSome then s.occupy cfg else s
      (s'.setWay set w { (s'.m_cache set w).assign line with tag := cfg.geometry.calculate_tag address }).touch
        cfg address (.way w)
  else none

/-- `CacheDataHandler_COTS::updateLineData` under a mask; the controller exits if it fails. -/
def updateLineData (allowed : Nat → Bool) (address : BitVec 64) (data : List UInt8) : Option (DataHandler σ ρ) :=
  let block := cfg.geometry.mask_offset address
  match s.findway cfg address with
  | some w =>
    if s.isReady cfg address then
      some (((s.modifyLine cfg address (·.copyData cfg.geometry.m_block_size data) (.way w)).occupy cfg).touch
        cfg address (.way w))
    else none
  | none =>
    match s.m_miss_status_holding_regs block with
    | some e =>
      let e' := e.copyData cfg.geometry.m_block_size data
      (((s.setMSHR block (some e')).evictFor cfg allowed address).writeCacheLine cfg allowed address
        e').map fun s' => s'.setMSHR block none
    | none =>
      match s.m_pending_write_back_regs block with
      | some e => some (s.setPWB block (some (e.copyData cfg.geometry.m_block_size data)))
      | none => none

/-- `modifyData`; writing to a line without bytes, or over the end of a block, ends the run. -/
def modifyData (address : BitVec 64) (data : List UInt8) : Option (DataHandler σ ρ) :=
  match s.findline cfg address with
  | none => some s
  | some found =>
    if s.isReady cfg address then
      match (s.lineAt cfg address found).bind (·.m_data) with
      | none => none
      | some bytes =>
        let offset := address.toNat % cfg.geometry.m_block_size
        if offset + data.length ≤ bytes.length then
          some (((s.modifyLine cfg address (fun e => { e with m_data := some (overwrite bytes offset data) })
            found).occupy cfg).touch cfg address found)
        else none
    else some s

/-- `readCacheLine`: what is read does not matter here. -/
def readCacheLine (address : BitVec 64) : DataHandler σ ρ :=
  match s.findline cfg address with
  | none => s
  | some found => if s.isReady cfg address then (s.occupy cfg).touch cfg address found else s

/-- The first state: an empty cache. -/
def start (policy : ρ) : DataHandler σ ρ where
  m_cache _ _ := CacheEntry.empty cfg.initial
  m_miss_status_holding_regs _ := none
  m_pending_write_back_regs _ := none
  m_pwb_pending_issue := []
  policy := policy
  m_cycle := 0
  m_ready_cycle := 0

end DataHandler

/-- The calls a cache controller makes. -/
inductive HandlerCall (σ : Type)
  /-- The bits of a line, which enters a holding register if the block is found nowhere. -/
  | updateLine (address : BitVec 64) (line : GenericCacheLine σ)
  /-- The bits of a line whose bytes follow. -/
  | updateBits (address : BitVec 64) (line : GenericCacheLine σ)
  | updateData (address : BitVec 64) (data : List UInt8)
  | modifyData (address : BitVec 64) (data : List UInt8)
  | readLine (address : BitVec 64)
  /-- The oldest address of the pending write-backs is handed out. -/
  | popPendingWB
  | updateCycle (cycle : Nat)

/--
A call, with no way partition, so that a fill may take every way; `none` where the controller exits or
has nothing to call for.
-/
def DataHandler.call {σ ρ : Type} (cfg : HandlerConfig σ ρ) (s : DataHandler σ ρ) :
    HandlerCall σ → Option (DataHandler σ ρ)
  | .updateLine address line =>
    match s.updateLineBits cfg address line with
    | (true, s') => some s'
    | (false, s') => some (s'.writeLine2MSHR cfg address line)
  | .updateBits address line => some (s.updateLineBits cfg address line).2
  | .updateData address data => s.updateLineData cfg cfg.m_all_mask address data
  | .modifyData address data => s.modifyData cfg address data
  | .readLine address => some (s.readCacheLine cfg address)
  | .popPendingWB =>
    match s.m_pwb_pending_issue with
    | [] => none
    | _ :: rest => some { s with m_pwb_pending_issue := rest }
  | .updateCycle cycle => some { s with m_cycle := cycle }

end Octopus
