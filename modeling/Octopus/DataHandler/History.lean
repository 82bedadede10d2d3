import Mathlib.Data.List.Nodup
import Octopus.DataHandler.Calls

/-!
# The history of a data handler

Runs of a data handler under the calls of its controller, with two histories: the blocks that have
entered the write-back buffer and the addresses that have been handed out. No block is lost and
every entry is handed out once, in order.
-/

namespace Octopus

namespace DataHandler

variable {σ ρ : Type} {cfg : HandlerConfig σ ρ} {s s' : DataHandler σ ρ} {c : HandlerCall σ} {b v : BitVec 64}

/-- The first state satisfies the invariant. -/
theorem inv_start (policy : ρ) : Inv cfg (start cfg policy) where
  unique _ _ _ _ _ hv := by simp [start, CacheEntry.empty] at hv
  addressed _ _ _ hv := by simp [start, CacheEntry.empty] at hv
  mshr _ _ he := by simp [start] at he
  pwb _ _ he := by simp [start] at he

/-- The write-back buffer has an entry for a block if the block is held there. -/
theorem Inv.buffered_iff (h : Inv cfg s) : (s.m_pending_write_back_regs v).isSome ↔
    cfg.geometry.mask_offset v = v ∧ ∃ st, s.block cfg v = some st ∧ st.place = .pwb := by
  constructor
  · intro hv
    obtain ⟨e, he⟩ := Option.isSome_iff_exists.1 hv
    have hmask := (h.pwb v e he).1
    have hheld : s.HeldAt cfg v .pwb := by simpa [HeldAt, hmask] using hv
    exact ⟨hmask, e.storedAt .pwb, h.block_eq_some.2 ⟨hheld, by simp [CacheEntry.storedAt, lineAt, hmask, he]⟩, rfl⟩
  · rintro ⟨hmask, st, hst, hplace⟩
    have hheld := h.heldAt_of_block hst
    rw [hplace] at hheld
    simpa [HeldAt, hmask] using hheld

/-- A block enters the write-back buffer with a call. -/
def Enters (s s' : DataHandler σ ρ) (v : BitVec 64) : Prop :=
  s.m_pending_write_back_regs v = none ∧ (s'.m_pending_write_back_regs v).isSome

/-- A block that enters the write-back buffer was not held there. -/
theorem Inv.enters_iff (h : Inv cfg s) (h' : Inv cfg s') : s.Enters s' v ↔
    (∀ st, s.block cfg v = some st → st.place ≠ .pwb) ∧ cfg.geometry.mask_offset v = v ∧
      ∃ st, s'.block cfg v = some st ∧ st.place = .pwb := by
  rw [Enters, h'.buffered_iff, ← Option.isNone_iff_eq_none, ← Option.not_isSome, Bool.not_eq_true', ← Bool.not_eq_true,
    h.buffered_iff]
  constructor
  · rintro ⟨hbefore, hmask, hafter⟩
    exact ⟨fun st hst hplace => hbefore ⟨hmask, st, hst, hplace⟩, hmask, hafter⟩
  · rintro ⟨hbefore, hmask, hafter⟩
    exact ⟨fun hst => hst.2.elim fun st hst => hbefore st hst.1 hst.2, hmask, hafter⟩

/-- A block that changes somewhere else than in the write-back buffer enters nothing. -/
theorem not_enters_of_replaced (h : Inv cfg s) (h' : Inv cfg s') {a : BitVec 64} {o : Option (Stored σ)}
    (hblock : s'.block cfg = cfg.geometry.replaced (s.block cfg) a o)
    (hplace : ∀ st ∈ o, st.place = .pwb → ∃ st', s.block cfg a = some st' ∧ st'.place = .pwb) : ¬ s.Enters s' v := by
  rw [h.enters_iff h']
  rintro ⟨hbefore, -, st, hst, hpwb⟩
  rw [hblock, Geometry.replaced] at hst
  split_ifs at hst with hv
  · obtain ⟨st', hst', hpwb'⟩ := hplace st hst hpwb
    exact hbefore st' (block_eq_of_mask hv ▸ hst') hpwb'
  · exact hbefore st hst hpwb

/-- A fill has no victim, or one that was in the array. -/
theorem Filled.cases {allowed : Nat → Bool} {a : BitVec 64} {bits : GenericCacheLine σ} {data : List UInt8} {st : Stored σ}
    (h : s.Filled cfg allowed a bits data s') (hold : s.block cfg a = some st) (hplace : st.place = .mshr) :
    (∃ w, s'.block cfg = cfg.geometry.replaced (s.block cfg) a (some ⟨.way w, bits, some data⟩) ∧
      s'.m_pwb_pending_issue = s.m_pwb_pending_issue) ∨
    ∃ v w, ∃ victim : CacheEntry σ, cfg.geometry.mask_offset v = v ∧
      cfg.geometry.mask_offset v ≠ cfg.geometry.mask_offset a ∧ s.block cfg v = some (victim.storedAt (.way w)) ∧
      s'.block cfg = cfg.geometry.replaced (cfg.geometry.replaced (s.block cfg) v (some (victim.storedAt .pwb))) a
        (some ⟨.way w, bits, some data⟩) ∧
      s'.m_pwb_pending_issue = s.m_pwb_pending_issue ++ [v] := by
  rw [Filled] at h
  dsimp only at h
  split at h
  · exact .inl ⟨_, h⟩
  · obtain ⟨hmask, hvictim, hblock, hqueue⟩ := h
    refine .inr ⟨_, _, _, hmask, fun heq => ?_, hvictim, hblock, hqueue⟩
    rw [block_eq_of_mask heq, hold] at hvictim
    simp [Option.some.inj hvictim, CacheEntry.storedAt] at hplace

/-- The addresses a call hands out. -/
def handedOut (s : DataHandler σ ρ) : HandlerCall σ → List (BitVec 64)
  | .popPendingWB => s.m_pwb_pending_issue.head?.toList
  | _ => []

/-- A call that is about a block hands nothing out. -/
theorem handedOut_of_about (h : c.About cfg.geometry b) : s.handedOut c = [] := by
  cases c with
  | popPendingWB => exact h.elim
  | _ => rfl

/-- The queue of the write-backs grows by the blocks that enter, and shrinks by those handed out. -/
theorem Inv.queue (h : Inv cfg s) (h' : Inv cfg s') (heffect : s.CallEffect cfg c s') :
    ∃ o : Option (BitVec 64), (∀ v, v ∈ o ↔ s.Enters s' v) ∧
      s.handedOut c ++ s'.m_pwb_pending_issue = s.m_pwb_pending_issue ++ o.toList := by
  -- nothing enters unless a victim moves to the write-back buffer
  have hquiet : (∀ v, ¬ s.Enters s' v) → s.handedOut c ++ s'.m_pwb_pending_issue = s.m_pwb_pending_issue →
      ∃ o : Option (BitVec 64), (∀ v, v ∈ o ↔ s.Enters s' v) ∧
        s.handedOut c ++ s'.m_pwb_pending_issue = s.m_pwb_pending_issue ++ o.toList :=
    fun hnone hqueue => ⟨none, fun v => by simp [hnone v], by simpa using hqueue⟩
  have hsame : s'.block cfg = s.block cfg → ∀ v, ¬ s.Enters s' v := by
    intro hblock v
    rw [h.enters_iff h', hblock]
    rintro ⟨hbefore, -, st, hst, hplace⟩
    exact hbefore st hst hplace
  cases heffect with
  | keep hblock hqueue hpop =>
    have hhanded : s.handedOut c = [] := by
      cases c with
      | popPendingWB => exact absurd rfl hpop
      | _ => rfl
    exact hquiet (hsame hblock) (by simp [hhanded, hqueue])
  | pop v hcall hblock hqueue =>
    exact hquiet (hsame hblock) (by simp [hcall, handedOut, hqueue])
  | change a st st' habout hold hplace hblock hqueue =>
    refine hquiet (fun v => not_enters_of_replaced h h' hblock ?_) (by simp [handedOut_of_about habout, hqueue])
    intro st'' hst'' hpwb
    obtain rfl := Option.some.inj hst''
    exact ⟨st, hold, hplace ▸ hpwb⟩
  | enter a line habout hold hblock hqueue =>
    refine hquiet (fun v => not_enters_of_replaced h h' hblock ?_) (by simp [handedOut_of_about habout, hqueue])
    rintro st hst hpwb
    obtain rfl := Option.some.inj hst
    simp at hpwb
  | erase a habout hinvalid hblock hqueue =>
    exact hquiet (fun v => not_enters_of_replaced h h' hblock (by simp)) (by simp [handedOut_of_about habout, hqueue])
  | fill a data st habout hold hplace hfilled =>
    obtain ⟨w, hblock, hqueue⟩ | ⟨v, w, victim, hmask, hne, hvictim, hblock, hqueue⟩ := hfilled.cases hold hplace
    · refine hquiet (fun v => not_enters_of_replaced h h' hblock ?_) (by simp [handedOut_of_about habout, hqueue])
      rintro st' hst' hpwb
      obtain rfl := Option.some.inj hst'
      simp at hpwb
    · refine ⟨some v, fun u => ?_, by rw [handedOut_of_about habout, List.nil_append, hqueue]; rfl⟩
      rw [h.enters_iff h', Option.mem_some_iff, eq_comm, hblock]
      constructor
      · rintro rfl
        refine ⟨fun st' hst' hpwb => ?_, hmask, victim.storedAt .pwb, ?_, rfl⟩
        · rw [hvictim] at hst'
          obtain rfl := Option.some.inj hst'
          simp [CacheEntry.storedAt] at hpwb
        · simp [Geometry.replaced, hne]
      · rintro ⟨hbefore, hu, st', hst', hpwb⟩
        simp only [Geometry.replaced] at hst'
        split_ifs at hst' with hua huv
        · obtain rfl := Option.some.inj hst'
          simp at hpwb
        · rw [← hu, huv, hmask]
        · exact absurd hpwb (hbefore st' hst')

/-- A block stays held unless its bits turn invalid; other calls leave its bits and bytes alone. -/
theorem CallEffect.kept (heffect : s.CallEffect cfg c s') {st : Stored σ} (hst : s.block cfg b = some st)
    (hvalid : ¬ c.Invalidates cfg.geometry b) :
    ∃ st', s'.block cfg b = some st' ∧ (st.place = .pwb → st'.place = .pwb) ∧
      (¬ c.About cfg.geometry b → st'.bits = st.bits ∧ st'.m_data = st.m_data) := by
  have hother : ∀ {a : BitVec 64}, c.About cfg.geometry a → cfg.geometry.mask_offset b = cfg.geometry.mask_offset a →
      c.About cfg.geometry b := by
    intro a habout hb
    cases c <;> simp_all [HandlerCall.About]
  cases heffect with
  | keep hblock | pop _ _ hblock =>
    rw [hblock]
    exact ⟨st, hst, id, fun _ => ⟨rfl, rfl⟩⟩
  | change a old new habout hold hplace hblock =>
    rw [hblock, Geometry.replaced]
    split_ifs with hb
    · rw [block_eq_of_mask hb, hold] at hst
      obtain rfl := Option.some.inj hst
      exact ⟨new, rfl, fun hpwb => hplace.trans hpwb, fun hnot => absurd (hother habout hb) hnot⟩
    · exact ⟨st, hst, id, fun _ => ⟨rfl, rfl⟩⟩
  | enter a line habout hold hblock =>
    rw [hblock, Geometry.replaced, if_neg]
    · exact ⟨st, hst, id, fun _ => ⟨rfl, rfl⟩⟩
    · intro hb
      rw [block_eq_of_mask hb, hold] at hst
      simp at hst
  | erase a habout hinvalid hblock =>
    rw [hblock, Geometry.replaced, if_neg]
    · exact ⟨st, hst, id, fun _ => ⟨rfl, rfl⟩⟩
    · intro hb
      refine hvalid ?_
      cases c <;> simp_all [HandlerCall.Invalidates]
  | fill a data old habout hold hplace hfilled =>
    obtain ⟨w, hblock, -⟩ | ⟨v, w, victim, -, -, hvictim, hblock, -⟩ := hfilled.cases hold hplace
    · rw [hblock, Geometry.replaced]
      split_ifs with hb
      · rw [block_eq_of_mask hb, hold] at hst
        obtain rfl := Option.some.inj hst
        exact ⟨_, rfl, fun hpwb => by simp [hplace] at hpwb, fun hnot => absurd (hother habout hb) hnot⟩
      · exact ⟨st, hst, id, fun _ => ⟨rfl, rfl⟩⟩
    · rw [hblock]
      simp only [Geometry.replaced]
      split_ifs with hb hv
      · rw [block_eq_of_mask hb, hold] at hst
        obtain rfl := Option.some.inj hst
        exact ⟨_, rfl, fun hpwb => by simp [hplace] at hpwb, fun hnot => absurd (hother habout hb) hnot⟩
      · rw [block_eq_of_mask hv, hvictim] at hst
        obtain rfl := Option.some.inj hst
        exact ⟨_, rfl, fun _ => rfl, fun _ => ⟨rfl, rfl⟩⟩
      · exact ⟨st, hst, id, fun _ => ⟨rfl, rfl⟩⟩

end DataHandler

/-- A data handler with the blocks that have entered its write-back buffer and those handed out. -/
structure HandlerHistory (σ ρ : Type) where
  handler : DataHandler σ ρ
  entered : List (BitVec 64)
  handed : List (BitVec 64)

namespace HandlerHistory

variable {σ ρ : Type} {cfg : HandlerConfig σ ρ} {t : HandlerHistory σ ρ}

/-- The runs of a data handler: a call extends the two histories by what enters and what it hands out. -/
def system (cfg : HandlerConfig σ ρ) : Lib.TransitionSystem (HandlerHistory σ ρ) (HandlerCall σ) where
  init t := ∃ policy, t = ⟨DataHandler.start cfg policy, [], []⟩
  step t c t' := t.handler.call cfg c = some t'.handler ∧
    (∃ vs : List (BitVec 64), vs.Nodup ∧ (∀ v, v ∈ vs ↔ t.handler.Enters t'.handler v) ∧
      t'.entered = t.entered ++ vs) ∧
    t'.handed = t.handed ++ t.handler.handedOut c

/-- A list without repetitions that has the elements of an option. -/
theorem eq_toList_of_nodup {α : Type} {l : List α} {o : Option α} (hnodup : l.Nodup)
    (hmem : ∀ x, x ∈ l ↔ x ∈ o) : l = o.toList := by
  cases o with
  | none => exact List.eq_nil_iff_forall_not_mem.2 fun x hx => by simpa using (hmem x).1 hx
  | some y =>
    refine List.perm_singleton.1 ((List.perm_ext_iff_of_nodup hnodup (List.nodup_singleton y)).2 fun x => ?_)
    rw [hmem, List.mem_singleton, Option.mem_some_iff, eq_comm]

/-- The invariant holds along every run, and what has entered is handed out in order or queued. -/
theorem inv_inductive :
    (system cfg).Inductive fun t => DataHandler.Inv cfg t.handler ∧
      t.entered = t.handed ++ t.handler.m_pwb_pending_issue where
  init := by
    rintro t ⟨policy, rfl⟩
    exact ⟨DataHandler.inv_start policy, rfl⟩
  step := by
    rintro t c t' - ⟨hinv, hqueue⟩ ⟨hcall, ⟨vs, hnodup, hmem, hentered⟩, hhanded⟩
    obtain ⟨hinv', heffect⟩ := hinv.call hcall
    obtain ⟨o, hmem', hqueue'⟩ := hinv.queue hinv' heffect
    obtain rfl : vs = o.toList :=
      eq_toList_of_nodup hnodup fun v => (hmem v).trans (hmem' v).symm
    refine ⟨hinv', ?_⟩
    rw [hentered, hqueue, hhanded, List.append_assoc, List.append_assoc, hqueue']

/-- Every call is a step. -/
theorem exists_step (hr : (system cfg).Reachable t) {c : HandlerCall σ} {s' : DataHandler σ ρ}
    (hc : t.handler.call cfg c = some s') : ∃ t', (system cfg).step t c t' ∧ t'.handler = s' := by
  obtain ⟨hinv, -⟩ := inv_inductive.reachable hr
  obtain ⟨hinv', heffect⟩ := hinv.call hc
  obtain ⟨o, hmem, -⟩ := hinv.queue hinv' heffect
  refine ⟨⟨s', t.entered ++ o.toList, t.handed ++ t.handler.handedOut c⟩, ⟨hc, ⟨o.toList, ?_, fun v => ?_, rfl⟩, rfl⟩, rfl⟩
  · cases o <;> simp
  · exact Option.mem_toList.trans (hmem v)

/-- A run of calls from the first state. -/
def run (cfg : HandlerConfig σ ρ) (s : DataHandler σ ρ) (calls : List (HandlerCall σ)) : Option (DataHandler σ ρ) :=
  calls.foldlM (fun s c => s.call cfg c) s

/-- Every run of calls has a history. -/
theorem exists_history (hr : (system cfg).Reachable t) {calls : List (HandlerCall σ)} {s' : DataHandler σ ρ}
    (hrun : run cfg t.handler calls = some s') : ∃ t', (system cfg).Reachable t' ∧ t'.handler = s' := by
  induction calls generalizing t with
  | nil => exact ⟨t, hr, by simpa [run] using hrun⟩
  | cons c calls ih =>
    simp only [run, List.foldlM_cons, Option.bind_eq_bind, Option.bind_eq_some_iff] at hrun
    obtain ⟨s₁, hs₁, hrest⟩ := hrun
    obtain ⟨t₁, hstep, rfl⟩ := exists_step hr hs₁
    exact ih (hr.step hstep) hrest

/--
Along every run a block is in one place, what has entered the write-back buffer is handed out
once and in order or is still queued, a fill succeeds and moves at most one victim, and a block
stays held unless a call makes its bits invalid; in the write-back buffer it stays there.
-/
theorem keeps_blocks (hr : (system cfg).Reachable t) :
    (∀ a p q, t.handler.HeldAt cfg a p → t.handler.HeldAt cfg a q → p = q) ∧
    t.entered = t.handed ++ t.handler.m_pwb_pending_issue ∧
    (∀ a data st, t.handler.block cfg a = some st → st.place = .mshr →
      ∃ s', t.handler.call cfg (.updateData a data) = some s' ∧
        t.handler.Filled cfg cfg.m_all_mask a st.bits (data.take cfg.geometry.m_block_size) s') ∧
    ∀ c s', t.handler.call cfg c = some s' → ∀ b st, t.handler.block cfg b = some st →
      ¬ c.Invalidates cfg.geometry b → ∃ st', s'.block cfg b = some st' ∧ (st.place = .pwb → st'.place = .pwb) ∧
        (¬ c.About cfg.geometry b → st'.bits = st.bits ∧ st'.m_data = st.m_data) := by
  obtain ⟨hinv, hentered⟩ := inv_inductive.reachable hr
  refine ⟨fun a p q hp hq => hinv.one_place hp hq, hentered, fun a data st hst hplace => ?_,
    fun c s' hc b st hst hvalid => (hinv.call hc).2.kept hst hvalid⟩
  obtain ⟨s', hs', -, hfilled⟩ := hinv.updateLineData_mshr (d := data) hst hplace cfg.exists_way
  exact ⟨s', hs', hfilled⟩

/-- A cache of one way, with sets of two lines of two bytes. -/
def oneWay : HandlerConfig Bool (BitVec 64 → List Nat) where
  geometry := ⟨2, 2, 1, 1, 1, by decide, by decide, by decide, by decide⟩
  initial := false
  m_data_access_latency := 0
  m_data_array_pipelined := false
  policy := ReplacementPolicy.leastRecentlyUsed 1

/-- Two fills of one set: the second one moves the line of the first to the write-back buffer. -/
def twoFills : List (HandlerCall Bool) :=
  [.updateLine 4 ⟨true, true, none⟩, .updateData 4 [7, 8], .updateLine 12 ⟨true, true, some 3⟩, .updateData 12 [9]]

/-- What was proved holds after two fills of one set. -/
theorem keeps_blocks_twoFills : ∃ t : HandlerHistory Bool (BitVec 64 → List Nat),
    run oneWay (DataHandler.start oneWay fun _ => []) twoFills = some t.handler ∧
      (∀ a p q, t.handler.HeldAt oneWay a p → t.handler.HeldAt oneWay a q → p = q) ∧
      t.entered = t.handed ++ [4] ∧ t.handler.block oneWay 5 = some ⟨.pwb, ⟨true, true, none⟩, some [7, 8]⟩ ∧
      ∃ s', t.handler.call oneWay .popPendingWB = some s' ∧
        ∃ st, s'.block oneWay 5 = some st ∧ st.place = .pwb ∧ st.m_data = some [7, 8] := by
  have hsome : (run oneWay (DataHandler.start oneWay fun _ => []) twoFills).any fun s =>
      s.m_pwb_pending_issue == [4] && s.block oneWay 5 == some ⟨.pwb, ⟨true, true, none⟩, some [7, 8]⟩ := by
    decide
  obtain ⟨s, hs, hstate⟩ := (Option.any_eq_true _ _).1 hsome
  simp only [Bool.and_eq_true, beq_iff_eq] at hstate
  obtain ⟨hpending, hblock⟩ := hstate
  obtain ⟨t, hr, rfl⟩ := exists_history (t := ⟨DataHandler.start oneWay fun _ => [], [], []⟩) (.init ⟨_, rfl⟩) hs
  obtain ⟨hone, hentered, -, hkept⟩ := keeps_blocks hr
  have hpop : t.handler.call oneWay .popPendingWB = some { t.handler with m_pwb_pending_issue := [] } := by
    simp only [DataHandler.call, hpending]
  obtain ⟨st, hst, hplace, hbytes⟩ := hkept .popPendingWB _ hpop 5 _ hblock (by simp [HandlerCall.Invalidates])
  exact ⟨t, hs, hone, hpending ▸ hentered, hblock, _, hpop, st, hst, hplace rfl,
    (hbytes (by simp [HandlerCall.About])).2⟩

end HandlerHistory

end Octopus
