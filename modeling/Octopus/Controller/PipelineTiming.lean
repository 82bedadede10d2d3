import Mathlib.Data.List.Nodup
import Octopus.Controller.PipelineArrivals

/-!
# The timing of the pipelined data array

The admitted accesses stand in front of the waiting ones, and both in the order of their arrival. The
admissions of a cycle are counted against the ports, and an access that waits has found them all taken.
-/

namespace Octopus

namespace PipelinedArray

variable {cfg : PipelineConfig} {s s' : PipelinedArray} {p : PipelinedAccess → Bool} {op : PipelinedAccess}
  {ops : List PipelinedAccess} {key : Nat}

/-- The cycles between the last one that ran and the present one. -/
def elapsed (phase : PipelinePhase) : Nat := if phase = .between then 1 else 0

/-- What holds of the list and of its history, the ports apart. -/
structure Listed (cfg : PipelineConfig) (s : PipelinedArray) : Prop where
  admitted_first : s.m_array_ops.Pairwise fun a b => b.admitted = true → a.admitted = true
  arrival : s.m_array_ops.Pairwise fun a b => a.op_id < b.op_id
  conserved : (List.range' 1 s.m_array_op_seq).Perm (s.completions.map (·.op_id) ++ s.m_array_ops.map (·.op_id))
  in_order : s.admissions.Pairwise fun a b => a.1 < b.1
  waiting_later : ∀ a ∈ s.admissions, ∀ op ∈ s.m_array_ops, op.admitted = false → a.1 < op.op_id
  admitted_mem : ∀ op ∈ s.m_array_ops, op.admitted = true →
    ∃ a, (op.op_id, a) ∈ s.admissions ∧ op.ready_cycle = a + cfg.m_data_access_latency
  kept : ∀ a ∈ s.admissions, (∃ x ∈ s.completions, x.op_id = a.1) ∨ ∃ op ∈ s.m_array_ops, op.op_id = a.1 ∧ op.admitted = true
  past : ∀ a ∈ s.admissions, a.2 + elapsed s.phase ≤ s.m_cache_cycle
  counter : s.m_array_admitted_this_cycle = s.admissions.countP fun a => a.2 + elapsed s.phase = s.m_cache_cycle
  ports : ∀ c, (s.admissions.countP fun a => a.2 = c) ≤ cfg.m_data_array_ports
  due : ∀ op ∈ s.m_array_ops, op.admitted = true →
    s.m_cache_cycle ≤ op.ready_cycle ∧ (s.phase ≠ .between → s.phase ≠ .stepping → s.m_cache_cycle < op.ready_cycle)
  fired : ∀ x ∈ s.completions, x.flushed = false →
    ∃ a, (x.op_id, a) ∈ s.admissions ∧ x.cycle = a + cfg.m_data_access_latency
  flushed : ∀ x ∈ s.completions, x.flushed = true → ∀ a, (x.op_id, a) ∈ s.admissions → x.cycle < a + cfg.m_data_access_latency

/-- An access waits only if the ports of the cycle are taken. -/
def Settled (cfg : PipelineConfig) (s : PipelinedArray) : Prop :=
  (∃ op ∈ s.m_array_ops, op.admitted = false) → s.m_array_admitted_this_cycle = cfg.m_data_array_ports

/-- The list in front of the oldest waiting access. -/
theorem arrayElect_eq_some (h : s.arrayElect = some op) : op.admitted = false ∧
    ∃ pre post, s.m_array_ops = pre ++ op :: post ∧ ∀ x ∈ pre, x.admitted = true := by
  obtain ⟨hop, pre, post, hops, hpre⟩ := List.find?_eq_some_iff_append.1 h
  exact ⟨by simpa using hop, pre, post, hops, by simpa using hpre⟩

/-- Admitting the oldest waiting access. -/
theorem markFirst_append {ready : Nat} {pre post : List PipelinedAccess} (hop : op.admitted = false)
    (hpre : ∀ x ∈ pre, x.admitted = true) :
    markFirst ready (pre ++ op :: post) = pre ++ { op with admitted := true, ready_cycle := ready } :: post := by
  induction pre with
  | nil => simp [markFirst, hop]
  | cons x pre ih =>
    rw [List.forall_mem_cons] at hpre
    rw [List.cons_append, markFirst, if_pos hpre.1, ih hpre.2, List.cons_append]

/-- The numbers of the accesses on the list are not those of the completed ones. -/
theorem Listed.op_id_ne (h : Listed cfg s) {x : AccessCompletion} (hx : x ∈ s.completions) (hop : op ∈ s.m_array_ops) :
    x.op_id ≠ op.op_id := by
  have hnodup := h.conserved.nodup_iff.1 (List.nodup_range' (s := 1) (n := s.m_array_op_seq))
  exact (List.nodup_append.1 hnodup).2.2 _ (List.mem_map_of_mem hx) _ (List.mem_map_of_mem hop)

/-- The oldest waiting access is admitted. -/
theorem Listed.accept (h : Listed cfg s) (hlatency : 0 < cfg.m_data_access_latency) (hphase : s.phase ≠ .between)
    (hports : s.m_array_admitted_this_cycle < cfg.m_data_array_ports) (helect : s.arrayElect = some op) :
    Listed cfg { s with
      m_array_ops := markFirst (s.m_cache_cycle + cfg.m_data_access_latency) s.m_array_ops
      m_array_admitted_this_cycle := s.m_array_admitted_this_cycle + 1
      admissions := s.admissions ++ [(op.op_id, s.m_cache_cycle)] } := by
  obtain ⟨hop, pre, post, hops, hpre⟩ := arrayElect_eq_some helect
  have hzero : elapsed s.phase = 0 := if_neg hphase
  have hmark := @markFirst_append op (s.m_cache_cycle + cfg.m_data_access_latency) pre post hop hpre
  rw [← hops] at hmark
  rw [hmark]
  have hids : (pre ++ { op with admitted := true, ready_cycle := s.m_cache_cycle + cfg.m_data_access_latency } :: post).map
      (·.op_id) = s.m_array_ops.map (·.op_id) := by
    rw [hops, List.map_append, List.map_append, List.map_cons, List.map_cons]
  have hmem : ∀ x ∈ pre ++ { op with admitted := true, ready_cycle := s.m_cache_cycle + cfg.m_data_access_latency } :: post,
      x = { op with admitted := true, ready_cycle := s.m_cache_cycle + cfg.m_data_access_latency } ∨
        x ∈ s.m_array_ops ∧ (x ∈ pre ∨ x ∈ post) := by
    intro x hx
    rw [hops]
    rcases List.mem_append.1 hx with hx | hx
    · exact .inr ⟨List.mem_append_left _ hx, .inl hx⟩
    · rcases List.mem_cons.1 hx with rfl | hx
      · exact .inl rfl
      · exact .inr ⟨List.mem_append_right _ (List.mem_cons_of_mem _ hx), .inr hx⟩
  have hopMem : op ∈ s.m_array_ops := by simp [hops]
  have hfirst := h.admitted_first
  have harrival := h.arrival
  rw [hops] at hfirst harrival
  obtain ⟨hleft, hright, hcross⟩ := List.pairwise_append.1 hfirst
  have hbehind := (List.pairwise_cons.1 (List.pairwise_append.1 harrival).2.1).1
  have hcounter := h.counter
  rw [hzero] at hcounter
  refine ⟨?_, ?_, ?_, ?_, ?_, ?_, ?_, ?_, ?_, ?_, ?_, ?_, ?_⟩
  · exact List.pairwise_append.2 ⟨hleft, List.pairwise_cons.2 ⟨fun _ _ _ => rfl, (List.pairwise_cons.1 hright).2⟩,
      fun a ha _ _ _ => hpre a ha⟩
  · rw [← List.pairwise_map (f := fun x : PipelinedAccess => x.op_id) (R := (· < ·)), hids, List.pairwise_map]
    exact h.arrival
  · dsimp only
    rw [hids]
    exact h.conserved
  · refine List.pairwise_append.2 ⟨h.in_order, List.pairwise_singleton _ _, fun a ha b hb => ?_⟩
    rw [List.mem_singleton.1 hb]
    exact h.waiting_later a ha op hopMem hop
  · intro a ha x hx hwaiting
    rcases hmem x hx with rfl | ⟨hx, hpre' | hpost⟩
    · simp at hwaiting
    · rw [hpre x hpre'] at hwaiting
      simp at hwaiting
    · rcases List.mem_append.1 ha with ha | ha
      · exact h.waiting_later a ha x hx hwaiting
      · rw [List.mem_singleton.1 ha]
        exact hbehind x hpost
  · intro x hx hadmitted
    rcases hmem x hx with rfl | ⟨hx, -⟩
    · exact ⟨s.m_cache_cycle, List.mem_append_right _ (List.mem_singleton_self _), rfl⟩
    · obtain ⟨a, ha, hready⟩ := h.admitted_mem x hx hadmitted
      exact ⟨a, List.mem_append_left _ ha, hready⟩
  · intro a ha
    rcases List.mem_append.1 ha with ha | ha
    · refine (h.kept a ha).imp_right ?_
      rintro ⟨x, hx, hid, hadmitted⟩
      refine ⟨x, ?_, hid, hadmitted⟩
      rw [hops] at hx
      rcases List.mem_append.1 hx with hx | hx
      · exact List.mem_append_left _ hx
      · rcases List.mem_cons.1 hx with rfl | hx
        · rw [hop] at hadmitted
          simp at hadmitted
        · exact List.mem_append_right _ (List.mem_cons_of_mem _ hx)
    · rw [List.mem_singleton.1 ha]
      exact .inr ⟨_, List.mem_append_right _ List.mem_cons_self, rfl, rfl⟩
  · intro a ha
    rcases List.mem_append.1 ha with ha | ha
    · exact h.past a ha
    · dsimp only
      rw [hzero, List.mem_singleton.1 ha]
      exact Nat.le_refl _
  · dsimp only
    rw [hzero, List.countP_append, hcounter]
    simp
  · intro c
    have hports' := h.ports c
    dsimp only
    rw [List.countP_append]
    by_cases hc : s.m_cache_cycle = c
    · subst hc
      simp only [Nat.add_zero] at hcounter
      rw [← hcounter]
      simp only [List.countP_singleton, decide_true, if_true]
      omega
    · simpa [hc] using hports'
  · intro x hx hadmitted
    rcases hmem x hx with rfl | ⟨hx, -⟩
    · exact ⟨Nat.le_add_right _ _, fun _ _ => Nat.lt_add_of_pos_right hlatency⟩
    · exact h.due x hx hadmitted
  · intro x hx hflushed
    obtain ⟨a, ha, hcycle⟩ := h.fired x hx hflushed
    exact ⟨a, List.mem_append_left _ ha, hcycle⟩
  · intro x hx hflushed a ha
    rcases List.mem_append.1 ha with ha | ha
    · exact h.flushed x hx hflushed a ha
    · exact absurd (Prod.mk.inj (List.mem_singleton.1 ha)).1 (h.op_id_ne hx hopMem)

/-- The admission of accesses leaves the controller where it is. -/
theorem admitUpTo_phase (n : Nat) (s : PipelinedArray) : (admitUpTo cfg n s).phase = s.phase := by
  induction n generalizing s with
  | zero => rfl
  | succ n ih =>
    rw [admitUpTo]
    split
    · rfl
    · exact ih _

/-- The admissions of a cycle stay within the ports. -/
theorem Listed.counter_le (h : Listed cfg s) (hphase : s.phase ≠ .between) :
    s.m_array_admitted_this_cycle ≤ cfg.m_data_array_ports := by
  have hcounter := h.counter
  rw [elapsed, if_neg hphase] at hcounter
  rw [hcounter]
  exact h.ports s.m_cache_cycle

/-- The loop of `arrayAdmit` ends with the ports taken or with no access waiting. -/
theorem Listed.admitUpTo (h : Listed cfg s) (hlatency : 0 < cfg.m_data_access_latency) (hphase : s.phase ≠ .between)
    {n : Nat} (hn : s.m_array_admitted_this_cycle + n = cfg.m_data_array_ports) :
    Listed cfg (admitUpTo cfg n s) ∧ Settled cfg (admitUpTo cfg n s) := by
  induction n generalizing s with
  | zero => exact ⟨h, fun _ => hn⟩
  | succ n ih =>
    rw [PipelinedArray.admitUpTo]
    cases helect : s.arrayElect with
    | none =>
      refine ⟨h, ?_⟩
      rintro ⟨op, hop, hwaiting⟩
      have hall := List.find?_eq_none.1 helect op hop
      simp [hwaiting] at hall
    | some op => exact ih (h.accept hlatency hphase (by omega) helect) hphase (by dsimp only; omega)

/-- `arrayAdmit` ends with the ports taken or with no access waiting. -/
theorem Listed.arrayAdmit (h : Listed cfg s) (hlatency : 0 < cfg.m_data_access_latency) (hphase : s.phase ≠ .between) :
    Listed cfg (arrayAdmit cfg s) ∧ Settled cfg (arrayAdmit cfg s) :=
  h.admitUpTo hlatency hphase (by have := h.counter_le hphase; omega)

/-- The numbers of the accesses so far. -/
theorem Listed.op_id_le (h : Listed cfg s) : (∀ op ∈ s.m_array_ops, op.op_id ≤ s.m_array_op_seq) ∧
    ∀ a ∈ s.admissions, a.1 ≤ s.m_array_op_seq := by
  have hle : ∀ i ∈ s.completions.map (·.op_id) ++ s.m_array_ops.map (·.op_id), i ≤ s.m_array_op_seq := by
    intro i hi
    have hrange := h.conserved.mem_iff.2 hi
    rw [List.mem_range'_1] at hrange
    omega
  refine ⟨fun op hop => hle _ (List.mem_append_right _ (List.mem_map_of_mem hop)), fun a ha => ?_⟩
  rcases h.kept a ha with ⟨x, hx, hid⟩ | ⟨op, hop, hid, -⟩
  · exact hid ▸ hle _ (List.mem_append_left _ (List.mem_map_of_mem hx))
  · exact hid ▸ hle _ (List.mem_append_right _ (List.mem_map_of_mem hop))

/-- An access arrives. -/
theorem Listed.push (h : Listed cfg s) (key : Nat) : Listed cfg { s with
    m_array_op_seq := s.m_array_op_seq + 1
    m_array_ops := s.m_array_ops ++ [{ op_id := s.m_array_op_seq + 1, key := key }] } := by
  obtain ⟨hops, hadmissions⟩ := h.op_id_le
  have hmem : ∀ {x : PipelinedAccess}, x ∈ s.m_array_ops ++ [{ op_id := s.m_array_op_seq + 1, key := key }] →
      x.admitted = true → x ∈ s.m_array_ops := by
    intro x hx hadmitted
    rcases List.mem_append.1 hx with hx | hx
    · exact hx
    · rw [List.mem_singleton.1 hx] at hadmitted
      simp at hadmitted
  refine ⟨?_, ?_, ?_, h.in_order, ?_, fun x hx hadmitted => h.admitted_mem x (hmem hx hadmitted) hadmitted, ?_, h.past,
    h.counter, h.ports, fun x hx hadmitted => h.due x (hmem hx hadmitted) hadmitted, h.fired, h.flushed⟩
  · refine List.pairwise_append.2 ⟨h.admitted_first, List.pairwise_singleton _ _, fun a _ b hb hadmitted => ?_⟩
    rw [List.mem_singleton.1 hb] at hadmitted
    simp at hadmitted
  · refine List.pairwise_append.2 ⟨h.arrival, List.pairwise_singleton _ _, fun a ha b hb => ?_⟩
    rw [List.mem_singleton.1 hb]
    exact Nat.lt_succ_of_le (hops a ha)
  · dsimp only
    rw [List.range'_1_concat, List.map_append, ← List.append_assoc, Nat.add_comm 1]
    exact h.conserved.append_right _
  · intro a ha x hx hwaiting
    rcases List.mem_append.1 hx with hx | hx
    · exact h.waiting_later a ha x hx hwaiting
    · rw [List.mem_singleton.1 hx]
      exact Nat.lt_succ_of_le (hadmissions a ha)
  · intro a ha
    refine (h.kept a ha).imp_right ?_
    rintro ⟨x, hx, hid, hadmitted⟩
    exact ⟨x, List.mem_append_left _ hx, hid, hadmitted⟩

/-- `arrayEnqueue` keeps the list. -/
theorem Listed.arrayEnqueue (h : Listed cfg s) (hlatency : 0 < cfg.m_data_access_latency) (hphase : s.phase ≠ .between)
    (key : Nat) : Listed cfg (arrayEnqueue cfg s key) ∧ Settled cfg (arrayEnqueue cfg s key) :=
  (h.push key).arrayAdmit hlatency hphase

/-- The cycle of an admission. -/
theorem Listed.admission_unique (h : Listed cfg s) {i a b : Nat} (ha : (i, a) ∈ s.admissions) (hb : (i, b) ∈ s.admissions) :
    a = b := by
  have hnodup : (s.admissions.map (·.1)).Nodup :=
    List.pairwise_map.2 (h.in_order.imp fun hlt => hlt.ne)
  exact (Prod.mk.inj (List.inj_on_of_nodup_map hnodup ha hb rfl)).2

/-- An access completes: one that is due, or one whose line is flushed. -/
theorem Listed.complete (h : Listed cfg s) {flushed : Bool} (hfind : s.m_array_ops.find? p = some op)
    (hdue : flushed = false → op.admitted = true ∧ op.ready_cycle ≤ s.m_cache_cycle)
    (hflush : flushed = true → s.phase ≠ .between ∧ s.phase ≠ .stepping) :
    Listed cfg { s with
      m_array_ops := s.m_array_ops.eraseP p
      completions := s.completions ++ [⟨op.op_id, s.m_cache_cycle, flushed⟩] } := by
  obtain ⟨hop, pre, post, hops, hpre⟩ := List.find?_eq_some_iff_append.1 hfind
  have hnot : ∀ x ∈ pre, ¬ p x = true := by simpa using hpre
  have herase : s.m_array_ops.eraseP p = pre ++ post := by
    rw [hops, List.eraseP_append_right _ hnot, List.eraseP_cons_of_pos hop]
  have hsub : (pre ++ post).Sublist s.m_array_ops := by
    rw [hops]
    exact (List.Sublist.refl pre).append (List.sublist_cons_self op post)
  have hopMem : op ∈ s.m_array_ops := by simp [hops]
  rw [herase]
  refine ⟨h.admitted_first.sublist hsub, h.arrival.sublist hsub, ?_, h.in_order,
    fun a ha x hx => h.waiting_later a ha x (hsub.subset hx), fun x hx => h.admitted_mem x (hsub.subset hx), ?_, h.past,
    h.counter, h.ports, fun x hx => h.due x (hsub.subset hx), ?_, ?_⟩
  · have hperm := h.conserved
    rw [hops, List.map_append, List.map_cons] at hperm
    refine hperm.trans ?_
    rw [List.map_append, List.map_append, List.append_assoc]
    exact List.perm_middle.append_left _
  · intro a ha
    rcases h.kept a ha with ⟨x, hx, hid⟩ | ⟨x, hx, hid, hadmitted⟩
    · exact .inl ⟨x, List.mem_append_left _ hx, hid⟩
    · rw [hops] at hx
      rcases List.mem_append.1 hx with hx | hx
      · exact .inr ⟨x, List.mem_append_left _ hx, hid, hadmitted⟩
      · rcases List.mem_cons.1 hx with rfl | hx
        · exact .inl ⟨_, List.mem_append_right _ (List.mem_singleton_self _), hid⟩
        · exact .inr ⟨x, List.mem_append_right _ hx, hid, hadmitted⟩
  · intro x hx hflushed
    rcases List.mem_append.1 hx with hx | hx
    · exact h.fired x hx hflushed
    · obtain rfl := List.mem_singleton.1 hx
      obtain ⟨hadmitted, hready⟩ := hdue hflushed
      obtain ⟨a, ha, heq⟩ := h.admitted_mem op hopMem hadmitted
      have hle := (h.due op hopMem hadmitted).1
      exact ⟨a, ha, by dsimp only; omega⟩
  · intro x hx hflushed a ha
    rcases List.mem_append.1 hx with hx | hx
    · exact h.flushed x hx hflushed a ha
    · obtain rfl := List.mem_singleton.1 hx
      cases hadmitted : op.admitted with
      | false => exact absurd (h.waiting_later _ ha op hopMem hadmitted) (lt_irrefl _)
      | true =>
        obtain ⟨b, hb, heq⟩ := h.admitted_mem op hopMem hadmitted
        obtain rfl := h.admission_unique ha hb
        have hlt := (h.due op hopMem hadmitted).2 (hflush hflushed).1 (hflush hflushed).2
        dsimp only
        omega

/-- The accesses that a completion enqueues leave the loop where it is. -/
theorem spawn_phase (spawned : List Nat) (s : PipelinedArray) : (spawned.foldl (arrayEnqueue cfg) s).phase = s.phase := by
  induction spawned generalizing s with
  | nil => rfl
  | cons key spawned ih =>
    rw [List.foldl_cons, ih, arrayEnqueue, arrayAdmit, admitUpTo_phase]

/-- The accesses that a completion enqueues. -/
theorem Listed.spawn (h : Listed cfg s) (hsettled : Settled cfg s) (hlatency : 0 < cfg.m_data_access_latency)
    (hphase : s.phase ≠ .between) (spawned : List Nat) :
    Listed cfg (spawned.foldl (PipelinedArray.arrayEnqueue cfg) s) ∧
      Settled cfg (spawned.foldl (PipelinedArray.arrayEnqueue cfg) s) := by
  induction spawned generalizing s with
  | nil => exact ⟨h, hsettled⟩
  | cons key spawned ih =>
    obtain ⟨hlisted, hsettled'⟩ := h.arrayEnqueue hlatency hphase key
    refine ih hlisted hsettled' ?_
    rw [← spawn_phase [key] s] at hphase
    exact hphase

/-- A round of a loop that completes accesses keeps the list. -/
theorem Listed.completeFirst (h : Listed cfg s) (hsettled : Settled cfg s) (hlatency : 0 < cfg.m_data_access_latency)
    (hphase : s.phase ≠ .between) {flushed : Bool} (spawned : List Nat)
    (hdue : flushed = false → s.phase = .stepping ∧ p = s.isDue) (hflush : flushed = true → s.phase ≠ .stepping) :
    Listed cfg (s.completeFirst cfg p flushed spawned) ∧ Settled cfg (s.completeFirst cfg p flushed spawned) := by
  rw [PipelinedArray.completeFirst]
  cases hfind : s.m_array_ops.find? p with
  | none =>
    have hcounter := h.counter
    have hpast := h.past
    rw [elapsed, if_neg hphase] at hcounter hpast
    refine ⟨⟨h.admitted_first, h.arrival, h.conserved, h.in_order, h.waiting_later, h.admitted_mem, h.kept, hpast, hcounter,
      h.ports, fun op hop hadmitted => ?_, h.fired, h.flushed⟩, hsettled⟩
    obtain ⟨hle, hlt⟩ := h.due op hop hadmitted
    refine ⟨hle, fun _ _ => ?_⟩
    cases flushed with
    | true => exact hlt hphase (hflush rfl)
    | false =>
      obtain ⟨-, rfl⟩ := hdue rfl
      have hnot := List.find?_eq_none.1 hfind op hop
      simp only [isDue, hadmitted, Bool.true_and, decide_eq_true_eq] at hnot
      exact Nat.lt_of_not_le hnot
  | some op =>
    have hlisted : Listed cfg { s with
        m_array_ops := s.m_array_ops.eraseP p
        completions := s.completions ++ [⟨op.op_id, s.m_cache_cycle, flushed⟩] } := by
      refine h.complete hfind (fun hflushed => ?_) fun hflushed => ⟨hphase, hflush hflushed⟩
      obtain ⟨-, rfl⟩ := hdue hflushed
      have hop := List.find?_some hfind
      simpa [isDue] using hop
    have hsettled' : Settled cfg { s with
        m_array_ops := s.m_array_ops.eraseP p
        completions := s.completions ++ [⟨op.op_id, s.m_cache_cycle, flushed⟩] } := by
      rintro ⟨x, hx, hwaiting⟩
      exact hsettled ⟨x, List.eraseP_subset hx, hwaiting⟩
    exact hlisted.spawn hsettled' hlatency hphase spawned

/-- A step keeps the list. -/
theorem Listed.step (h : Listed cfg s) (hsettled : Settled cfg s) (hlatency : 0 < cfg.m_data_access_latency)
    {l : PipelineLabel} (hstep : s.step cfg l = some s') : Listed cfg s' ∧ Settled cfg s' := by
  have hcounter := h.counter
  have hpast := h.past
  cases l with
  | cycle =>
    rw [PipelinedArray.step] at hstep
    split_ifs at hstep with hphase
    obtain rfl := Option.some.inj hstep
    rw [elapsed, if_pos hphase] at hpast
    have hnone : (s.admissions.countP fun a => a.2 + 0 = s.m_cache_cycle) = 0 := by
      rw [List.countP_eq_zero]
      intro a ha
      have hlt := hpast a ha
      simp only [decide_eq_true_eq]
      omega
    have hstart : Listed cfg { s with m_array_admitted_this_cycle := 0, phase := .stepping } :=
      ⟨h.admitted_first, h.arrival, h.conserved, h.in_order, h.waiting_later, h.admitted_mem, h.kept,
        fun a ha => (Nat.le_succ _).trans (hpast a ha), hnone.symm, h.ports,
        fun op hop hadmitted => ⟨(h.due op hop hadmitted).1, fun _ hstepping => absurd rfl hstepping⟩, h.fired, h.flushed⟩
    exact hstart.arrayAdmit hlatency (by simp)
  | fire spawned =>
    rw [PipelinedArray.step] at hstep
    split_ifs at hstep with hphase
    obtain rfl := Option.some.inj hstep
    exact h.completeFirst hsettled hlatency (by simp [hphase]) spawned (fun _ => ⟨hphase, rfl⟩) (by simp)
  | enqueue key =>
    rw [PipelinedArray.step] at hstep
    split_ifs at hstep with hphase
    obtain rfl := Option.some.inj hstep
    exact h.arrayEnqueue hlatency (by simp [hphase]) key
  | flushLine key =>
    rw [PipelinedArray.step] at hstep
    split_ifs at hstep with hphase
    obtain rfl := Option.some.inj hstep
    rw [elapsed, if_neg (by simp [hphase])] at hpast hcounter
    exact ⟨⟨h.admitted_first, h.arrival, h.conserved, h.in_order, h.waiting_later, h.admitted_mem, h.kept, hpast, hcounter,
      h.ports, fun op hop hadmitted => ⟨(h.due op hop hadmitted).1, fun _ _ =>
        (h.due op hop hadmitted).2 (by simp [hphase]) (by simp [hphase])⟩, h.fired, h.flushed⟩, hsettled⟩
  | flush spawned =>
    rw [PipelinedArray.step] at hstep
    split at hstep
    · next key hphase =>
      obtain rfl := Option.some.inj hstep
      exact h.completeFirst hsettled hlatency (by simp [hphase]) spawned (by simp) (by simp [hphase])
    · simp at hstep
  | endCycle =>
    rw [PipelinedArray.step] at hstep
    split_ifs at hstep with hphase
    obtain rfl := Option.some.inj hstep
    rw [elapsed, if_neg (by simp [hphase])] at hpast hcounter
    refine ⟨⟨h.admitted_first, h.arrival, h.conserved, h.in_order, h.waiting_later, h.admitted_mem, h.kept,
      fun a ha => Nat.succ_le_succ (hpast a ha), ?_, h.ports, fun op hop hadmitted => ?_, h.fired, h.flushed⟩, hsettled⟩
    · dsimp only
      rw [hcounter]
      exact List.countP_congr fun a _ => by simp [elapsed]
    · exact ⟨(h.due op hop hadmitted).2 (by simp [hphase]) (by simp [hphase]), fun hbetween => absurd rfl hbetween⟩

/-- The number of accesses that are due. -/
def dueNow (s : PipelinedArray) : Nat := s.m_array_ops.countP s.isDue

/-- A flush that ends leaves no access to its line. -/
theorem flush_ends {spawned : List Nat} (hstep : s.step cfg (.flush spawned) = some s') (hphase : s.phase = .flushing key)
    (hends : s'.phase ≠ s.phase) : ∀ op ∈ s'.m_array_ops, op.key ≠ key := by
  rw [step, hphase] at hstep
  obtain rfl := Option.some.inj hstep
  rw [completeFirst] at hends ⊢
  cases hfind : s.m_array_ops.find? fun op => op.key == key with
  | none =>
    intro op hop
    simpa using List.find?_eq_none.1 hfind op hop
  | some op =>
    rw [hfind] at hends
    exact absurd (spawn_phase spawned _) hends

/-! ## The timing -/

/-- The timing of the array, in a state of a run with its history. -/
structure Timing (cfg : PipelineConfig) (history : List (PipelinedArray × PipelineLabel)) (s : PipelinedArray) : Prop where
  /-- There are at most as many admissions in a cycle as there are ports. -/
  ports : ∀ c, (s.admissions.countP fun a => a.2 = c) ≤ cfg.m_data_array_ports
  /-- Every access that arrived is on the list or completed, once; accesses are numbered in the order of arrival. -/
  conserved : (List.range' 1 (arrived history).length).Perm
    (s.completions.map (·.op_id) ++ s.m_array_ops.map (·.op_id))
  /-- An access on the list is to the line that it came with. -/
  keys : ∀ op ∈ s.m_array_ops, (arrived history)[op.op_id - 1]? = some op.key
  /-- The admissions are in the order of arrival. -/
  in_order : s.admissions.Pairwise fun a b => a.1 < b.1
  /-- A completion comes exactly one latency after the admission, -/
  fired : ∀ x ∈ s.completions, x.flushed = false →
    ∃ a, (x.op_id, a) ∈ s.admissions ∧ x.cycle = a + cfg.m_data_access_latency
  /-- or before that by a flush of its line. -/
  flushed : ∀ x ∈ s.completions, x.flushed = true → ∀ a, (x.op_id, a) ∈ s.admissions →
    x.cycle < a + cfg.m_data_access_latency
  /-- An admitted access is completed when its latency has elapsed. -/
  completed : ∀ a ∈ s.admissions, a.2 + cfg.m_data_access_latency < s.m_cache_cycle → ∃ x ∈ s.completions, x.op_id = a.1
  /-- At the end of a cycle an access waits only if all ports were taken in that cycle. -/
  work_conserving : s.phase = .between → (∃ op ∈ s.m_array_ops, op.admitted = false) →
    (s.admissions.countP fun a => a.2 + 1 = s.m_cache_cycle) = cfg.m_data_array_ports
  /-- The loop of a cycle ends, since each round leaves one due access fewer. -/
  round : ∀ spawned s', s.step cfg (.fire spawned) = some s' → s'.phase = .stepping → dueNow s' + 1 = dueNow s
  /-- A flush ends with no access to its line left. -/
  flush_ends : ∀ key spawned s', s.phase = .flushing key → s.step cfg (.flush spawned) = some s' → s'.phase ≠ s.phase →
    ∀ op ∈ s'.m_array_ops, op.key ≠ key

/-- The list and the ports are as they should be in every run. -/
theorem listed (hlatency : 1 ≤ cfg.m_data_access_latency) (h : (system cfg).Reachable s) :
    Listed cfg s ∧ Settled cfg s := by
  induction h with
  | init hinit =>
    obtain rfl : _ = _ := hinit
    refine ⟨⟨.nil, .nil, .nil, .nil, ?_, ?_, ?_, ?_, rfl, ?_, ?_, ?_, ?_⟩, ?_⟩ <;> simp [Settled]
  | step _ hstep ih => exact ih.1.step ih.2 hlatency hstep

end PipelinedArray

end Octopus
