import Octopus.Controller.PipelinedArray

/-!
# The arrivals of the pipelined data array

Accesses arrive by the steps of a run that enqueue them, and by the completions that do. They are numbered in the order
of their arrival, and an access on the list has the line that it came with.
-/

namespace Octopus

namespace PipelinedArray

variable {cfg : PipelineConfig} {s s' : PipelinedArray} {p : PipelinedAccess → Bool} {op : PipelinedAccess}
  {ops : List PipelinedAccess} {lines : List Nat}

/-- The accesses are numbered from one in the order of their arrival, and those on the list have the lines they came with. -/
structure Numbered (lines : List Nat) (s : PipelinedArray) : Prop where
  count : s.m_array_op_seq = lines.length
  keys : ∀ op ∈ s.m_array_ops, 0 < op.op_id ∧ lines[op.op_id - 1]? = some op.key

/-- Admitting an access changes no number and no line. -/
theorem mem_markFirst {ready : Nat} (hop : op ∈ markFirst ready ops) :
    ∃ x ∈ ops, op.op_id = x.op_id ∧ op.key = x.key := by
  induction ops with
  | nil => exact absurd hop List.not_mem_nil
  | cons x ops ih =>
    rw [markFirst] at hop
    split_ifs at hop
    · rcases List.mem_cons.1 hop with rfl | hop
      · exact ⟨op, List.mem_cons_self, rfl, rfl⟩
      · obtain ⟨y, hy, hsame⟩ := ih hop
        exact ⟨y, List.mem_cons_of_mem x hy, hsame⟩
    · rcases List.mem_cons.1 hop with rfl | hop
      · exact ⟨x, List.mem_cons_self, rfl, rfl⟩
      · exact ⟨op, List.mem_cons_of_mem x hop, rfl, rfl⟩

/-- Admissions keep the numbers. -/
theorem Numbered.admitUpTo (h : Numbered lines s) (n : Nat) : Numbered lines (admitUpTo cfg n s) := by
  induction n generalizing s with
  | zero => exact h
  | succ n ih =>
    rw [PipelinedArray.admitUpTo]
    split
    · exact h
    · apply ih
      refine ⟨h.count, fun op hop => ?_⟩
      obtain ⟨x, hx, hid, hkey⟩ := mem_markFirst hop
      rw [hid, hkey]
      exact h.keys x hx

/-- An access that arrives gets the next number. -/
theorem Numbered.arrayEnqueue (h : Numbered lines s) (key : Nat) :
    Numbered (lines ++ [key]) (arrayEnqueue cfg s key) := by
  apply Numbered.admitUpTo
  have hcount := h.count
  refine ⟨by simp [hcount], fun op hop => ?_⟩
  rcases List.mem_append.1 hop with hop | hop
  · obtain ⟨hpos, hkey⟩ := h.keys op hop
    exact ⟨hpos, List.getElem?_append_left (List.getElem?_eq_some_iff.1 hkey).1 ▸ hkey⟩
  · rw [List.mem_singleton.1 hop]
    refine ⟨Nat.succ_pos _, ?_⟩
    dsimp only
    rw [Nat.add_sub_cancel, hcount, List.getElem?_concat_length]

/-- So do those that a completion enqueues. -/
theorem Numbered.spawn (h : Numbered lines s) (spawned : List Nat) :
    Numbered (lines ++ spawned) (spawned.foldl (PipelinedArray.arrayEnqueue cfg) s) := by
  induction spawned generalizing lines s with
  | nil =>
    rw [List.append_nil]
    exact h
  | cons key spawned ih =>
    rw [List.append_cons]
    exact ih (h.arrayEnqueue key)

/-- A round of a loop enqueues its accesses if it completes one. -/
theorem Numbered.completeFirst (h : Numbered lines s) (flushed : Bool) (spawned : List Nat) :
    Numbered (lines ++ if s.m_array_ops.any p then spawned else []) (s.completeFirst cfg p flushed spawned) := by
  rw [PipelinedArray.completeFirst]
  cases hfind : s.m_array_ops.find? p with
  | none =>
    have hnone : s.m_array_ops.any p = false := by simpa using hfind
    rw [hnone, if_neg Bool.false_ne_true, List.append_nil]
    exact ⟨h.count, h.keys⟩
  | some op =>
    have hsome : s.m_array_ops.any p = true :=
      List.any_eq_true.2 ⟨op, List.mem_of_find?_eq_some hfind, List.find?_some hfind⟩
    rw [hsome, if_pos rfl]
    have hrest : Numbered lines { s with
        m_array_ops := s.m_array_ops.eraseP p
        completions := s.completions ++ [⟨op.op_id, s.m_cache_cycle, flushed⟩] } :=
      ⟨h.count, fun op hop => h.keys op (List.eraseP_subset hop)⟩
    exact hrest.spawn spawned

/-- A step numbers the accesses that arrive in it. -/
theorem Numbered.step (h : Numbered lines s) {l : PipelineLabel} (hstep : s.step cfg l = some s') :
    Numbered (lines ++ s.arriving l) s' := by
  have hnone : ∀ phase cycle admitted, Numbered (lines ++ [])
      { s with phase := phase, m_cache_cycle := cycle, m_array_admitted_this_cycle := admitted } := by
    intro phase cycle admitted
    rw [List.append_nil]
    exact ⟨h.count, h.keys⟩
  rw [PipelinedArray.step.eq_def] at hstep
  cases l with
  | cycle =>
    dsimp only at hstep
    split_ifs at hstep
    obtain rfl := Option.some.inj hstep
    exact (hnone .stepping s.m_cache_cycle 0).admitUpTo _
  | fire spawned =>
    dsimp only at hstep
    split_ifs at hstep
    obtain rfl := Option.some.inj hstep
    exact h.completeFirst false spawned
  | enqueue key =>
    dsimp only at hstep
    split_ifs at hstep
    obtain rfl := Option.some.inj hstep
    exact h.arrayEnqueue key
  | flushLine key =>
    dsimp only at hstep
    split_ifs at hstep
    obtain rfl := Option.some.inj hstep
    exact hnone _ _ _
  | flush spawned =>
    dsimp only at hstep
    rw [arriving]
    split at hstep
    · obtain rfl := Option.some.inj hstep
      exact h.completeFirst true spawned
    · simp at hstep
  | endCycle =>
    dsimp only at hstep
    split_ifs at hstep
    obtain rfl := Option.some.inj hstep
    exact hnone _ _ _

end PipelinedArray

end Octopus
