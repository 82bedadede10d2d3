import Octopus.ReadyQueue.Calls

/-!
# Scans that are not repeated

A queue whose readiness depends on its items and on an external state skips the scan that follows a
fruitless one. A fruitless scan finds the queue as it leaves it, so the skipped scan would have found
nothing and changed nothing.
-/

namespace Octopus

namespace FRFCFSBuffer

/-- A hold and a readiness callback that depend on the item and on an external state. -/
structure Readiness (ε : Type) where
  m_hold : ε → Message → Bool
  m_check_state_callback : ε → Message → FRFCFSState

/-- The scan under a line mask, in an external state. -/
def Readiness.scan {ε : Type} (r : Readiness ε) (m_line_mask : Nat) (env : ε) : Scan where
  sameLine := sameLineUnder m_line_mask
  hold := r.m_hold env
  checkState item _ := (r.m_check_state_callback env item, item)

variable {ε : Type} {r : Readiness ε} {m_line_mask : Nat} {env : ε} {scanOf : ε → Scan} {seen : Option ε}
  {q q' : FRFCFSBuffer} {c : Call ε} {calls : List (Call ε)} {older older' buf out : List Element}

/-- A fruitless scan leaves a queue in which the same scan is fruitless and changes nothing. -/
theorem firstReady_again (h : firstReady (r.scan m_line_mask env) older buf = (none, out)) :
    ∃ buf', out = older ++ buf' ∧ ∀ older', older'.map (·.item) = older.map (·.item) →
      firstReady (r.scan m_line_mask env) older' buf' = (none, older' ++ buf') := by
  induction buf generalizing older with
  | nil =>
    obtain ⟨-, rfl⟩ := Prod.mk.inj h
    exact ⟨[], by simp, fun older' _ => by simp [firstReady]⟩
  | cons e rest ih =>
    -- an element that is passed over twice, the second time in the state the first one left it in
    have hpass : ∀ e' : Element, e'.item = e.item → firstReady (r.scan m_line_mask env) (older ++ [e']) rest = (none, out) →
        (∀ older' rest', older'.map (·.item) = older.map (·.item) → firstReady (r.scan m_line_mask env) older' (e' :: rest') =
          firstReady (r.scan m_line_mask env) (older' ++ [e']) rest') →
        ∃ buf', out = older ++ buf' ∧ ∀ older', older'.map (·.item) = older.map (·.item) →
          firstReady (r.scan m_line_mask env) older' buf' = (none, older' ++ buf') := by
      intro e' hitem hrest hagain
      obtain ⟨buf', rfl, hbuf'⟩ := ih hrest
      refine ⟨e' :: buf', by simp, fun older' hold => ?_⟩
      rw [hagain older' buf' hold, hbuf' (older' ++ [e']) (by simp [hold])]
      simp
    rw [firstReady] at h
    split_ifs at h with hblocked hstate
    · refine hpass e rfl h fun older' rest' hold => ?_
      rw [gated_congr hold.symm] at hblocked
      rw [firstReady, if_pos hblocked]
    · simp at h
    · cases hcheck : r.m_check_state_callback env e.item with
      | ready => simp [Readiness.scan, hcheck] at h
      | needsAction => simp [Readiness.scan, hcheck] at h
      | nonReady =>
        refine hpass ⟨e.item, .nonReady⟩ rfl (by simpa [Readiness.scan, hcheck] using h) fun older' rest' hold => ?_
        rw [gated_congr hold.symm] at hblocked
        rw [firstReady, if_neg hblocked]
        simp [Readiness.scan, hcheck]
      | waiting =>
        refine hpass ⟨e.item, .waiting⟩ rfl (by simpa [Readiness.scan, hcheck] using h) fun older' rest' hold => ?_
        rw [gated_congr hold.symm] at hblocked
        rw [firstReady, if_neg hblocked]
        simp [Readiness.scan, hcheck]

/-- The external state of the last scan, if it was fruitless and nothing was pushed or marked since. -/
def settled (scanOf : ε → Scan) (seen : Option ε) (q : FRFCFSBuffer) : Call ε → Option ε
  | .getFirstReady env => if (q.getFirstReady (scanOf env)).1.isNone then some env else none
  | .markDirty => none
  | c => if (q.accepted c).isSome then none else seen

/-- Every change of the external state between two calls of `getFirstReady` comes with a push, a pop or a mark. -/
def Accompanied (scanOf : ε → Scan) : Option ε → FRFCFSBuffer → List (Call ε) → Prop
  | _, _, [] => True
  | seen, q, c :: calls =>
    (∀ env, c = .getFirstReady env → ∀ e ∈ seen, env = e) ∧
      Accompanied scanOf (settled scanOf seen q c) (q.call scanOf c).2 calls

/-- A queue that skips scans and one that does not, after the same calls. -/
structure Agree (scanOf : ε → Scan) (seen : Option ε) (q q' : FRFCFSBuffer) : Prop where
  skips : q.readinessStateOnly = true
  scans : q'.readinessStateOnly = false
  maxSize : q'.maxSize = q.maxSize
  buffer : q'.buffer = q.buffer
  clean : q.dirty = false → ∃ e ∈ seen, firstReady (scanOf e) [] q.buffer = (none, q.buffer)

/-- Queues that agree, with a mark on the first. -/
theorem Agree.of_dirty (h : Agree scanOf seen q q') {p p' : FRFCFSBuffer} {buffer : List Element}
    (hp : p = { q with buffer := buffer, dirty := true }) (hp' : p' = { q' with buffer := buffer, dirty := true })
    (seen' : Option ε) : Agree scanOf seen' p p' := by
  subst hp hp'
  exact ⟨h.skips, h.scans, h.maxSize, rfl, fun hclean => by simp at hclean⟩

/-- A call answers the same on both queues. -/
theorem Agree.call (h : Agree (r.scan m_line_mask) seen q q')
    (hseen : ∀ env, c = .getFirstReady env → ∀ e ∈ seen, env = e) :
    (q'.call (r.scan m_line_mask) c).1 = (q.call (r.scan m_line_mask) c).1 ∧
      Agree (r.scan m_line_mask) (settled (r.scan m_line_mask) seen q c) (q.call (r.scan m_line_mask) c).2
        (q'.call (r.scan m_line_mask) c).2 := by
  cases c with
  | pushBack item state force =>
    refine ⟨rfl, ?_⟩
    rw [FRFCFSBuffer.call, FRFCFSBuffer.call, pushBack, pushBack]
    have hsame : (!force && state != .ready && q'.maxSize.any fun bound => decide (bound ≤ q'.buffer.length)) =
        (!force && state != .ready && q.maxSize.any fun bound => decide (bound ≤ q.buffer.length)) := by
      rw [h.maxSize, h.buffer]
    rw [hsame]
    by_cases hfull : (!force && state != .ready && q.maxSize.any fun bound => decide (bound ≤ q.buffer.length)) = true
    · have hsettled : settled (r.scan m_line_mask) seen q (.pushBack item state force) = seen := by
        rw [settled.eq_def]
        simp only [accepted, pushBack, if_pos hfull, Option.map_none, Option.isSome_none, Bool.false_eq_true, if_false]
      rw [if_pos hfull, if_pos hfull, hsettled]
      exact h
    · rw [if_neg hfull, if_neg hfull]
      refine @Agree.of_dirty _ _ _ _ _ h _ _ (q.buffer ++ [⟨item, state⟩]) rfl ?_ _
      rw [Option.getD_some, h.buffer]
  | pushFrontOrdered item =>
    refine ⟨rfl, h.of_dirty rfl ?_ _⟩
    rw [FRFCFSBuffer.call, pushFrontOrdered, h.buffer]
  | pushFront item =>
    refine ⟨rfl, h.of_dirty rfl ?_ _⟩
    rw [FRFCFSBuffer.call, pushFront, h.buffer]
  | getFirstReady env =>
    rw [FRFCFSBuffer.call, FRFCFSBuffer.call, settled]
    generalize hresult : firstReady (r.scan m_line_mask env) [] q.buffer = result
    obtain ⟨answer, out⟩ := result
    have hq' : q'.getFirstReady (r.scan m_line_mask env) = (answer, { q' with buffer := out, dirty := answer.isSome && q'.dirty }) :=
      getFirstReady_of_scan (by simp [h.scans]) (by rw [h.buffer, hresult])
    by_cases hdirty : q.dirty = true
    · rw [hq', getFirstReady_of_scan (fun _ => hdirty) hresult]
      refine ⟨rfl, h.skips, h.scans, h.maxSize, rfl, fun hclean => ?_⟩
      cases answer with
      | some m => simp [hdirty] at hclean
      | none =>
        obtain ⟨buf', rfl, hagain⟩ := firstReady_again hresult
        exact ⟨env, rfl, hagain [] rfl⟩
    · -- the scan that is skipped finds what the last one left
      rw [Bool.not_eq_true] at hdirty
      obtain ⟨e, he, hfruitless⟩ := h.clean hdirty
      obtain rfl := hseen env rfl e he
      obtain ⟨rfl, rfl⟩ := Prod.mk.inj (hresult.symm.trans hfruitless)
      have hq : q.getFirstReady (r.scan m_line_mask env) = (none, q) := by
        rw [getFirstReady.eq_def, if_pos]
        rw [h.skips, hdirty]
        rfl
      rw [hq', hq]
      exact ⟨rfl, h.skips, h.scans, h.maxSize, rfl, fun _ => ⟨env, rfl, hfruitless⟩⟩
  | markDirty =>
    refine ⟨rfl, h.of_dirty rfl ?_ _⟩
    rw [FRFCFSBuffer.call, markDirty, ← h.buffer]

/-- A sequence of calls answers the same on both queues and leaves the same elements. -/
theorem Agree.run (h : Agree (r.scan m_line_mask) seen q q') (hcalls : Accompanied (r.scan m_line_mask) seen q calls) :
    (q'.run (r.scan m_line_mask) calls).1 = (q.run (r.scan m_line_mask) calls).1 ∧
      (q'.run (r.scan m_line_mask) calls).2.buffer = (q.run (r.scan m_line_mask) calls).2.buffer := by
  induction calls generalizing seen q q' with
  | nil => exact ⟨rfl, h.buffer⟩
  | cons c calls ih =>
    obtain ⟨hseen, hrest⟩ := hcalls
    obtain ⟨hanswer, hnext⟩ := h.call hseen
    obtain ⟨hanswers, hbuffer⟩ := ih hnext hrest
    rw [FRFCFSBuffer.run, FRFCFSBuffer.run, hanswer, hanswers]
    exact ⟨rfl, hbuffer⟩

/--
The queue that skips scans and the queue that scans at every call give the same answers and hold the same
elements after any sequence of calls, if every change of the external state between two scans comes with a
push, a pop or a mark.
-/
theorem skipped_scan_invisible (r : Readiness ε) (m_line_mask : Nat) (max_size : Option Nat) (calls : List (Call ε))
    (hcalls : Accompanied (r.scan m_line_mask) none { maxSize := max_size, readinessStateOnly := true } calls) :
    let skipping : FRFCFSBuffer := { maxSize := max_size, readinessStateOnly := true }
    let scanning : FRFCFSBuffer := { maxSize := max_size, readinessStateOnly := false }
    (skipping.run (r.scan m_line_mask) calls).1 = (scanning.run (r.scan m_line_mask) calls).1 ∧
      (skipping.run (r.scan m_line_mask) calls).2.buffer = (scanning.run (r.scan m_line_mask) calls).2.buffer := by
  intro skipping scanning
  have hagree : Agree (r.scan m_line_mask) none skipping scanning := ⟨rfl, rfl, rfl, rfl, fun hclean => by simp [skipping] at hclean⟩
  obtain ⟨hanswers, hbuffer⟩ := hagree.run hcalls
  exact ⟨hanswers.symm, hbuffer.symm⟩

/-- A message becomes ready when the array completes an access, which marks the queue. -/
def completion : List (Call Bool) :=
  [.pushBack {} .nonReady false, .getFirstReady false, .getFirstReady false, .markDirty, .getFirstReady true]

/-- A message that is ready once the external state is. -/
def afterCompletion : Readiness Bool where
  m_hold _ _ := false
  m_check_state_callback env _ := if env then .ready else .nonReady

/-- The message is found after the mark, with and without the scan in between. -/
theorem skipped_scan_invisible_completion :
    (({ readinessStateOnly := false } : FRFCFSBuffer).run (afterCompletion.scan 0) completion).1 =
      [none, none, none, none, some {}] := by
  have hcalls : Accompanied (afterCompletion.scan 0) none { readinessStateOnly := true } completion := by
    simp [completion, Accompanied, settled, FRFCFSBuffer.call, getFirstReady, pushBack, accepted, firstReady,
      Readiness.scan, afterCompletion, gated]
  rw [← (skipped_scan_invisible afterCompletion 0 none completion hcalls).1]
  decide

end FRFCFSBuffer

end Octopus
