import Octopus.Gem5.Release

/-!
# The runs of the bridge

Between callbacks no access is free: what is committed is performed unless an older write to its bytes
is left to perform, and what is performed and complete is answered. So every accepted access is
performed once and answered once, and no access before an older write to its bytes.
-/

namespace Octopus

namespace Bridge

variable {μ : Type} {env : Surroundings μ} {s s' : Bridge μ} {id k : Nat} {txn : PendingTxn}

/-- What holds between callbacks. -/
structure Inv (env : Surroundings μ) (s : Bridge μ) : Prop where
  core : s.Core env
  prompt : s.Prompt
  settled : ∀ k, ¬ s.Free env k

/-- There are no more accesses to perform than pending ones. -/
theorem Core.unperformed_le_length (h : s.Core env) : s.unperformed ≤ s.pendingRequests.entries.length := by
  have hkeys : (s.committed.filter fun id => id ∉ s.performed) ⊆ s.pendingRequests.keys := by
    intro id hid
    obtain ⟨hc, hp⟩ := List.mem_filter.1 hid
    obtain ⟨k, -, rfl⟩ := h.committed id hc
    obtain ⟨txn, hlookup⟩ := h.pending hc (of_decide_eq_true hp)
    exact AList.mem_keys.1 (AList.lookup_isSome.1 (by rw [hlookup]; rfl))
  have hlength : s.pendingRequests.keys.length = s.pendingRequests.entries.length := by
    rw [AList.keys, List.keys, List.length_map]
  rw [← hlength]
  exact (List.subperm_of_subset (h.committed_nodup.filter _) hkeys).length_le

/-- Re-entering the bridge keeps the invariant. -/
theorem Inv.extend (h : s.Inv env) (hcore : s'.Core env) (hext : s.Extends s') : s'.Inv env where
  core := hcore
  prompt id hperformed hcompleted := by
    rw [hext.answered]
    exact h.prompt id (hext.performed ▸ hperformed) (hext.completed ▸ hcompleted)
  settled k hfree := h.settled k (hext.free hfree)

/-- The table after a commit. -/
theorem Core.commit (h : s.Core env) (hlookup : s.pendingRequests.lookup id = some txn) (hnew : id ∉ s.committed) :
    ({ s with
      pendingRequests := s.pendingRequests.insert id { txn with committed := true }
      committed := s.committed ++ [id] } : Bridge μ).Core env := by
  have htracks := h.tracks id txn hlookup
  refine ⟨h.length, h.cacheable, ?_, ?_, ?_, ?_, ?_, ?_, ?_, h.performed_nodup, h.answered_nodup, h.order,
    ⟨h.recorded.mem, h.recorded.data, h.recorded.sent⟩⟩
  · intro other txn' hother
    by_cases heq : other = id
    · subst heq
      rw [AList.lookup_insert, Option.some.injEq] at hother
      subst hother
      exact ⟨htracks.msgId, htracks.accepted, by simp, htracks.dataDone, htracks.completionArrived, htracks.isResponse⟩
    · rw [AList.lookup_insert_ne heq] at hother
      have htracks' := h.tracks other txn' hother
      refine ⟨htracks'.msgId, htracks'.accepted, ?_, htracks'.dataDone, htracks'.completionArrived, htracks'.isResponse⟩
      rw [htracks'.committed, List.mem_append, List.mem_singleton, or_iff_left heq]
  · exact fun k hk => h.present_insert _ _ hk
  · intro other hother
    obtain ⟨hnone, hperformed, hcompleted⟩ := h.answered other hother
    have hne : other ≠ id := by
      rintro rfl
      exact hnew (h.performed _ hperformed)
    exact ⟨(AList.lookup_insert_ne hne).trans hnone, hperformed, hcompleted⟩
  · exact fun other hother => List.mem_append_left _ (h.performed other hother)
  · exact fun other hother => List.mem_append_left _ (h.completed other hother)
  · rw [List.forall_mem_append, List.forall_mem_singleton]
    refine ⟨h.committed, txn.seq, ?_, htracks.msgId⟩
    rw [← h.length]
    exact (List.getElem?_eq_some_iff.1 htracks.accepted).1
  · exact List.nodup_append'.2 ⟨h.committed_nodup, List.nodup_singleton _, List.disjoint_singleton.2 hnew⟩

/-- A completion leaves the flags of the pending accesses in agreement. -/
theorem Core.complete (h : s.Core env) (hlookup : s.pendingRequests.lookup id = some txn) (hcommitted : id ∈ s.committed) :
    (txn.dataDone → ({ s with completed := s.completed ++ [id] } : Bridge μ).Core env) ∧
    ({ s with
      completed := s.completed ++ [id]
      pendingRequests := s.pendingRequests.insert id { txn with completionArrived := true } } : Bridge μ).Core env := by
  have htracks := h.tracks id txn hlookup
  have hcompleted : ∀ other ∈ s.completed ++ [id], other ∈ s.committed := by
    rw [List.forall_mem_append, List.forall_mem_singleton]
    exact ⟨h.completed, hcommitted⟩
  have htracks' : ∀ other txn', other ≠ id → s.pendingRequests.lookup other = some txn' → txn'.dataDone = false →
      (txn'.completionArrived ↔ other ∈ s.completed ++ [id]) := by
    intro other txn' hne hother hdone
    rw [(h.tracks other txn' hother).completionArrived hdone, List.mem_append, List.mem_singleton, or_iff_left hne]
  refine ⟨fun hdone => ?_, ?_⟩
  · refine ⟨h.length, h.cacheable, ?_, h.present, ?_, h.performed, hcompleted, h.committed, h.committed_nodup,
      h.performed_nodup, h.answered_nodup, h.order, ⟨h.recorded.mem, h.recorded.data, h.recorded.sent⟩⟩
    · intro other txn' hother
      have hold := h.tracks other txn' hother
      refine ⟨hold.msgId, hold.accepted, hold.committed, hold.dataDone, fun hfalse => ?_, hold.isResponse⟩
      refine htracks' other txn' ?_ hother hfalse
      rintro rfl
      rw [hlookup, Option.some.injEq] at hother
      rw [← hother, hdone] at hfalse
      cases hfalse
    · intro other hother
      obtain ⟨hnone, hperformed, hold⟩ := h.answered other hother
      exact ⟨hnone, hperformed, List.mem_append_left _ hold⟩
  · refine ⟨h.length, h.cacheable, ?_, fun k hk => h.present_insert _ _ hk, ?_, h.performed, hcompleted, h.committed,
      h.committed_nodup, h.performed_nodup, h.answered_nodup, h.order,
      ⟨h.recorded.mem, h.recorded.data, h.recorded.sent⟩⟩
    · intro other txn' hother
      by_cases heq : other = id
      · subst heq
        rw [AList.lookup_insert, Option.some.injEq] at hother
        subst hother
        exact ⟨htracks.msgId, htracks.accepted, htracks.committed, htracks.dataDone, fun _ => by simp, htracks.isResponse⟩
      · rw [AList.lookup_insert_ne heq] at hother
        have hold := h.tracks other txn' hother
        exact ⟨hold.msgId, hold.accepted, hold.committed, hold.dataDone, htracks' other txn' heq hother, hold.isResponse⟩
    · intro other hother
      obtain ⟨hnone, hperformed, hold⟩ := h.answered other hother
      have hne : other ≠ id := by
        rintro rfl
        rw [hnone] at hlookup
        cases hlookup
      exact ⟨(AList.lookup_insert_ne hne).trans hnone, hperformed, List.mem_append_left _ hold⟩

/-- A commit performs the access and what it releases, or holds it back. -/
theorem Inv.onCommit (h : s.Inv env) {address : Nat} (hnew : id ∉ s.committed)
    (haccepted : ∃ k < s.nextSeq, env.msgId k = id ∧ s.accepted[k]?.any fun a => a.1.addr == address) :
    ∃ s', s.onCommit env id address = .ok s' ∧ s'.Inv env := by
  obtain ⟨k, hk, rfl, haddr⟩ := haccepted
  obtain ⟨txn, hlookup⟩ := (h.core.present k hk).resolve_left fun hanswered =>
    hnew (h.core.performed _ (h.core.answered _ hanswered).2.1)
  have htracks := h.core.tracks _ txn hlookup
  obtain rfl : txn.seq = k := env.msgId_injective htracks.msgId
  have hfalse : txn.committed = false := by
    rw [← Bool.not_eq_true, htracks.committed]
    exact hnew
  have hsame : txn.pkt.addr = address := by simpa [htracks.accepted] using haddr
  have hnotdone : txn.dataDone = false := by
    rw [← Bool.not_eq_true, htracks.dataDone]
    exact fun hperformed => hnew (h.core.performed _ hperformed)
  have hcore := h.core.commit hlookup hnew
  rw [Bridge.onCommit, hlookup]
  dsimp only
  rw [if_neg (by simp [hfalse]), if_neg (not_not.2 hsame)]
  generalize hs₁ : ({ s with
    pendingRequests := s.pendingRequests.insert (env.msgId txn.seq) { txn with committed := true }
    committed := s.committed ++ [env.msgId txn.seq] } : Bridge μ) = s₁ at hcore
  have hlookup₁ : s₁.pendingRequests.lookup (env.msgId txn.seq) = some { txn with committed := true } := by
    rw [← hs₁]
    exact AList.lookup_insert _
  have hprompt₁ : s₁.Prompt := by
    rw [← hs₁]
    exact h.prompt
  -- only the access that was committed now can be free
  have hfree₁ : ∀ j, s₁.Free env j → j = txn.seq := by
    rintro j ⟨hc, hp, hw⟩
    rw [← hs₁] at hc hp hw
    by_contra hne
    refine h.settled j ⟨(List.mem_append.1 hc).resolve_right fun heq => hne ?_, hp, hw⟩
    exact env.msgId_injective (List.mem_singleton.1 heq)
  have hblocked := hcore.blockedByOlderWrite hlookup₁
  split
  · next hheld =>
    refine ⟨s₁, rfl, hcore, hprompt₁, fun j hj => ?_⟩
    rw [hfree₁ j hj] at hj
    exact hj.2.2 (hblocked.1 hheld)
  · next hheld =>
    obtain ⟨s', hs', hperforms, hid⟩ := works env s₁.pendingRequests.entries.length s₁ _ _ hcore hprompt₁ hlookup₁ rfl
      hnotdone (fun hwaits => hheld (hblocked.2 hwaits)) hcore.unperformed_le_length
    refine ⟨s', ?_, hperforms.core, hperforms.prompt, fun j hj => ?_⟩
    · rw [← hs₁] at hs' ⊢
      exact hs'
    rw [hfree₁ j (hperforms.free j hj)] at hj
    exact hj.2.1 hid

/-- A completion answers the access, or is kept until its data is performed. -/
theorem Inv.cacheSimCallback (h : s.Inv env) (hcommitted : id ∈ s.committed) (hnew : id ∉ s.completed) :
    ∃ s', s.cacheSimCallback env id = .ok s' ∧ s'.Inv env := by
  obtain ⟨k, hk, rfl⟩ := h.core.committed id hcommitted
  obtain ⟨txn, hlookup⟩ := (h.core.present k hk).resolve_left fun hanswered => hnew (h.core.answered _ hanswered).2.2
  have htracks := h.core.tracks _ txn hlookup
  obtain ⟨hcoreDone, hcore⟩ := h.core.complete hlookup hcommitted
  rw [Bridge.cacheSimCallback, hlookup]
  dsimp only
  rw [if_neg (by simp [htracks.committed.2 hcommitted])]
  split
  · next hdone =>
    refine ⟨_, rfl, hcore, fun other hperformed hcompleted => ?_, h.settled⟩
    refine h.prompt other hperformed ((List.mem_append.1 hcompleted).resolve_right fun heq => ?_)
    rw [List.mem_singleton.1 heq] at hperformed
    rw [htracks.dataDone.2 hperformed] at hdone
    cases hdone
  · next hdone =>
    rw [Bool.not_eq_false] at hdone
    obtain ⟨s', hs', hanswers⟩ := (hcoreDone hdone).respond hlookup hdone (List.mem_append_right _ (List.mem_singleton_self _))
    refine ⟨s', hs', hanswers.core, fun other hperformed hcompleted => ?_, fun j hj => h.settled j ?_⟩
    · rw [hanswers.performed] at hperformed
      rw [hanswers.completed] at hcompleted
      rw [hanswers.answered]
      exact (List.mem_append.1 hcompleted).elim (fun hold => List.mem_append_left _ (h.prompt other hperformed hold))
        (List.mem_append_right _)
    · obtain ⟨hc, hp, hw⟩ := hj
      refine ⟨hanswers.committed ▸ hc, hanswers.performed ▸ hp, fun ⟨i, hold, hi⟩ => hw ⟨i, ?_, hanswers.performed ▸ hi⟩⟩
      exact (older_prefix_iff hanswers.accepted hold.lt_length).2 hold

/-- A callback that keeps to the simulator's promises does not panic, and keeps the invariant. -/
theorem Inv.exec (h : s.Inv env) {e : Event} (hkeeps : s.Keeps env e) : ∃ s', s.exec env e = .ok s' ∧ s'.Inv env := by
  cases e with
  | access a port =>
    obtain ⟨r, hr, hcore, hext⟩ := h.core.accessTiming a port
    exact ⟨r.2, by rw [Bridge.exec, hr]; rfl, h.extend hcore hext⟩
  | commit msgId address => exact h.onCommit hkeeps.1 hkeeps.2
  | complete msgId => exact h.cacheSimCallback hkeeps.1 hkeeps.2
  | tick =>
    obtain ⟨s', hs', hcore, hext⟩ := h.core.retryBlockedPorts
    exact ⟨s', hs', h.extend hcore hext⟩

/-- The invariant of the runs. -/
theorem inv_inductive (env : Surroundings μ) : (system env).Inductive (Inv env) where
  init s := by
    rintro ⟨ports, rfl⟩
    refine ⟨⟨rfl, by simp, ?_, by simp, by simp, by simp, by simp, by simp, List.nodup_nil, List.nodup_nil, List.nodup_nil,
      by simp, rfl, ⟨rfl, by simp⟩, rfl, by simp⟩, by simp [Prompt], fun k hfree => absurd hfree.1 List.not_mem_nil⟩
    intro id txn hid
    cases hid
  step s e s' _ hinv h := by
    obtain ⟨s₁, hs₁, hinv₁⟩ := hinv.exec h.1
    rw [h.2, Except.ok.injEq] at hs₁
    exact hs₁ ▸ hinv₁

/-- What the bridge owes the core between callbacks: an accepted access is performed once, when it is committed
and every older write to its bytes is performed, in that order, and answered once, when it is performed and
complete. To perform an access is to send its request to the memory, and to answer it is to send its response
to the port it came from (field recorded). -/
structure Served (env : Surroundings μ) (s : Bridge μ) : Prop where
  performed_nodup : s.performed.Nodup
  answered_nodup : s.answered.Nodup
  performed_iff : ∀ k < s.nextSeq, env.msgId k ∈ s.performed ↔ env.msgId k ∈ s.committed ∧ ¬ s.Waits env k
  answered_iff : ∀ k < s.nextSeq, env.msgId k ∈ s.answered ↔ env.msgId k ∈ s.performed ∧ env.msgId k ∈ s.completed
  order : ∀ j k, s.Older j k → env.msgId k ∈ s.performed → [env.msgId j, env.msgId k].Sublist s.performed
  finished : (∀ k < s.nextSeq, env.msgId k ∈ s.committed) → ∀ k < s.nextSeq, env.msgId k ∈ s.performed
  recorded : s.Recorded env

/-- The invariant says what the bridge owes the core. -/
theorem Inv.served (h : s.Inv env) : s.Served env := by
  have hiff : ∀ k < s.nextSeq, env.msgId k ∈ s.performed ↔ env.msgId k ∈ s.committed ∧ ¬ s.Waits env k := by
    intro k _
    constructor
    · intro hperformed
      refine ⟨h.core.performed _ hperformed, fun ⟨j, hold, hj⟩ => hj ?_⟩
      exact (h.core.order j k hold hperformed).subset List.mem_cons_self
    · rintro ⟨hcommitted, hwaits⟩
      by_contra hperformed
      exact h.settled k ⟨hcommitted, hperformed, hwaits⟩
  refine ⟨h.core.performed_nodup, h.core.answered_nodup, hiff, fun k _ => ?_, h.core.order, fun hall => ?_,
    h.core.recorded⟩
  · exact ⟨fun hanswered => (h.core.answered _ hanswered).2, fun hdone => h.prompt _ hdone.1 hdone.2⟩
  · -- the oldest access that is not performed waits for none
    intro k
    induction k using Nat.strong_induction_on with
    | _ k ih =>
      intro hk
      refine (hiff k hk).2 ⟨hall k hk, fun ⟨j, hold, hj⟩ => hj (ih j hold.1 (hold.1.trans hk))⟩

/-- In every run in which the simulator commits and completes each accepted access once, in this order, the
bridge serves the accesses between callbacks and never panics. -/
theorem served_in_order (h : (system env).Reachable s) :
    s.Served env ∧ ∀ e, s.Keeps env e → ∃ s', s.exec env e = .ok s' := by
  have hinv := (inv_inductive env).reachable h
  refine ⟨hinv.served, fun e hkeeps => ?_⟩
  obtain ⟨s', hs', -⟩ := hinv.exec hkeeps
  exact ⟨s', hs'⟩

/-- An L1 that takes two requests at a time, a sender that re-issues a read, and a memory that records the
addresses it is sent. -/
def twoOutstanding : Surroundings (List Nat) where
  memory := []
  sendAtomic m pkt := (m ++ [pkt.addr], { pkt with isResponse := true })
  msgId n := n
  isBlocked _ outstanding := decide (2 ≤ outstanding)
  resend _ := [⟨4, 4, true, false, false, false, false, true, by decide⟩]
  response _ _ _ _ := rfl
  msgId_injective _ _ h := h

/-- A write from port 0, a read of its bytes from port 1 that is committed and complete before the write is,
and a second read from port 1 that is refused until the first one is answered. -/
abbrev heldBackRead : List Event :=
  [.access ⟨0, 8, false, true, false, false, false, true, by decide⟩ 0,
    .access ⟨4, 4, true, false, false, false, false, true, by decide⟩ 1,
    .access ⟨4, 4, true, false, false, false, false, true, by decide⟩ 1,
    .commit 1 4, .complete 1, .commit 0 0, .complete 0]

/-- The read is performed behind the write and answered before it, and the refused read is accepted then. -/
theorem served_in_order_heldBack : ∃ s : Bridge (List Nat), s.mem = [0, 4] ∧
    (s.sent.map fun answer => (answer.2.1, answer.2.2.addr)) = [(1, 4), (0, 0)] ∧ s.nextSeq = 3 ∧
    s.Served twoOutstanding := by
  have hinit : (system twoOutstanding).Path [] { mem := [], needRetry := [false, false] } := .init ⟨_, rfl⟩
  obtain ⟨history, s, hpath, htest⟩ := Lib.TransitionSystem.exists_path_of_run
    (f := fun s e => if s.Keeps twoOutstanding e then s.exec twoOutstanding e else .error .outOfFuel)
    (fun s e s' h => by
      split at h
      · next hkeeps => exact ⟨hkeeps, h⟩
      · cases h) hinit heldBackRead
    (fun s => decide (s.mem = [0, 4] ∧
      (s.sent.map fun answer => (answer.2.1, answer.2.2.addr)) = [(1, 4), (0, 0)] ∧ s.nextSeq = 3)) (by decide)
  obtain ⟨hmem, hsent, hseq⟩ := of_decide_eq_true htest
  exact ⟨s, hmem, hsent, hseq, (served_in_order hpath.reachable).1⟩

end Bridge

end Octopus
