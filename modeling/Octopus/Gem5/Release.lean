import Octopus.Gem5.Bridge

/-!
# What the bridge releases

The table of pending accesses agrees with what was accepted, committed, completed, performed and
answered; the memory is what the performed packets make of it, and the ports get the responses of the
answered accesses. An access is free when it is committed and no older write to its bytes is left to perform;
performing one and releasing what it held back leaves no access free.
-/

namespace Octopus

namespace Bridge

variable {μ : Type} {env : Surroundings μ} {s s' : Bridge μ} {id k : Nat} {txn : PendingTxn}

/-- An older access that writes bytes of a younger one. -/
def Older (s : Bridge μ) (j k : Nat) : Prop :=
  j < k ∧ ∃ a b, s.accepted[j]? = some a ∧ s.accepted[k]? = some b ∧ a.1.isWrite ∧ a.1.Overlaps b.1

/-- An access that an older write must precede. -/
def Waits (env : Surroundings μ) (s : Bridge μ) (k : Nat) : Prop :=
  ∃ j, s.Older j k ∧ env.msgId j ∉ s.performed

/-- An access that is committed and not performed, though nothing must precede it. -/
def Free (env : Surroundings μ) (s : Bridge μ) (k : Nat) : Prop :=
  env.msgId k ∈ s.committed ∧ env.msgId k ∉ s.performed ∧ ¬ s.Waits env k

/-- The flags of a pending access agree with what has happened to it. -/
structure Tracks (env : Surroundings μ) (s : Bridge μ) (id : Nat) (txn : PendingTxn) : Prop where
  msgId : env.msgId txn.seq = id
  accepted : s.accepted[txn.seq]? = some (txn.pkt.toAccess, txn.portId)
  committed : txn.committed ↔ id ∈ s.committed
  dataDone : txn.dataDone ↔ id ∈ s.performed
  completionArrived : txn.dataDone = false → (txn.completionArrived ↔ id ∈ s.completed)
  isResponse : txn.pkt.isResponse = txn.dataDone

/-- The entries of a log that name an access name each of a list of accesses once, in order, and are right
for it. -/
structure Logged {β : Type} (log : List (Option Nat × β)) (ids : List Nat) (right : Nat → β → Prop) : Prop where
  ids : log.filterMap Prod.fst = ids
  right : ∀ id b, (some id, b) ∈ log → right id b

/-- The packet of an accepted access. -/
def Request (env : Surroundings μ) (s : Bridge μ) (id : Nat) (pkt : Packet) : Prop :=
  ∃ k a port, env.msgId k = id ∧ s.accepted[k]? = some (a, port) ∧ pkt = { a with }

/-- The response to an accepted access, for the port it came from. -/
def Response (env : Surroundings μ) (s : Bridge μ) (id : Nat) (answer : Nat × Packet) : Prop :=
  ∃ k a port, env.msgId k = id ∧ s.accepted[k]? = some (a, port) ∧ answer = (port, { a with isResponse := true })

/-- The memory is what the packets that were performed made of it: the requests of the performed accesses,
and packets that bypass the simulator. The ports were sent the responses of the answered accesses, and
those to other packets. -/
structure Recorded (env : Surroundings μ) (s : Bridge μ) : Prop where
  mem : s.mem = s.data.foldl (fun m entry => (env.sendAtomic m entry.2).1) env.memory
  data : Logged s.data s.performed (s.Request env)
  sent : Logged s.sent s.answered (s.Response env)

/-- The table of pending accesses agrees with what has happened, and older writes were performed first. -/
structure Core (env : Surroundings μ) (s : Bridge μ) : Prop where
  length : s.accepted.length = s.nextSeq
  cacheable : ∀ a ∈ s.accepted, a.1.cacheable
  tracks : ∀ id txn, s.pendingRequests.lookup id = some txn → s.Tracks env id txn
  present : ∀ k < s.nextSeq, env.msgId k ∈ s.answered ∨ ∃ txn, s.pendingRequests.lookup (env.msgId k) = some txn
  answered : ∀ id ∈ s.answered, s.pendingRequests.lookup id = none ∧ id ∈ s.performed ∧ id ∈ s.completed
  performed : ∀ id ∈ s.performed, id ∈ s.committed
  completed : ∀ id ∈ s.completed, id ∈ s.committed
  committed : ∀ id ∈ s.committed, ∃ k < s.nextSeq, env.msgId k = id
  committed_nodup : s.committed.Nodup
  performed_nodup : s.performed.Nodup
  answered_nodup : s.answered.Nodup
  order : ∀ j k, s.Older j k → env.msgId k ∈ s.performed → [env.msgId j, env.msgId k].Sublist s.performed
  recorded : s.Recorded env

/-- What re-entering the bridge does: it accepts packets, and nothing else happens to the others. -/
structure Extends (s s' : Bridge μ) : Prop where
  accepted : s.accepted <+: s'.accepted
  committed : s'.committed = s.committed
  completed : s'.completed = s.completed
  performed : s'.performed = s.performed
  answered : s'.answered = s.answered

theorem Extends.refl (s : Bridge μ) : s.Extends s := ⟨List.prefix_refl _, rfl, rfl, rfl, rfl⟩

theorem Extends.trans {t : Bridge μ} (h : s.Extends s') (h' : s'.Extends t) : s.Extends t where
  accepted := h.accepted.trans h'.accepted
  committed := h'.committed.trans h.committed
  completed := h'.completed.trans h.completed
  performed := h'.performed.trans h.performed
  answered := h'.answered.trans h.answered

/-- An entry that names no access adds nothing to what a log says of the accesses. -/
theorem Logged.concat_none {β : Type} {log : List (Option Nat × β)} {ids : List Nat} {right : Nat → β → Prop}
    (h : Logged log ids right) (b : β) : Logged (log ++ [(none, b)]) ids right where
  ids := by simp [h.ids]
  right id b' hmem := h.right id b' ((List.mem_append.1 hmem).resolve_right (by simp))

/-- An entry for one more access. -/
theorem Logged.concat_some {β : Type} {log : List (Option Nat × β)} {ids : List Nat} {right : Nat → β → Prop}
    (h : Logged log ids right) {b : β} (hb : right id b) : Logged (log ++ [(some id, b)]) (ids ++ [id]) right where
  ids := by simp [h.ids]
  right id' b' hmem := by
    rcases List.mem_append.1 hmem with hold | hnew
    · exact h.right id' b' hold
    · cases List.mem_singleton.1 hnew
      exact hb

/-- What is right for a log stays right when more accesses are accepted. -/
theorem Logged.mono {β : Type} {log : List (Option Nat × β)} {ids : List Nat} {right right' : Nat → β → Prop}
    (h : Logged log ids right) (hright : ∀ id b, right id b → right' id b) : Logged log ids right' where
  ids := h.ids
  right id b hmem := hright id b (h.right id b hmem)

/-- The records stay right when more accesses are accepted. -/
theorem Recorded.accept (h : s.Recorded env) (more : List (Access × Nat)) (hmem : s'.mem = s.mem)
    (hdata : s'.data = s.data) (hsent : s'.sent = s.sent) (hperformed : s'.performed = s.performed)
    (hanswered : s'.answered = s.answered) (haccepted : s'.accepted = s.accepted ++ more) : s'.Recorded env := by
  have hget : ∀ (k : Nat) entry, s.accepted[k]? = some entry → s'.accepted[k]? = some entry := by
    intro k entry hk
    rw [haccepted, List.getElem?_append_left (List.getElem?_eq_some_iff.1 hk).1, hk]
  refine ⟨by rw [hmem, hdata, h.mem], ?_, ?_⟩
  · rw [hdata, hperformed]
    exact h.data.mono fun id pkt ⟨k, a, port, hid, hk, hpkt⟩ => ⟨k, a, port, hid, hget k _ hk, hpkt⟩
  · rw [hsent, hanswered]
    exact h.sent.mono fun id answer ⟨k, a, port, hid, hk, hanswer⟩ => ⟨k, a, port, hid, hget k _ hk, hanswer⟩

/-- What precedes an access was accepted before it. -/
theorem older_prefix_iff (h : s.accepted <+: s'.accepted) {j : Nat} (hk : k < s.accepted.length) :
    s'.Older j k ↔ s.Older j k := by
  obtain ⟨rest, hrest⟩ := h
  have hget : ∀ i ≤ k, s'.accepted[i]? = s.accepted[i]? := by
    intro i hi
    rw [← hrest]
    exact List.getElem?_append_left (by omega)
  constructor
  · rintro ⟨hlt, a, b, ha, hb, hw⟩
    exact ⟨hlt, a, b, hget j hlt.le ▸ ha, hget k le_rfl ▸ hb, hw⟩
  · rintro ⟨hlt, a, b, ha, hb, hw⟩
    exact ⟨hlt, a, b, (hget j hlt.le).trans ha, (hget k le_rfl).trans hb, hw⟩

/-- A younger access was accepted. -/
theorem Older.lt_length {j : Nat} (h : s.Older j k) : k < s.accepted.length := by
  obtain ⟨-, a, b, -, hb, -⟩ := h
  exact (List.getElem?_eq_some_iff.1 hb).1

/-- The sequence number of a committed access. -/
theorem Core.lt_nextSeq (h : s.Core env) (hk : env.msgId k ∈ s.committed) : k < s.nextSeq := by
  obtain ⟨k', hlt, heq⟩ := h.committed _ hk
  exact env.msgId_injective heq ▸ hlt

/-- A committed access that is not performed is pending. -/
theorem Core.pending (h : s.Core env) (hk : env.msgId k ∈ s.committed) (hp : env.msgId k ∉ s.performed) :
    ∃ txn, s.pendingRequests.lookup (env.msgId k) = some txn :=
  (h.present k (h.lt_nextSeq hk)).resolve_left fun ha => hp (h.answered _ ha).2.1

/-- Writing an entry of the table leaves every access present. -/
theorem Core.present_insert (h : s.Core env) (id : Nat) (txn : PendingTxn) (hk : k < s.nextSeq) :
    env.msgId k ∈ s.answered ∨ ∃ txn', (s.pendingRequests.insert id txn).lookup (env.msgId k) = some txn' := by
  refine (h.present k hk).imp_right fun ⟨txn', hlookup⟩ => ?_
  by_cases heq : env.msgId k = id
  · rw [heq]
    exact ⟨txn, AList.lookup_insert _⟩
  · exact ⟨txn', (AList.lookup_insert_ne heq).trans hlookup⟩

/-- Re-entering the bridge makes no access free. -/
theorem Extends.free (h : s.Extends s') (hfree : s'.Free env k) : s.Free env k := by
  obtain ⟨hc, hp, hw⟩ := hfree
  rw [h.committed] at hc
  rw [h.performed] at hp
  refine ⟨hc, hp, fun ⟨j, hold, hj⟩ => hw ⟨j, ?_, h.performed ▸ hj⟩⟩
  exact (older_prefix_iff h.accepted hold.lt_length).2 hold

/-- The same table with the same histories, whatever else was sent and performed. -/
structure SameTable (env : Surroundings μ) (s s' : Bridge μ) : Prop where
  pendingRequests : s'.pendingRequests = s.pendingRequests
  nextSeq : s'.nextSeq = s.nextSeq
  accepted : s'.accepted = s.accepted
  committed : s'.committed = s.committed
  completed : s'.completed = s.completed
  performed : s'.performed = s.performed
  answered : s'.answered = s.answered
  recorded : s.Recorded env → s'.Recorded env

/-- Keeping the table and the histories keeps their agreement. -/
theorem Core.same (h : s.Core env) (hsame : s.SameTable env s') : s'.Core env ∧ s.Extends s' := by
  obtain ⟨hpending, hseq, haccepted, hcommitted, hcompleted, hperformed, hanswered, hrecorded⟩ := hsame
  have hext : s.Extends s' := ⟨haccepted ▸ List.prefix_refl _, hcommitted, hcompleted, hperformed, hanswered⟩
  refine ⟨?_, hext⟩
  exact {
    length := by rw [haccepted, hseq, h.length]
    cacheable := by rw [haccepted]; exact h.cacheable
    tracks := by
      intro id txn hid
      have htracks := h.tracks id txn (hpending ▸ hid)
      exact ⟨htracks.msgId, haccepted ▸ htracks.accepted, hcommitted ▸ htracks.committed,
        hperformed ▸ htracks.dataDone, hcompleted ▸ htracks.completionArrived, htracks.isResponse⟩
    present := by rw [hseq, hpending, hanswered]; exact h.present
    answered := by rw [hpending, hanswered, hperformed, hcompleted]; exact h.answered
    performed := by rw [hperformed, hcommitted]; exact h.performed
    completed := by rw [hcompleted, hcommitted]; exact h.completed
    committed := by rw [hcommitted, hseq]; exact h.committed
    committed_nodup := by rw [hcommitted]; exact h.committed_nodup
    performed_nodup := by rw [hperformed]; exact h.performed_nodup
    answered_nodup := by rw [hanswered]; exact h.answered_nodup
    order := by
      intro j k hold
      rw [hperformed]
      exact h.order j k ((older_prefix_iff hext.accepted (haccepted ▸ hold.lt_length)).1 hold)
    recorded := hrecorded h.recorded }

/-- An accepted packet is new, and pending from now on. -/
theorem Core.submit (h : s.Core env) {a : Access} (ha : a.cacheable) (port : Nat) :
    ∃ s', s.submit env a port = .ok s' ∧ s'.Core env ∧ s.Extends s' := by
  have hnew : s.pendingRequests.lookup (env.msgId s.nextSeq) = none := by
    cases hlookup : s.pendingRequests.lookup (env.msgId s.nextSeq) with
    | none => rfl
    | some txn =>
      have htracks := h.tracks _ _ hlookup
      have hlt := (List.getElem?_eq_some_iff.1 htracks.accepted).1
      rw [env.msgId_injective htracks.msgId, h.length] at hlt
      exact absurd hlt (lt_irrefl _)
  have hfresh : ∀ l : List Nat, (∀ id ∈ l, ∃ k < s.nextSeq, env.msgId k = id) → env.msgId s.nextSeq ∉ l := by
    intro l hl hmem
    obtain ⟨k, hlt, heq⟩ := hl _ hmem
    exact absurd (env.msgId_injective heq) hlt.ne
  have hcommitted := hfresh _ h.committed
  have hperformed := hfresh _ fun id hid => h.committed id (h.performed id hid)
  have hcompleted := hfresh _ fun id hid => h.committed id (h.completed id hid)
  have hanswered := hfresh _ fun id hid => h.committed id (h.performed id (h.answered id hid).2.1)
  have hguard : ¬ (s.pendingRequests.lookup (env.msgId s.nextSeq)).isSome := by simp [hnew]
  refine ⟨_, if_neg hguard, ?_, ⟨List.prefix_append _ _, rfl, rfl, rfl, rfl⟩⟩
  refine ⟨?_, ?_, ?_, ?_, ?_, h.performed, h.completed, ?_, h.committed_nodup, h.performed_nodup, h.answered_nodup, ?_,
    h.recorded.accept [(a, port)] rfl rfl rfl rfl rfl rfl⟩
  · rw [List.length_append, h.length, List.length_singleton]
  · rw [List.forall_mem_append, List.forall_mem_singleton]
    exact ⟨h.cacheable, ha⟩
  · intro id txn hid
    by_cases heq : id = env.msgId s.nextSeq
    · subst heq
      rw [AList.lookup_insert, Option.some.injEq] at hid
      subst hid
      refine ⟨rfl, ?_, ?_, ?_, fun _ => ?_, rfl⟩
      · dsimp only
        rw [← h.length, List.getElem?_concat_length]
      · simpa using hcommitted
      · simpa using hperformed
      · simpa using hcompleted
    · rw [AList.lookup_insert_ne heq] at hid
      have htracks := h.tracks id txn hid
      refine ⟨htracks.msgId, ?_, htracks.committed, htracks.dataDone, htracks.completionArrived, htracks.isResponse⟩
      exact (List.getElem?_append_left (List.getElem?_eq_some_iff.1 htracks.accepted).1).trans htracks.accepted
  · intro k hk
    rcases Nat.lt_succ_iff_lt_or_eq.1 hk with hlt | rfl
    · refine (h.present k hlt).imp_right fun ⟨txn, hlookup⟩ => ⟨txn, ?_⟩
      rw [AList.lookup_insert_ne fun heq => hlt.ne (env.msgId_injective heq)]
      exact hlookup
    · exact .inr ⟨_, AList.lookup_insert _⟩
  · intro id hid
    have hne : id ≠ env.msgId s.nextSeq := by
      rintro rfl
      exact hanswered hid
    exact ⟨(AList.lookup_insert_ne hne).trans (h.answered id hid).1, (h.answered id hid).2⟩
  · exact fun id hid => (h.committed id hid).imp fun k hk => ⟨hk.1.trans (Nat.lt_succ_self _), hk.2⟩
  · intro j k hold hk
    have hlt : k < s.nextSeq := h.lt_nextSeq (h.performed _ hk)
    refine h.order j k ?_ hk
    exact (older_prefix_iff (List.prefix_append _ _) (h.length ▸ hlt)).1 hold

/-- Asking the L1 and the ports leaves the table as it is. -/
theorem sameTable_asked (s : Bridge μ) (needRetry : List Bool) (checks retries : Nat) :
    SameTable env s { s with needRetry, checks, retries } :=
  ⟨rfl, rfl, rfl, rfl, rfl, rfl, rfl, fun h => ⟨h.mem, h.data, h.sent⟩⟩

/-- So does an answer to a packet that was not handed to the simulator. -/
theorem sameTable_sendPacket (s : Bridge μ) (port : Nat) (pkt : Packet) : SameTable env s (s.sendPacket none port pkt) :=
  ⟨rfl, rfl, rfl, rfl, rfl, rfl, rfl, fun h => ⟨h.mem, h.data, h.sent.concat_none _⟩⟩

/-- And so does a packet that bypasses it. -/
theorem sameTable_bypass (s : Bridge μ) (a : Access) (port : Nat) : SameTable env s (s.bypass env a port) := by
  have hdone : SameTable env s { s with
      mem := (env.sendAtomic s.mem { a with }).1
      data := s.data ++ [(none, { a with })] } :=
    ⟨rfl, rfl, rfl, rfl, rfl, rfl, rfl, fun h =>
      ⟨by rw [List.foldl_append, ← h.mem]; rfl, h.data.concat_none _, h.sent⟩⟩
  rw [bypass]
  dsimp only
  split
  · exact ⟨rfl, rfl, rfl, rfl, rfl, rfl, rfl, fun h => (sameTable_sendPacket _ _ _).recorded (hdone.recorded h)⟩
  · exact hdone

/-- A port receives a packet. -/
theorem Core.accessTiming (h : s.Core env) (a : Access) (port : Nat) :
    ∃ r, s.accessTiming env a port = .ok r ∧ r.2.Core env ∧ s.Extends r.2 := by
  rw [Bridge.accessTiming]
  split
  · exact ⟨_, rfl, h.same (sameTable_sendPacket s port _)⟩
  · split
    · exact ⟨_, rfl, h.same (sameTable_bypass s a port)⟩
    · next hcacheable =>
      rw [Bool.not_eq_true, Bool.not_eq_false'] at hcacheable
      rw [portBlocked]
      cases hblocked : env.isBlocked s.checks s.pendingRequests.entries.length with
      | true => exact ⟨_, rfl, h.same (sameTable_asked s _ _ s.retries)⟩
      | false =>
        have hchecked : ({ s with checks := s.checks + 1 } : Bridge μ).Core env ∧ s.Extends _ :=
          h.same (sameTable_asked s s.needRetry _ s.retries)
        obtain ⟨s', hs', hcore, hext⟩ := hchecked.1.submit hcacheable port
        refine ⟨(true, s'), ?_, hcore, ⟨hext.1, hext.2, hext.3, hext.4, hext.5⟩⟩
        dsimp only
        rw [hs']
        rfl

/-- A sender re-issues packets. -/
theorem Core.resend (h : s.Core env) (port : Nat) (accesses : List Access) :
    ∃ s', accesses.foldlM (fun s a => (s.accessTiming env a port).map (·.2)) s = .ok s' ∧ s'.Core env ∧ s.Extends s' := by
  induction accesses generalizing s with
  | nil => exact ⟨s, rfl, h, .refl s⟩
  | cons a accesses ih =>
    obtain ⟨r, hr, hcore, hext⟩ := h.accessTiming a port
    obtain ⟨s', hs', hcore', hext'⟩ := ih hcore
    refine ⟨s', ?_, hcore', hext.trans hext'⟩
    rw [List.foldlM_cons, hr]
    exact hs'

/-- Retrying the ports re-enters the bridge. -/
theorem Core.retryBlockedPorts (h : s.Core env) :
    ∃ s', s.retryBlockedPorts env = .ok s' ∧ s'.Core env ∧ s.Extends s' := by
  rw [Bridge.retryBlockedPorts, portBlocked]
  cases hblocked : env.isBlocked s.checks s.pendingRequests.entries.length with
  | true => exact ⟨_, rfl, h.same (sameTable_asked s s.needRetry _ s.retries)⟩
  | false =>
    dsimp only
    split
    · exact ⟨_, rfl, h.same (sameTable_asked s s.needRetry _ s.retries)⟩
    · next port hport =>
      have hcleared : ({ s with
          checks := s.checks + 1
          needRetry := s.needRetry.set port false
          retries := s.retries + 1 } : Bridge μ).Core env ∧ s.Extends _ :=
          h.same (sameTable_asked s _ _ _)
      obtain ⟨s', hs', hcore, hext⟩ := hcleared.1.resend port (env.resend s.retries)
      exact ⟨s', hs', hcore, ⟨hext.1, hext.2, hext.3, hext.4, hext.5⟩⟩

/-- A packet is answered, which re-enters the bridge. -/
structure Answers (env : Surroundings μ) (s : Bridge μ) (id : Nat) (s' : Bridge μ) : Prop where
  core : s'.Core env
  accepted : s.accepted <+: s'.accepted
  committed : s'.committed = s.committed
  completed : s'.completed = s.completed
  performed : s'.performed = s.performed
  answered : s'.answered = s.answered ++ [id]

/-- An access that is performed and complete is answered. -/
theorem Core.respond (h : s.Core env) (hid : s.pendingRequests.lookup id = some txn) (hdone : txn.dataDone)
    (hcompleted : id ∈ s.completed) : ∃ s', s.respond env id = .ok s' ∧ s.Answers env id s' := by
  have htracks := h.tracks id txn hid
  have herased : (({ s with
      pendingRequests := s.pendingRequests.erase id
      answered := s.answered ++ [id] } : Bridge μ).sendPacket (some id) txn.portId txn.pkt).Core env := by
    have hresponse : s.Response env id (txn.portId, txn.pkt) :=
      ⟨txn.seq, txn.pkt.toAccess, txn.portId, htracks.msgId, htracks.accepted, by
        rw [← hdone, ← htracks.isResponse]⟩
    refine ⟨h.length, h.cacheable, ?_, ?_, ?_, h.performed, h.completed, h.committed, h.committed_nodup, h.performed_nodup,
      ?_, h.order, h.recorded.mem, h.recorded.data, h.recorded.sent.concat_some hresponse⟩
    · intro other txn' hother
      have hne : other ≠ id := by
        rintro rfl
        rw [sendPacket, AList.lookup_erase] at hother
        cases hother
      rw [sendPacket, AList.lookup_erase_ne hne] at hother
      have htracks' := h.tracks other txn' hother
      exact ⟨htracks'.1, htracks'.2, htracks'.3, htracks'.4, htracks'.5, htracks'.6⟩
    · intro k hk
      by_cases heq : env.msgId k = id
      · exact .inl (List.mem_append_right _ (List.mem_singleton.2 heq))
      · rcases h.present k hk with hanswered | ⟨txn', hlookup⟩
        · exact .inl (List.mem_append_left _ hanswered)
        · exact .inr ⟨txn', (AList.lookup_erase_ne heq).trans hlookup⟩
    · intro other hother
      rcases List.mem_append.1 hother with hold | hnew
      · refine ⟨?_, (h.answered other hold).2⟩
        by_cases heq : other = id
        · rw [heq]
          exact AList.lookup_erase _ _
        · exact (AList.lookup_erase_ne heq).trans (h.answered other hold).1
      · rw [List.mem_singleton.1 hnew]
        exact ⟨AList.lookup_erase _ _, htracks.dataDone.1 hdone, hcompleted⟩
    · have hnew : id ∉ s.answered := by
        intro hmem
        have := (h.answered id hmem).1
        rw [hid] at this
        cases this
      exact List.nodup_append'.2 ⟨h.answered_nodup, List.nodup_singleton _, List.disjoint_singleton.2 hnew⟩
  obtain ⟨s', hs', hcore, hext⟩ := herased.retryBlockedPorts
  refine ⟨s', ?_, hcore, hext.1, hext.2, hext.3, hext.4, hext.5⟩
  rw [Bridge.respond, hid]
  dsimp only
  rw [if_neg (by rw [htracks.isResponse, hdone]; simp)]
  exact hs'

/-- The table finds an older write exactly when the access waits for one. -/
theorem Core.blockedByOlderWrite (h : s.Core env) (hid : s.pendingRequests.lookup id = some txn) :
    s.blockedByOlderWrite txn ↔ s.Waits env txn.seq := by
  have htracks := h.tracks id txn hid
  have hhi : ∀ a : Access, (a.addr + a.size) % 2 ^ 64 = a.addr + a.size := fun a => Nat.mod_eq_of_lt a.fits
  rw [Bridge.blockedByOlderWrite, List.any_eq_true]
  simp only [hhi, Bool.and_eq_true, Bool.not_eq_true', Bool.or_eq_false_iff, decide_eq_false_iff_not, not_le,
    decide_eq_true_eq, Bool.not_eq_false']
  constructor
  · rintro ⟨⟨id', o⟩, hmem, ⟨⟨⟨hlt, hdone⟩, hwrite⟩, hlo⟩, hhi⟩
    have ho := h.tracks id' o (AList.mem_lookup_iff.2 hmem)
    refine ⟨o.seq, ⟨hlt, _, _, ho.accepted, htracks.accepted, hwrite, hlo, hhi⟩, ?_⟩
    rw [ho.msgId, ← ho.dataDone, hdone]
    exact Bool.false_ne_true
  · rintro ⟨j, ⟨hlt, a, b, ha, hb, hwrite, hoverlap⟩, hj⟩
    obtain rfl : (txn.pkt.toAccess, txn.portId) = b := Option.some.inj (htracks.accepted.symm.trans hb)
    have hpresent := h.present j (h.length ▸ (List.getElem?_eq_some_iff.1 ha).1)
    obtain ⟨o, ho⟩ := hpresent.resolve_left fun hanswered => hj (h.answered _ hanswered).2.1
    have htracks' := h.tracks _ o ho
    obtain rfl : o.seq = j := env.msgId_injective htracks'.msgId
    obtain rfl : (o.pkt.toAccess, o.portId) = a := Option.some.inj (htracks'.accepted.symm.trans ha)
    have hdone : o.dataDone = false := by
      rw [← Bool.not_eq_true, htracks'.dataDone]
      exact hj
    exact ⟨⟨_, o⟩, AList.mem_lookup_iff.1 ho, ⟨⟨⟨hlt, hdone⟩, hwrite⟩, hoverlap.1⟩, hoverlap.2⟩

/-- The number of committed accesses that are not performed. -/
def unperformed (s : Bridge μ) : Nat :=
  (s.committed.filter fun id => id ∉ s.performed).length

/-- What is performed and complete is answered. -/
def Prompt (s : Bridge μ) : Prop :=
  ∀ id ∈ s.performed, id ∈ s.completed → id ∈ s.answered

/-- An access that nothing must precede is performed. -/
theorem Core.perform (h : s.Core env) (hid : s.pendingRequests.lookup id = some txn) (hcommitted : txn.committed)
    (hdone : txn.dataDone = false) (hwaits : ¬ s.Waits env txn.seq) : (s.perform env id txn).Core env := by
  have htracks := h.tracks id txn hid
  have hcacheable : txn.pkt.cacheable := h.cacheable _ (List.mem_of_getElem? htracks.accepted)
  dsimp only [Bridge.perform]
  rw [env.response s.mem txn.pkt (htracks.isResponse.trans hdone) hcacheable]
  have hrequest : s.Request env id txn.pkt :=
    ⟨txn.seq, txn.pkt.toAccess, txn.portId, htracks.msgId, htracks.accepted, by rw [← hdone, ← htracks.isResponse]⟩
  have hnew : id ∉ s.performed := by
    rw [← htracks.dataDone, hdone]
    exact Bool.false_ne_true
  refine ⟨h.length, h.cacheable, ?_, ?_, ?_, ?_, h.completed, h.committed, h.committed_nodup, ?_, h.answered_nodup, ?_,
    ?_, h.recorded.data.concat_some hrequest, h.recorded.sent⟩
  · intro other txn' hother
    by_cases heq : other = id
    · subst heq
      rw [AList.lookup_insert, Option.some.injEq] at hother
      subst hother
      exact ⟨htracks.msgId, htracks.accepted, htracks.committed, by simp, fun hfalse => Bool.noConfusion hfalse, rfl⟩
    · rw [AList.lookup_insert_ne heq] at hother
      have htracks' := h.tracks other txn' hother
      refine ⟨htracks'.msgId, htracks'.accepted, htracks'.committed, ?_, htracks'.completionArrived, htracks'.isResponse⟩
      rw [htracks'.dataDone, List.mem_append, List.mem_singleton, or_iff_left heq]
  · exact fun k hk => h.present_insert _ _ hk
  · intro other hother
    obtain ⟨hnone, hperformed, hcompleted⟩ := h.answered other hother
    have hne : other ≠ id := by
      rintro rfl
      exact hnew hperformed
    exact ⟨(AList.lookup_insert_ne hne).trans hnone, List.mem_append_left _ hperformed, hcompleted⟩
  · rw [List.forall_mem_append, List.forall_mem_singleton]
    exact ⟨h.performed, htracks.committed.1 hcommitted⟩
  · exact List.nodup_append'.2 ⟨h.performed_nodup, List.nodup_singleton _, List.disjoint_singleton.2 hnew⟩
  · intro j k hold hk
    rcases List.mem_append.1 hk with hperformed | hlast
    · exact (h.order j k hold hperformed).trans (List.sublist_append_left _ _)
    · obtain rfl : k = txn.seq := env.msgId_injective ((List.mem_singleton.1 hlast).trans htracks.msgId.symm)
      have hbefore : env.msgId j ∈ s.performed := by
        by_contra hj
        exact hwaits ⟨j, hold, hj⟩
      rw [List.mem_singleton.1 hlast]
      exact (List.singleton_sublist.2 hbefore).append (List.Sublist.refl [id])
  · rw [List.foldl_append, ← h.recorded.mem]
    rfl

/-- What performing data does to the rest: only accesses that were free may still be. -/
structure Performs (env : Surroundings μ) (s s' : Bridge μ) : Prop where
  core : s'.Core env
  prompt : s'.Prompt
  accepted : s.accepted <+: s'.accepted
  committed : s'.committed = s.committed
  completed : s'.completed = s.completed
  performed : s.performed ⊆ s'.performed
  free : ∀ j, s'.Free env j → s.Free env j

theorem Performs.trans {t : Bridge μ} (h : s.Performs env s') (h' : s'.Performs env t) : s.Performs env t where
  core := h'.core
  prompt := h'.prompt
  accepted := h.accepted.trans h'.accepted
  committed := h'.committed.trans h.committed
  completed := h'.completed.trans h.completed
  performed := List.Subset.trans h.performed h'.performed
  free j hj := h.free j (h'.free j hj)

/-- Performing more leaves no more to perform. -/
theorem unperformed_le (hcommitted : s'.committed = s.committed) (hperformed : s.performed ⊆ s'.performed) :
    s'.unperformed ≤ s.unperformed := by
  rw [unperformed, unperformed, hcommitted]
  refine (List.monotone_filter_right _ fun id hid => ?_).length_le
  rw [decide_eq_true_eq] at hid ⊢
  exact fun hmem => hid (hperformed hmem)

/-- Performing an access leaves one less. -/
theorem unperformed_lt (hcommitted : s'.committed = s.committed) (hperformed : s'.performed = s.performed ++ [id])
    (hid : id ∈ s.committed) (hnew : id ∉ s.performed) : s'.unperformed < s.unperformed := by
  rw [unperformed, unperformed, hcommitted, hperformed]
  have hsplit : (s.committed.filter fun other => other ∉ s.performed ++ [id]) =
      (s.committed.filter fun other => other ∉ s.performed).filter fun other => other ≠ id := by
    rw [List.filter_filter]
    refine List.filter_congr fun other _ => ?_
    simp [and_comm]
  rw [hsplit]
  refine lt_of_le_of_ne (List.length_filter_le _ _) fun heq => ?_
  have hall := List.length_filter_eq_length_iff.1 heq id (by simpa using ⟨hid, hnew⟩)
  simp at hall

/-- What `performData` is expected to do with so much fuel. -/
def Works (env : Surroundings μ) (fuel : Nat) : Prop :=
  ∀ (s : Bridge μ) (id : Nat) (txn : PendingTxn), s.Core env → s.Prompt → s.pendingRequests.lookup id = some txn →
    txn.committed → txn.dataDone = false → ¬ s.Waits env txn.seq → s.unperformed ≤ fuel →
      ∃ s', performData env fuel id s = .ok s' ∧ s.Performs env s' ∧ id ∈ s'.performed

/-- Going through accesses, among them all that are free, leaves none free. -/
theorem Works.release {fuel : Nat} (hworks : Works env fuel) (hs : List (Nat ×ₗ Nat)) (h : s.Core env) (hprompt : s.Prompt)
    (hfuel : s.unperformed ≤ fuel) (hcommitted : ∀ e ∈ hs, (ofLex e).2 ∈ s.committed)
    (hfree : ∀ k, s.Free env k → toLex (k, env.msgId k) ∈ hs) :
    ∃ s', hs.foldlM (releaseNext (performData env fuel)) s = .ok s' ∧ s.Performs env s' ∧ ∀ k, ¬ s'.Free env k := by
  induction hs generalizing s with
  | nil =>
    refine ⟨s, rfl, ⟨h, hprompt, List.prefix_refl _, rfl, rfl, List.Subset.refl _, fun _ hj => hj⟩, fun k hk => ?_⟩
    exact absurd (hfree k hk) List.not_mem_nil
  | cons e hs ih =>
    rw [List.forall_mem_cons] at hcommitted
    -- an access that is not free now stands for none of the free ones, which are among the rest then
    have hskip : (∀ k, s.Free env k → env.msgId k ≠ (ofLex e).2) → releaseNext (performData env fuel) s e = .ok s →
        ∃ s', (e :: hs).foldlM (releaseNext (performData env fuel)) s = .ok s' ∧ s.Performs env s' ∧ ∀ k, ¬ s'.Free env k := by
      intro hother hstep
      rw [List.foldlM_cons, hstep]
      refine ih h hprompt hfuel hcommitted.2 fun k hk => (List.mem_cons.1 (hfree k hk)).resolve_left ?_
      rintro rfl
      exact hother k hk rfl
    cases hlookup : s.pendingRequests.lookup (ofLex e).2 with
    | none =>
      refine hskip (fun k hk heq => ?_) (by rw [releaseNext, hlookup])
      obtain ⟨txn, htxn⟩ := h.pending hk.1 hk.2.1
      rw [heq, hlookup] at htxn
      cases htxn
    | some txn =>
      have htracks := h.tracks _ txn hlookup
      by_cases hdone : txn.dataDone
      · refine hskip (fun k hk heq => hk.2.1 ?_) (by rw [releaseNext, hlookup]; exact if_pos hdone)
        rw [heq]
        exact htracks.dataDone.1 hdone
      · rw [Bool.not_eq_true] at hdone
        by_cases hblocked : s.blockedByOlderWrite txn
        · refine hskip (fun k hk heq => hk.2.2 ?_) (by rw [releaseNext, hlookup]; simp [hdone, hblocked])
          rw [env.msgId_injective (heq.trans htracks.msgId.symm)]
          exact (h.blockedByOlderWrite hlookup).1 hblocked
        · have hstep : releaseNext (performData env fuel) s e = performData env fuel (ofLex e).2 s := by
            rw [releaseNext, hlookup]
            simp [hdone, hblocked]
          have hwaits : ¬ s.Waits env txn.seq := fun hwaits => hblocked ((h.blockedByOlderWrite hlookup).2 hwaits)
          obtain ⟨s₁, hs₁, hperforms, hid⟩ :=
            hworks s _ txn h hprompt hlookup (htracks.committed.2 hcommitted.1) hdone hwaits hfuel
          have hfuel₁ := (unperformed_le hperforms.committed hperforms.performed).trans hfuel
          have hfree₁ : ∀ k, s₁.Free env k → toLex (k, env.msgId k) ∈ hs := by
            intro k hk
            refine (List.mem_cons.1 (hfree k (hperforms.free k hk))).resolve_left ?_
            rintro rfl
            exact hk.2.1 hid
          obtain ⟨s', hs', hperforms', hnone⟩ :=
            ih hperforms.core hperforms.prompt hfuel₁ (hperforms.committed ▸ hcommitted.2) hfree₁
          refine ⟨s', ?_, hperforms.trans hperforms', hnone⟩
          rw [List.foldlM_cons, hstep, hs₁]
          exact hs'

/-- What is free is held back. -/
theorem Core.mem_held (h : s.Core env) (hk : s.Free env k) : toLex (k, env.msgId k) ∈ s.held := by
  obtain ⟨txn, hlookup⟩ := h.pending hk.1 hk.2.1
  have htracks := h.tracks _ txn hlookup
  obtain rfl : txn.seq = k := env.msgId_injective htracks.msgId
  have hdone : txn.dataDone = false := by
    rw [← Bool.not_eq_true, htracks.dataDone]
    exact hk.2.1
  rw [held, List.mem_insertionSort]
  refine List.mem_map.2 ⟨⟨_, txn⟩, List.mem_filter.2 ⟨AList.mem_lookup_iff.1 hlookup, ?_⟩, rfl⟩
  simp [htracks.committed.2 hk.1, hdone]

/-- What is held back is committed. -/
theorem Core.committed_of_mem_held (h : s.Core env) {e : Nat ×ₗ Nat} (he : e ∈ s.held) : (ofLex e).2 ∈ s.committed := by
  rw [held, List.mem_insertionSort] at he
  obtain ⟨⟨id, txn⟩, hmem, rfl⟩ := List.mem_map.1 he
  obtain ⟨hmem, hheld⟩ := List.mem_filter.1 hmem
  rw [Bool.and_eq_true] at hheld
  exact (h.tracks id txn (AList.mem_lookup_iff.2 hmem)).committed.1 hheld.1

/-- Releasing what is held back leaves nothing free. -/
theorem Works.releaseHeldBack {fuel : Nat} (hworks : Works env fuel) (h : s.Core env) (hprompt : s.Prompt)
    (hfuel : s.unperformed ≤ fuel) :
    ∃ s', s.releaseHeldBack (performData env fuel) = .ok s' ∧ s.Performs env s' ∧ ∀ k, ¬ s'.Free env k :=
  hworks.release s.held h hprompt hfuel (fun _ => h.committed_of_mem_held) fun _ => h.mem_held

/-- An access that has just been performed is answered if it is complete. -/
theorem Core.finish (h : s.Core env) (hlookup : s.pendingRequests.lookup id = some txn) (hdone : txn.dataDone)
    (hprompt : ∀ other ∈ s.performed, other ≠ id → other ∈ s.completed → other ∈ s.answered) {arrived : Bool}
    (harrived : arrived ↔ id ∈ s.completed) :
    ∃ s', (if arrived then s.respond env id else .ok s) = .ok s' ∧ s'.Core env ∧ s'.Prompt ∧
      s.accepted <+: s'.accepted ∧ s'.committed = s.committed ∧ s'.completed = s.completed ∧
      s'.performed = s.performed := by
  cases arrived with
  | false =>
    refine ⟨s, rfl, h, fun other hother hcompleted => hprompt other hother ?_ hcompleted, List.prefix_refl _, rfl, rfl, rfl⟩
    rintro rfl
    exact Bool.false_ne_true (harrived.2 hcompleted)
  | true =>
    obtain ⟨s', hs', hanswers⟩ := h.respond hlookup hdone (harrived.1 rfl)
    refine ⟨s', hs', hanswers.core, fun other hother hcompleted => ?_, hanswers.accepted, hanswers.committed,
      hanswers.completed, hanswers.performed⟩
    rw [hanswers.answered, List.mem_append, List.mem_singleton]
    by_cases heq : other = id
    · exact .inr heq
    · exact .inl (hprompt other (hanswers.performed ▸ hother) heq (hanswers.completed ▸ hcompleted))

/-- Performing a read frees no other access. -/
theorem free_of_read (haccepted : s.accepted <+: s'.accepted) (hcommitted : s'.committed = s.committed)
    (hperformed : s'.performed = s.performed ++ [id]) (hmsgId : env.msgId txn.seq = id)
    (hread : s.accepted[txn.seq]? = some (txn.pkt.toAccess, txn.portId)) (hwrite : txn.pkt.isWrite = false)
    (hfree : s'.Free env k) : s.Free env k := by
  obtain ⟨hc, hp, hw⟩ := hfree
  rw [hperformed, List.mem_append, not_or] at hp
  refine ⟨hcommitted ▸ hc, hp.1, fun ⟨j, hold, hj⟩ => hw ⟨j, (older_prefix_iff haccepted hold.lt_length).2 hold, ?_⟩⟩
  rw [hperformed, List.mem_append, List.mem_singleton, not_or]
  refine ⟨hj, fun heq => ?_⟩
  obtain ⟨-, a, b, ha, -, hwa, -⟩ := hold
  rw [env.msgId_injective (heq.trans hmsgId.symm), hread, Option.some.injEq] at ha
  rw [← ha, hwrite] at hwa
  cases hwa

/-- Performing an access, and all that it releases. -/
theorem works (env : Surroundings μ) (fuel : Nat) : Works env fuel := by
  induction fuel with
  | zero =>
    intro s id txn h _ hlookup hcommitted hdone _ hfuel
    have htracks := h.tracks id txn hlookup
    have hmem : id ∈ s.committed.filter fun other => other ∉ s.performed := by
      refine List.mem_filter.2 ⟨htracks.committed.1 hcommitted, ?_⟩
      rw [decide_eq_true_eq, ← htracks.dataDone, hdone]
      exact Bool.false_ne_true
    exact absurd (List.length_pos_of_mem hmem) (Nat.not_lt.2 hfuel)
  | succ fuel ih =>
    intro s id txn h hprompt hlookup hcommitted hdone hwaits hfuel
    have htracks := h.tracks id txn hlookup
    have hnew : id ∉ s.performed := by
      rw [← htracks.dataDone, hdone]
      exact Bool.false_ne_true
    have hcacheable : txn.pkt.cacheable := h.cacheable _ (List.mem_of_getElem? htracks.accepted)
    have hresponse := env.response s.mem txn.pkt (htracks.isResponse.trans hdone) hcacheable
    have hmarked := h.perform hlookup hcommitted hdone hwaits
    have hprompt' : ∀ other ∈ s.performed ++ [id], other ≠ id → other ∈ s.completed → other ∈ s.answered := by
      intro other hother hne hcompleted
      exact hprompt other ((List.mem_append.1 hother).resolve_right fun hid => hne (List.mem_singleton.1 hid)) hcompleted
    obtain ⟨s₂, hs₂, hcore₂, hprompt₂, haccepted₂, hcommitted₂, hcompleted₂, hperformed₂⟩ :=
      hmarked.finish (AList.lookup_insert _) rfl hprompt' (htracks.completionArrived hdone)
    have hless : s₂.unperformed ≤ fuel := by
      have hperformed : s₂.performed = s.performed ++ [id] := hperformed₂
      have hcommitted' : s₂.committed = s.committed := hcommitted₂
      have := unperformed_lt hcommitted' hperformed (htracks.committed.1 hcommitted) hnew
      omega
    have hbegin : performData env (fuel + 1) id s =
        if txn.pkt.isWrite then s₂.releaseHeldBack (performData env fuel) else .ok s₂ := by
      rw [performData, hlookup]
      dsimp only
      rw [hresponse, if_neg (by simp), hs₂]
      rfl
    have hid₂ : id ∈ s₂.performed := by
      rw [hperformed₂]
      exact List.mem_append_right _ (List.mem_singleton_self id)
    have hsubset : s.performed ⊆ s₂.performed := by
      rw [hperformed₂]
      exact List.subset_append_left _ _
    rw [hbegin]
    cases hwrite : txn.pkt.isWrite with
    | true =>
      obtain ⟨s', hs', hperforms, hnone⟩ := ih.releaseHeldBack hcore₂ hprompt₂ hless
      exact ⟨s', hs', ⟨hperforms.core, hperforms.prompt, haccepted₂.trans hperforms.accepted,
        hperforms.committed.trans hcommitted₂, hperforms.completed.trans hcompleted₂,
        List.Subset.trans hsubset hperforms.performed, fun j hj => absurd hj (hnone j)⟩, hperforms.performed hid₂⟩
    | false =>
      exact ⟨s₂, rfl, ⟨hcore₂, hprompt₂, haccepted₂, hcommitted₂, hcompleted₂, hsubset, fun j hj =>
        free_of_read haccepted₂ hcommitted₂ hperformed₂ htracks.msgId htracks.accepted hwrite hj⟩, hid₂⟩

end Bridge

end Octopus
