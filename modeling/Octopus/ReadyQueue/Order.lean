import Octopus.ReadyQueue.Calls

/-!
# What the processing queue keeps in order

Messages from the interconnect are pushed in front of the requests of the other side, in their order, and
the gate lets the requests and invalidations of a line leave in queue order. No message is lost.
-/

namespace Octopus

namespace FRFCFSBuffer

/--
The calls of a queue whose two sides push messages of different sources, `front` telling those that are
pushed in front, with a callback that never asks for an action.
-/
def Allowed (front : Source → Bool) : Call Consulted → Prop
  | .pushBack item _ _ => front item.source = false
  | .pushFrontOrdered item => front item.source = true
  | .pushFront _ => False
  | .getFirstReady c => ∀ item state, c.m_check_state_callback item state ≠ .needsAction
  | .markDirty => True

/-- The demand requests and invalidations of a line, in the order of a list. -/
def orderedOf (m_line_mask addr : Nat) (msgs : List Message) : List Message :=
  msgs.filter fun m => m.isOrdered && sameLineUnder m_line_mask m.addr addr

variable {front : Source → Bool} {m_line_mask : Nat} {q : FRFCFSBuffer} {c : Call Consulted} {calls : List (Call Consulted)}
  {acc ret : List Message}

/-- The lines of a mask. -/
theorem sameLineUnder_iff {a b : Nat} :
    sameLineUnder m_line_mask a b = true ↔ m_line_mask ≠ 0 ∧ a &&& m_line_mask = b &&& m_line_mask := by
  rw [sameLineUnder, Nat.and_xor_distrib_right, Bool.and_eq_true, bne_iff_ne, beq_iff_eq]
  refine and_congr_right fun _ => ⟨fun h => Nat.eq_of_testBit_eq fun i => ?_, fun h => by rw [h, Nat.xor_self]⟩
  have hbit := congrArg (fun n => n.testBit i) h
  simpa only [Nat.testBit_xor, Nat.zero_testBit, bne_eq_false_iff_eq] using hbit

/-- The place behind the last element of a source. -/
theorem behindSource_spec (source : Source) (buf : List Element) :
    ∃ pre post, buf = pre ++ post ∧ behindSource source buf = pre.length ∧ (∀ e ∈ post, e.item.source ≠ source) ∧
      (pre = [] ∨ ∃ pre' e, pre = pre' ++ [e] ∧ e.item.source = source) := by
  induction buf with
  | nil => exact ⟨[], [], rfl, rfl, by simp, .inl rfl⟩
  | cons e rest ih =>
    obtain ⟨pre, post, rfl, hlen, hpost, hpre⟩ := ih
    rw [behindSource, hlen]
    rcases hpre with rfl | ⟨pre', x, rfl, hx⟩
    · dsimp only [List.length_nil]
      split_ifs with he
      · exact ⟨[e], post, rfl, rfl, hpost, .inr ⟨[], e, rfl, he⟩⟩
      · exact ⟨[], e :: post, rfl, rfl, by simpa using ⟨he, hpost⟩, .inl rfl⟩
    · refine ⟨e :: (pre' ++ [x]), post, rfl, ?_, hpost, .inr ⟨e :: pre', x, rfl, hx⟩⟩
      simp

/-- What was accepted is returned or queued, in two parts, the messages of a source in the order of their acceptance. -/
structure Arranged (front : Source → Bool) (acc ret : List Message) (q : FRFCFSBuffer) : Prop where
  perm : acc.Perm (ret ++ q.queued)
  parts : q.queued.Pairwise fun a b => front b.source = true → front a.source = true
  order : ∀ src, (q.queued.filter fun m => m.source = src).Sublist (acc.filter fun m => m.source = src)

/-- A message at the end of the queue. -/
theorem Arranged.pushBack (h : Arranged front acc ret q) {m : Message} (hm : front m.source = false) {q' : FRFCFSBuffer}
    (hq' : q'.queued = q.queued ++ [m]) : Arranged front (acc ++ [m]) ret q' := by
  refine ⟨?_, ?_, fun src => ?_⟩
  · rw [hq', ← List.append_assoc]
    exact h.perm.append_right [m]
  · rw [hq', List.pairwise_append]
    refine ⟨h.parts, List.pairwise_singleton _ m, fun a _ b hb hfront => ?_⟩
    rw [List.mem_singleton.1 hb, hm] at hfront
    simp at hfront
  · rw [hq', List.filter_append, List.filter_append]
    exact (h.order src).append (List.Sublist.refl _)

/-- A message behind the last one of its source. -/
theorem Arranged.pushFrontOrdered (h : Arranged front acc ret q) {m : Message} (hm : front m.source = true) :
    Arranged front (acc ++ [m]) ret (q.pushFrontOrdered m) := by
  obtain ⟨pre, post, hbuf, hlen, hpost, hpre⟩ := behindSource_spec m.source q.buffer
  have hq : q.queued = pre.map (·.item) ++ post.map (·.item) := by rw [queued, hbuf, List.map_append]
  have hq' : (q.pushFrontOrdered m).queued = pre.map (·.item) ++ m :: post.map (·.item) := by
    rw [FRFCFSBuffer.pushFrontOrdered, queued]
    dsimp only
    rw [hlen, hbuf, List.take_left, List.drop_left, List.map_append, List.map_cons]
  have hperm := h.perm
  have hparts := h.parts
  rw [hq] at hperm hparts
  obtain ⟨hleft, hright, hcross⟩ := List.pairwise_append.1 hparts
  refine ⟨?_, ?_, fun src => ?_⟩
  · rw [hq']
    have hmiddle : (ret ++ (pre.map (·.item) ++ m :: post.map (·.item))).Perm
        (ret ++ (pre.map (·.item) ++ post.map (·.item)) ++ [m]) := by
      rw [List.append_assoc]
      exact (List.perm_middle.trans (List.perm_append_singleton m _).symm).append_left ret
    exact (hperm.append_right [m]).trans hmiddle.symm
  · rw [hq', List.pairwise_append]
    refine ⟨hleft, List.pairwise_cons.2 ⟨fun _ _ _ => hm, hright⟩, fun a ha b hb hfront => ?_⟩
    rcases List.mem_cons.1 hb with rfl | hb
    · -- the last of the messages in front of the new one has its source
      rcases hpre with rfl | ⟨pre', e, rfl, he⟩
      · simp at ha
      · rw [List.map_append, List.mem_append] at ha
        rcases ha with ha | ha
        · rw [List.map_append] at hleft
          exact (List.pairwise_append.1 hleft).2.2 a ha e.item (by simp) (by rw [he]; exact hm)
        · obtain rfl : a = e.item := by simpa using ha
          rw [he]
          exact hm
    · exact hcross a ha b hb hfront
  · have horder := h.order src
    rw [hq, List.filter_append] at horder
    rw [hq', List.filter_append, List.filter_append]
    by_cases hsrc : m.source = src
    · subst hsrc
      have hnone : (post.map (·.item)).filter (fun x => x.source = m.source) = [] := by
        rw [List.filter_eq_nil_iff]
        intro x hx
        obtain ⟨e, he, rfl⟩ := List.mem_map.1 hx
        simpa using hpost e he
      rw [hnone, List.append_nil] at horder
      rw [List.filter_cons_of_pos (by simp), hnone, List.filter_cons_of_pos (by simp), List.filter_nil]
      exact horder.append (List.Sublist.refl _)
    · rw [List.filter_cons_of_neg (by simpa using hsrc), List.filter_cons_of_neg (by simpa using hsrc), List.filter_nil,
        List.append_nil]
      exact horder

/-- A message is taken. -/
theorem Arranged.pop (h : Arranged front acc ret q) {m : Message} {pre post : List Message}
    (hq : q.queued = pre ++ m :: post) {q' : FRFCFSBuffer} (hq' : q'.queued = pre ++ post) :
    Arranged front acc (ret ++ [m]) q' := by
  have hsub : q'.queued.Sublist q.queued := by
    rw [hq, hq']
    exact (List.Sublist.refl pre).append (List.sublist_cons_self m post)
  refine ⟨h.perm.trans ?_, h.parts.sublist hsub, fun src => (hsub.filter _).trans (h.order src)⟩
  rw [hq, hq', List.append_assoc]
  exact List.perm_middle.append_left ret

/-- A line in the order of its requests. -/
theorem orderedOf_append {addr : Nat} {xs ys : List Message} :
    orderedOf m_line_mask addr (xs ++ ys) = orderedOf m_line_mask addr xs ++ orderedOf m_line_mask addr ys :=
  List.filter_append ..

/-- The message that the gate lets through is the first of its line. -/
theorem orderedOf_found {addr : Nat} {scan : Scan} (hscan : scan.sameLine = sameLineUnder m_line_mask)
    {pre post : List Element} {e : Element} (hgate : gated scan pre e.item = false) :
    orderedOf m_line_mask addr ((pre ++ e :: post).map (·.item)) =
      orderedOf m_line_mask addr [e.item] ++ orderedOf m_line_mask addr ((pre ++ post).map (·.item)) := by
  rw [List.map_append, List.map_cons, List.map_append, ← List.singleton_append, orderedOf_append, orderedOf_append,
    orderedOf_append]
  by_cases hline : (e.item.isOrdered && sameLineUnder m_line_mask e.item.addr addr) = true
  · have hnone : orderedOf m_line_mask addr (pre.map (·.item)) = [] := by
      rw [orderedOf, List.filter_eq_nil_iff]
      intro m hm hmLine
      obtain ⟨o, ho, rfl⟩ := List.mem_map.1 hm
      rw [Bool.and_eq_true] at hline hmLine
      obtain ⟨hmask, hsame⟩ := sameLineUnder_iff.1 hline.2
      obtain ⟨-, hsame'⟩ := sameLineUnder_iff.1 hmLine.2
      rw [gated, hline.1, Bool.true_and, List.any_eq_false] at hgate
      refine hgate o ho ?_
      rw [Bool.and_eq_true, hscan]
      exact ⟨hmLine.1, sameLineUnder_iff.2 ⟨hmask, hsame'.trans hsame.symm⟩⟩
    rw [hnone, List.nil_append, List.nil_append]
  · have hnone : orderedOf m_line_mask addr [e.item] = [] := by
      rw [orderedOf, List.filter_eq_nil_iff]
      simpa using hline
    rw [hnone, List.nil_append, List.nil_append]

/-- A call of `getFirstReady` on a queue, as a list of messages: one is taken, or the queue stays. -/
theorem queued_getFirstReady {scan : Scan} (hplain : scan.Plain) (hfree : scan.ActionFree) :
    (∃ pre e post, q.buffer = pre ++ e :: post ∧ gated scan pre e.item = false ∧ (q.getFirstReady scan).1 = some e.item ∧
      (q.getFirstReady scan).2.queued = (pre ++ post).map (·.item)) ∨
    ((q.getFirstReady scan).1 = none ∧ (q.getFirstReady scan).2.queued = q.queued) := by
  rcases getFirstReady_cases hplain hfree q with ⟨-, -, hskip⟩ | hscanned
  · rw [hskip]
    exact .inr ⟨rfl, rfl⟩
  · generalize q.getFirstReady scan = r at hscanned
    obtain ⟨answer, q'⟩ := r
    cases hscanned with
    | found pre hbuf hnone he hitems => exact .inl ⟨pre, _, _, hbuf, he.2.1, rfl, hitems⟩
    | nothing hnone hitems => exact .inr ⟨rfl, hitems⟩

/-- The scan of an allowed call. -/
theorem Allowed.plain_actionFree {c : Consulted} (h : Allowed front (.getFirstReady c)) :
    (c.scan m_line_mask).Plain ∧ (c.scan m_line_mask).ActionFree := ⟨fun _ _ => rfl, h⟩

/-- One call keeps the arrangement. -/
theorem Arranged.call (h : Arranged front acc ret q) (hc : Allowed front c) :
    Arranged front (acc ++ (q.accepted c).toList) (ret ++ (q.call (Consulted.scan m_line_mask) c).1.toList)
      (q.call (Consulted.scan m_line_mask) c).2 := by
  cases c with
  | pushBack item state force =>
    rw [accepted, FRFCFSBuffer.call]
    cases hpush : q.pushBack item state force with
    | none => simpa using h
    | some q' =>
      simp only [Option.map_some, Option.toList_some, Option.getD_some, Option.toList_none, List.append_nil]
      refine h.pushBack hc ?_
      rw [FRFCFSBuffer.pushBack] at hpush
      split_ifs at hpush
      rw [← Option.some.inj hpush]
      simp [queued]
  | pushFrontOrdered item =>
    rw [accepted, FRFCFSBuffer.call, Option.toList_some, Option.toList_none, List.append_nil]
    exact h.pushFrontOrdered hc
  | pushFront item => exact hc.elim
  | getFirstReady c =>
    rw [accepted, FRFCFSBuffer.call, Option.toList_none, List.append_nil]
    rcases @queued_getFirstReady q _ hc.plain_actionFree.1 hc.plain_actionFree.2 with ⟨pre, e, post, hbuf, -, hanswer, hqueued⟩ | ⟨hanswer, hqueued⟩
    · rw [hanswer, Option.toList_some]
      have hsplit : q.queued = pre.map (·.item) ++ e.item :: post.map (·.item) := by
        rw [queued, hbuf, List.map_append, List.map_cons]
      exact h.pop hsplit (by rw [hqueued, List.map_append])
    · rw [hanswer, Option.toList_none, List.append_nil]
      exact ⟨by rw [hqueued]; exact h.perm, by rw [hqueued]; exact h.parts, fun src => by rw [hqueued]; exact h.order src⟩
  | markDirty =>
    rw [accepted, FRFCFSBuffer.call, Option.toList_none, List.append_nil, List.append_nil]
    exact ⟨h.perm, h.parts, h.order⟩

/-- A sequence of calls keeps the arrangement. -/
theorem Arranged.run (h : Arranged front acc ret q) (hcalls : ∀ c ∈ calls, Allowed front c) :
    Arranged front (acc ++ allAccepted (Consulted.scan m_line_mask) q calls)
      (ret ++ allReturned (Consulted.scan m_line_mask) q calls) (q.run (Consulted.scan m_line_mask) calls).2 := by
  induction calls generalizing q acc ret with
  | nil => simpa [allAccepted, allReturned, FRFCFSBuffer.run] using h
  | cons c calls ih =>
    rw [List.forall_mem_cons] at hcalls
    have hstep : Arranged front (acc ++ (q.accepted c).toList) (ret ++ (q.call (Consulted.scan m_line_mask) c).1.toList)
        (q.call (Consulted.scan m_line_mask) c).2 := h.call hcalls.1
    have hrest := ih hstep hcalls.2
    rw [List.append_assoc, List.append_assoc] at hrest
    rw [allReturned_cons]
    exact hrest

/-- One call takes the first request of a line, or none of them. -/
theorem orderedOf_call (hc : Allowed front c) (addr : Nat) :
    (orderedOf m_line_mask addr q.queued).Sublist
      (orderedOf m_line_mask addr (q.call (Consulted.scan m_line_mask) c).1.toList ++
        orderedOf m_line_mask addr (q.call (Consulted.scan m_line_mask) c).2.queued) := by
  have hgrow : ∀ q' : FRFCFSBuffer, q.queued.Sublist q'.queued →
      (orderedOf m_line_mask addr q.queued).Sublist
        (orderedOf m_line_mask addr [] ++ orderedOf m_line_mask addr q'.queued) := fun q' hsub => hsub.filter _
  cases c with
  | pushBack item state force =>
    refine hgrow ((q.pushBack item state force).getD q) ?_
    rw [FRFCFSBuffer.pushBack]
    split_ifs
    · exact List.Sublist.refl _
    · exact (List.sublist_append_left _ _).map _
  | pushFrontOrdered item =>
    refine hgrow (q.pushFrontOrdered item) ?_
    rw [FRFCFSBuffer.pushFrontOrdered, queued, queued]
    refine List.Sublist.map _ ?_
    conv_lhs => rw [← List.take_append_drop (behindSource item.source q.buffer) q.buffer]
    exact (List.Sublist.refl _).append (List.sublist_cons_self _ _)
  | pushFront item => exact hc.elim
  | getFirstReady c =>
    rw [FRFCFSBuffer.call]
    rcases @queued_getFirstReady q _ hc.plain_actionFree.1 hc.plain_actionFree.2 with ⟨pre, e, post, hbuf, hgate, hanswer, hqueued⟩ | ⟨hanswer, hqueued⟩
    · rw [hanswer, hqueued, Option.toList_some, queued, hbuf, @orderedOf_found m_line_mask addr _ rfl pre post e hgate]
    · rw [hanswer, hqueued]
      exact List.Sublist.refl _
  | markDirty => exact List.Sublist.refl _

/-- The requests of a line leave in queue order. -/
theorem orderedOf_run (hcalls : ∀ c ∈ calls, Allowed front c) (addr : Nat) :
    (orderedOf m_line_mask addr q.queued).Sublist
      (orderedOf m_line_mask addr (allReturned (Consulted.scan m_line_mask) q calls) ++
        orderedOf m_line_mask addr (q.run (Consulted.scan m_line_mask) calls).2.queued) := by
  induction calls generalizing q with
  | nil => exact List.Sublist.refl _
  | cons c calls ih =>
    rw [List.forall_mem_cons] at hcalls
    rw [allReturned_cons, orderedOf_append, List.append_assoc]
    exact (orderedOf_call hcalls.1 addr).trans ((List.Sublist.refl _).append (ih hcalls.2))

/--
The queue after any sequence of calls: what was accepted is returned or queued; the messages pushed in
front are in front, and those of a source in their order; the requests of a line leave in queue order
under a nonzero mask; and `getFirstReady` takes the first eligible element, or finds none, unless the
queue does not scan because it is not marked.
-/
theorem queue_order (front : Source → Bool) (m_line_mask : Nat) (max_size : Option Nat) (state_only : Bool)
    (calls : List (Call Consulted)) (hcalls : ∀ c ∈ calls, Allowed front c) :
    let start : FRFCFSBuffer := { maxSize := max_size, readinessStateOnly := state_only }
    let scanOf := Consulted.scan m_line_mask
    let q := (start.run scanOf calls).2
    (allAccepted scanOf start calls).Perm (allReturned scanOf start calls ++ q.queued) ∧
      q.queued.Pairwise (fun a b => front b.source = true → front a.source = true) ∧
      (∀ src, (q.queued.filter fun m => m.source = src).Sublist
        ((allAccepted scanOf start calls).filter fun m => m.source = src)) ∧
      (∀ more : List (Call Consulted), (∀ c ∈ more, Allowed front c) → ∀ addr,
        (orderedOf m_line_mask addr q.queued).Sublist (orderedOf m_line_mask addr (allReturned scanOf q more) ++
          orderedOf m_line_mask addr (q.run scanOf more).2.queued)) ∧
      ∀ c : Consulted, Allowed front (.getFirstReady c) →
        (state_only = true ∧ q.dirty = false ∧ q.getFirstReady (scanOf c) = (none, q)) ∨
          Scanned (scanOf c) [] q.buffer ((q.getFirstReady (scanOf c)).1, (q.getFirstReady (scanOf c)).2.buffer) := by
  intro start scanOf q
  have harranged : Arranged front [] [] start := ⟨List.Perm.nil, List.Pairwise.nil, fun _ => List.Sublist.refl _⟩
  have hq := @Arranged.run front m_line_mask start calls [] [] harranged hcalls
  refine ⟨hq.perm, hq.parts, hq.order, fun more hmore addr => orderedOf_run hmore addr, fun c hc => ?_⟩
  have hstate : q.readinessStateOnly = state_only := (run_config start calls).2
  rw [← hstate]
  exact getFirstReady_cases hc.plain_actionFree.1 hc.plain_actionFree.2 q

/-- A Load of a core. -/
private def load (id addr : Nat) (source : Source) : Message := { msgId := id, addr := addr, source := source }

/-- A callback that answers Ready for one message. -/
private def readyFor (id : Nat) : Consulted where
  m_hold _ := false
  m_check_state_callback item _ := if item.msgId = id then .ready else .nonReady

/-- Two Loads of one line, two messages from above pushed in front of them, and a scan that takes the first of these. -/
private def intake : List (Call Consulted) :=
  [.pushBack (load 1 0 .lowerInterconnect) .nonReady false, .pushBack (load 2 4 .lowerInterconnect) .nonReady false,
    .pushFrontOrdered (load 3 64 .upperInterconnect), .pushFrontOrdered (load 4 128 .upperInterconnect),
    .getFirstReady (readyFor 2)]

/-- Nothing is lost, the message from above that is left stands in front, and a scan takes it before the Loads. -/
theorem queue_order_intake : ∃ q : FRFCFSBuffer,
    [load 1 0 .lowerInterconnect, load 2 4 .lowerInterconnect, load 3 64 .upperInterconnect,
      load 4 128 .upperInterconnect].Perm (load 3 64 .upperInterconnect :: q.queued) ∧
    q.queued = [load 4 128 .upperInterconnect, load 1 0 .lowerInterconnect, load 2 4 .lowerInterconnect] ∧
    q.queued.Pairwise (fun a b => b.source = .upperInterconnect → a.source = .upperInterconnect) ∧
    ∃ out, Scanned ((readyFor 2).scan 0xffffffc0) [] q.buffer (some (load 4 128 .upperInterconnect), out) := by
  have hfree : ∀ id, ∀ item state, (readyFor id).m_check_state_callback item state ≠ .needsAction := by
    intro id item state
    rw [readyFor]
    dsimp only
    split_ifs <;> decide
  have hallowed : ∀ c ∈ intake, Allowed (· = .upperInterconnect) c := by
    simp [intake, Allowed, load, hfree]
  obtain ⟨hperm, hparts, -, -, hfirst⟩ := queue_order (· = .upperInterconnect) 0xffffffc0 (some 4) true intake hallowed
  have haccepted : allAccepted (Consulted.scan 0xffffffc0) { maxSize := some 4 } intake =
      [load 1 0 .lowerInterconnect, load 2 4 .lowerInterconnect, load 3 64 .upperInterconnect,
        load 4 128 .upperInterconnect] := by decide
  have hreturned : allReturned (Consulted.scan 0xffffffc0) { maxSize := some 4 } intake =
      [load 3 64 .upperInterconnect] := by decide
  rw [haccepted, hreturned] at hperm
  refine ⟨_, hperm, by decide, by simpa using hparts, ?_⟩
  rcases hfirst (readyFor 2) (hfree 2) with ⟨-, hclean, -⟩ | hscanned
  · exact absurd hclean (by decide)
  · have htaken : ((({ maxSize := some 4 } : FRFCFSBuffer).run (Consulted.scan 0xffffffc0) intake).2.getFirstReady
        ((readyFor 2).scan 0xffffffc0)).1 = some (load 4 128 .upperInterconnect) := by decide
    rw [htaken] at hscanned
    exact ⟨_, hscanned⟩

/--
Without a line mask a Load overtakes an older one of its line. Two messages of different sources pushed in
front stand in the reverse of their order. And a scan that finds nothing is not repeated when a message has
become ready since.
-/
theorem order_exceptions :
    (({} : FRFCFSBuffer).run (Consulted.scan 0) [.pushBack (load 1 0 .lowerInterconnect) .nonReady false,
      .pushBack (load 2 0 .lowerInterconnect) .nonReady false, .getFirstReady (readyFor 2)]).1.reduceOption =
        [load 2 0 .lowerInterconnect] ∧
    (({} : FRFCFSBuffer).run (Consulted.scan 0xffffffc0) [.pushFrontOrdered (load 1 0 .upperInterconnect),
      .pushFrontOrdered (load 2 0 .self)]).2.queued = [load 2 0 .self, load 1 0 .upperInterconnect] ∧
    (({} : FRFCFSBuffer).run (Consulted.scan 0xffffffc0) [.pushBack (load 1 0 .lowerInterconnect) .nonReady false,
      .getFirstReady (readyFor 2), .getFirstReady (readyFor 1)]).1 = [none, none, none] := by
  decide

end FRFCFSBuffer

end Octopus
