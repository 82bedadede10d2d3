import Octopus.MCsim.Steps

/-!
# The rules between commands

A command is sent when the device lets it pass and the timer of its queue has run out. The device checks an activation
down to its rank only; the timers of the queues stand in for the rules of its bank. So every rule of the tables is
kept, but one: nothing looks at the distance between activations of one bank group.
-/

namespace Octopus.MCsim

open Lib

variable {cfg : MemoryConfig}

/-- A command that was sent, as the device sees it. -/
def issue (q : BusPacket × Nat) : Issue Command := ⟨q.1.busPacketType.command, q.1.addr, q.2⟩

/-- The commands that were sent, as the device sees them. -/
def issues (sent : List (BusPacket × Nat)) : List (Issue Command) := sent.map issue

/-- Each command was sent when the device let it pass and its queue was not held back. -/
def Legal (cfg : MemoryConfig) : List (BusPacket × Nat) → Prop
  | [] => True
  | q :: earlier =>
    (DRAM.after cfg.spec (issues earlier)).check cfg.spec q.1.busPacketType.command q.1.addr q.2 0 = true ∧
      (∀ q' ∈ earlier, q'.2 < q.2 ∧ (q'.1.bank = q.1.bank →
        q'.2 + cfg.commandTiming q'.1.busPacketType q.1.busPacketType ≤ q.2)) ∧
      Legal cfg earlier

/-- What is legal is so at every command. -/
theorem Legal.of_append {later earlier : List (BusPacket × Nat)} (h : Legal cfg (later ++ earlier)) :
    Legal cfg earlier := by
  induction later with
  | nil => exact h
  | cons q later ih => exact ih h.2.2

namespace MemorySystem

variable {s s' : MemorySystem}

/-- Device and timers are in step with the commands that were sent. -/
structure Timed (cfg : MemoryConfig) (s : MemorySystem) : Prop where
  channel : s.channel = DRAM.after cfg.spec (issues s.issued)
  past : ∀ q ∈ s.issued, q.2 < s.clockCycle
  timers : ∀ q ∈ s.issued, ∀ type,
    q.2 + cfg.commandTiming q.1.busPacketType type ≤ s.clockCycle + s.cmdQueueTimer q.1.bank type
  legal : Legal cfg s.issued

/-- Preparing commands sends none. -/
theorem Timed.prepare (h : s.Timed cfg) : (s.prepare cfg).Timed cfg := by
  obtain ⟨_, _, _, _, _, hprepare⟩ := prepare_frame cfg s
  rw [hprepare]
  exact ⟨h.channel, h.past, h.timers, h.legal⟩

/-- A cycle without a command runs the timers down. -/
theorem Timed.finish (h : s.Timed cfg) : (s.finish cfg).Timed cfg := by
  obtain ⟨_, _, _, _, _, _, _, _, hfinish⟩ := finish_frame cfg s
  rw [hfinish]
  refine ⟨h.channel, fun q hq => Nat.lt_succ_of_lt (h.past q hq), fun q hq type => ?_, h.legal⟩
  have htimer := h.timers q hq type
  dsimp only
  omega

/-- A cycle with a command holds back its queue. -/
theorem Timed.sendCommand (h : s.Timed cfg) {p : BusPacket} (hready : s.isReady p p.bank = true)
    (hissuable : s.isIssuable cfg p = true) : ((s.sendCommand cfg p p.bank).finish cfg).Timed cfg := by
  obtain ⟨_, _, _, _, _, _, _, _, hfinish⟩ := finish_frame cfg (s.sendCommand cfg p p.bank)
  rw [hfinish]
  have htimer : s.cmdQueueTimer p.bank p.busPacketType = 0 := eq_of_beq hready
  refine ⟨?_, ?_, ?_, ?_⟩
  · change s.channel.updateTiming _ _ _ _ 0 0 = _
    rw [h.channel]
    rfl
  · intro q hq
    cases List.mem_cons.1 hq with
    | inl hq =>
      rw [hq]
      exact Nat.lt_succ_self _
    | inr hq => exact Nat.lt_succ_of_lt (h.past q hq)
  · intro q hq type
    change _ ≤ s.clockCycle + 1 + (Function.update s.cmdQueueTimer p.bank (fun type =>
      max (s.cmdQueueTimer p.bank type) (cfg.commandTiming p.busPacketType type)) q.1.bank type - 1)
    cases List.mem_cons.1 hq with
    | inl hq =>
      rw [hq, Function.update_self]
      have hmax := le_max_right (s.cmdQueueTimer p.bank type) (cfg.commandTiming p.busPacketType type)
      dsimp only
      omega
    | inr hq =>
      have hold := h.timers q hq type
      by_cases hbank : q.1.bank = p.bank
      · rw [hbank] at hold ⊢
        rw [Function.update_self]
        have hmax := le_max_left (s.cmdQueueTimer p.bank type) (cfg.commandTiming p.busPacketType type)
        omega
      · rw [Function.update_of_ne hbank]
        omega
  · refine ⟨?_, fun q hq => ⟨h.past q hq, fun hbank => ?_⟩, h.legal⟩
    · rw [← h.channel]
      exact hissuable
    · have hold := h.timers q hq p.busPacketType
      rw [hbank, htimer] at hold
      exact hold

/-- Device and timers are in step in every run. -/
theorem timed_inductive (cfg : MemoryConfig) : (system cfg).Inductive (Timed cfg) where
  init s hs := by
    have hstart : s = initial cfg := hs
    rw [hstart]
    exact ⟨rfl, fun _ hq => absurd hq List.not_mem_nil, fun _ hq => absurd hq List.not_mem_nil, trivial⟩
  step s l s' hr h hstep := by
    have heq : s' = s.step cfg l := hstep
    rw [heq]
    cases l with
    | addRequest requestorID address isRead size => exact ⟨h.channel, h.past, h.timers, h.legal⟩
    | update =>
      change (s.update cfg).Timed cfg
      cases update_cases cfg s with
      | inl hnone =>
        rw [hnone.2]
        exact h.prepare.finish
      | inr hsend =>
        obtain ⟨p, index, _, hqueue, hready, hissuable, hsend⟩ := hsend
        have hqueued := ((queued_inductive cfg).reachable hr).prepare
        have hbank := (hqueued index p (by rw [hqueue]; exact List.mem_cons_self)).1
        rw [hsend, ← hbank]
        rw [← hbank] at hready
        exact h.prepare.sendCommand hready hissuable

end MemorySystem

/-! ## From the checks to the tables -/

/-- The commands to a node. -/
theorem mem_targets {sent : List (BusPacket × Nat)} {level : Nat} {addr : Nat → Nat} {cmd : Command} {clk : Int}
    (h : clk ∈ targets (issues sent) level addr cmd) :
    ∃ q ∈ sent, q.1.busPacketType.command = cmd ∧ (q.2 : Int) = clk ∧ ∀ k ≤ level, q.1.addr k = addr k := by
  rw [targets, List.mem_map] at h
  obtain ⟨i, hi, hclk⟩ := h
  rw [List.mem_filter, issues, List.mem_map, Bool.and_eq_true] at hi
  obtain ⟨⟨q, hq, hissue⟩, hcmd, hreaches⟩ := hi
  rw [← hissue] at hcmd hreaches hclk
  refine ⟨q, hq, of_decide_eq_true hcmd, hclk, fun k hk => ?_⟩
  simp only [Issue.reaches, List.all_eq_true, List.mem_range, beq_iff_eq] at hreaches
  exact hreaches k (by omega)

/-- The one rule of an activation that nothing checks. -/
def unchecked (level : Nat) (earlier later : Command) : Prop := level = 2 ∧ earlier = .act ∧ later = .act

/-- The rule of a bank group for activations. -/
theorem bankGroupTiming_act (s : SpeedEntry) :
    (bankGroupTiming s).filter (fun r => r.2.cmd = .act) = [row .act .act 1 s.nRRDL] := rfl

/-- The rules of a bank for activations. -/
theorem bankTiming_act (s : SpeedEntry) :
    (bankTiming s).filter (fun r => r.2.cmd = .act) = [row .rda .act 1 (s.nRTP + s.nRP),
      row .wra .act 1 (s.nCWL + s.nBL + s.nWR + s.nRP), row .act .act 1 s.nRC, row .pre .act 1 s.nRP] := rfl

/-- The rules of an activation below its rank: the unchecked one, those behind commands that are never sent, and those
for which the timer of the queue stands. -/
theorem act_rules {level : Nat} {earlier : Command} {e : TimingEntry Command} (hlevel : 2 ≤ level)
    (he : (earlier, e) ∈ DDR4.timingTable cfg.speedEntry level) (hcmd : e.cmd = .act) :
    unchecked level earlier .act ∨ e.sibling = false ∧ e.dist = 1 ∧ level = 3 ∧
      ∀ type : BusPacketType, type.command = earlier → e.val = cfg.commandTiming type .act := by
  match level, hlevel with
  | 2, _ =>
    have hmem : (earlier, e) ∈ (bankGroupTiming cfg.speedEntry).filter (fun r => r.2.cmd = .act) :=
      List.mem_filter.2 ⟨he, decide_eq_true hcmd⟩
    rw [bankGroupTiming_act, List.mem_singleton, row, Prod.mk.injEq] at hmem
    exact .inl ⟨rfl, hmem.1, rfl⟩
  | 3, _ =>
    have hmem : (earlier, e) ∈ (bankTiming cfg.speedEntry).filter (fun r => r.2.cmd = .act) :=
      List.mem_filter.2 ⟨he, decide_eq_true hcmd⟩
    simp only [bankTiming_act, row, List.mem_cons, Prod.mk.injEq, List.not_mem_nil, or_false] at hmem
    rcases hmem with h | h | h | h
    all_goals
      rw [h.1, h.2]
      refine .inr ⟨rfl, rfl, rfl, fun type htype => ?_⟩
      cases type with
      | rd => nomatch htype
      | wr => nomatch htype
      | act =>
        first
        | rfl
        | nomatch htype
      | pre =>
        first
        | rfl
        | nomatch htype
  | level + 4, _ => exact absurd he List.not_mem_nil

/-- A command that was sent keeps every rule of the tables but the unchecked one. -/
theorem Legal.kept {q : BusPacket × Nat} {earlier : List (BusPacket × Nat)} (h : Legal cfg (q :: earlier))
    {level : Nat} {from' : Command} {e : TimingEntry Command} (he : (from', e) ∈ DDR4.timingTable cfg.speedEntry level)
    (hcmd : e.cmd = q.1.busPacketType.command) (hchecked : ¬ unchecked level from' e.cmd) :
    e.Kept (targets (issues earlier) level q.1.addr from') (siblings (issues earlier) level q.1.addr from') q.2 := by
  have hlevel : level ≤ 3 := by
    refine Nat.le_of_not_lt fun hlt => ?_
    obtain ⟨k, hk⟩ := Nat.exists_eq_add_of_le' hlt
    rw [hk] at he
    exact absurd he List.not_mem_nil
  have hcheck := (DRAM.check_after_iff cfg.spec (issues earlier) q.1.busPacketType.command rfl q.2).1 h.1 level hlevel
  by_cases hscope : level ≤ cfg.spec.scope q.1.busPacketType.command
  · exact hcheck hscope from' e (DDR4.mem_timing.2 he) hcmd
  · -- only an activation has a scope above its bank
    have hact : q.1.busPacketType = .act ∧ 2 ≤ level := by
      change ¬ level ≤ (DDR4.scope q.1.busPacketType.command).ctorIdx at hscope
      cases htype : q.1.busPacketType with
      | act =>
        rw [htype] at hscope
        exact ⟨rfl, Nat.lt_of_not_le hscope⟩
      | _ =>
        rw [htype] at hscope
        exact absurd (hlevel.trans (by decide)) hscope
    rw [hact.1] at hcmd
    cases act_rules hact.2 he hcmd with
    | inl hunchecked => exact absurd (hcmd ▸ hunchecked) hchecked
    | inr hrule =>
      rw [TimingEntry.Kept, hrule.1, if_neg Bool.false_ne_true, hrule.2.1]
      intro clk hclk
      obtain ⟨q', hq', hfrom, hclk', haddr⟩ := mem_targets (List.mem_of_mem_drop hclk)
      have hbank : q'.1.bank = q.1.bank := haddr 3 (Nat.le_of_eq hrule.2.2.1.symm)
      have htimer := (h.2.1 q' hq').2 hbank
      rw [hact.1] at htimer
      rw [hrule.2.2.2 _ hfrom, ← hclk']
      exact_mod_cast htimer

namespace MemorySystem

variable {s : MemorySystem}

/-- In every run, every command keeps every rule of the tables of DDR4 behind the commands sent before it, at the
nodes of all levels, except for the distance of activations in a bank group. -/
theorem rules_kept (hr : (system cfg).Reachable s) {later earlier : List (BusPacket × Nat)} {q : BusPacket × Nat}
    (hsplit : s.issued = later ++ q :: earlier) {level : Nat} {before : Command} {e : TimingEntry Command}
    (he : (before, e) ∈ DDR4.timingTable cfg.speedEntry level) (hcmd : e.cmd = q.1.busPacketType.command)
    (hchecked : ¬ unchecked level before e.cmd) :
    e.Kept (targets (issues earlier) level q.1.addr before) (siblings (issues earlier) level q.1.addr before) q.2 := by
  have hlegal := ((timed_inductive cfg).reachable hr).legal
  rw [hsplit] at hlegal
  exact hlegal.of_append.kept he hcmd hchecked

/-- Two reads of different banks of a group, after five cycles. -/
def twoBanks : MemorySystem :=
  run twoRequestors ([.addRequest 0 0 true 64, .addRequest 1 (2 ^ 13) true 64] ++ List.replicate 5 .update)

/-- Both banks are activated by then, four cycles apart, as their rank asks; their group asks for six. -/
theorem rules_kept_twoBanks : twoRequestors.speedEntry.nRRDL = 6 ∧
    ∃ q q', twoBanks.issued = [q, q'] ∧ q'.2 + 4 ≤ q.2 ∧
      ¬ (⟨Command.act, 1, 6, false⟩ : TimingEntry Command).Kept (targets (issues [q']) 2 q.1.addr .act)
      (siblings (issues [q']) 2 q.1.addr .act) q.2 := by
  have hissued : twoBanks.issued = [(⟨.act, 1, 2 ^ 13, 0, 0, 1, 1⟩, 4), (⟨.act, 0, 0, 0, 0, 0, 0⟩, 0)] := by
    decide +kernel
  have hr : (system twoRequestors).Reachable twoBanks := run_reachable twoRequestors _
  have he : (Command.act, ⟨Command.act, 1, 4, false⟩) ∈ DDR4.timingTable twoRequestors.speedEntry 1 :=
    List.mem_of_getElem? (i := 42) rfl
  have hkept := rules_kept hr (hissued.trans (List.nil_append _).symm) he rfl fun h => absurd h.1 (by decide)
  refine ⟨rfl, _, _, hissued, Int.ofNat_le.1 (hkept 0 (by decide)), fun h => ?_⟩
  exact absurd (h 0 (by decide)) (by decide)

end MemorySystem

/-! ## The data bus -/

/-- A command keeps a rule behind a command that was sent before it to the same node. -/
theorem Legal.gap {q q' : BusPacket × Nat} {earlier : List (BusPacket × Nat)} (h : Legal cfg (q :: earlier))
    (hq' : q' ∈ earlier) {level : Nat} {val : Int}
    (he : (q'.1.busPacketType.command, ⟨q.1.busPacketType.command, 1, val, false⟩) ∈
      DDR4.timingTable cfg.speedEntry level) (hlevel : level < 2) : (q'.2 : Int) + val ≤ q.2 := by
  have hkept := h.kept he rfl fun hunchecked => absurd hunchecked.1 (Nat.ne_of_lt hlevel)
  apply hkept
  rw [Nat.sub_self, List.drop_zero, targets, issues, List.mem_map]
  refine ⟨issue q', List.mem_filter.2 ⟨List.mem_map_of_mem hq', ?_⟩, rfl⟩
  simp only [issue, decide_true, Bool.true_and, Issue.reaches, List.all_eq_true, List.mem_range, beq_iff_eq]
  intro k hk
  obtain rfl | rfl : k = 0 ∨ k = 1 := by omega
  · rfl
  · rfl

namespace MemorySystem

variable {s : MemorySystem}

/-- When the first data of a command are on the bus. -/
def dataStart (cfg : MemoryConfig) (q : BusPacket × Nat) : Nat :=
  q.2 + if q.1.busPacketType = .rd then cfg.speedEntry.nCL else cfg.speedEntry.nCWL

/-- A command that puts data on the bus. -/
def isAccess (q : BusPacket × Nat) : Bool := q.1.busPacketType == .rd || q.1.busPacketType == .wr

/-- The data of a command are off the bus before those of the next one are on it. -/
theorem dataStart_of_legal {q q' : BusPacket × Nat} {earlier : List (BusPacket × Nat)} (h : Legal cfg (q :: earlier))
    (hq' : q' ∈ earlier) (hq : isAccess q = true) (haccess : isAccess q' = true) :
    dataStart cfg q' + cfg.speedEntry.nBL ≤ dataStart cfg q := by
  have hspeed : ∀ org speed, (DDR4.speedEntry org speed).nBL ≤ (DDR4.speedEntry org speed).nCCDS := by
    intro org speed
    cases org <;> cases speed <;> decide
  have hburst : cfg.speedEntry.nBL ≤ cfg.speedEntry.nCCDS := hspeed cfg.org cfg.speed
  have hgap : ∀ (level : Nat) (val : Int),
      (q'.1.busPacketType.command, (⟨q.1.busPacketType.command, 1, val, false⟩ : TimingEntry Command)) ∈
        DDR4.timingTable cfg.speedEntry level → level < 2 → (q'.2 : Int) + val ≤ q.2 :=
    fun level val he hlevel => h.gap hq' he hlevel
  rw [isAccess, Bool.or_eq_true, beq_iff_eq, beq_iff_eq] at hq haccess
  rw [dataStart, dataStart]
  cases hq with
  | inl hq =>
    rw [hq] at hgap
    cases haccess with
    | inl haccess =>
      rw [haccess] at hgap
      have hbus := hgap 0 cfg.speedEntry.nBL (List.mem_of_getElem? (i := 0) rfl) Nat.two_pos
      rw [hq, haccess, if_pos rfl]
      omega
    | inr haccess =>
      rw [haccess] at hgap
      have hbus := hgap 1 (cfg.speedEntry.nCWL + cfg.speedEntry.nBL + cfg.speedEntry.nWTRS)
        (List.mem_of_getElem? (i := 12) rfl) Nat.one_lt_two
      rw [hq, haccess, if_pos rfl, if_neg (by decide)]
      omega
  | inr hq =>
    rw [hq] at hgap
    cases haccess with
    | inl haccess =>
      rw [haccess] at hgap
      have hbus := hgap 1 (cfg.speedEntry.nCL + cfg.speedEntry.nCCDS + 2 - cfg.speedEntry.nCWL)
        (List.mem_of_getElem? (i := 8) rfl) Nat.one_lt_two
      rw [hq, haccess, if_pos rfl, if_neg (by decide)]
      omega
    | inr haccess =>
      rw [haccess] at hgap
      have hbus := hgap 0 cfg.speedEntry.nBL (List.mem_of_getElem? (i := 4) rfl) Nat.two_pos
      rw [hq, haccess, if_neg (by decide)]
      omega

/-- The bursts of legal commands follow each other. -/
theorem pairwise_of_legal {sent : List (BusPacket × Nat)} (h : Legal cfg sent) :
    (sent.filter isAccess).Pairwise fun q q' => dataStart cfg q' + cfg.speedEntry.nBL ≤ dataStart cfg q := by
  induction sent with
  | nil => exact List.Pairwise.nil
  | cons q earlier ih =>
    rw [List.filter_cons]
    split_ifs with hq
    · refine List.pairwise_cons.2 ⟨fun q' hq' => ?_, ih h.2.2⟩
      rw [List.mem_filter] at hq'
      exact dataStart_of_legal h hq'.1 hq hq'.2
    · exact ih h.2.2

/-- The data bus is never double booked: in every run, the burst of each read and write is over before that of the
next one begins. -/
theorem bus_exclusive (hr : (system cfg).Reachable s) :
    (s.issued.filter isAccess).Pairwise fun q q' => dataStart cfg q' + cfg.speedEntry.nBL ≤ dataStart cfg q :=
  pairwise_of_legal ((timed_inductive cfg).reachable hr).legal

/-- A write and a read of one row, after sixty cycles. -/
def writeRead : MemorySystem :=
  run twoRequestors ([.addRequest 0 0 false 64, .addRequest 1 64 true 64] ++ List.replicate 60 .update)

/-- The read is sent after the write, and its burst begins four cycles after that of the write at the earliest. -/
theorem bus_exclusive_writeRead : ∃ q q', writeRead.issued.filter isAccess = [q, q'] ∧
    q.1.busPacketType = .rd ∧ q'.1.busPacketType = .wr ∧ q'.2 + 12 + 4 ≤ q.2 + 18 := by
  have hissued : writeRead.issued.filter isAccess = [(⟨.rd, 1, 64, 1, 0, 0, 19⟩, 43), (⟨.wr, 0, 0, 0, 0, 0, 0⟩, 18)] := by
    decide +kernel
  have hpairwise := bus_exclusive (run_reachable twoRequestors
    ([.addRequest 0 0 false 64, .addRequest 1 64 true 64] ++ List.replicate 60 .update))
  change (writeRead.issued.filter isAccess).Pairwise _ at hpairwise
  rw [hissued, List.pairwise_cons] at hpairwise
  exact ⟨_, _, hissued, rfl, rfl, hpairwise.1 _ (List.mem_singleton_self _)⟩

end MemorySystem

end Octopus.MCsim
