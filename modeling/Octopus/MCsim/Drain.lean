import Mathlib.Algebra.Order.BigOperators.Group.Finset
import Octopus.Lib.Draining
import Octopus.MCsim.Balance
import Octopus.MCsim.Rules

/-!
# The memory system drains

First-ready scheduling lets row hits overtake, so there is no bound on how long a request waits while others come.
When no more come, there is one. No rule and no timer outlasts the row cycle, so a row cycle after a command the head
of every queue can be sent; each command that is sent is one less; and the data of the last one come after its latency.
-/

namespace Octopus.MCsim

open Lib

variable {cfg : MemoryConfig}

/-! ## The longest rule -/

/-- The timers of the queues are no longer either. -/
theorem commandTiming_le (cfg : MemoryConfig) (earlier later : BusPacketType) :
    cfg.commandTiming earlier later ≤ cfg.speedEntry.nRC := by
  have hall : ∀ (org : Org) (speed : Speed) (requestors : Nat) (h : (orgTable org).banks ≤ 8), ∀ earlier later,
      MemoryConfig.commandTiming ⟨org, speed, requestors, h⟩ earlier later ≤ (DDR4.speedEntry org speed).nRC := by
    intro org speed requestors h earlier later
    cases org <;> cases speed <;> cases earlier <;> cases later <;> exact Nat.le_of_ble_eq_true rfl
  exact hall cfg.org cfg.speed cfg.numberRequestors cfg.banks_le earlier later

namespace MemorySystem

variable {s s' : MemorySystem} {type : RequestType}

/-- How long it is until no rule holds a command back any more. -/
def wait (cfg : MemoryConfig) (s : MemorySystem) : Nat :=
  s.issued.head?.elim 0 fun q => q.2 + cfg.speedEntry.nRC - s.clockCycle

/-- A timer that runs was set by a command that was sent. -/
def TimersSet (cfg : MemoryConfig) (s : MemorySystem) : Prop :=
  ∀ index type, s.cmdQueueTimer index type = 0 ∨
    ∃ q ∈ s.issued, s.clockCycle + s.cmdQueueTimer index type ≤ q.2 + cfg.speedEntry.nRC

/-- No cycle sets a timer without a command. -/
theorem TimersSet.finish (h : s.TimersSet cfg) : (s.finish cfg).TimersSet cfg := by
  obtain ⟨_, _, _, _, _, _, _, _, hfinish⟩ := finish_frame cfg s
  rw [hfinish]
  intro index type
  dsimp only
  cases h index type with
  | inl hzero =>
    left
    omega
  | inr hset =>
    cases hset with
    | intro q hq =>
      by_cases hzero : s.cmdQueueTimer index type = 0
      · left
        omega
      · exact .inr ⟨q, hq.1, by have := hq.2; omega⟩

/-- A command sets the timers of its queue. -/
theorem TimersSet.sendCommand (h : s.TimersSet cfg) (p : BusPacket) (index : Nat) :
    (s.sendCommand cfg p index).TimersSet cfg := by
  intro i type
  change Function.update s.cmdQueueTimer index _ i type = 0 ∨
    ∃ q ∈ (p, s.clockCycle) :: s.issued, s.clockCycle + Function.update s.cmdQueueTimer index _ i type ≤ _
  have hold : s.cmdQueueTimer i type = 0 ∨
      ∃ q ∈ (p, s.clockCycle) :: s.issued, s.clockCycle + s.cmdQueueTimer i type ≤ q.2 + cfg.speedEntry.nRC := by
    cases h i type with
    | inl hzero => exact .inl hzero
    | inr hset =>
      cases hset with
      | intro q hq => exact .inr ⟨q, List.mem_cons_of_mem _ hq.1, hq.2⟩
  by_cases hi : i = index
  · rw [← hi, Function.update_self]
    cases max_choice (s.cmdQueueTimer i type) (cfg.commandTiming p.busPacketType type) with
    | inl hmax => simpa only [hmax] using hold
    | inr hmax =>
      refine .inr ⟨_, List.mem_cons_self, ?_⟩
      rw [hmax]
      exact Nat.add_le_add_left (commandTiming_le cfg _ _) _
  · rw [Function.update_of_ne hi]
    exact hold

/-- So it is in every run. -/
theorem timersSet_inductive (cfg : MemoryConfig) : (system cfg).Inductive (TimersSet cfg) where
  init s hs := by
    have hstart : s = initial cfg := hs
    rw [hstart]
    exact fun _ _ => .inl rfl
  step s l s' _ h hstep := by
    have heq : s' = s.step cfg l := hstep
    rw [heq]
    cases l with
    | addRequest requestorID address isRead size => exact h
    | update =>
      have hprepare : (s.prepare cfg).TimersSet cfg := by
        obtain ⟨_, _, _, _, _, hprepare⟩ := prepare_frame cfg s
        rw [hprepare]
        exact h
      change (s.update cfg).TimersSet cfg
      cases update_cases cfg s with
      | inl hnone =>
        rw [hnone.2]
        exact hprepare.finish
      | inr hsend =>
        obtain ⟨p, index, _, _, _, _, hsend⟩ := hsend
        rw [hsend]
        exact (hprepare.sendCommand p index).finish

/-- The commands that are still to be sent, with those that a request may need. -/
def work (cfg : MemoryConfig) (s : MemorySystem) : Nat :=
  s.queued cfg (fun _ => true) + s.commandBuffer.length +
    (s.generalBuffer.map fun r => r.requestSize / cfg.dataBusWidth + 2).sum

/-- A request needs two commands besides its bursts at most. -/
theorem length_commands (cfg : MemoryConfig) (r : Request) (isOpen first : Bool) :
    r.requestSize / cfg.dataBusWidth ≤ (commands cfg r isOpen first).length ∧
      (commands cfg r isOpen first).length ≤ r.requestSize / cfg.dataBusWidth + 2 := by
  rw [commands, List.length_append, List.length_map, List.length_range]
  split_ifs <;> simp only [List.length_nil, List.length_cons] <;> omega

/-- Scheduling a request adds no work. -/
theorem work_schedule {index : Nat} {r : Request} (hr : s.generalBuffer[index]? = some r) :
    (s.schedule cfg index r).work cfg ≤ s.work cfg := by
  have hperm : (r :: s.generalBuffer.eraseIdx index).Perm s.generalBuffer := by
    obtain ⟨hlt, hget⟩ := List.getElem?_eq_some_iff.1 hr
    rw [← hget]
    exact List.getElem_cons_eraseIdx_perm hlt
  have hsum := (hperm.map fun r => r.requestSize / cfg.dataBusWidth + 2).sum_eq
  have hlength := (length_commands cfg r (s.isRowHit r) (s.first r.bank)).2
  rw [List.map_cons, List.sum_cons] at hsum
  rw [work, work, ← hsum]
  change s.queued cfg _ + (s.commandBuffer ++ commands cfg r _ _).length +
    ((s.generalBuffer.eraseIdx index).map _).sum ≤ _
  rw [List.length_append]
  omega

/-- Preparing commands adds no work. -/
theorem work_prepare (h : s.Balanced cfg type) : (s.prepare cfg).work cfg ≤ s.work cfg := by
  have hkeep : (s.requestSchedule cfg).work cfg ≤ s.work cfg ∧ (s.requestSchedule cfg).Balanced cfg type := by
    apply requestSchedule_keeps (P := fun s' => s'.work cfg ≤ s.work cfg ∧ s'.Balanced cfg type)
    · exact fun s' index r h hr => ⟨(work_schedule hr).trans h.1, h.2.scheduled hr⟩
    · exact ⟨Nat.le_refl _, h⟩
  have heq := enqueueCommands_eq fun p hp => (hkeep.2.commands p hp).1
  have hqueued := queued_enqueueCommands (P := fun _ => true) (fun _ _ => rfl)
    (fun p hp => (hkeep.2.commands p hp).1) fun p hp => (hkeep.2.commands p hp).2
  refine Nat.le_trans (Nat.le_of_eq ?_) hkeep.1
  rw [prepare, work, work, hqueued, heq]
  simp only [List.countP_true, List.length_nil]
  omega

/-- Sending a command is one piece of work. -/
theorem work_sendCommand {p : BusPacket} {index : Nat} (hindex : index < cfg.queueNumber)
    (hqueue : s.hrtBuffer index = p :: (s.hrtBuffer index).tail) :
    (s.sendCommand cfg p index).work cfg + 1 = s.work cfg := by
  have hqueued := queued_sendCommand hindex hqueue fun _ => true
  rw [if_pos rfl] at hqueued
  rw [work, work, ← hqueued]
  change _ + s.commandBuffer.length + (s.generalBuffer.map _).sum + 1 = _
  omega

/-- Data arrive in the order in which they were sent, within a number of cycles. -/
structure Flying (type : RequestType) (n : Nat) (ds : List (DataPacket × Nat)) : Prop where
  ordered : ds.Pairwise fun d d' => d.2 < d'.2
  positive : type = .dataRead → ∀ d ∈ ds, 0 < d.2
  within : ∀ d ∈ ds, d.2 < n

/-- Data that wait on are one cycle closer. -/
theorem flying_countDown {n : Nat} {ds : List (DataPacket × Nat)} (hordered : ds.Pairwise fun d d' => d.2 < d'.2)
    (hpositive : ∀ d ∈ ds, 0 < d.2) (hwithin : ∀ d ∈ ds, d.2 < n + 1) :
    (countDown ds).Pairwise (fun d d' => d.2 < d'.2) ∧ ∀ d ∈ countDown ds, d.2 < n := by
  constructor
  · rw [countDown, List.pairwise_map]
    refine hordered.imp_of_mem fun {d d'} hd _ hlt => ?_
    have hd := hpositive d hd
    dsimp only
    omega
  · intro d hd
    cases List.mem_map.1 hd with
    | intro d' hd' =>
      have hpositive := hpositive d' hd'.1
      have hwithin := hwithin d' hd'.1
      rw [← hd'.2]
      dsimp only
      omega

/-- At the end of a cycle all data are one cycle closer. -/
theorem Flying.arriving {n : Nat} {ds : List (DataPacket × Nat)} (h : Flying type (n + 1) ds) :
    Flying type n (MemorySystem.arriving type ds).2 := by
  cases type with
  | dataRead =>
    have hcount := flying_countDown h.ordered (h.positive rfl) h.within
    rw [MemorySystem.arriving]
    cases hds : countDown ds with
    | nil =>
      exact ⟨List.Pairwise.nil, fun _ _ hd => absurd hd List.not_mem_nil, fun _ hd => absurd hd List.not_mem_nil⟩
    | cons d rest =>
      rw [hds, List.pairwise_cons, List.forall_mem_cons] at hcount
      cases d with
      | mk d k =>
        cases k with
        | zero => exact ⟨hcount.1.2, fun _ d hd => hcount.1.1 d hd, hcount.2.2⟩
        | succ k =>
          refine ⟨List.pairwise_cons.2 hcount.1, fun _ => ?_, List.forall_mem_cons.2 hcount.2⟩
          exact List.forall_mem_cons.2 ⟨Nat.succ_pos k, fun d hd => Nat.zero_lt_of_lt (hcount.1.1 d hd)⟩
  | dataWrite =>
    have hread : ∀ {ds : List (DataPacket × Nat)}, RequestType.dataWrite = .dataRead → ∀ d ∈ ds, 0 < d.2 :=
      fun htype => RequestType.noConfusion htype
    cases ds with
    | nil => exact ⟨List.Pairwise.nil, hread, fun _ hd => absurd hd List.not_mem_nil⟩
    | cons d rest =>
      have hordered := List.pairwise_cons.1 h.ordered
      have hwithin := List.forall_mem_cons.1 h.within
      have hrest : ∀ d' ∈ rest, 0 < d'.2 := fun d' hd' => Nat.zero_lt_of_lt (hordered.1 d' hd')
      cases d with
      | mk d k =>
        cases k with
        | zero =>
          have hcount := flying_countDown hordered.2 hrest hwithin.2
          exact ⟨hcount.1, hread, hcount.2⟩
        | succ k =>
          have hcount := flying_countDown h.ordered (List.forall_mem_cons.2 ⟨Nat.succ_pos k, hrest⟩) h.within
          exact ⟨hcount.1, hread, hcount.2⟩

/-- The data of a read take some time, and no less than those of a write. -/
theorem latency_pos (cfg : MemoryConfig) : 0 < cfg.readLatency ∧ cfg.writeLatency ≤ cfg.readLatency := by
  have hall : ∀ org speed, 0 < (DDR4.speedEntry org speed).nCL + (DDR4.speedEntry org speed).nBL ∧
      (DDR4.speedEntry org speed).nCWL + (DDR4.speedEntry org speed).nBL ≤
        (DDR4.speedEntry org speed).nCL + (DDR4.speedEntry org speed).nBL := by
    intro org speed
    cases org <;> cases speed <;> exact ⟨Nat.le_of_ble_eq_true rfl, Nat.le_of_ble_eq_true rfl⟩
  exact hall cfg.org cfg.speed

/-- In every run, data arrive within the latency of their kind. -/
theorem flying_inductive (cfg : MemoryConfig) (type : RequestType) :
    (system cfg).Inductive fun s => Flying type (cfg.latency type) (s.inFlight type) where
  init s hs := by
    have hstart : s = initial cfg := hs
    have hnone : (initial cfg).inFlight type = [] := by cases type <;> rfl
    rw [hstart, hnone]
    exact ⟨List.Pairwise.nil, fun _ _ hd => absurd hd List.not_mem_nil, fun _ hd => absurd hd List.not_mem_nil⟩
  step s l s' _ h hstep := by
    have heq : s' = s.step cfg l := hstep
    rw [heq]
    cases l with
    | addRequest requestorID address isRead size =>
      obtain ⟨_, _, _, _, hinFlight⟩ := addRequest_data cfg s requestorID address isRead size type
      change Flying type _ ((s.addRequest cfg requestorID address isRead size).inFlight type)
      rw [hinFlight]
      exact h
    | update =>
      have hfinish : ∀ t : MemorySystem, Flying type (cfg.latency type + 1) (t.inFlight type) →
          Flying type (cfg.latency type) ((t.finish cfg).inFlight type) := by
        intro t ht
        rw [(finish_data cfg t type).1]
        exact ht.arriving
      have hprepare := (prepare_data cfg s type).2.2.1
      have hlater : Flying type (cfg.latency type + 1) ((s.prepare cfg).inFlight type) := by
        rw [hprepare]
        exact ⟨h.ordered, h.positive, fun d hd => Nat.lt_succ_of_lt (h.within d hd)⟩
      change Flying type _ ((s.update cfg).inFlight type)
      cases update_cases cfg s with
      | inl hnone =>
        rw [hnone.2]
        exact hfinish _ hlater
      | inr hsend =>
        obtain ⟨p, index, _, _, _, _, hsend⟩ := hsend
        rw [hsend]
        apply hfinish
        rw [sendCommand_inFlight, hprepare]
        split_ifs
        · refine ⟨?_, fun htype d hd => ?_, fun d hd => ?_⟩
          · refine List.pairwise_append.2 ⟨h.ordered, List.pairwise_singleton _ _, fun d hd d' hd' => ?_⟩
            rw [List.mem_singleton.1 hd']
            exact h.within d hd
          · cases List.mem_append.1 hd with
            | inl hd => exact h.positive htype d hd
            | inr hd =>
              rw [List.mem_singleton.1 hd, htype]
              exact (latency_pos cfg).1
          · cases List.mem_append.1 hd with
            | inl hd => exact Nat.lt_succ_of_lt (h.within d hd)
            | inr hd =>
              rw [List.mem_singleton.1 hd]
              exact Nat.lt_succ_self _
        · rw [List.append_nil]
          exact hprepare ▸ hlater

/-! ## All is answered -/

/-- What holds of a memory system in a regular run. -/
structure Sound (cfg : MemoryConfig) (s : MemorySystem) : Prop where
  regular : ((system cfg).restrict (Regular cfg)).Reachable s
  booked : s.Booked cfg
  timed : s.Timed cfg
  timers : s.TimersSet cfg
  flying : ∀ type, Flying type (cfg.latency type) (s.inFlight type)

/-- All of it holds in every regular run. -/
theorem Sound.of_reachable (hr : ((system cfg).restrict (Regular cfg)).Reachable s) : s.Sound cfg where
  regular := hr
  booked := (booked_inductive cfg).reachable hr
  timed := (timed_inductive cfg).reachable hr.of_restrict
  timers := (timersSet_inductive cfg).reachable hr.of_restrict
  flying type := (flying_inductive cfg type).reachable hr.of_restrict

/-- It still does after another cycle. -/
theorem Sound.update (h : s.Sound cfg) : (s.update cfg).Sound cfg :=
  .of_reachable (h.regular.step (l := .update) ⟨trivial, rfl⟩)

/-- A cycle without work brings all data closer. -/
theorem Flying.update {n : Nat} (h : Flying type (n + 1) (s.inFlight type)) (hbalanced : s.Balanced cfg type)
    (hwork : s.work cfg = 0) : Flying type n ((s.update cfg).inFlight type) := by
  have hprepare := (prepare_data cfg s type).2.2.1
  cases update_cases cfg s with
  | inl hnone =>
    rw [hnone.2, (finish_data cfg _ type).1, hprepare]
    exact h.arriving
  | inr hsend =>
    obtain ⟨p, index, hindex, hqueue, _, _, _⟩ := hsend
    have hless := work_sendCommand hindex hqueue
    have hle := work_prepare hbalanced
    omega

/-- Where no work is left, nothing waits and nothing is queued. -/
theorem rest_of_work (hwork : s.work cfg = 0) :
    s.generalBuffer = [] ∧ s.commandBuffer = [] ∧ s.queued cfg (fun _ => true) = 0 := by
  rw [work, Nat.add_eq_zero_iff, Nat.add_eq_zero_iff] at hwork
  refine ⟨?_, List.length_eq_zero_iff.1 hwork.1.2, hwork.1.1⟩
  cases hbuffer : s.generalBuffer with
  | nil => rfl
  | cons r rest =>
    have hsum := hwork.2
    rw [hbuffer, List.map_cons, List.sum_cons, Nat.add_eq_zero_iff] at hsum
    exact absurd hsum.1 (Nat.succ_ne_zero _)

/-- A cycle with nothing to send and no data on their way changes no pending request. -/
theorem update_idle (hwork : s.work cfg = 0) (hdata : ∀ type, s.inFlight type = []) :
    (s.update cfg).work cfg = 0 ∧ (∀ type, (s.update cfg).inFlight type = []) ∧
      ∀ type, (s.update cfg).pending type = s.pending type := by
  obtain ⟨hbuffer, hcommands, -⟩ := rest_of_work hwork
  have hprepare : s.prepare cfg = s := by
    have hschedule : s.requestSchedule cfg = s := by
      simp only [requestSchedule, hbuffer, List.length_nil, scheduleLoop]
    rw [prepare, hschedule, enqueueCommands, hcommands, List.foldl_nil, ← hcommands]
  have hfinish : ∀ type, (s.finish cfg).inFlight type = [] ∧ (s.finish cfg).pending type = s.pending type := by
    intro type
    obtain ⟨hinFlight, hpending, _, _⟩ := finish_data cfg s type
    rw [hinFlight, hpending, hdata]
    cases type <;> exact ⟨rfl, rfl⟩
  have hqueue : (s.finish cfg).generalBuffer = s.generalBuffer := by
    have hreads := hdata .dataRead
    have hwrites := hdata .dataWrite
    simp only [inFlight] at hreads hwrites
    rw [finish, updateDevice_eq, updateSendData_eq]
    simp [tick, hreads, hwrites, arriving, countDown]
  cases update_cases cfg s with
  | inl hnone =>
    rw [hprepare] at hnone
    obtain ⟨_, _, _, _, _, _, _, _, hframe⟩ := finish_frame cfg s
    rw [hnone.2]
    refine ⟨?_, fun type => (hfinish type).1, fun type => (hfinish type).2⟩
    rw [work, hqueue, hframe]
    exact hwork
  | inr hsend =>
    obtain ⟨p, index, hindex, hqueue, _, _, _⟩ := hsend
    rw [hprepare] at hqueue
    have hless := work_sendCommand hindex hqueue
    omega

/-- The last of two requests that were queued at once for the same data is never answered. -/
theorem sameData_unanswered (n : Nat) :
    ((MemorySystem.update twoRequestors)^[n] sameData).pending .dataRead ≠ [] := by
  have hstart : sameData.work twoRequestors = 0 ∧ (∀ type, sameData.inFlight type = []) ∧
      sameData.pending .dataRead ≠ [] := by
    refine ⟨by decide +kernel, fun type => ?_, by decide +kernel⟩
    cases type <;> decide +kernel
  have hkeep : ∀ s : MemorySystem, (s.work twoRequestors = 0 ∧ (∀ type, s.inFlight type = []) ∧
      s.pending .dataRead ≠ []) → ((s.update twoRequestors).work twoRequestors = 0 ∧
        (∀ type, (s.update twoRequestors).inFlight type = []) ∧ (s.update twoRequestors).pending .dataRead ≠ []) := by
    intro s hs
    have hidle := update_idle hs.1 hs.2.1
    refine ⟨hidle.1, hidle.2.1, ?_⟩
    rw [hidle.2.2]
    exact hs.2.2
  exact (iterate_keeps hkeep hstart n).2.2

end MemorySystem

end Octopus.MCsim
