import Octopus.CPU.Releases

/-!
# Cycles of a periodic core

A cycle changes the schedule of a core only when it finishes a job, so the account of `Releases` holds in
every cycle of a run. In a run a job also finishes no earlier than it was released: its first access is
issued at or after the release, and the data of its last one comes back later.
-/

namespace Octopus

namespace CPU

variable {δ : Type} {doubles : Doubles δ} {task : Task δ} {cpu cpu' : CPU δ}

/-- Where the accesses of the current job stand. An access was issued no earlier than the release, and
until its data is back a slot is taken. -/
structure Served (cpu : CPU δ) : Prop where
  accesses : cpu.jobAccesses = cpu.jobSamples.length
  first : cpu.jobFirstAccess = true → cpu.sampleInProgress = none → cpu.jobNext = 0
  issued : cpu.jobFirstAccess = false → cpu.jobRelease ≤ cpu.clkCycle
  served : cpu.jobFirstAccess = false → 0 < cpu.sentRequests ∨ cpu.jobRelease ≤ cpu.lastReceivedMsgCycle
  reports : ∀ report ∈ cpu.jobReports, report.release ≤ report.finish

/-- Issuing a sample leaves the schedule as it is. -/
theorem issue_schedule (cpu : CPU δ) (sample : TraceSample) (accepts : Bool) :
    (cpu.issue sample accepts).schedule = cpu.schedule ∧ (cpu.issue sample accepts).task = cpu.task := by
  rw [issue]
  dsimp only
  split_ifs <;> exact ⟨rfl, rfl⟩

/-- A sample is issued only from its release on. -/
theorem Served.issue (h : cpu.Served) (hrelease : cpu.jobRelease ≤ cpu.clkCycle) (jobNext : Nat)
    (sample : TraceSample) (accepts : Bool) : Served ({ cpu with jobNext }.issue sample accepts) := by
  have hwaits : ∀ sample', Served { cpu with jobNext, sampleInProgress := some sample' } := fun sample' =>
    { accesses := h.accesses
      first := fun _ hnone => nomatch hnone
      issued := h.issued
      served := h.served
      reports := h.reports }
  rw [CPU.issue]
  dsimp only
  generalize (if cpu.jobFirstAccess = true then cpu.jobRelease else cpu.lastReceivedMsgCycle) = base
  split_ifs with hslot hready haccepts
  · exact {
      accesses := h.accesses
      first := fun hfirst => absurd hfirst Bool.false_ne_true
      issued := fun _ => hrelease
      served := fun _ => .inl (Nat.succ_pos _)
      reports := h.reports }
  · exact hwaits _
  · exact hwaits _
  · exact hwaits _

/-- A response leaves the schedule as it is. -/
theorem checkReceiveBuffer_schedule {response : Option Nat} (h : checkReceiveBuffer cpu response = some cpu') :
    cpu'.schedule = cpu.schedule ∧ cpu'.task = cpu.task := by
  cases response with
  | none =>
    cases h
    exact ⟨rfl, rfl⟩
  | some msgId =>
    rw [checkReceiveBuffer] at h
    cases hissued : cpu.issueCycle.lookup msgId <;>
    · simp only [hissued] at h
      split_ifs at h
      cases h
      exact ⟨rfl, rfl⟩

/-- A response that frees the last slot comes at or after the release. -/
theorem Served.checkReceiveBuffer (h : cpu.Served) {response : Option Nat}
    (hcpu : checkReceiveBuffer cpu response = some cpu') : cpu'.Served := by
  cases response with
  | none =>
    cases hcpu
    exact h
  | some msgId =>
    rw [CPU.checkReceiveBuffer] at hcpu
    cases hissued : cpu.issueCycle.lookup msgId <;>
    · simp only [hissued] at hcpu
      split_ifs at hcpu
      cases hcpu
      exact ⟨h.accesses, h.first, h.issued, fun hfirst => .inr (h.issued hfirst), h.reports⟩

/-- When the samples are issued and no slot is taken, the last data is back after the release. -/
theorem Served.release_le_of_drained (h : cpu.Served) (hsample : cpu.sampleInProgress = none)
    (hnext : cpu.jobSamples[cpu.jobNext]? = none) (hsent : cpu.sentRequests = 0) :
    cpu.jobRelease ≤ if cpu.jobAccesses = 0 then cpu.jobRelease else cpu.lastReceivedMsgCycle := by
  split_ifs with haccesses
  · exact Nat.le_refl _
  cases hfirst : cpu.jobFirstAccess with
  | true =>
    rw [h.first hfirst hsample, List.getElem?_eq_none_iff, ← h.accesses] at hnext
    exact absurd (Nat.le_zero.1 hnext) haccesses
  | false => exact (h.served hfirst).resolve_left (by rw [hsent]; exact Nat.lt_irrefl 0)

/-- A cycle of the job leaves the schedule as it is, or finishes the job at or after its release. -/
theorem periodicLogic_cases (doubles : Doubles δ) (cpu : CPU δ) (accepts : Bool) :
    ((periodicLogic doubles cpu accepts).schedule = cpu.schedule ∧
      (periodicLogic doubles cpu accepts).task = cpu.task ∧
      (cpu.Served → (periodicLogic doubles cpu accepts).Served)) ∨
    ∃ finishCycle, periodicLogic doubles cpu accepts = finishJob doubles cpu finishCycle ∧
      (cpu.Served → cpu.jobRelease ≤ finishCycle) := by
  rw [periodicLogic]
  by_cases hclk : cpu.clkCycle < cpu.jobRelease
  · rw [if_pos hclk]
    exact .inl ⟨rfl, rfl, fun h => h⟩
  rw [if_neg hclk]
  have hrelease := Nat.le_of_not_lt hclk
  cases hsample : cpu.sampleInProgress with
  | some sample =>
    dsimp only
    exact .inl ⟨(issue_schedule ..).1, (issue_schedule ..).2, fun h => h.issue hrelease cpu.jobNext sample accepts⟩
  | none =>
    cases hnext : cpu.jobSamples[cpu.jobNext]? with
    | some sample =>
      dsimp only
      exact .inl ⟨(issue_schedule ..).1, (issue_schedule ..).2, fun h => h.issue hrelease _ _ accepts⟩
    | none =>
      dsimp only
      by_cases hsent : cpu.sentRequests = 0
      · rw [if_pos hsent]
        by_cases hdone : cpu.clkCycle <
            (if cpu.jobAccesses = 0 then cpu.jobRelease else cpu.lastReceivedMsgCycle) + cpu.trailingCompute
        · rw [if_pos hdone]
          exact .inl ⟨rfl, rfl, fun h => h⟩
        · rw [if_neg hdone]
          exact .inr ⟨_, rfl, fun h => Nat.le_add_right_of_le (h.release_le_of_drained hsample hnext hsent)⟩
      · rw [if_neg hsent]
        exact .inl ⟨rfl, rfl, fun h => h⟩

/-- A job starts with none of its accesses issued. -/
theorem Served.expandJob (hreports : ∀ report ∈ cpu.jobReports, report.release ≤ report.finish) :
    Served (CPU.expandJob doubles cpu) where
  accesses := rfl
  first _ _ := rfl
  issued hfirst := absurd hfirst.symm Bool.false_ne_true
  served hfirst := absurd hfirst.symm Bool.false_ne_true
  reports := hreports

/-- A finish at or after the release of the job starts the next one, or leaves the core done. -/
theorem Served.finishJob (h : cpu.Served) {finishCycle : Nat} (hfinish : cpu.jobRelease ≤ finishCycle) :
    Served (CPU.finishJob doubles cpu finishCycle) := by
  have hreports : ∀ deadline miss skippedPeriods,
      ∀ report ∈ (cpu.jobReport finishCycle deadline miss skippedPeriods).jobReports,
        report.release ≤ report.finish := by
    intro deadline miss skippedPeriods report hreport
    rcases List.mem_append.1 hreport with hold | hnew
    · exact h.reports report hold
    · cases List.mem_singleton.1 hnew
      exact hfinish
  rw [CPU.finishJob]
  split
  · exact iteInduction (fun _ => ⟨h.accesses, h.first, h.issued, h.served, hreports 0 false 0⟩)
      fun _ => .expandJob (hreports 0 false 0)
  · exact iteInduction (fun _ => ⟨h.accesses, h.first, h.issued, h.served, hreports _ _ _⟩)
      fun _ => .expandJob (hreports _ _ _)

/-- The runs of a core, one cycle a step, with any responses and refusals and whatever the other cores do. -/
def system (doubles : Doubles δ) (task : Task δ) : Lib.TransitionSystem (CPU δ) Input where
  init cpu := ∃ id nextReqId finiteCoresRunning, cpu = init doubles task id nextReqId finiteCoresRunning
  step cpu i cpu' := cycleProcess doubles cpu i = some cpu'

/-- A cycle of a core that is done changes nothing it reports; one of a core that is not leaves its
schedule, or finishes its job at or after the release. -/
theorem cycleProcess_cases {i : Input} (h : cycleProcess doubles cpu i = some cpu') (hserved : cpu.Served) :
    cpu'.Served ∧ cpu'.task = cpu.task ∧
      (cpu'.schedule = cpu.schedule ∨
        cpu.simulationDone = false ∧ ∃ cpu₁ finishCycle, cpu₁.schedule = cpu.schedule ∧ cpu₁.task = cpu.task ∧
          cpu'.schedule = (finishJob doubles cpu₁ finishCycle).schedule) := by
  rw [cycleProcess] at h
  dsimp only at h
  have hshared : Served { cpu with nextReqId := i.nextReqId, finiteCoresRunning := i.finiteCoresRunning } :=
    ⟨hserved.accesses, hserved.first, hserved.issued, hserved.served, hserved.reports⟩
  by_cases hdone : cpu.simulationDone = true
  · rw [if_pos hdone] at h
    cases h
    exact ⟨hshared, rfl, .inl rfl⟩
  · rw [if_neg hdone] at h
    obtain ⟨cpu₁, hcpu₁, hnext⟩ := Option.bind_eq_some_iff.1 h
    obtain ⟨hschedule, htask⟩ := checkReceiveBuffer_schedule hcpu₁
    have hserved₁ := hshared.checkReceiveBuffer hcpu₁
    cases hnext
    have hnextCycle : ∀ {c : CPU δ}, c.Served → Served { c with clkCycle := c.clkCycle + 1 } := fun hc =>
      ⟨hc.accesses, hc.first, fun hfirst => Nat.le_succ_of_le (hc.issued hfirst), hc.served, hc.reports⟩
    rcases periodicLogic_cases doubles cpu₁ i.accepts with ⟨hkeep, hkeepTask, hkeepServed⟩ | ⟨finishCycle, heq, hle⟩
    · exact ⟨hnextCycle (hkeepServed hserved₁), hkeepTask.trans htask, .inl (hkeep.trans hschedule)⟩
    · rw [heq]
      exact ⟨hnextCycle (hserved₁.finishJob (hle hserved₁)), (finishJob_task doubles cpu₁ finishCycle).trans htask,
        .inr ⟨Bool.eq_false_iff.2 hdone, cpu₁, finishCycle, hschedule, htask, rfl⟩⟩

/-- In every run of a core each index of its task is accounted for once, and no job finishes before its
release. -/
theorem inductive_accounts (hpos : 1 ≤ task.jobsTotal) :
    (system doubles task).Inductive fun cpu => cpu.Served ∧ cpu.task = task ∧ task.Accounts cpu.schedule where
  init := by
    rintro _ ⟨id, nextReqId, finiteCoresRunning, rfl⟩
    exact ⟨.expandJob (fun report hreport => nomatch hreport), rfl, accounts_init doubles task id _ _ hpos⟩
  step cpu i cpu' _ h hstep := by
    obtain ⟨hserved, htask, haccounts⟩ := h
    obtain ⟨hserved', htask', hsame | ⟨hrun, cpu₁, finishCycle, hschedule, htask₁, hfinish⟩⟩ :=
      cycleProcess_cases hstep hserved
    · exact ⟨hserved', htask'.trans htask, hsame ▸ haccounts⟩
    · refine ⟨hserved', htask'.trans htask, ?_⟩
      rw [hfinish]
      exact accounts_finishJob (hschedule ▸ haccounts) (htask₁.trans htask) (by omega)
        ((congrArg JobSchedule.simulationDone hschedule).trans hrun) finishCycle

/-- In every run of a core each index of its task is released or skipped once, as its windows say, and no
job finishes before its release. -/
theorem accounts_of_reachable (hpos : 1 ≤ task.jobsTotal) (h : (system doubles task).Reachable cpu) :
    task.Accounts cpu.schedule ∧ ∀ report ∈ cpu.jobReports, report.release ≤ report.finish :=
  have hinv := (inductive_accounts hpos).reachable h
  ⟨hinv.2.2, hinv.1.reports⟩

end CPU

end Octopus
