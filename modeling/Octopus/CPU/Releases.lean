import Octopus.CPU.Task
import Octopus.Lib.TransitionSystem
import Mathlib.Algebra.GroupWithZero.Nat
import Mathlib.Algebra.Order.Group.Nat
import Mathlib.Data.List.Basic

/-!
# The releases of a periodic task

Each finish of a job accounts for its own index and for the indices that it skips, and no index is left
out or accounted for twice, however long the job overran. The part of a core that this is about is its
`schedule`; only `finishJob` changes it, so what holds for every sequence of finish cycles holds in every
run of the core.
-/

namespace Octopus

variable {δ : Type}

/-- The indices a row of the report accounts for: its job's, and those of the periods it skipped. -/
def JobReport.indices (report : JobReport) : List Nat := List.range' report.job (1 + report.skippedPeriods)

/-- The finish of the last job of a report. -/
def lastFinish (reports : List JobReport) : Nat := (reports.getLast?.map JobReport.finish).getD 0

/-- A job is released and due as its task says, behind the jobs of a report. -/
structure Task.Due (task : Task δ) (earlier : List JobReport) (job release deadline : Nat) : Prop where
  release : release = max (lastFinish earlier) (task.start + job * task.period)
  deadline : deadline = task.start + job * task.period + task.deadlineRel

/-- A row of the report is right, behind the rows before it. -/
structure Task.Reported (task : Task δ) (earlier : List JobReport) (report : JobReport) : Prop where
  due : task.Due earlier report.job report.release report.deadline
  miss : report.miss = true ↔ report.deadline < report.finish
  skipped : ∀ k, report.job < k → k ≤ report.job + report.skippedPeriods →
    task.start + (k + 1) * task.period ≤ report.finish
  released : ((report.job + report.skippedPeriods + 1 : Nat) : Int) < task.jobsTotal →
    report.finish < task.start + (report.job + report.skippedPeriods + 2) * task.period

/-- The part of a core that schedules its jobs. -/
structure JobSchedule where
  jobIndex : Nat
  jobRelease : Nat
  jobDeadline : Nat
  missedDeadlines : Nat
  simulationDone : Bool
  jobReports : List JobReport

/-- Every index of a task below the current one is accounted for once, and the task is done when none is
left. -/
structure Task.Accounts (task : Task δ) (s : JobSchedule) : Prop where
  indices : s.jobReports.flatMap JobReport.indices = List.range s.jobIndex
  reported : ∀ earlier report later, s.jobReports = earlier ++ report :: later → task.Reported earlier report
  missed : s.missedDeadlines = (s.jobReports.map JobReport.skippedPeriods).sum
  current : s.simulationDone = false →
    (s.jobIndex : Int) < task.jobsTotal ∧ task.Due s.jobReports s.jobIndex s.jobRelease s.jobDeadline
  done : s.simulationDone = true ↔ s.jobReports.flatMap JobReport.indices = List.range task.jobsTotal.toNat

/-- The report has the finish cycles the jobs were given, in order, and all of them unless the core is done. -/
structure JobSchedule.Finishes (s : JobSchedule) (finishes : List Nat) : Prop where
  reported : s.jobReports.map JobReport.finish <+: finishes
  all : s.simulationDone = false → s.jobReports.map JobReport.finish = finishes

namespace CPU

variable {doubles : Doubles δ} {task : Task δ} {cpu cpu' : CPU δ}

/-- The schedule of a core. -/
def schedule (cpu : CPU δ) : JobSchedule where
  jobIndex := cpu.jobIndex
  jobRelease := cpu.jobRelease
  jobDeadline := cpu.jobDeadline
  missedDeadlines := cpu.missedDeadlines
  simulationDone := cpu.simulationDone
  jobReports := cpu.jobReports

@[simp] theorem expandJob_schedule : (expandJob doubles cpu).schedule = cpu.schedule := rfl

@[simp] theorem expandJob_task : (expandJob doubles cpu).task = cpu.task := rfl

/-- The windows of the periods that a finish skips have ended. -/
theorem window_of_skipped (task : Task δ) (finishCycle k : Nat) :
    ∀ i < skipped task finishCycle k, task.start + (k + i) * task.period + task.period ≤ finishCycle := by
  fun_induction skipped task finishCycle k with
  | case1 k hk ih =>
    intro i hi
    cases i with
    | zero => exact hk.1
    | succ i =>
      rw [Nat.add_comm i 1, ← Nat.add_assoc]
      exact ih i (Nat.lt_of_succ_lt_succ hi)
  | case2 => exact fun i hi => absurd hi (Nat.not_lt_zero i)

/-- The skipped periods are periods of the task. -/
theorem add_skipped_le (task : Task δ) (finishCycle k : Nat) (h : (k : Int) ≤ task.jobsTotal) :
    ((k + skipped task finishCycle k : Nat) : Int) ≤ task.jobsTotal := by
  fun_induction skipped task finishCycle k with
  | case1 k hk ih =>
    have hnext := ih (by omega)
    omega
  | case2 => exact h

/-- The first period of the task that is not skipped has a window that has not ended. -/
theorem window_of_not_skipped (task : Task δ) (finishCycle k : Nat)
    (h : ((k + skipped task finishCycle k : Nat) : Int) < task.jobsTotal) :
    finishCycle < task.start + (k + skipped task finishCycle k) * task.period + task.period := by
  fun_induction skipped task finishCycle k with
  | case1 k hk ih =>
    rw [Nat.add_comm _ 1, ← Nat.add_assoc] at h ⊢
    exact ih h
  | case2 k hk =>
    rw [Nat.add_zero] at h ⊢
    exact Nat.lt_of_not_le fun hle => hk ⟨hle, h⟩

/-- The row that a finish adds to the report. -/
def finishReport (cpu : CPU δ) (finishCycle : Nat) : JobReport where
  job := cpu.jobIndex
  release := cpu.jobRelease
  finish := finishCycle
  deadline := cpu.jobDeadline
  miss := decide (cpu.jobDeadline < finishCycle)
  accesses := cpu.jobAccesses
  skippedPeriods := skipped cpu.task finishCycle (cpu.jobIndex + 1)
  meanAccessLat := if cpu.jobAccesses = 0 then 0 else cpu.jobLatSum / cpu.jobAccesses
  maxAccessLat := cpu.jobLatMax

/-- What a finish makes of the schedule of a task that has a number of jobs. -/
theorem finishJob_schedule (h : 0 ≤ cpu.task.jobsTotal) (finishCycle : Nat) :
    (finishJob doubles cpu finishCycle).schedule =
      let report := cpu.finishReport finishCycle
      let jobIndex := cpu.jobIndex + (1 + report.skippedPeriods)
      let done := decide (cpu.task.jobsTotal ≤ jobIndex)
      { jobIndex
        jobRelease := if done then cpu.jobRelease else max finishCycle (cpu.task.start + jobIndex * cpu.task.period)
        jobDeadline := if done then cpu.jobDeadline
          else cpu.task.start + jobIndex * cpu.task.period + cpu.task.deadlineRel
        missedDeadlines := cpu.missedDeadlines + report.skippedPeriods
        simulationDone := done || cpu.simulationDone
        jobReports := cpu.jobReports ++ [report] } := by
  rw [finishJob, if_neg (Int.not_lt.2 h)]
  dsimp only [jobReport]
  split_ifs with hdone
  · simp only [schedule, coreDone, finishReport, hdone, decide_true, if_true, Bool.true_or]
  · simp only [schedule, expandJob, finishReport, hdone, decide_false, Bool.false_or, Bool.false_eq_true, if_false]

/-- A finish leaves the task of a core as it is. -/
theorem finishJob_task (doubles : Doubles δ) (cpu : CPU δ) (finishCycle : Nat) :
    (finishJob doubles cpu finishCycle).task = cpu.task := by
  rw [finishJob]
  split
  · exact (apply_ite CPU.task _ _ _).trans (ite_self _)
  · exact (apply_ite CPU.task _ _ _).trans (ite_self _)

end CPU

/-- The finish of the last row. -/
theorem lastFinish_concat (reports : List JobReport) (report : JobReport) :
    lastFinish (reports ++ [report]) = report.finish := by
  rw [lastFinish, List.getLast?_concat]
  rfl

/-- A property of every row and the rows before it holds with a row added behind, if it holds of that. -/
theorem forall_split_concat {p : List JobReport → JobReport → Prop} {reports : List JobReport} {last : JobReport}
    (h : ∀ earlier report later, reports = earlier ++ report :: later → p earlier report) (hlast : p reports last) :
    ∀ earlier report later, reports ++ [last] = earlier ++ report :: later → p earlier report := by
  intro earlier report later heq
  rcases List.eq_nil_or_concat later with rfl | ⟨later, x, rfl⟩
  · obtain ⟨rfl, hx⟩ := List.append_inj' heq rfl
    cases hx
    exact hlast
  · rw [List.concat_eq_append, ← List.cons_append, ← List.append_assoc] at heq
    exact h earlier report later (List.append_inj' heq rfl).1

namespace CPU

variable {doubles : Doubles δ} {task : Task δ} {cpu cpu' : CPU δ}

/-- The row that a finish adds is right. -/
theorem finishReport_reported (hcpu : cpu.task = task)
    (hdue : task.Due cpu.jobReports cpu.jobIndex cpu.jobRelease cpu.jobDeadline) (finishCycle : Nat) :
    task.Reported cpu.jobReports (cpu.finishReport finishCycle) where
  due := hdue
  miss := decide_eq_true_iff
  skipped k hlo hhi := by
    have hwindow := window_of_skipped cpu.task finishCycle (cpu.jobIndex + 1) (k - (cpu.jobIndex + 1))
      (by change k ≤ cpu.jobIndex + skipped cpu.task finishCycle (cpu.jobIndex + 1) at hhi
          change cpu.jobIndex < k at hlo
          omega)
    rw [Nat.add_sub_cancel' (show cpu.jobIndex + 1 ≤ k from hlo), Nat.add_assoc, ← Nat.succ_mul, hcpu] at hwindow
    exact hwindow
  released h := by
    change ((cpu.jobIndex + skipped cpu.task finishCycle (cpu.jobIndex + 1) + 1 : Nat) : Int) < _ at h
    change finishCycle < _ + (cpu.jobIndex + skipped cpu.task finishCycle (cpu.jobIndex + 1) + 2) * _
    have hwindow := window_of_not_skipped cpu.task finishCycle (cpu.jobIndex + 1)
      (by rw [Nat.add_right_comm, hcpu]; rw [hcpu] at h; exact h)
    rw [Nat.add_assoc, ← Nat.succ_mul, hcpu] at hwindow
    rw [hcpu]
    convert hwindow using 3
    omega

/-- What a row accounts for follows what the rows before it do. -/
theorem range_append_indices (report : JobReport) :
    List.range report.job ++ report.indices = List.range (report.job + (1 + report.skippedPeriods)) := by
  rw [JobReport.indices, List.range_eq_range', List.range_eq_range']
  have happend := @List.range'_append_1 0 report.job (1 + report.skippedPeriods)
  rw [Nat.zero_add] at happend
  exact happend

/-- A finish of the current job keeps the account. -/
theorem accounts_finishJob (h : task.Accounts cpu.schedule) (hcpu : cpu.task = task) (hpos : 0 ≤ task.jobsTotal)
    (hrun : cpu.simulationDone = false) (finishCycle : Nat) :
    task.Accounts (finishJob doubles cpu finishCycle).schedule := by
  obtain ⟨hlt, hdue⟩ := h.current hrun
  have hreport := finishReport_reported hcpu hdue finishCycle
  have hindices : (cpu.jobReports ++ [cpu.finishReport finishCycle]).flatMap JobReport.indices =
      List.range (cpu.jobIndex + (1 + (cpu.finishReport finishCycle).skippedPeriods)) := by
    rw [List.flatMap_append, List.flatMap_singleton, show cpu.jobReports.flatMap JobReport.indices = _ from h.indices]
    exact range_append_indices (cpu.finishReport finishCycle)
  have hle : ((cpu.jobIndex + (1 + (cpu.finishReport finishCycle).skippedPeriods) : Nat) : Int) ≤ task.jobsTotal := by
    rw [← Nat.add_assoc, ← hcpu]
    exact add_skipped_le cpu.task finishCycle (cpu.jobIndex + 1) (by rw [hcpu]; exact hlt)
  rw [finishJob_schedule (hcpu ▸ hpos), hcpu]
  exact {
    indices := hindices
    reported := forall_split_concat h.reported hreport
    missed := by
      dsimp only
      rw [List.map_append, List.sum_append, List.map_singleton, List.sum_singleton]
      exact congrArg (· + _) h.missed
    current := by
      dsimp only
      intro hdone
      rw [Bool.or_eq_false_iff] at hdone
      rw [hdone.1]
      refine ⟨Int.not_le.1 (of_decide_eq_false hdone.1), ?_, rfl⟩
      rw [lastFinish_concat]
      rfl
    done := by
      dsimp only
      rw [hindices, hrun, Bool.or_false, decide_eq_true_iff]
      constructor
      · intro hdone
        rw [← Int.le_antisymm hle hdone]
        rfl
      · intro heq
        have hlength := congrArg List.length heq
        rw [List.length_range, List.length_range] at hlength
        omega }

/-- The account of a core before its first cycle. -/
theorem accounts_init (doubles : Doubles δ) (task : Task δ) (id nextReqId : Nat) (finiteCoresRunning : Int)
    (hpos : 1 ≤ task.jobsTotal) : task.Accounts (init doubles task id nextReqId finiteCoresRunning).schedule where
  indices := rfl
  reported _ _ _ h := absurd h (by simp [init, schedule, expandJob])
  missed := rfl
  current _ := ⟨hpos, by simp [init, schedule, expandJob, lastFinish], by simp [init, schedule, expandJob]⟩
  done := by
    constructor
    · exact fun h => absurd h Bool.false_ne_true
    · intro h
      have hlength := congrArg List.length h
      rw [List.length_range] at hlength
      change 0 = _ at hlength
      omega

/-- Finish the jobs of a core one after another at the given cycles, until the core is done. -/
def finishJobs (doubles : Doubles δ) (cpu : CPU δ) : List Nat → CPU δ
  | [] => cpu
  | finishCycle :: finishes =>
    if cpu.simulationDone then cpu else finishJobs doubles (finishJob doubles cpu finishCycle) finishes

/-- Every sequence of finishes keeps the account. -/
theorem accounts_finishJobs (h : task.Accounts cpu.schedule) (hcpu : cpu.task = task) (hpos : 0 ≤ task.jobsTotal)
    (finishes : List Nat) : task.Accounts (finishJobs doubles cpu finishes).schedule := by
  induction finishes generalizing cpu with
  | nil => exact h
  | cons finishCycle finishes ih =>
    rw [finishJobs]
    split_ifs with hdone
    · exact h
    · exact ih (accounts_finishJob h hcpu hpos (Bool.eq_false_iff.2 hdone) finishCycle)
        ((finishJob_task doubles cpu finishCycle).trans hcpu)

/-- The jobs of a sequence of finishes are reported in order with their finish cycles, and none is left out
unless the core was done. -/
theorem reports_finishJobs (hpos : 0 ≤ cpu.task.jobsTotal) (finishes : List Nat) : ∃ reported, reported <+: finishes ∧
    (finishJobs doubles cpu finishes).jobReports.map JobReport.finish =
      cpu.jobReports.map JobReport.finish ++ reported ∧
    ((finishJobs doubles cpu finishes).simulationDone = false → reported = finishes) := by
  induction finishes generalizing cpu with
  | nil => exact ⟨[], List.prefix_refl _, (List.append_nil _).symm, fun _ => rfl⟩
  | cons finishCycle finishes ih =>
    rw [finishJobs]
    split_ifs with hdone
    · exact ⟨[], List.nil_prefix, (List.append_nil _).symm, fun hrun => absurd hdone (Bool.eq_false_iff.1 hrun)⟩
    · have hreports : (finishJob doubles cpu finishCycle).jobReports =
          cpu.jobReports ++ [cpu.finishReport finishCycle] :=
        congrArg JobSchedule.jobReports (finishJob_schedule hpos finishCycle)
      obtain ⟨reported, hprefix, hmap, hall⟩ :=
        @ih (finishJob doubles cpu finishCycle) (by rw [finishJob_task]; exact hpos)
      refine ⟨finishCycle :: reported, (List.prefix_cons_inj _).2 hprefix, ?_, fun hrun => by rw [hall hrun]⟩
      rw [hmap, hreports, List.map_append, List.append_assoc]
      rfl

/-- Whenever the jobs of a periodic task finish, each finish is reported in order until the core is done,
each index is released or skipped once, with the release and the deadline of its window, and the core is
done when all are accounted for. -/
theorem finishJobs_accounts (doubles : Doubles δ) (task : Task δ) (id nextReqId : Nat) (finiteCoresRunning : Int)
    (hpos : 1 ≤ task.jobsTotal) (finishes : List Nat) :
    task.Accounts (finishJobs doubles (init doubles task id nextReqId finiteCoresRunning) finishes).schedule ∧
      (finishJobs doubles (init doubles task id nextReqId finiteCoresRunning) finishes).schedule.Finishes finishes := by
  have hnonneg : 0 ≤ (init doubles task id nextReqId finiteCoresRunning).task.jobsTotal := Int.le_of_lt hpos
  refine ⟨accounts_finishJobs (accounts_init doubles task id nextReqId finiteCoresRunning hpos) rfl hnonneg finishes, ?_⟩
  obtain ⟨reported, hprefix, hmap, hall⟩ := @reports_finishJobs _ doubles _ hnonneg finishes
  have hreports : (finishJobs doubles (init doubles task id nextReqId finiteCoresRunning) finishes).jobReports.map
      JobReport.finish = reported := hmap
  exact ⟨hreports ▸ hprefix, fun hrun => hreports.trans (hall hrun)⟩

/-- A task of four jobs that reads one line and computes a little. -/
def readTask : Task Unit where
  period := 10
  deadlineRel := 10
  start := 5
  jobsTotal := 4
  numberOfOoORequests := 1
  body := [.compute 2, .readOne 64, .compute 1]
  period_pos := by decide

/-- Its first job overruns two periods and ends on the boundary of the second, its second one overruns
the end of the task, and the third finish is not consumed. -/
theorem finishJobs_accounts_readTask :
    let s := (finishJobs ⟨fun _ _ => false, fun _ _ => 0⟩ (init ⟨fun _ _ => false, fun _ _ => 0⟩ readTask 0 0 1)
      [35, 90, 95]).schedule
    readTask.Accounts s ∧ s.Finishes [35, 90, 95] :=
  finishJobs_accounts _ readTask 0 0 1 (by decide) [35, 90, 95]

end CPU

end Octopus
