import Octopus.Controller.Bounds
import Octopus.Controller.Service

/-!
# The registers and the write-back buffer of a cache

How many blocks wait for their bytes and how many lines wait for their write-back. Both bounds are
exceeded by ordinary traffic: an upgrade asks for its line without a check, and a fill evicts whether
or not the buffer has room.
-/

namespace Octopus

namespace CacheLines

open ControllerCore
open L1Lines (request granted filled cycleOf)

variable {κ π : Type} {L : LineLogic κ π} {cfg : CacheConfig}

/-- A demand request is refused only if no register is free and its row would take one. -/
theorem refused_opens (hL : L.RecordsDemands) {e : CacheLines κ π} {m : Message}
    (h : (core L cfg).canAdmitRequest e m = false) : (∃ k ∈ cfg.m_num_mshr, k ≤ e.pendingKeys.length) ∧
      ∃ r, (core L cfg).processRequest e m = .ok r ∧
        r.env.pendingKeys = e.pendingKeys ++ [getAddressKey cfg m.addr] := by
  rw [canAdmitRequest] at h
  split_ifs at h with hdemand htracked hpending hfull
  obtain ⟨k, hk, hle⟩ := Option.any_eq_true _ _ |>.1 hfull
  refine ⟨⟨k, hk, of_decide_eq_true hle⟩, ?_⟩
  have hloc : L.location (e.line (getAddressKey cfg m.addr)) = none := by simpa [core] using htracked
  obtain ⟨o, ho, hne⟩ := hL e.data (e.line (getAddressKey cfg m.addr)) m (by simpa using hdemand) hloc
  refine ⟨e.processed L cfg (getAddressKey cfg m.addr) o, by simp [core, processRequest, ho, Except.map], ?_⟩
  have hnot : getAddressKey cfg m.addr ∉ e.pendingKeys := by simpa [core] using hpending
  have hin : (L.pending o.line != []) = true := by simpa using hne
  change (setLine L cfg e (getAddressKey cfg m.addr) o).pendingKeys = _
  rw [pendingKeys_setLine, hin, setKey, if_pos rfl, if_neg hnot]

/--
The blocks with an outstanding miss keep their bound along the runs without a step that opens one
unchecked, and along every run a demand request is refused only if it would open one more.
-/
theorem registers_bounded (p : PrivateProtocol) (cfg : CacheConfig) :
    (∀ s, ((system (p.logic cfg) cfg).restrict fun s l => opensUnchecked (p.logic cfg) cfg s l = false).Reachable s →
        ∀ k ∈ cfg.m_num_mshr, s.env.pendingKeys.length ≤ k) ∧
      ∀ s, (system (p.logic cfg) cfg).Reachable s → ∀ m, (core (p.logic cfg) cfg).canAdmitRequest s.env m = false →
        (∃ k ∈ cfg.m_num_mshr, k ≤ s.env.pendingKeys.length) ∧
          ∃ r, (core (p.logic cfg) cfg).processRequest s.env m = .ok r ∧
            r.env.pendingKeys = s.env.pendingKeys ++ [getAddressKey cfg m.addr] :=
  ⟨fun _ hr => pendingKeys_bounded _ _ hr, fun _ _ _ h => refused_opens (p.recordsDemands cfg) h⟩

/-- A step of a run whose steps all meet a guard. -/
def guardedStep (L : LineLogic κ π) (cfg : CacheConfig)
    (guard : CacheController (CacheLines κ π) → ControllerLabel → Bool) (s : CacheController (CacheLines κ π))
    (l : ControllerLabel) : Except Unit (CacheController (CacheLines κ π)) :=
  if guard s l then ((core L cfg).step s l).elim (.error ()) .ok else .error ()

/-- A guarded step is a step of the guarded system. -/
theorem guardedStep_eq_ok {guard : CacheController (CacheLines κ π) → ControllerLabel → Bool}
    {s s' : CacheController (CacheLines κ π)} {l : ControllerLabel} (h : guardedStep L cfg guard s l = .ok s') :
    guard s l = true ∧ (core L cfg).step s l = some s' := by
  rw [guardedStep] at h
  split_ifs at h with hguard
  cases hstep : (core L cfg).step s l with
  | none => simp [hstep] at h
  | some s₁ =>
    rw [hstep] at h
    exact ⟨hguard, congrArg some (Except.ok.inj h)⟩

/-- A run of the guarded steps to a state that passes a test. -/
theorem exists_guarded (L : LineLogic κ π) (cfg : CacheConfig)
    (guard : CacheController (CacheLines κ π) → ControllerLabel → Bool) (labels : List ControllerLabel)
    (test : CacheController (CacheLines κ π) → Bool)
    (h : (labels.foldlM (guardedStep L cfg guard) ((core L cfg).start (start L))).toOption.any test = true) :
    ∃ s, ((system L cfg).restrict fun s l => guard s l = true).Reachable s ∧ test s = true := by
  have hinit : ((system L cfg).restrict fun s l => guard s l = true).Path [] ((core L cfg).start (start L)) := .init rfl
  obtain ⟨history, s, hpath, htest⟩ :=
    Lib.TransitionSystem.exists_path_of_run (fun _ _ _ => guardedStep_eq_ok) hinit labels test h
  exact ⟨s, hpath.reachable, htest⟩

/-- A cache with one register, one way and room for one line in the write-back buffer. -/
def oneOfEach : CacheConfig where
  controller := ⟨0, 10, 8, true⟩
  array := ⟨0, false, false⟩
  processing_queue_size := none
  m_num_mshr := some 1
  m_pwb_size := some 1
  victim _ array _ := array.head?

/-- The lines of a private cache that runs MSI on it. -/
abbrev msiLogic : LineLogic PrivateProtocol.msi.Line ParkedAction := PrivateProtocol.msi.logic oneOfEach

/-- A request of a line, its grant and its bytes. -/
def served (cv id addr : Nat) : List ControllerLabel :=
  cycleOf none (some (request cv id addr)) 2 ++ cycleOf (some (granted cv id addr)) none 2 ++
    cycleOf (some (filled id addr)) none 2

/-- The lines of a private cache that runs MSI under a directory on it. -/
abbrev msiDirectoryLogic : LineLogic PrivateProtocol.msiDirectory.Line ParkedAction :=
  PrivateProtocol.msiDirectory.logic oneOfEach

/-- Under a directory: a Load gets its bytes, past a message that is for another cache; the home recalls the
line while a second Load waits for a third one's bytes. -/
def directoryRun : List ControllerLabel :=
  cycleOf none (some { request 0 1 0 with toIds := [0] }) 2 ++
    cycleOf (some { filled 5 0 with toIds := [3], fromId := 10 }) none 1 ++
    cycleOf (some { filled 1 0 with toIds := [0], fromId := 10 }) none 2 ++
    cycleOf none (some { request 0 2 8 with toIds := [0] }) 2 ++
    cycleOf (some { granted MSIDirectory.requestTypeInv 6 0 with toIds := [0], owner := 3 }) none 2

/-- A Load waits for its bytes, and another finds no register; with a bus and with a directory. -/
theorem registers_bounded_load :
    (∃ s : CacheController (CacheLines PrivateProtocol.msi.Line ParkedAction),
      s.env.pendingKeys.length ≤ 1 ∧ (core msiLogic oneOfEach).canAdmitRequest s.env (request 0 2 8) = false ∧
        ∃ k ∈ oneOfEach.m_num_mshr, k ≤ s.env.pendingKeys.length) ∧
    ∃ s : CacheController (CacheLines PrivateProtocol.msiDirectory.Line ParkedAction),
      s.processed.map (·.msgId) = [1, 1, 2, 6] ∧ s.env.pendingKeys.length ≤ 1 ∧
        (core msiDirectoryLogic oneOfEach).canAdmitRequest s.env (request 0 3 16) = false ∧
        ∃ k ∈ oneOfEach.m_num_mshr, k ≤ s.env.pendingKeys.length := by
  constructor
  · obtain ⟨s, hr, htest⟩ := exists_guarded msiLogic oneOfEach (fun s l => !opensUnchecked msiLogic oneOfEach s l)
      (cycleOf none (some (request 0 1 0)) 2)
      (fun s => !(core msiLogic oneOfEach).canAdmitRequest s.env (request 0 2 8)) (by decide)
    have hrefused : (core msiLogic oneOfEach).canAdmitRequest s.env (request 0 2 8) = false := by simpa using htest
    obtain ⟨hbound, hrefusal⟩ := registers_bounded .msi oneOfEach
    exact ⟨s, hbound s (by simpa using hr) 1 rfl, hrefused, (hrefusal s hr.of_restrict _ hrefused).1⟩
  · obtain ⟨s, hr, htest⟩ := exists_guarded msiDirectoryLogic oneOfEach
      (fun s l => !opensUnchecked msiDirectoryLogic oneOfEach s l) directoryRun
      (fun s => s.processed.map (·.msgId) == [1, 1, 2, 6] &&
        !(core msiDirectoryLogic oneOfEach).canAdmitRequest s.env (request 0 3 16)) (by decide)
    rw [Bool.and_eq_true, Bool.not_eq_true'] at htest
    obtain ⟨hbound, hrefusal⟩ := registers_bounded .msiDirectory oneOfEach
    exact ⟨s, by simpa using htest.1, hbound s (by simpa using hr) 1 rfl, htest.2,
      (hrefusal s hr.of_restrict _ htest.2).1⟩

/-- A cache reads a line, asks for another one, and stores to the first: two blocks are pending for one register. -/
theorem registers_exceeded : ∃ s, (system msiLogic oneOfEach).Reachable s ∧ 1 ∈ oneOfEach.m_num_mshr ∧
    ¬ s.env.pendingKeys.length ≤ 1 := by
  obtain ⟨s, hr, htest⟩ := exists_guarded msiLogic oneOfEach (fun _ _ => true)
    (served 0 1 0 ++ cycleOf none (some (request 0 2 8)) 2 ++ cycleOf none (some (request 1 3 0)) 2)
    (fun s => !decide (s.env.pendingKeys.length ≤ 1)) (by decide)
  exact ⟨s, hr.of_restrict, rfl, by simpa using htest⟩

/-- A fill evicts a line, and the write-back buffer has room for it. -/
theorem pwb_bounded_eviction : ∃ s : CacheController (CacheLines PrivateProtocol.msi.Line ParkedAction),
    s.env.pwb = [0] ∧ s.env.pwb.length ≤ 1 := by
  obtain ⟨s, hr, htest⟩ := exists_guarded msiLogic oneOfEach (fun s l => !overflows msiLogic oneOfEach s l)
    (served 1 1 0 ++ served 1 2 8) (fun s => s.env.pwb == [0]) (by decide)
  exact ⟨s, by simpa using htest, pwb_bounded msiLogic oneOfEach (s := s) (by simpa using hr) 1 rfl⟩

/-- Two fills evict before a line has been written back: the buffer holds two lines for a size of one. -/
theorem pwb_exceeded : ∃ s, (system msiLogic oneOfEach).Reachable s ∧ 1 ∈ oneOfEach.m_pwb_size ∧
    ¬ s.env.pwb.length ≤ 1 := by
  obtain ⟨s, hr, htest⟩ := exists_guarded msiLogic oneOfEach (fun _ _ => true)
    (served 1 1 0 ++ served 1 2 8 ++ [.intake none none, .flush, .iterate, .iterate] ++ served 1 3 16)
    (fun s => !decide (s.env.pwb.length ≤ 1)) (by decide)
  exact ⟨s, hr.of_restrict, rfl, by simpa using htest⟩

end CacheLines

end Octopus
