import Octopus.Snoop.Safety

/-!
# MSI snooping

The MSI tables obey the laws of a token protocol in which the last-level cache never grants the
token to a reader. So a writer is alone, the last-level cache names the owner at rest, and the
one Fault cell a run can reach is that of a write-back that comes while the line is fetched.
-/

namespace Octopus.Snoop

open Lib.TransitionSystem

variable {t : Topology} {s : System t MSIState LLCMSIState}

/-- The MSI tables obey the laws of a token protocol. -/
theorem msi_laws : TokenLaws msiLawful.tables msiPhases := by constructor <;> decide

/-- No MSI reader may be granted the token. -/
theorem msi_not_reading (c : MSIState) (plan : Plan) : msiPhases.core c ≠ .reading plan := by
  revert c plan
  decide

/-- The token invariant holds in every reachable state. -/
theorem msi_inv (hr : (system t msiProtocols).Reachable s) :
    Inv msiLawful.tables msiPhases t.llcId (abs msiProtocols s) := by
  have hreach := (simulation (t := t) msiLawful).reachable hr
  refine (inv_inductive msi_laws t.llcId_ge).reachable ?_
  refine Lib.TransitionSystem.Reachable.restrict_of_forall hreach fun s l => ?_
  cases l <;> simp [Skeleton.StaleCopy, msi_not_reading]

/-- A writer of the MSI system is alone, and at rest the last-level cache names the owner. -/
theorem msi_singleWriter (hr : (system t msiProtocols).Reachable s) :
    s.SingleWriter msiProtocols ∧
      (s.Quiescent msiProtocols → s.OwnerAgrees msiProtocols (· == .M) (· == .M)) :=
  ⟨singleWriter_of_inv msiLawful (msi_inv hr) (by decide) (by decide),
    fun hquiet => ownerAgrees_of_inv msiLawful msi_laws (msi_inv hr) hquiet (by decide) (by decide)⟩

/-- Two caches and a last-level cache. -/
abbrev twoCores : Topology := ⟨2, 10, 20, 8, by decide, by decide, by decide⟩

/-- The first of the two caches. -/
def cache0 : Fin 2 := 0

/-- The second of the two caches. -/
def cache1 : Fin 2 := 1

/-- A run to a state with a writer. -/
def msiStoreRun : List (Label 2) := [.store cache0 0 none, .grant 0, .fill 0, .deliver 0]

/-- A store makes a writer, and what was proved holds of the state then. -/
theorem msi_singleWriter_after_store : ∃ s : System twoCores MSIState LLCMSIState,
    (System.initial twoCores MSIState LLCMSIState).run msiProtocols msiStoreRun = some s ∧
      s.SingleWriter msiProtocols ∧
        (s.Quiescent msiProtocols → s.OwnerAgrees msiProtocols (· == .M) (· == .M)) := by
  have hsome : ((System.initial twoCores MSIState LLCMSIState).run msiProtocols msiStoreRun).isSome := by
    decide
  obtain ⟨s, hs⟩ := Option.isSome_iff_exists.1 hsome
  exact ⟨s, hs, msi_singleWriter (System.run_reachable (.init rfl) hs)⟩

/-- A write-back is granted while the last-level cache fetches the line. -/
def StaleWriteBack (s : System t MSIState LLCMSIState) : Label t.n → Prop
  | .grant k => ∃ msg, s.bus[k]? = some msg ∧ msg.complementaryValue = requestTypePutM ∧
      ((s.homeLine msiProtocols).state = .NIorS_d ∨ (s.homeLine msiProtocols).state = .NM_d)
  | _ => False

/-- The only Fault cell a run can reach is that of a write-back that comes during a fetch. -/
theorem msi_fault_is_staleWriteBack (hr : (system t msiProtocols).Reachable s) {l : Label t.n}
    (hfault : s.step msiProtocols l = some (.error .fault)) : StaleWriteBack s l := by
  have hskeleton := fault_abs msiLawful hr hfault
  have hstale : ¬ (abs msiProtocols s).StaleCopy msiPhases (absLabel l) := by
    cases l <;> simp [Skeleton.StaleCopy, absLabel, msi_not_reading]
  rcases step_inv msi_laws t.llcId_ge (msi_inv hr) hstale hskeleton with ⟨s', hs', -⟩ | ⟨hwrite, -⟩
  · simp at hs'
  · cases l with
    | grant k =>
      obtain ⟨r, hk, htype, hfetch⟩ := hwrite
      obtain ⟨msg, hmsg, rfl⟩ : ∃ msg, s.bus[k]? = some msg ∧ reqOf msg = r := by
        simpa [abs] using hk
      refine ⟨msg, hmsg, htype, ?_⟩
      have hhome : ∀ h, (msiPhases.home h).isFetching = true → h = .NIorS_d ∨ h = .NM_d := by decide
      exact hhome _ hfetch
    | _ => exact hwrite.elim

/-- A run in which no write-back is granted during a fetch never faults. -/
theorem msi_no_fault {s : System t MSIState LLCMSIState}
    (hr : ((system t msiProtocols).restrict fun s l => ¬ StaleWriteBack s l).Reachable s) {l : Label t.n}
    (hl : ¬ StaleWriteBack s l) : s.step msiProtocols l ≠ some (.error .fault) := fun hfault =>
  hl (msi_fault_is_staleWriteBack hr.of_restrict hfault)

instance (s : System t MSIState LLCMSIState) (l : Label t.n) : Decidable (StaleWriteBack s l) :=
  match l with
  | .grant k =>
    inferInstanceAs (Decidable (∃ msg ∈ s.bus[k]?, msg.complementaryValue = requestTypePutM ∧
      ((s.homeLine msiProtocols).state = .NIorS_d ∨ (s.homeLine msiProtocols).state = .NM_d)))
  | .load .. | .store .. | .replacement _ | .evict | .retry .. | .deliver _ | .fill _ => .isFalse id

/-- A run in which cache 1 writes its line back and loses it to cache 0 before the write-back is
granted. -/
def msiLostLineRun : List (Label 2) :=
  [.store cache1 0 none, .grant 0, .fill 0, .deliver 0, .replacement cache1, .store cache0 0 none, .grant 1,
    .deliver 0]

/-- The old write-back of cache 1 is granted while cache 0 owns the line, and does not fault. -/
theorem msi_no_fault_lost_line : ∃ s : System twoCores MSIState LLCMSIState,
    s.bus.map (fun msg => (msg.complementaryValue, msg.owner)) = [(requestTypePutM, 1)] ∧
      (s.homeLine msiProtocols).state = .M ∧ s.coreState msiProtocols cache0 = .M ∧
        s.step msiProtocols (.grant 0) ≠ some (.error .fault) := by
  have hsome : (msiLostLineRun.foldlM (guarded (fun s l => ¬ StaleWriteBack s l) (System.next msiProtocols))
      (System.initial twoCores MSIState LLCMSIState)).any fun s =>
        decide (s.bus.map (fun msg => (msg.complementaryValue, msg.owner)) = [(requestTypePutM, 1)] ∧
          (s.homeLine msiProtocols).state = .M ∧ s.coreState msiProtocols cache0 = .M ∧
            ¬ StaleWriteBack s (.grant 0)) := by
    decide
  obtain ⟨s, hs, htest⟩ := (Option.any_eq_true _ _).1 hsome
  obtain ⟨hbus, hhome, hcore, hguard⟩ := of_decide_eq_true htest
  have hreach := Reachable.foldlM_guarded (M := system twoCores msiProtocols)
    (fun _ _ _ => System.step_of_next) rfl hs
  exact ⟨s, hbus, hhome, hcore, msi_no_fault hreach hguard⟩

/--
A run to a stale write-back. Cache 0 takes over the line of cache 1 and has it recalled; cache 1,
which wants it again, has its old write-back granted while the line is fetched for cache 0.
-/
def msiFaultRun : List (Label 2) :=
  [.store cache1 0 none, .grant 0, .fill 0, .evict, .deliver 0, .replacement cache1, .load cache0 0, .grant 2,
    .grant 0, .deliver 1, .load cache0 0, .grant 1, .deliver 0]

/-- A write-back of a cache that has lost the line faults while the line is fetched. -/
theorem msi_fault_reachable : ∃ s : System twoCores MSIState LLCMSIState,
    (system twoCores msiProtocols).Reachable s ∧ s.step msiProtocols (.grant 0) = some (.error .fault) := by
  have hsome : (((System.initial twoCores MSIState LLCMSIState).run msiProtocols msiFaultRun).bind
      fun s => s.step msiProtocols (.grant 0)).any (fun r => match r with
        | .error .fault => true
        | _ => false) := by
    decide
  obtain ⟨r, hr, hfault⟩ := (Option.any_eq_true _ _).1 hsome
  obtain ⟨s, hs, hstep⟩ := Option.bind_eq_some_iff.1 hr
  refine ⟨s, System.run_reachable (.init rfl) hs, ?_⟩
  rw [hstep]
  split at hfault
  · rfl
  · simp at hfault

end Octopus.Snoop
