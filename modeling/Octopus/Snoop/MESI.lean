import Octopus.Snoop.MSI

/-!
# MESI snooping

The MESI tables obey the laws of a token protocol too, but for one cell: a reader in `IES_dI`,
whose copy is stale when it arrives, ends in `S` instead of `I`. Without that cell a writer is
alone and the last-level cache names the owner at rest.
-/

namespace Octopus.Snoop

open Lib.TransitionSystem

variable {t : Topology} {s : System t MESIState LLCMESIState}

/-- The MESI tables obey the laws of a token protocol. -/
theorem mesi_laws : TokenLaws mesiLawful.tables mesiPhases := by constructor <;> decide

/-- Data that grants no exclusiveness is delivered to a private cache in `IES_dI`. -/
def DeliversStaleCopy (s : System t MESIState LLCMESIState) : Label t.n → Prop
  | .deliver k => ∃ f, s.flight[k]? = some f ∧ f.msg.complementaryValue ≠ 2 ∧
      ∃ o : Fin t.n, f.dest = o ∧ s.coreState mesiProtocols o = .IES_dI
  | _ => False

/-- The token invariant holds along every run that does not take the cell. -/
theorem mesi_inv (hr : ((system t mesiProtocols).restrict fun s l => ¬ DeliversStaleCopy s l).Reachable s) :
    Inv mesiLawful.tables mesiPhases t.llcId (abs mesiProtocols s) := by
  have hguard : ∀ (s : System t MESIState LLCMESIState) l, ¬ DeliversStaleCopy s l →
      ¬ (abs mesiProtocols s).StaleCopy mesiPhases (absLabel l) := by
    intro s l hl hstale
    cases l with
    | deliver k =>
      obtain ⟨f, hk, hx, o, hdest, hp⟩ := hstale
      obtain ⟨f', hf', rfl⟩ : ∃ f', s.flight[k]? = some f' ∧ absFlight f' = f := by
        simpa [abs] using hk
      have hstate : ∀ c, mesiPhases.core c = .reading .passShared → c = .IES_dI := by decide
      exact hl ⟨f', hf', by simpa [absFlight] using hx, o, hdest, hstate _ hp⟩
    | _ => exact hstale.elim
  exact (inv_inductive mesi_laws t.llcId_ge).reachable
    (((simulation (t := t) mesiLawful).restrict _ _ hguard).reachable hr)

/-- Along runs without the cell, a writer is alone, and at rest the last-level cache names the owner. -/
theorem mesi_singleWriter
    (hr : ((system t mesiProtocols).restrict fun s l => ¬ DeliversStaleCopy s l).Reachable s) :
    s.SingleWriter mesiProtocols ∧ (s.Quiescent mesiProtocols →
      s.OwnerAgrees mesiProtocols (fun c => c == .E || c == .M) (· == .EorM)) :=
  ⟨singleWriter_of_inv mesiLawful (mesi_inv hr) (by decide) (by decide),
    fun hquiet => ownerAgrees_of_inv mesiLawful mesi_laws (mesi_inv hr) hquiet (by decide) (by decide)⟩

instance (s : System t MESIState LLCMESIState) (l : Label t.n) : Decidable (DeliversStaleCopy s l) :=
  match l with
  | .deliver k =>
    inferInstanceAs (Decidable (∃ f ∈ s.flight[k]?, f.msg.complementaryValue ≠ 2 ∧
      ∃ o : Fin t.n, f.dest = o ∧ s.coreState mesiProtocols o = .IES_dI))
  | .load .. | .store .. | .replacement _ | .evict | .retry .. | .grant _ | .fill _ => .isFalse id

/-- A run in which both caches read the line and cache 1 then writes it. -/
def mesiSharedStoreRun : List (Label 2) :=
  [.load cache0 0, .load cache1 0, .grant 0, .grant 0, .fill 0, .deliver 0, .deliver 0, .deliver 0,
    .store cache1 0 none, .grant 0, .deliver 0]

/-- A run that does not take the cell makes a writer of a reader; it is alone, and the last-level
cache names it. -/
theorem mesi_singleWriter_after_store : ∃ s : System twoCores MESIState LLCMESIState,
    s.coreState mesiProtocols cache0 = .I ∧ s.coreState mesiProtocols cache1 = .M ∧
      (s.homeLine mesiProtocols).state = .EorM ∧ s.SingleWriter mesiProtocols ∧
        (s.Quiescent mesiProtocols →
          s.OwnerAgrees mesiProtocols (fun c => c == .E || c == .M) (· == .EorM)) := by
  have hsome : (mesiSharedStoreRun.foldlM
      (guarded (fun s l => ¬ DeliversStaleCopy s l) (System.next mesiProtocols))
      (System.initial twoCores MESIState LLCMESIState)).any fun s =>
        decide (s.coreState mesiProtocols cache0 = .I ∧ s.coreState mesiProtocols cache1 = .M ∧
          (s.homeLine mesiProtocols).state = .EorM) := by
    decide
  obtain ⟨s, hs, htest⟩ := (Option.any_eq_true _ _).1 hsome
  obtain ⟨hreader, hwriter, hhome⟩ := of_decide_eq_true htest
  have hreach := Reachable.foldlM_guarded (M := system twoCores mesiProtocols)
    (fun _ _ _ => System.step_of_next) rfl hs
  exact ⟨s, hreader, hwriter, hhome, mesi_singleWriter hreach⟩

/--
A run that takes the cell. Cache 1 reads behind cache 0, which is granted the line, drops its copy
and reads again: cache 1 parks that read. Then cache 0 writes, and the copy cache 1 still waits
for is stale when it arrives.
-/
def mesiStaleRun : List (Label 2) :=
  [.load cache0 0, .load cache1 0, .grant 0, .grant 0, .fill 0, .deliver 0, .replacement cache0, .load cache0 0,
    .grant 0, .deliver 0, .deliver 1, .store cache0 0 none, .grant 0, .deliver 1, .deliver 0]

/-- A reader and a writer at the same time. -/
theorem mesi_not_singleWriter : ∃ s : System twoCores MESIState LLCMESIState,
    (system twoCores mesiProtocols).Reachable s ∧ ¬ s.SingleWriter mesiProtocols := by
  have hsome : ((System.initial twoCores MESIState LLCMESIState).run mesiProtocols mesiStaleRun).any fun s =>
      s.coreState mesiProtocols 0 == .M && s.coreState mesiProtocols 1 == .S := by
    decide
  obtain ⟨s, hs, hstates⟩ := (Option.any_eq_true _ _).1 hsome
  simp only [Bool.and_eq_true, beq_iff_eq] at hstates
  refine ⟨s, System.run_reachable (.init rfl) hs, fun hwriter => ?_⟩
  obtain ⟨-, hload⟩ := hwriter 0 1 (by decide) (by rw [hstates.1]; decide)
  rw [hstates.2] at hload
  exact absurd hload (by decide)

end Octopus.Snoop
