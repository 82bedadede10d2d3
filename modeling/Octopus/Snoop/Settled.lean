import Octopus.Snoop.Progress

/-!
# Snooping systems settle

Between two events from outside, the network of an MSI system delivers everything: in whatever order it takes
its steps, it runs out of them, and where it can take none the system is at rest with every accepted request
answered. No reachable state of MSI is a deadlock. MESI settles as well, or comes to deliver a stale copy.
-/

namespace Octopus.Snoop

open Lib

section Skeleton

variable {σ τ : Type} {n llc : Nat} {T : Tables σ τ} {ph : Phases σ τ} {k : Skeleton n σ τ}

/-- A last-level cache that waits for main memory has a read there. -/
theorem memory_ne_nil_of_isFetching {t : Token} (hI : TokenInv ph llc t k) (h : (ph.home k.home.state).isFetching) :
    k.memory ≠ [] := by
  have hhome := hI.home
  cases hp : ph.home k.home.state with
  | fetchShared =>
    rw [hp] at hhome
    cases hhome.2.2 with
    | intro r hr => simp [hr.2.1]
  | fetchOwned x =>
    rw [hp] at hhome
    cases hhome.2 with
    | intro r hr => simp [hr.2.2.1]
  | _ => simp [hp, HomePhase.isFetching] at h

/-- A step that is enabled and no stale write-back succeeds, unless it delivers a stale copy. -/
theorem step_of_enabled (hL : TokenLaws T ph) (hn : n ≤ llc) (hI : Inv T ph llc k) {l : SkeletonLabel n}
    (hwrite : ¬ k.StaleWriteBack ph l) (henabled : k.step T llc l ≠ none) :
    k.StaleCopy ph l ∨ ∃ k', k.step T llc l = some (.ok k') := by
  by_cases hcopy : k.StaleCopy ph l
  · exact .inl hcopy
  · cases hstep : k.step T llc l with
    | none => exact absurd hstep henabled
    | some r =>
      cases step_inv hL hn hI hcopy hstep with
      | inl hok =>
        cases hok with
        | intro k' hk' => exact .inr ⟨k', by rw [hk'.1]⟩
      | inr hstale => exact absurd hstale.1 hwrite

/-- Until nothing is on its way, the answer of main memory, the data message or the request that has waited longest
can be taken, in this order of preference. -/
theorem skeleton_progress (hL : TokenLaws T ph) (hn : n ≤ llc) (hI : Inv T ph llc k) (hA : k.Addressed llc)
    (hk : ¬ k.Settled) :
    ∃ l, (l = .fill 0 ∨ l = .deliver 0 ∨ l = .grant 0) ∧
      (k.StaleCopy ph l ∨ ∃ k', k.step T llc l = some (.ok k')) := by
  cases hmemory : k.memory with
  | cons o memory => exact ⟨.fill 0, .inl rfl, step_of_enabled hL hn hI id (by simp [Skeleton.step, hmemory])⟩
  | nil =>
    cases hflight : k.flight with
    | cons f flight =>
      refine ⟨.deliver 0, .inr (.inl rfl), step_of_enabled hL hn hI id ?_⟩
      simp only [Skeleton.step, hflight, List.getElem?_cons_zero]
      cases (hA.flight f (by simp [hflight])).1 with
      | inl hlt =>
        have hne : f.dest ≠ llc := by omega
        simp [hlt, hne]
      | inr hllc => simp [hllc]
    | nil =>
      cases hbus : k.bus with
      | cons r bus =>
        refine ⟨.grant 0, .inr (.inr rfl), step_of_enabled hL hn hI ?_ (by simp [Skeleton.step, hbus])⟩
        intro hstale
        cases hstale with
        | intro r hr =>
          cases hI.1 with
          | intro t hT => exact memory_ne_nil_of_isFetching hT hr.2.2 hmemory
      | nil => exact absurd ⟨hbus, hflight, hmemory⟩ hk

end Skeleton

section System

variable {σ τ : Type} {t : Topology} {P : Protocols σ τ} {holds : σ → Bool} {llcHolds : τ → Bool}
  {waits : σ → Bool} {fetches : τ → Bool} {ph : Phases σ τ} {s : System t σ τ}

/-- A state with the token invariant in which nothing is on its way is at rest. -/
theorem quiescent_of_settled (hP : Lawful P holds llcHolds) (hL : TokenLaws hP.tables ph) (hR : RestLaws hP.tables ph)
    (hI : Inv hP.tables ph t.llcId (abs P s)) (hs : (abs P s).Settled) : s.Quiescent P := by
  have hquiet := quiet_of_settled hL hR hI hs
  cases hI.1 with
  | intro tok hT =>
    exact ⟨fun i => List.map_eq_nil_iff.1 (hT.waiting i), List.map_eq_nil_iff.1 hquiet.1,
      List.map_eq_nil_iff.1 hs.bus, List.map_eq_nil_iff.1 hs.flight, List.map_eq_nil_iff.1 hs.memory,
      hquiet.2.1, hquiet.2.2⟩

/-- A reachable state with the token invariant is at rest, or a step of the network is possible in it, or it is about to
deliver a stale copy. -/
theorem progress (hP : Lawful P holds llcHolds) (hL : TokenLaws hP.tables ph) (hR : RestLaws hP.tables ph)
    (hW : ServeLaws P waits fetches) (hX : ArrivalLaws P ph) (hr : (system t P).Reachable s)
    (hI : Inv hP.tables ph t.llcId (abs P s)) (hrest : ¬ s.Quiescent P) :
    ∃ l : Label t.n, l.isNetwork ∧
      ((abs P s).StaleCopy ph (absLabel l) ∨ ∃ s', (system t P).step s l s') := by
  have hs := (ok_inductive hP).reachable hr
  have hserved := (served_inductive hP hW).reachable hr
  have hA := addressed_inductive.reachable ((simulation (t := t) hP).reachable hr)
  have hreach : ∀ i, ph.core (absCore P.l1.initial (s.l1 i)).state ≠ .unreachable := by
    intro i
    cases hI.1 with
    | intro tok hT => exact hT.cores.ne_unreachable i
  have hnext := skeleton_progress hL t.llcId_ge hI hA fun hsettled => hrest (quiescent_of_settled hP hL hR hI hsettled)
  cases hnext with
  | intro l hl =>
    have hlabel : ∃ l' : Label t.n, l'.isNetwork ∧ absLabel l' = l := by
      cases hl.1 with
      | inl hfill => exact ⟨.fill 0, trivial, hfill.symm⟩
      | inr hl =>
        cases hl with
        | inl hdeliver => exact ⟨.deliver 0, trivial, hdeliver.symm⟩
        | inr hgrant => exact ⟨.grant 0, trivial, hgrant.symm⟩
    cases hlabel with
    | intro l' hl' =>
      refine ⟨l', hl'.1, ?_⟩
      rw [hl'.2]
      cases hl.2 with
      | inl hstale => exact .inl hstale
      | inr hstep =>
        cases hstep with
        | intro k hk =>
          rw [← hl'.2] at hk
          cases network_step_runs hP hW hX hs hserved hreach hl'.1 hk with
          | intro s' hs' => exact .inr ⟨s', hs'⟩

/-- At rest no private cache has a pending request. -/
theorem pending_eq_nil_of_quiescent (hW : ServeLaws P waits fetches) (hserved : s.Served P waits fetches)
    (hrest : s.Quiescent P) (i : Fin t.n) : (s.l1 i).pending = [] := by
  by_contra hpending
  have hwaits := (hserved.core i).1 hpending
  have hstable := hW.waits_stable _ (hrest.stable i)
  rw [show (absCore P.l1.initial (s.l1 i)).state = s.coreState P i from rfl, hstable] at hwaits
  simp at hwaits

/-- Steps of the network accept no request. -/
theorem accepted_network {new past : List (System t σ τ × Label t.n)} (h : ∀ p ∈ new, p.2.isNetwork) (i : Fin t.n) :
    accepted i (new ++ past) = accepted i past := by
  have hnone : accepted i new = [] := by
    rw [accepted, List.filterMap_eq_nil_iff]
    intro p hp
    have hnetwork := h p hp
    cases p with
    | mk s l =>
      cases l with
      | load j offset => exact hnetwork.elim
      | store j offset bytes => exact hnetwork.elim
      | _ => rfl
  rw [accepted, accepted, List.filterMap_append]
  rw [accepted] at hnone
  rw [hnone, List.nil_append]

/-- Where the network has come to rest, exactly the accepted requests have been answered. -/
theorem answers_at_rest (hP : Lawful P holds llcHolds) (hA : AccountLaws P.l1.fsm) (hW : ServeLaws P waits fetches)
    {past : List (System t σ τ × Label t.n)} (hp : (system t P).Path past s) {labels : List (Label t.n)}
    {s' : System t σ τ} (hrun : (system t P).InternalRun Label.isNetwork labels s s') (hrest : s'.Quiescent P)
    (i : Fin t.n) : (s'.answers i).Perm (accepted i past) := by
  cases hrun.path hp with
  | intro new hnew =>
    have haccounts := path_accounts hP hA hnew.1 i
    have hserved := (served_inductive hP hW).reachable hnew.1.reachable
    rw [outstanding, pending_eq_nil_of_quiescent hW hserved hrest i, List.map_nil, List.append_nil,
      accepted_network hnew.2 i] at haccounts
    exact haccounts

end System

section Runs

/-- A list of steps that meet a guard lengthens a run of the guarded system. -/
theorem System.run_path {σ τ : Type} {t : Topology} {P : Protocols σ τ} {s s' : System t σ τ}
    (guard : System t σ τ → Label t.n → Prop) {labels : List (Label t.n)} (hguard : ∀ s, ∀ l ∈ labels, guard s l)
    {past : List (System t σ τ × Label t.n)} (hp : ((system t P).restrict guard).Path past s)
    (h : s.run P labels = some s') : ∃ past', ((system t P).restrict guard).Path past' s' := by
  induction labels generalizing s past with
  | nil =>
    rw [System.run, Option.some.injEq] at h
    exact ⟨past, h ▸ hp⟩
  | cons l labels ih =>
    rw [System.run] at h
    split at h
    · next s₁ hstep =>
      exact ih (fun s l hl => hguard s l (List.mem_cons_of_mem _ hl))
        (hp.step ⟨hguard s l List.mem_cons_self, hstep⟩) h
    · simp at h

variable {σ τ : Type} {t : Topology} {P : Protocols σ τ} {holds : σ → Bool} {llcHolds : τ → Bool}
  {waits : σ → Bool} {fetches : τ → Bool} {ph : Phases σ τ} {s : System t σ τ}
  {bad : System t σ τ → Label t.n → Prop}

/-- A state is settled when it is at rest and the accepted requests have been answered, or a bad step is possible in
it. -/
def System.SettledAfter (P : Protocols σ τ) (bad : System t σ τ → Label t.n → Prop)
    (past : List (System t σ τ × Label t.n)) (s : System t σ τ) : Prop :=
  (s.Quiescent P ∧ ∀ i, (s.answers i).Perm (accepted i past)) ∨ ∃ l, bad s l

/-- A token protocol whose bad steps are left out settles: its network runs are short, and end only where it has
settled, and there is one that does. -/
theorem settles_of_inv (bad : System t σ τ → Label t.n → Prop) (hP : Lawful P holds llcHolds) (hL : TokenLaws hP.tables ph) (hR : RestLaws hP.tables ph)
    (hW : ServeLaws P waits fetches) (hX : ArrivalLaws P ph) (hA : AccountLaws P.l1.fsm) (hT : WorkLaws hP.tables)
    (hbad : ∀ (s : System t σ τ) l, (abs P s).StaleCopy ph (absLabel l) → bad s l)
    (hinv : ∀ s, ((system t P).restrict fun s l => ¬ bad s l).Reachable s → Inv hP.tables ph t.llcId (abs P s))
    {past : List (System t σ τ × Label t.n)}
    (hp : ((system t P).restrict fun s l => ¬ bad s l).Path past s) :
    (∀ labels s', ((system t P).restrict fun s l => ¬ bad s l).InternalRun Label.isNetwork labels s s' →
      labels.length + s'.work P ≤ s.work P ∧
        ((∀ l s'', l.isNetwork → ¬ ((system t P).restrict fun s l => ¬ bad s l).step s' l s'') →
          s'.SettledAfter P bad past)) ∧
      ∃ labels s', ((system t P).restrict fun s l => ¬ bad s l).InternalRun Label.isNetwork labels s s' ∧
        s'.SettledAfter P bad past := by
  have hlower : ∀ s l s', ((system t P).restrict fun s l => ¬ bad s l).Reachable s → l.isNetwork →
      ((system t P).restrict fun s l => ¬ bad s l).step s l s' → s'.work P < s.work P :=
    fun s l s' hr hl hstep => system_step_work_lt hP hT hr.of_restrict hl hstep.2
  have hgo : ∀ s, ((system t P).restrict fun s l => ¬ bad s l).Reachable s →
      ¬ (s.Quiescent P ∨ ∃ l, bad s l) →
      ∃ l s', l.isNetwork ∧ ((system t P).restrict fun s l => ¬ bad s l).step s l s' := by
    intro s hr hrest
    cases progress hP hL hR hW hX hr.of_restrict (hinv s hr) fun hquiet => hrest (.inl hquiet) with
    | intro l hl =>
      cases hl.2 with
      | inl hstale => exact absurd (.inr ⟨l, hbad s l hstale⟩) hrest
      | inr hstep =>
        cases hstep with
        | intro s' hs' => exact ⟨l, s', hl.1, fun hl => hrest (.inr ⟨l, hl⟩), hs'⟩
  have hsettled : ∀ labels s', ((system t P).restrict fun s l => ¬ bad s l).InternalRun Label.isNetwork labels s s' →
      s'.Quiescent P ∨ (∃ l, bad s' l) → s'.SettledAfter P bad past := by
    intro labels s' hrun hrest
    cases hrest with
    | inl hquiet => exact .inl ⟨hquiet, fun i => answers_at_rest hP hA hW hp.of_restrict hrun.of_restrict hquiet i⟩
    | inr hl => exact .inr hl
  constructor
  · intro labels s' hrun
    refine ⟨hrun.length_add_le hp.reachable hlower, fun hend => ?_⟩
    by_cases hrest : s'.Quiescent P ∨ ∃ l, bad s' l
    · exact hsettled labels s' hrun hrest
    · cases hgo s' (hrun.reachable hp.reachable) hrest with
      | intro l hl =>
        cases hl with
        | intro s'' hs'' => exact absurd hs''.2 (hend l s'' hs''.1)
  · cases TransitionSystem.exists_internalRun (fun s => s.Quiescent P ∨ ∃ l, bad s l) hp.reachable hlower
      hgo with
    | intro labels hrun =>
      cases hrun with
      | intro s' hs' => exact ⟨labels, s', hs'.1, hsettled labels s' hs'.1 hs'.2⟩

end Runs

section Protocols

/-- The MSI states in which a private cache owes its processor an answer. -/
def msiWaits (s : MSIState) : Bool := s ∉ [MSIState.I, .S, .M, .MI_a, .MII_a, .II_a]

/-- The MESI states in which a private cache owes its processor an answer. -/
def mesiWaits (s : MESIState) : Bool := s ∉ [MESIState.I, .S, .E, .M, .MI_a, .II_a]

/-- The MOESI states in which a private cache owes its processor an answer. -/
def moesiWaits (s : MOESIState) : Bool := s ∉ [MOESIState.I, .S, .E, .O, .M, .MI_a, .EI_a, .OI_a, .II_a]

/-- The MSI states in which the last-level cache waits for main memory. -/
def llcMSIFetches (s : LLCMSIState) : Bool := s ∈ [LLCMSIState.NIorS_d, .NM_d]

/-- The MESI states in which the last-level cache waits for main memory. -/
def llcMESIFetches (s : LLCMESIState) : Bool := s ∈ [LLCMESIState.NE_d, .NM_d]

/-- The MOESI states in which the last-level cache waits for main memory. -/
def llcMOESIFetches (s : LLCMOESIState) : Bool := s ∈ [LLCMOESIState.NE_d, .NM_d]

/-- The MSI tables serve who waits. -/
theorem msi_serveLaws : ServeLaws msiProtocols msiWaits llcMSIFetches := by constructor <;> decide

/-- The MESI tables serve who waits. -/
theorem mesi_serveLaws : ServeLaws mesiProtocols mesiWaits llcMESIFetches := by constructor <;> decide

/-- The MOESI tables serve who waits. -/
theorem moesi_serveLaws : ServeLaws moesiProtocols moesiWaits llcMOESIFetches := by constructor <;> decide

/-- In the three snooping protocols, in every reachable state: a private cache has pending requests exactly while its
line waits for data, and the last-level cache has pending reads while it waits for main memory. -/
theorem snooping_served (t : Topology) :
    (∀ s, (system t msiProtocols).Reachable s → s.Served msiProtocols msiWaits llcMSIFetches) ∧
      (∀ s, (system t mesiProtocols).Reachable s → s.Served mesiProtocols mesiWaits llcMESIFetches) ∧
      ∀ s, (system t moesiProtocols).Reachable s → s.Served moesiProtocols moesiWaits llcMOESIFetches :=
  ⟨fun _ hr => (served_inductive msiLawful msi_serveLaws).reachable hr,
    fun _ hr => (served_inductive mesiLawful mesi_serveLaws).reachable hr,
    fun _ hr => (served_inductive moesiLawful moesi_serveLaws).reachable hr⟩

/-- In MSI data finds the line it is for. -/
theorem msi_arrivalLaws : ArrivalLaws msiProtocols msiPhases := by constructor <;> decide

/-- In MESI data finds the line it is for. -/
theorem mesi_arrivalLaws : ArrivalLaws mesiProtocols mesiPhases := by constructor <;> decide

/-- The MSI tables send nothing to themselves. -/
theorem msi_accountLaws : AccountLaws msiProtocols.l1.fsm := by constructor <;> decide

/-- The MESI tables send nothing to themselves. -/
theorem mesi_accountLaws : AccountLaws mesiProtocols.l1.fsm := by constructor <;> decide

section MSI

variable {t : Topology} {s : System t MSIState LLCMSIState}

/-- MSI settles after every run: whatever order the network takes its steps in, there are no more of them than work
was left; where no more is possible the system is at rest, and every request that was accepted has been answered
exactly once; and the network can get there. -/
theorem msi_settles {past : List (System t MSIState LLCMSIState × Label t.n)}
    (hp : (system t msiProtocols).Path past s) :
    (∀ labels s', (system t msiProtocols).InternalRun Label.isNetwork labels s s' →
      labels.length + s'.work msiProtocols ≤ s.work msiProtocols ∧
        ((∀ l s'', l.isNetwork → ¬ (system t msiProtocols).step s' l s'') →
          s'.Quiescent msiProtocols ∧ ∀ i, (s'.answers i).Perm (accepted i past))) ∧
      ∃ labels s', (system t msiProtocols).InternalRun Label.isNetwork labels s s' ∧
        s'.Quiescent msiProtocols ∧ ∀ i, (s'.answers i).Perm (accepted i past) := by
  have hnone : ∀ (s : System t MSIState LLCMSIState) l, ¬ (abs msiProtocols s).StaleCopy msiPhases (absLabel l) := by
    intro s l
    cases l <;> simp [Skeleton.StaleCopy, absLabel, msi_not_reading]
  have hguard : ∀ (s : System t MSIState LLCMSIState) (l : Label t.n), ¬ False := fun _ _ => id
  have hsettles := settles_of_inv (fun _ _ => False) msiLawful msi_laws msi_restLaws msi_serveLaws
    msi_arrivalLaws msi_accountLaws msi_workLaws (fun s l hstale => hnone s l hstale)
    (fun s hr => msi_inv hr.of_restrict) (hp.restrict_of_forall hguard)
  have hsettled : ∀ s' : System t MSIState LLCMSIState, s'.SettledAfter msiProtocols (fun _ _ => False) past →
      s'.Quiescent msiProtocols ∧ ∀ i, (s'.answers i).Perm (accepted i past) := by
    intro s' hs'
    cases hs' with
    | inl hquiet => exact hquiet
    | inr hbad =>
      cases hbad with
      | intro l hl => exact hl.elim
  constructor
  · intro labels s' hrun
    have hlimit := hsettles.1 labels s' (hrun.restrict_of_forall hguard)
    exact ⟨hlimit.1, fun hend => hsettled s' (hlimit.2 fun l s'' hl hstep => hend l s'' hl hstep.2)⟩
  · cases hsettles.2 with
    | intro labels hrun =>
      cases hrun with
      | intro s' hs' => exact ⟨labels, s', hs'.1.of_restrict, hsettled s' hs'.2⟩

/-- Two requests on the bus: what was proved holds of that state. -/
theorem msi_settles_two : ∃ past, ∃ s : System twoCores MSIState LLCMSIState,
    s.bus.length = 2 ∧ (system twoCores msiProtocols).Path past s ∧
      ∃ labels s', (system twoCores msiProtocols).InternalRun Label.isNetwork labels s s' ∧
        s'.Quiescent msiProtocols ∧ ∀ i, (s'.answers i).Perm (accepted i past) := by
  have hrun : ((System.initial twoCores MSIState LLCMSIState).run msiProtocols
      [.store cache0 0 none, .load cache1 0]).any (fun s => s.bus.length == 2) := by
    decide
  cases (Option.any_eq_true _ _).1 hrun with
  | intro s hs =>
    cases System.run_path (fun _ _ => True) (fun _ _ _ => trivial) (.init rfl) hs.1 with
    | intro past hp => exact ⟨past, s, by simpa using hs.2, hp.of_restrict, (msi_settles hp.of_restrict).2⟩

end MSI

section MESI

variable {t : Topology} {s : System t MESIState LLCMESIState}

/-- What the invariant calls a stale copy is one of the system. -/
theorem deliversStaleCopy_of_abs {l : Label t.n} (h : (abs mesiProtocols s).StaleCopy mesiPhases (absLabel l)) :
    DeliversStaleCopy s l := by
  cases l with
  | deliver k =>
    cases h with
    | intro f hf =>
      cases hf.2.2 with
      | intro o ho =>
        have hflight : ∃ f', s.flight[k]? = some f' ∧ absFlight f' = f := by simpa [abs] using hf.1
        cases hflight with
        | intro f' hf' =>
          have hmark := hf.2.1
          rw [← hf'.2] at hmark ho
          have hstate : ∀ c, mesiPhases.core c = .reading .passShared → c = .IES_dI := by decide
          exact ⟨f', hf'.1, by simpa [absFlight] using hmark, o, ho.1, hstate _ ho.2⟩
  | _ => exact h.elim

/-- MESI settles after every run without the delivery of a stale copy, or comes to one. -/
theorem mesi_settles {past : List (System t MESIState LLCMESIState × Label t.n)}
    (hp : ((system t mesiProtocols).restrict fun s l => ¬ DeliversStaleCopy s l).Path past s) :
    (∀ labels s', ((system t mesiProtocols).restrict fun s l => ¬ DeliversStaleCopy s l).InternalRun Label.isNetwork
        labels s s' →
      labels.length + s'.work mesiProtocols ≤ s.work mesiProtocols ∧
        ((∀ l s'', l.isNetwork →
            ¬ ((system t mesiProtocols).restrict fun s l => ¬ DeliversStaleCopy s l).step s' l s'') →
          s'.SettledAfter mesiProtocols DeliversStaleCopy past)) ∧
      ∃ labels s', ((system t mesiProtocols).restrict fun s l => ¬ DeliversStaleCopy s l).InternalRun Label.isNetwork
          labels s s' ∧
        s'.SettledAfter mesiProtocols DeliversStaleCopy past :=
  settles_of_inv DeliversStaleCopy mesiLawful mesi_laws mesi_restLaws mesi_serveLaws mesi_arrivalLaws mesi_accountLaws
    mesi_workLaws (fun _ _ hstale => deliversStaleCopy_of_abs hstale) (fun _ hr => mesi_inv hr) hp

/-- Two requests on the bus: what was proved holds of that state. -/
theorem mesi_settles_two : ∃ past, ∃ s : System twoCores MESIState LLCMESIState,
    s.bus.length = 2 ∧ ((system twoCores mesiProtocols).restrict fun s l => ¬ DeliversStaleCopy s l).Path past s ∧
      ∃ labels s', ((system twoCores mesiProtocols).restrict fun s l => ¬ DeliversStaleCopy s l).InternalRun
          Label.isNetwork labels s s' ∧
        s'.SettledAfter mesiProtocols DeliversStaleCopy past := by
  have hrun : ((System.initial twoCores MESIState LLCMESIState).run mesiProtocols
      [.store cache0 0 none, .load cache1 0]).any (fun s => s.bus.length == 2) := by
    decide
  cases (Option.any_eq_true _ _).1 hrun with
  | intro s hs =>
    have hguard : ∀ (s : System twoCores MESIState LLCMESIState), ∀ l ∈ [Label.store cache0 0 none, .load cache1 0],
        ¬ DeliversStaleCopy s l := by
      intro s l hl
      simp only [List.mem_cons, List.not_mem_nil, or_false] at hl
      cases hl with
      | inl hl => exact hl ▸ id
      | inr hl => exact hl ▸ id
    cases System.run_path _ hguard (.init rfl) hs.1 with
    | intro past hp => exact ⟨past, s, by simpa using hs.2, hp, (mesi_settles hp).2⟩

end MESI

end Protocols

end Octopus.Snoop
