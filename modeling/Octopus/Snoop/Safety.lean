import Octopus.Snoop.Grant
import Octopus.Snoop.Lawful

/-!
# Runs of a token protocol

Every step of the skeleton keeps the token invariant, with two exceptions that a table may make
impossible: a stale copy for a reader that has parked a request, and a stale write-back that
reaches a last-level cache that fetches the line. What the invariant says about readers, writers
and owners carries over to the full system along the simulation.
-/

namespace Octopus.Snoop

open Lib Lib.Itinerary
open Lib.Stop (visit home serve)

variable {σ τ : Type}

section Steps

variable {n llc : Nat} {T : Tables σ τ} {ph : Phases σ τ} {s : Skeleton n σ τ}

/-- A copy is delivered to a reader that has parked a request and whose copy is stale by then. -/
def Skeleton.StaleCopy (ph : Phases σ τ) (s : Skeleton n σ τ) : SkeletonLabel n → Prop
  | .deliver k => ∃ f, s.flight[k]? = some f ∧ f.exclusive = false ∧
      ∃ o : Fin n, f.dest = o ∧ ph.core (s.core o).state = .reading .passShared
  | _ => False

/-- A write-back is granted while the last-level cache waits for main memory. -/
def Skeleton.StaleWriteBack (ph : Phases σ τ) (s : Skeleton n σ τ) : SkeletonLabel n → Prop
  | .grant k => ∃ r, s.bus[k]? = some r ∧ r.type = requestTypePutM ∧ (ph.home s.home.state).isFetching
  | _ => False

variable (hL : TokenLaws T ph) (hn : n ≤ llc)

include hL hn

/-- One step keeps the invariant or is a stale write-back that faults. -/
theorem step_inv (hI : Inv T ph llc s) {l : SkeletonLabel n} (hl : ¬ s.StaleCopy ph l)
    {r : Except Exit (Skeleton n σ τ)} (h : s.step T llc l = some r) :
    (∃ s', r = .ok s' ∧ Inv T ph llc s') ∨ s.StaleWriteBack ph l ∧ r = .error .fault := by
  have hok : ∀ {x : Except Exit (Skeleton n σ τ)}, (∃ s', x = .ok s' ∧ Inv T ph llc s') → some x = some r →
      (∃ s', r = .ok s' ∧ Inv T ph llc s') ∨ s.StaleWriteBack ph l ∧ r = .error .fault := by
    rintro x hx hxr
    obtain rfl := Option.some.inj hxr
    exact .inl hx
  cases l with
  | core i e =>
    rw [Skeleton.step] at h
    split at h
    · next hcond => exact hok (runCore_request hL hn hI hcond.1 hcond.2 _ _) h
    · simp at h
  | evict =>
    rw [Skeleton.step] at h
    split at h
    · next hlocation => exact hok (evict_inv hL hn hI hlocation) h
    · simp at h
  | grant k =>
    rw [Skeleton.step] at h
    cases hk : s.bus[k]? with
    | none => simp [hk] at h
    | some q =>
      simp only [hk, Option.some.injEq] at h
      obtain ⟨⟨t, hT⟩, hrest⟩ := hI
      rcases grant_inv hL hT hn hrest hk with hgrant | ⟨hstale, hfault⟩
      · exact hok hgrant (congrArg some h)
      · exact .inr ⟨⟨q, hk, hstale⟩, by rw [← h, hfault]⟩
  | retry i k =>
    obtain ⟨⟨t, hT⟩, -⟩ := hI
    simp [Skeleton.step, hT.waiting i] at h
  | deliver k =>
    rw [Skeleton.step] at h
    cases hk : s.flight[k]? with
    | none => simp [hk] at h
    | some f =>
      simp only [hk] at h
      split at h
      · next hdest => exact hok (deliverHome_inv hL hn hI hk hdest) h
      · split at h
        · next hlt =>
          refine hok (deliver_inv (o := ⟨f.dest, hlt⟩) hL hn hI hk rfl fun hx hp => hl ?_) h
          exact ⟨f, hk, hx, ⟨f.dest, hlt⟩, rfl, hp⟩
        · simp at h
  | fill k =>
    rw [Skeleton.step] at h
    cases hk : s.memory[k]? with
    | none => simp [hk] at h
    | some o =>
      simp only [hk] at h
      exact hok (fill_inv hL hn hI hk) h

/-- The invariant holds along every run without a stale copy. -/
theorem inv_inductive :
    ((skeletonSystem T n llc).restrict fun s l => ¬ s.StaleCopy ph l).Inductive (Inv T ph llc) where
  init s hs := by
    obtain rfl : s = .initial T n := hs
    obtain ⟨hcore, hpending⟩ := hL.core_initial
    refine ⟨⟨⟨.home, [], ph.base⟩, ?_⟩, rfl⟩
    exact {
      token := ⟨trivial, by simp [Skeleton.initial], by simp [Skeleton.initial], Phases.base_free, by simp, by simp⟩
      cores := ⟨fun i => by simp [Skeleton.initial, hcore, Phase.Ok],
        fun i hi => by simp [Skeleton.initial, hcore, Phase.isCurrent] at hi⟩
      home := by
        simp only [Skeleton.initial, hL.home_initial]
        exact ⟨rfl, rfl, rfl, rfl, rfl, rfl⟩
      located := by
        simp only [Skeleton.initial, hL.home_initial]
        exact ⟨rfl, rfl⟩
      queue := by simp [Skeleton.initial]
      bus := ⟨fun i => by simp [Skeleton.initial, hpending], by simp [Skeleton.initial]⟩
      waiting := fun _ => rfl }
  step s l s' _ hI hstep := by
    rcases step_inv hL hn hI hstep.1 hstep.2 with ⟨s₁, hs₁, hI₁⟩ | ⟨-, hfault⟩
    · obtain rfl := Except.ok.inj hs₁
      exact hI₁
    · simp at hfault

end Steps

section Consequences

variable {n llc : Nat} {T : Tables σ τ} {ph : Phases σ τ} {s : Skeleton n σ τ} {t : Token}

/-- A phase in which a private cache may read the line. -/
def Phase.isReadable : Phase → Bool
  | .shared | .holding | .recalled => true
  | .filling readable _ => readable
  | _ => false

/-- A phase in which a private cache may write the line. -/
def Phase.isWritable : Phase → Bool
  | .holding | .recalled => true
  | _ => false

/-- A cache that may write the line holds the token. -/
theorem Phase.Ok.held_of_writable {p : Phase} {place : Place} {W : List (Stop Nat)} {j : Nat}
    {k : Bool → Nat} {saved : List Req} (h : p.Ok llc place W j k saved) (hp : p.isWritable) :
    place = .held ∧ ∃ x V, W = visit x j :: V := by
  cases p with
  | holding => exact ⟨h.2.2.1, h.2.2.2.imp fun x hx => ⟨[], hx⟩⟩
  | recalled =>
    obtain ⟨-, -, hheld, -, x, post, hroute, -⟩ := h
    exact ⟨hheld, x, _, hroute⟩
  | _ => simp [Phase.isWritable] at hp

/-- While one cache may write the line, no other may read it. -/
theorem TokenInv.not_readable (hI : TokenInv ph llc t s) {i j : Fin n}
    (hi : (ph.core (s.core i).state).isWritable) (hij : j ≠ i) :
    (ph.core (s.core j).state).isReadable = false := by
  have hne : (i : Nat) ≠ j := fun heq => hij (Fin.ext heq.symm)
  obtain ⟨hheld, x, V, hroute⟩ := (hI.cores.phase i).held_of_writable hi
  have hphase := hI.cores.phase j
  have hwritable : (ph.core (s.core j).state).isWritable = false := by
    by_contra hj
    obtain ⟨-, y, V', hroute'⟩ := hphase.held_of_writable (by simpa using hj)
    rw [hroute] at hroute'
    exact hne (Stop.visit.inj (List.cons.inj hroute').1).2
  rw [hheld, hroute] at hphase
  cases hp : ph.core (s.core j).state with
  | shared =>
    rw [hp] at hphase
    exact absurd List.mem_cons_self (hphase.2.2.2 x i)
  | filling readable plan =>
    rw [hp] at hphase
    cases readable with
    | false => rfl
    | true => exact absurd (hphase.2.2 rfl) hne
  | holding | recalled => simp [hp, Phase.isWritable] at hwritable
  | _ => rfl

/-- With nothing on its way, the owner the last-level cache records holds the line. -/
theorem TokenInv.holding_of_owned (hI : TokenInv ph llc t s) (hflight : s.flight = [])
    (hqueue : s.queue = []) (howned : ph.home s.home.state = .owned) {i : Fin n}
    (hi : s.home.owner = some (i : Nat)) : ph.core (s.core i).state = .holding := by
  have hhome := hI.home
  rw [howned, hqueue] at hhome
  obtain ⟨hplace, -, -, o, x, A, howner, hA, hroute, -⟩ := hhome
  obtain rfl : o = i := by simpa [howner] using hi
  simp only [View.stops] at hroute
  have hhead := hI.token.head
  have harriving := hI.token.homeArriving
  have hnohome : ∀ V, t.route ≠ Stop.home :: V := by
    intro V hV
    have hmem : Stop.home ∈ A ++ [visit x (i : Nat)] := by rw [← hroute, hV]; simp
    simp [hA] at hmem
  obtain ⟨y, b, V, hV⟩ : ∃ y b V, t.route = visit y b :: V := by
    cases hp : t.place with
    | home => exact absurd hp hplace
    | flying =>
      rw [hp] at hhead
      exact hhead.resolve_left (not_exists.2 hnohome)
    | held =>
      rw [hp] at hhead
      exact hhead
  have hb : b < n := hI.token.bound y b (by simp [hV])
  have hphase := hI.cores.phase ⟨b, hb⟩
  have hland : ∀ z, arriving s.flight b z = 0 := fun z => by rw [hflight, arriving_nil]
  have hholding : ph.core (s.core ⟨b, hb⟩).state = .holding := by
    have hmem : visit y b ∈ t.route := by simp [hV]
    have hawaits : ∀ {z}, Awaits t.place t.route z b (arriving s.flight b) → False := by
      intro z h
      have hz : z = y := by
        by_contra hne
        rw [Bool.eq_not_of_ne hne] at h
        exact h.other (by simp [hV])
      subst hz
      have hk := h.arriving
      rw [hland, landing, hV] at hk
      cases hp : t.place with
      | home => exact hplace hp
      | flying => simp [hp] at hk
      | held => exact h.not_held hp (by rw [hV]; rfl)
    cases hp : ph.core (s.core ⟨b, hb⟩).state with
    | idle =>
      rw [hp] at hphase
      exact absurd hmem (hphase.2.2.1 y)
    | shared =>
      rw [hp] at hphase
      exact absurd hmem (hphase.2.2.2 y b)
    | reader current =>
      rw [hp] at hphase
      exact absurd hmem (hphase.2.1.visit_notMem y)
    | reading plan =>
      rw [hp] at hphase
      rcases hphase with ⟨hreads, -⟩ | ⟨h, -⟩
      · exact absurd hmem (hreads.visit_notMem y)
      · exact (hawaits h).elim
    | filling readable plan =>
      rw [hp] at hphase
      exact (hawaits hphase.1).elim
    | holding => rfl
    | recalled =>
      rw [hp] at hphase
      obtain ⟨-, -, -, -, z, post, hW, -⟩ := hphase
      have hmem : Stop.home ∈ A ++ [visit x (i : Nat)] := by rw [← hroute, hW]; simp
      simp [hA] at hmem
    | unreachable =>
      rw [hp] at hphase
      exact absurd hphase id
  have hphase' := hphase
  rw [hholding] at hphase'
  obtain ⟨-, -, -, z, hW⟩ := hphase'
  rw [hroute] at hW
  have hlast := congrArg List.getLast? hW
  simp only [List.getLast?_append, List.getLast?_singleton, Option.some_or, Option.some.injEq] at hlast
  have hbi : (⟨b, hb⟩ : Fin n) = i := Fin.ext (Stop.visit.inj hlast).2.symm
  rwa [← hbi]

end Consequences

section FullSystem

variable {t : Topology}

/-- The state of private cache `i`'s line. -/
def System.coreState (P : Protocols σ τ) (s : System t σ τ) (i : Fin t.n) : σ :=
  ((s.l1 i).slot.readLineBits P.l1.initial).state

/-- The bits of the last-level cache's line. -/
def System.homeLine (P : Protocols σ τ) (s : System t σ τ) : GenericCacheLine τ :=
  s.llc.slot.readLineBits P.llc.initial

/-- At most one private cache is in a state whose Store cell is Hit, and then no other reads. -/
def System.SingleWriter (P : Protocols σ τ) (s : System t σ τ) : Prop :=
  ∀ i j, i ≠ j → P.l1.fsm.hasAction (s.coreState P i) .store .hit = true →
    P.l1.fsm.hasAction (s.coreState P j) .store .hit = false ∧
      P.l1.fsm.hasAction (s.coreState P j) .load .hit = false

/-- No message is queued or on its way, and every controller is in a stable state. -/
structure System.Quiescent (P : Protocols σ τ) (s : System t σ τ) : Prop where
  waiting : ∀ i, s.waiting i = []
  queue : s.queue.buffer = []
  bus : s.bus = []
  flight : s.flight = []
  memory : s.memory = []
  stable : ∀ i, P.l1.fsm.isStable (s.coreState P i) = true
  stableHome : P.llc.fsm.isStable (s.homeLine P).state = true

/-- A private cache owns the line exactly if the last-level cache says so. -/
def System.OwnerAgrees (P : Protocols σ τ) (owns : σ → Bool) (lets : τ → Bool) (s : System t σ τ) : Prop :=
  ∀ i, owns (s.coreState P i) = true ↔ lets (s.homeLine P).state = true ∧ (s.homeLine P).ownerId = some (i : Nat)

variable {P : Protocols σ τ} {holds : σ → Bool} {llcHolds : τ → Bool} {ph : Phases σ τ}
  {s : System t σ τ}

/-- The token invariant of the skeleton keeps writers alone. -/
theorem singleWriter_of_inv (hP : Lawful P holds llcHolds) (hI : Inv hP.tables ph t.llcId (abs P s))
    (hstore : ∀ c, ph.core c ≠ .unreachable → P.l1.fsm.hasAction c .store .hit = true →
      (ph.core c).isWritable = true)
    (hload : ∀ c, ph.core c ≠ .unreachable → P.l1.fsm.hasAction c .load .hit = true →
      (ph.core c).isReadable = true) : s.SingleWriter P := by
  obtain ⟨⟨tok, hT⟩, -⟩ := hI
  intro i j hij hi
  have hreach : ∀ j, ph.core (s.coreState P j) ≠ .unreachable := fun j => hT.cores.ne_unreachable j
  have hnot : (ph.core (s.coreState P j)).isReadable = false :=
    hT.not_readable (hstore _ (hreach i) hi) (Ne.symm hij)
  refine ⟨?_, ?_⟩
  · by_contra h
    have hj := hstore _ (hreach j) (by simpa using h)
    cases hp : ph.core (s.coreState P j) <;> simp [hp, Phase.isReadable, Phase.isWritable] at hj hnot
  · by_contra h
    rw [hload _ (hreach j) (by simpa using h)] at hnot
    simp at hnot

/-- The token invariant of the skeleton makes the last-level cache name the owner at rest. -/
theorem ownerAgrees_of_inv (hP : Lawful P holds llcHolds) (hL : TokenLaws hP.tables ph)
    (hI : Inv hP.tables ph t.llcId (abs P s)) (hquiet : s.Quiescent P) {owns : σ → Bool} {lets : τ → Bool}
    (howns : ∀ c, P.l1.fsm.isStable c = true → (owns c = true ↔ ph.core c = .holding))
    (hlets : ∀ h, P.llc.fsm.isStable h = true → (lets h = true ↔ ph.home h = .owned)) :
    s.OwnerAgrees P owns lets := by
  obtain ⟨⟨tok, hT⟩, hrest⟩ := hI
  intro i
  have hcore := howns _ (hquiet.stable i)
  have hhome := hlets _ hquiet.stableHome
  constructor
  · intro hi
    obtain ⟨x, hH⟩ := holder hL hT hrest (o := i) (hcore.1 hi)
    exact ⟨hhome.2 hH.owned, hH.owner⟩
  · rintro ⟨hlet, howner⟩
    refine hcore.2 (hT.holding_of_owned ?_ ?_ (hhome.1 hlet) howner)
    · simp [abs, hquiet.flight]
    · simp [abs, hquiet.queue]

end FullSystem

end Octopus.Snoop
