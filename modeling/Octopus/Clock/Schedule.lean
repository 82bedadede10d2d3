import Mathlib.Data.List.Induction
import Octopus.Clock.ClockManager

/-!
# The schedule of the clocked objects

Between two rounds of the clock each object has one event, at the first of its due times that has not
been processed. The processed events and the pending ones stand in the order of their keys, and this
order is what the schedule follows from.
-/

namespace Octopus

namespace ClockManager

variable {ω : Type} {getClkPeriod : ω → Nat} {start s s' : ClockManager ω} {e e' : EventKey × ω} {t i : Nat}

/-- A manager that is set up: its objects have numbers of their own, below the next one. -/
structure IsSetUp (s : ClockManager ω) : Prop where
  order : Lib.InOrder s.processed s.events
  fresh : ∀ e ∈ s.events, e.1.obj_id < s.obj_id
  unique : ∀ e ∈ s.events, ∀ e' ∈ s.events, e.1.obj_id = e'.1.obj_id → e = e'
  current_time : s.current_time = 0
  processed : s.processed = []

/-- The calls that set a manager up. -/
theorem isSetUp_setUp [DecidableEq ω] (calls : List (ClockSetup ω)) : IsSetUp (setUp calls) := by
  induction calls using List.reverseRecOn with
  | nil => exact ⟨⟨.nil, .nil, by simp [setUp]⟩, by simp [setUp], by simp [setUp], rfl, rfl⟩
  | append_singleton calls call ih =>
    rw [setUp, List.foldl_concat, ← setUp]
    cases call with
    | registerCLKObj clk_period obj =>
      have hnew : ∀ e ∈ (setUp calls).events, e.1 ≠ ⟨clk_period, (setUp calls).obj_id⟩ := by
        rintro e he heq
        have hlt := ih.fresh e he
        rw [heq] at hlt
        exact lt_irrefl _ hlt
      have hmem : ∀ e, e ∈ Lib.insertEntry ⟨clk_period, (setUp calls).obj_id⟩ obj (setUp calls).events ↔
          e = (⟨clk_period, (setUp calls).obj_id⟩, obj) ∨ e ∈ (setUp calls).events := fun e => by
        rw [(Lib.perm_insertEntry hnew).mem_iff, List.mem_cons]
      refine ⟨⟨ih.order.served_lt, Lib.pairwise_insertEntry ih.order.pending_lt, ?_⟩, ?_, ?_, ih.current_time, ih.processed⟩
      · simp [registerCLKObj, ih.processed]
      · intro e he
        rcases (hmem e).1 he with rfl | he
        · exact Nat.lt_succ_self _
        · exact (ih.fresh e he).trans (Nat.lt_succ_self _)
      · intro e he e' he' heq
        rcases (hmem e).1 he with rfl | he <;> rcases (hmem e').1 he' with rfl | he'
        · rfl
        · exact absurd heq.symm (ih.fresh e' he').ne
        · exact absurd heq (ih.fresh e he).ne
        · exact ih.unique e he e' he' heq
    | deregisterCLKObj obj =>
      have hsub : ((setUp calls).deregisterCLKObj obj).events.Sublist (setUp calls).events := List.eraseP_sublist
      refine ⟨⟨ih.order.served_lt, ih.order.pending_lt.sublist hsub, ?_⟩, ?_, ?_, ih.current_time, ih.processed⟩
      · simp [deregisterCLKObj, ih.processed]
      · exact fun e he => ih.fresh e (hsub.subset he)
      · exact fun e he e' he' => ih.unique e (hsub.subset he) e' (hsub.subset he')

/-- What holds between two rounds of the clock. -/
structure Scheduled (getClkPeriod : ω → Nat) (start s : ClockManager ω) : Prop where
  order : Lib.InOrder s.processed s.events
  current_le : ∀ e ∈ s.events, s.current_time ≤ e.1.time_stamp
  le_current : ∀ k ∈ s.processed, k.time_stamp ≤ s.current_time
  started : ∀ e ∈ s.events, ∃ first, (⟨first, e.1.obj_id⟩, e.2) ∈ start.events ∧
    ∃ k, e.1.time_stamp = first + k * getClkPeriod e.2
  pending : ∀ e ∈ start.events, ∃ t, (⟨t, e.1.obj_id⟩, e.2) ∈ s.events
  unique : ∀ e ∈ s.events, ∀ e' ∈ s.events, e.1.obj_id = e'.1.obj_id → e = e'
  processed : ∀ t i, ⟨t, i⟩ ∈ s.processed ↔ Due getClkPeriod start t i ∧ ∃ e ∈ s.events, e.1.obj_id = i ∧ t < e.1.time_stamp

/-- A manager that is set up has its schedule before it. -/
theorem IsSetUp.scheduled (h : IsSetUp start) : Scheduled getClkPeriod start start where
  order := h.order
  current_le e _ := by
    rw [h.current_time]
    exact Nat.zero_le _
  le_current k hk := by
    rw [h.processed] at hk
    simp at hk
  started e he := ⟨e.1.time_stamp, he, 0, by omega⟩
  pending e he := ⟨e.1.time_stamp, he⟩
  unique := h.unique
  processed t i := by
    rw [h.processed]
    constructor
    · intro hmem
      simp at hmem
    · rintro ⟨⟨first, obj, k, hstart, rfl⟩, e, he, rfl, hlt⟩
      rw [← h.unique _ hstart e he rfl] at hlt
      exact absurd hlt (Nat.not_lt.2 (Nat.le_add_right _ _))

/-- The next due time of an object is one period later. -/
theorem eq_of_due_within {first k j p t : Nat} (ht : t = first + j * p) (hle : first + k * p ≤ t)
    (hlt : t < first + k * p + p) : t = first + k * p := by
  subst ht
  have hkj : k * p ≤ j * p := by omega
  have hjk : j * p < (k + 1) * p := by
    rw [Nat.add_mul, Nat.one_mul]
    omega
  have hlt' : j < k + 1 := Nat.lt_of_mul_lt_mul_right hjk
  rcases Nat.eq_zero_or_pos p with rfl | hp
  · omega
  · have hle' : k ≤ j := Nat.le_of_mul_le_mul_right hkj hp
    obtain rfl : k = j := by omega
    rfl

section Round

variable {key : EventKey} {obj : ω} {events : List (EventKey × ω)}

/-- No other event belongs to the object of the first one. -/
theorem Scheduled.ne_of_mem (h : Scheduled getClkPeriod start s) (hevents : s.events = (key, obj) :: events) :
    ∀ e ∈ events, e.1.obj_id ≠ key.obj_id := by
  intro e he heq
  have horder := h.order.pending_lt
  rw [hevents] at horder
  have hlt := (List.pairwise_cons.1 horder).1 e he
  have hsame := h.unique e (hevents ▸ List.mem_cons_of_mem _ he) (key, obj) (hevents ▸ List.mem_cons_self) heq
  rw [hsame] at hlt
  exact lt_irrefl _ hlt

/-- An object that is put back adds one event to the others. -/
theorem Scheduled.perm_putBack (h : Scheduled getClkPeriod start s) (hevents : s.events = (key, obj) :: events) (t : Nat) :
    (Lib.insertEntry ⟨t, key.obj_id⟩ obj events).Perm ((⟨t, key.obj_id⟩, obj) :: events) := by
  refine Lib.perm_insertEntry fun e he heq => h.ne_of_mem hevents e he ?_
  rw [heq]

/-- A round that processes an object keeps the schedule. -/
theorem Scheduled.process (h : Scheduled getClkPeriod start s) (hstart : IsSetUp start)
    (hevents : s.events = (key, obj) :: events) (hnow : key.time_stamp = s.current_time) (hpos : 0 < getClkPeriod obj) :
    Scheduled getClkPeriod start { s with
      events := Lib.insertEntry ⟨s.current_time + getClkPeriod obj, key.obj_id⟩ obj events
      processed := s.processed ++ [⟨s.current_time, key.obj_id⟩] } := by
  have hkey : key = ⟨s.current_time, key.obj_id⟩ := EventKey.ext hnow rfl
  have hfirst : (key, obj) ∈ s.events := hevents ▸ List.mem_cons_self
  have hrest : ∀ e ∈ events, e ∈ s.events := fun e he => hevents ▸ List.mem_cons_of_mem _ he
  have hother := h.ne_of_mem hevents
  have hmem : ∀ e, e ∈ Lib.insertEntry ⟨s.current_time + getClkPeriod obj, key.obj_id⟩ obj events ↔
      e = (⟨s.current_time + getClkPeriod obj, key.obj_id⟩, obj) ∨ e ∈ events := fun e => by
    rw [(h.perm_putBack hevents _).mem_iff, List.mem_cons]
  obtain ⟨first, hfirstStart, k, hk⟩ := h.started (key, obj) hfirst
  refine ⟨?_, ?_, ?_, ?_, ?_, ?_, ?_⟩
  · have horder := h.order
    rw [hevents] at horder
    have hlater : key < ⟨s.current_time + getClkPeriod obj, key.obj_id⟩ := EventKey.lt_iff.2 (.inl (by dsimp only; omega))
    have hserved := horder.serve hlater
    rw [hkey] at hserved
    exact hserved
  · intro e he
    rcases (hmem e).1 he with rfl | he
    · exact Nat.le_add_right _ _
    · exact h.current_le e (hrest e he)
  · intro k hk
    rcases List.mem_append.1 hk with hk | hk
    · exact h.le_current k hk
    · rw [List.mem_singleton.1 hk]
  · intro e he
    rcases (hmem e).1 he with rfl | he
    · refine ⟨first, hfirstStart, k + 1, ?_⟩
      dsimp only at hk ⊢
      rw [← hnow, hk, Nat.add_mul, Nat.one_mul, Nat.add_assoc]
    · exact h.started e (hrest e he)
  · intro e he
    obtain ⟨t, ht⟩ := h.pending e he
    rw [hevents] at ht
    rcases List.mem_cons.1 ht with heq | ht
    · refine ⟨s.current_time + getClkPeriod obj, (hmem _).2 (.inl ?_)⟩
      obtain ⟨hk, ho⟩ := Prod.mk.inj heq
      rw [ho, ← hk]
    · exact ⟨t, (hmem _).2 (.inr ht)⟩
  · intro e he e' he' heq
    rcases (hmem e).1 he with rfl | he <;> rcases (hmem e').1 he' with rfl | he'
    · rfl
    · exact absurd heq.symm (hother e' he')
    · exact absurd heq (hother e he)
    · exact h.unique e (hrest e he) e' (hrest e' he') heq
  · intro t i
    rw [List.mem_append, List.mem_singleton, h.processed]
    constructor
    · rintro (⟨hdue, e, he, rfl, hlt⟩ | heq)
      · refine ⟨hdue, ?_⟩
        rw [hevents] at he
        rcases List.mem_cons.1 he with rfl | he
        · exact ⟨_, (hmem _).2 (.inl rfl), rfl, by dsimp only at hlt ⊢; omega⟩
        · exact ⟨e, (hmem e).2 (.inr he), rfl, hlt⟩
      · obtain ⟨rfl, rfl⟩ := EventKey.mk.inj heq
        refine ⟨⟨first, obj, k, hfirstStart, hnow.symm.trans hk⟩, _, (hmem _).2 (.inl rfl), rfl, ?_⟩
        exact Nat.lt_add_of_pos_right hpos
    · rintro ⟨hdue, e, he, rfl, hlt⟩
      rcases (hmem e).1 he with rfl | he
      · by_cases hbefore : t < s.current_time
        · exact .inl ⟨hdue, (key, obj), hfirst, rfl, hnow ▸ hbefore⟩
        · right
          obtain ⟨first', obj', j, hstart', ht⟩ := hdue
          obtain ⟨heq, rfl⟩ := Prod.mk.inj (hstart.unique _ hstart' _ hfirstStart rfl)
          obtain ⟨rfl, -⟩ := EventKey.mk.inj heq
          have hcurrent : s.current_time = first' + k * getClkPeriod obj' := hnow.symm.trans hk
          have hle : first' + k * getClkPeriod obj' ≤ t := by omega
          have hlt' : t < first' + k * getClkPeriod obj' + getClkPeriod obj' := by
            rw [← hcurrent]
            exact hlt
          rw [hcurrent, eq_of_due_within ht hle hlt']
      · exact .inl ⟨hdue, e, hrest e he, rfl, hlt⟩

end Round

/-- The number of events that are due. -/
def dueNow (s : ClockManager ω) : Nat := s.events.countP fun e => e.1.time_stamp = s.current_time

/-- What a round can do: it ends the step at the next event, or it processes an object. -/
theorem Scheduled.round_cases (h : Scheduled getClkPeriod start s) (hstart : IsSetUp start)
    (hpos : ∀ e ∈ start.events, 0 < getClkPeriod e.2) (hfits : Fits getClkPeriod s) (hne : s.events ≠ []) :
    (∃ e ∈ s.events, s.current_time < e.1.time_stamp ∧ (∀ e' ∈ s.events, e.1.time_stamp ≤ e'.1.time_stamp) ∧
      round getClkPeriod s = .ok ({ s with current_time := e.1.time_stamp }, true)) ∨
    ∃ s', round getClkPeriod s = .ok (s', false) ∧ Scheduled getClkPeriod start s' ∧ Fits getClkPeriod s' ∧
      s'.events.length = s.events.length ∧ s'.current_time = s.current_time ∧ dueNow s = dueNow s' + 1 := by
  obtain ⟨⟨key, obj⟩, events, hevents⟩ := List.exists_cons_of_ne_nil hne
  have hfirst : (key, obj) ∈ s.events := hevents ▸ List.mem_cons_self
  have hle := h.current_le (key, obj) hfirst
  by_cases hlt : s.current_time < key.time_stamp
  · refine .inl ⟨(key, obj), hfirst, hlt, fun e he => ?_, ?_⟩
    · have horder := h.order.pending_lt
      rw [hevents] at horder he
      rcases List.mem_cons.1 he with rfl | he
      · exact Nat.le_refl _
      · rcases EventKey.lt_iff.1 ((List.pairwise_cons.1 horder).1 e he) with hbefore | ⟨hsame, -⟩
        · exact hbefore.le
        · exact hsame.le
    · rw [round, hevents]
      exact if_pos hlt
  · have hnow : key.time_stamp = s.current_time := by
      dsimp only at hle
      omega
    obtain ⟨first, hobj, -⟩ := h.started (key, obj) hfirst
    have hp : 0 < getClkPeriod obj := hpos _ hobj
    have hmod : (s.current_time + getClkPeriod obj) % 2 ^ 64 = s.current_time + getClkPeriod obj :=
      Nat.mod_eq_of_lt (hfits (key, obj) hfirst hnow)
    have hperm := h.perm_putBack hevents (s.current_time + getClkPeriod obj)
    refine .inr ⟨_, ?_, h.process hstart hevents hnow hp, ?_, ?_, rfl, ?_⟩
    · rw [round, hevents]
      dsimp only
      rw [if_neg hlt, if_neg (by omega), hmod]
    · intro e he heq
      rcases List.mem_cons.1 (hperm.mem_iff.1 he) with rfl | he
      · dsimp only at heq
        omega
      · exact hfits e (hevents ▸ List.mem_cons_of_mem _ he) heq
    · dsimp only
      rw [hperm.length_eq, hevents, List.length_cons, List.length_cons]
    · rw [dueNow, dueNow, hperm.countP_eq, hevents, List.countP_cons_of_pos (by simpa using hnow),
        List.countP_cons_of_neg (by simp; omega)]

/-- What a step of the clock leaves behind. -/
structure Advanced (getClkPeriod : ω → Nat) (start s s' : ClockManager ω) : Prop where
  scheduled : Scheduled getClkPeriod start s'
  length_eq : s'.events.length = s.events.length
  current_lt : s.current_time < s'.current_time
  le_current : ∀ k ∈ s'.processed, k.time_stamp ≤ s.current_time
  first : ∃ e ∈ s'.events, e.1.time_stamp = s'.current_time

/-- A step of the clock processes the objects that are due and advances the time. -/
theorem Scheduled.clkStep (h : Scheduled getClkPeriod start s) (hstart : IsSetUp start)
    (hpos : ∀ e ∈ start.events, 0 < getClkPeriod e.2) (hfits : Fits getClkPeriod s) (hne : s.events ≠ []) (rounds : Nat) :
    (rounds ≤ dueNow s ∧ clkStep getClkPeriod rounds s = .error .unfinished) ∨
      ∃ s', clkStep getClkPeriod rounds s = .ok s' ∧ Advanced getClkPeriod start s s' := by
  induction rounds generalizing s with
  | zero => exact .inl ⟨Nat.zero_le _, rfl⟩
  | succ rounds ih =>
    rw [ClockManager.clkStep]
    rcases h.round_cases hstart hpos hfits hne with ⟨e, he, hlt, hleast, hround⟩ | ⟨s', hround, hs', hfits', hlen, htime, hdue⟩
    · rw [hround]
      refine .inr ⟨_, rfl, ⟨h.order, hleast, fun k hk => (h.le_current k hk).trans hlt.le, h.started, h.pending, h.unique,
        h.processed⟩, rfl, hlt, h.le_current, e, he, rfl⟩
    · rw [hround]
      have hne' : s'.events ≠ [] := by
        rw [← List.length_pos_iff, hlen]
        exact List.length_pos_iff.2 hne
      rcases ih hs' hfits' hne' with ⟨hle, hmore⟩ | ⟨s'', hdone, hadvanced⟩
      · exact .inl ⟨by omega, hmore⟩
      · refine .inr ⟨s'', hdone, hadvanced.scheduled, hadvanced.length_eq.trans hlen, ?_, ?_, hadvanced.first⟩
        · exact htime ▸ hadvanced.current_lt
        · exact htime ▸ hadvanced.le_current

/-- The time that a step ends at is the next due time. -/
theorem Advanced.next_due (h : Advanced getClkPeriod start s s') :
    (∃ i, Due getClkPeriod start s'.current_time i) ∧
      ∀ t i, Due getClkPeriod start t i → t ≤ s.current_time ∨ s'.current_time ≤ t := by
  constructor
  · obtain ⟨e, he, htime⟩ := h.first
    obtain ⟨first, hobj, k, hk⟩ := h.scheduled.started e he
    exact ⟨e.1.obj_id, first, e.2, k, hobj, htime.symm.trans hk⟩
  · intro t i hdue
    by_cases hlt : s'.current_time ≤ t
    · exact .inr hlt
    · left
      obtain ⟨first, obj, k, hobj, ht⟩ := hdue
      obtain ⟨t', ht'⟩ := h.scheduled.pending _ hobj
      have hle := h.scheduled.current_le _ ht'
      exact h.le_current _ ((h.scheduled.processed t i).2 ⟨⟨first, obj, k, hobj, ht⟩, _, ht', rfl, by dsimp only at hle ⊢; omega⟩)

/-- More rounds than a step takes do not change it. -/
theorem clkStep_add {rounds : Nat} (h : clkStep getClkPeriod rounds s = .ok s') (more : Nat) :
    clkStep getClkPeriod (rounds + more) s = .ok s' := by
  induction rounds generalizing s with
  | zero => simp [clkStep] at h
  | succ rounds ih =>
    rw [Nat.succ_add]
    rw [clkStep] at h ⊢
    split at h
    · simp at h
    · exact h
    · exact ih h

/-- What holds between two steps of the clock. -/
structure BetweenSteps (getClkPeriod : ω → Nat) (start s : ClockManager ω) : Prop where
  scheduled : Scheduled getClkPeriod start s
  length_eq : s.events.length = start.events.length
  lt_current : ∀ k ∈ s.processed, k.time_stamp < s.current_time

/-- The objects keep their events. -/
theorem BetweenSteps.ne_nil (h : BetweenSteps getClkPeriod start s) (hne : start.events ≠ []) : s.events ≠ [] := by
  rw [← List.length_pos_iff, h.length_eq]
  exact List.length_pos_iff.2 hne

variable [DecidableEq ω] {calls : List (ClockSetup ω)}

/-- The runs in which no event is put back beyond 64 bits. -/
def fitting (getClkPeriod : ω → Nat) (calls : List (ClockSetup ω)) : Lib.TransitionSystem (ClockManager ω) Unit :=
  (system getClkPeriod calls).restrict fun s _ => Fits getClkPeriod s

/-- The invariant of these runs. -/
theorem betweenSteps_of_reachable (hne : (setUp calls).events ≠ [])
    (hpos : ∀ e ∈ (setUp calls).events, 0 < getClkPeriod e.2) (h : (fitting getClkPeriod calls).Reachable s) :
    BetweenSteps getClkPeriod (setUp calls) s := by
  have hstart := isSetUp_setUp calls
  induction h with
  | init hinit =>
    change init getClkPeriod (setUp calls) = .ok _ at hinit
    rw [init] at hinit
    split_ifs at hinit
    obtain rfl := Except.ok.inj hinit
    refine ⟨hstart.scheduled, rfl, fun k hk => ?_⟩
    rw [hstart.processed] at hk
    simp at hk
  | step _ hstep ih =>
    obtain ⟨hfits, rounds, hrun⟩ := hstep
    rcases ih.scheduled.clkStep hstart hpos hfits (ih.ne_nil hne) rounds with ⟨-, hmore⟩ | ⟨s', hdone, hadvanced⟩
    · rw [hmore] at hrun
      simp at hrun
    · obtain rfl := Except.ok.inj (hdone.symm.trans hrun)
      exact ⟨hadvanced.scheduled, hadvanced.length_eq.trans ih.length_eq,
        fun k hk => (hadvanced.le_current k hk).trans_lt hadvanced.current_lt⟩

/-- The processed events are the due ones that have passed. -/
theorem BetweenSteps.processed_iff (h : BetweenSteps getClkPeriod (setUp calls) s) :
    ⟨t, i⟩ ∈ s.processed ↔ t < s.current_time ∧ Due getClkPeriod (setUp calls) t i := by
  constructor
  · intro hmem
    exact ⟨h.lt_current _ hmem, ((h.scheduled.processed t i).1 hmem).1⟩
  · rintro ⟨hlt, hdue⟩
    refine (h.scheduled.processed t i).2 ⟨hdue, ?_⟩
    obtain ⟨first, obj, k, hobj, -⟩ := hdue
    obtain ⟨t', ht'⟩ := h.scheduled.pending _ hobj
    exact ⟨_, ht', rfl, hlt.trans_le (h.scheduled.current_le _ ht')⟩

/--
The schedule of a run: the manager starts, the events are processed in the order of their times and
numbers, each exactly once and at its due times only, and every step returns after finitely many rounds,
without a missed event, at the next due time.
-/
theorem schedule (hne : (setUp calls).events ≠ []) (hpos : ∀ e ∈ (setUp calls).events, 0 < getClkPeriod e.2) :
    init getClkPeriod (setUp calls) = .ok (setUp calls) ∧
      ∀ s, (fitting getClkPeriod calls).Reachable s →
        s.processed.Pairwise (· < ·) ∧
        (∀ t i, ⟨t, i⟩ ∈ s.processed ↔ t < s.current_time ∧ Due getClkPeriod (setUp calls) t i) ∧
        (Fits getClkPeriod s → ∃ s',
          (∀ rounds, (setUp calls).events.length < rounds → clkStep getClkPeriod rounds s = .ok s') ∧
          (∀ rounds, clkStep getClkPeriod rounds s = .ok s' ∨ clkStep getClkPeriod rounds s = .error .unfinished) ∧
          s.current_time < s'.current_time ∧ (∃ i, Due getClkPeriod (setUp calls) s'.current_time i) ∧
          ∀ t i, Due getClkPeriod (setUp calls) t i → t ≤ s.current_time ∨ s'.current_time ≤ t) := by
  have hstart := isSetUp_setUp calls
  refine ⟨if_neg fun hany => ?_, fun s hr => ?_⟩
  · obtain ⟨e, he, hzero⟩ := List.any_eq_true.1 hany
    exact absurd (of_decide_eq_true hzero) (hpos e he).ne'
  · have hs := betweenSteps_of_reachable hne hpos hr
    refine ⟨hs.scheduled.order.served_lt, fun t i => hs.processed_iff, fun hfits => ?_⟩
    have hsteps := hs.scheduled.clkStep hstart hpos hfits (hs.ne_nil hne)
    have hcount : dueNow s ≤ (setUp calls).events.length := hs.length_eq ▸ List.countP_le_length
    rcases hsteps ((setUp calls).events.length + 1) with ⟨hle, -⟩ | ⟨s', hdone, hadvanced⟩
    · omega
    · -- every other number of rounds ends the step in the same way or is too small
      have hsame : ∀ rounds s'', clkStep getClkPeriod rounds s = .ok s'' → s'' = s' := by
        intro rounds s'' h
        have hlong := clkStep_add h ((setUp calls).events.length + 1)
        have hlong' := clkStep_add hdone rounds
        rw [Nat.add_comm, hlong'] at hlong
        exact (Except.ok.inj hlong).symm
      refine ⟨s', fun rounds hrounds => ?_, fun rounds => ?_, hadvanced.current_lt, hadvanced.next_due⟩
      · rcases hsteps rounds with ⟨hle, -⟩ | ⟨s'', hdone', -⟩
        · omega
        · rw [hdone', hsame rounds s'' hdone']
      · rcases hsteps rounds with ⟨-, hmore⟩ | ⟨s'', hdone', -⟩
        · exact .inr hmore
        · exact .inl (by rw [hdone', hsame rounds s'' hdone'])

/-- Two objects, of the periods 2 and 3, that are first due at the times 0 and 4. -/
def twoClocks : List (ClockSetup Nat) := [.registerCLKObj 0 2, .registerCLKObj 4 3]

/-- The first step of two objects processes the one that is due and advances to the time 2. -/
theorem schedule_twoClocks : ∃ s', clkStep id 3 (setUp twoClocks) = .ok s' ∧ 0 < s'.current_time ∧
    Due id (setUp twoClocks) 2 0 := by
  obtain ⟨hinit, hrun⟩ := @schedule Nat id _ twoClocks (by decide) (by decide)
  obtain ⟨-, -, hstep⟩ := hrun _ (.init hinit)
  obtain ⟨s', hrounds, -, hlt, -⟩ := hstep (by unfold Fits; decide)
  exact ⟨s', hrounds 3 (by decide), hlt, 0, 2, 1, by decide, rfl⟩

/-- An object whose next due time is beyond 64 bits: the second step finds its event in the past. -/
theorem missedEvent_atWrap : ∃ calls : List (ClockSetup Nat), (setUp calls).events ≠ [] ∧
    (∀ e ∈ (setUp calls).events, 0 < e.2 ∧ e.1.time_stamp < 2 ^ 64) ∧ ∃ s, (system id calls).Reachable s ∧
      clkStep id 2 s = .error .missedEvent := by
  refine ⟨[.registerCLKObj (2 ^ 64 - 1) 1], by decide, by decide, { setUp [.registerCLKObj (2 ^ 64 - 1) 1] with
    current_time := 2 ^ 64 - 1 }, ?_, rfl⟩
  exact .step (.init (s := setUp [.registerCLKObj (2 ^ 64 - 1) 1]) rfl) (l := ()) ⟨1, rfl⟩

end ClockManager

end Octopus
