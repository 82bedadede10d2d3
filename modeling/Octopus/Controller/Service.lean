import Octopus.Controller.EnvStep
import Octopus.Controller.L1Core

/-!
# What the processing loop guarantees

The demand requests of a line are served in arrival order, and a popped message is processed,
deferred or put back: both as long as no refused request meets a younger one of its line, or a
queue that is full without it.
-/

namespace Octopus

namespace ControllerCore

open FRFCFSBuffer

variable {ε : Type} {C : ControllerCore ε} {s : CacheController ε}

/-- The demand requests of a line are processed in the order of their arrival, before those that still wait. -/
theorem demands_in_order (hr : (C.system.restrict C.RefusesAlone).Reachable s) (key : Nat) :
    (C.demandsOf key (s.processed ++ opMessages s.m_array_ops ++ items s.m_processing_queue.buffer)).Sublist
      (C.demandsOf key s.arrived) :=
  (InOrder.inductive_inOrder.reachable hr).order key

end ControllerCore

namespace L1Lines

open ControllerCore

/-- A private cache with one outstanding miss and an unbounded queue. -/
def oneMiss : L1Config where
  controller := ⟨0, 10, 8, true⟩
  processing_queue_size := none
  m_num_mshr := some 1
  victim _ _ _ := none

/-- A private cache with one way, one outstanding miss and room for one request. -/
def oneRequest : L1Config where
  controller := ⟨0, 10, 8, true⟩
  processing_queue_size := some 1
  m_num_mshr := some 1
  victim _ array _ := array.head?

/-- A Load (0) or Store (1) of the processor. -/
def request (cv id addr : Nat) : Message :=
  { msgId := id, addr := addr, complementaryValue := cv, kind := .demand }

/-- The bus grants the GetS (0) or GetM (1) of cache 0. -/
def granted (cv id addr : Nat) : Message := { msgId := id, addr := addr, complementaryValue := cv }

/-- The bytes of a line arrive. -/
def filled (id addr : Nat) : Message :=
  { msgId := id, addr := addr, data := some (List.replicate 8 0), dataSize := 64 }

/-- A cycle: messages at the interfaces, then rounds of the loop. -/
def cycleOf (upper lower : Option Message) (rounds : Nat) : List ControllerLabel :=
  .intake upper lower :: List.replicate rounds .iterate

/-- Two Loads of a line wait for a register, and a Load of the line comes once it is free. -/
def inOrderRun : List ControllerLabel :=
  cycleOf none (some (request 0 2 8)) 2 ++ cycleOf none (some (request 0 4 16)) 1 ++ cycleOf (some (granted 0 2 8)) none 2 ++
    cycleOf (some (filled 2 8)) none 3 ++ cycleOf none (some (request 0 5 16)) 1 ++
    cycleOf (some (granted 0 4 16)) none 2 ++ cycleOf (some (filled 4 16)) none 3

/-- A refused Load is served before a younger one of its line that comes once it is admitted. -/
theorem demands_in_order_inOrderRun : ∃ s : CacheController L1Lines,
    (L1Lines.core oneMiss).runWhile (L1Lines.core oneMiss).refusesAlone ((L1Lines.core oneMiss).start L1Lines.start)
      inOrderRun = some s ∧ s.processed.map (·.msgId) = [2, 2, 2, 4, 4, 4, 5] ∧
      ((L1Lines.core oneMiss).demandsOf 16 (s.processed ++ opMessages s.m_array_ops ++
        items s.m_processing_queue.buffer)).Sublist ((L1Lines.core oneMiss).demandsOf 16 s.arrived) := by
  have hsome : ((L1Lines.core oneMiss).runWhile (L1Lines.core oneMiss).refusesAlone
      ((L1Lines.core oneMiss).start L1Lines.start) inOrderRun).any fun s =>
        s.processed.map (·.msgId) == [2, 2, 2, 4, 4, 4, 5] := by
    decide
  obtain ⟨s, hs, hprocessed⟩ := (Option.any_eq_true _ _).1 hsome
  refine ⟨s, hs, by simpa using hprocessed, demands_in_order ?_ 16⟩
  exact runWhile_reachable _ _ (fun h => (refusesAlone_iff _).1 h) (.init ⟨_, rfl⟩) hs

/-- Two Loads of a line wait for a register; each refusal puts the older one behind the younger one. -/
def overtakingRun : List ControllerLabel :=
  cycleOf none (some (request 0 2 8)) 2 ++ cycleOf none (some (request 0 4 16)) 1 ++
    cycleOf none (some (request 0 5 16)) 1 ++ cycleOf (some (granted 0 2 8)) none 2 ++ cycleOf none none 1 ++
    cycleOf (some (filled 2 8)) none 3 ++ cycleOf (some (granted 0 5 16)) none 2 ++ cycleOf (some (filled 5 16)) none 3

/-- A Load is processed before an older one of its line. -/
theorem demands_overtaken : ∃ s : CacheController L1Lines, (L1Lines.core oneMiss).system.Reachable s ∧
    ((L1Lines.core oneMiss).demandsOf 16 s.arrived).map (·.msgId) = [4, 5] ∧
      ((L1Lines.core oneMiss).demandsOf 16 s.processed).map (·.msgId) = [5, 4] := by
  have hsome : ((L1Lines.core oneMiss).runWhile (fun _ _ => true) ((L1Lines.core oneMiss).start L1Lines.start)
      overtakingRun).any fun s => ((L1Lines.core oneMiss).demandsOf 16 s.arrived).map (·.msgId) == [4, 5] &&
        ((L1Lines.core oneMiss).demandsOf 16 s.processed).map (·.msgId) == [5, 4] := by
    decide
  obtain ⟨s, hs, hstate⟩ := (Option.any_eq_true _ _).1 hsome
  simp only [Bool.and_eq_true, beq_iff_eq] at hstate
  exact ⟨s, run_reachable _ (.init ⟨_, rfl⟩) hs, hstate⟩

end L1Lines

namespace ControllerCore

open FRFCFSBuffer

variable {ε : Type} {C : ControllerCore ε} {s s' : CacheController ε} {m : Message} {q : FRFCFSBuffer}

/-- The messages of Stall cells keep the bound of the queue. -/
theorem maxSize_stall {msgs : List Message} {q' : FRFCFSBuffer} (h : stall q msgs = some q') : q'.maxSize = q.maxSize := by
  induction msgs generalizing q with
  | nil => rw [Option.some.inj h]
  | cons m msgs ih =>
    obtain ⟨q₁, hq₁, hrest⟩ := Option.bind_eq_some_iff.1 h
    rw [pushBack] at hq₁
    split_ifs at hq₁
    rw [ih hrest, ← Option.some.inj hq₁]

/-- An effect keeps the bound of the queue. -/
theorem maxSize_effect {res : Except Exit (Processed ε)} (hs : effect s res = some s') :
    s'.m_processing_queue.maxSize = s.m_processing_queue.maxSize := by
  cases res with
  | error e => simp [effect] at hs
  | ok r =>
    obtain ⟨q, hq, rfl⟩ := Option.map_eq_some_iff.1 hs
    exact maxSize_stall hq

/-- An unforced message keeps the bound of the queue, whether it finds room or not. -/
theorem maxSize_getD : ((q.pushBack m .nonReady false).getD q).maxSize = q.maxSize := by
  cases hback : q.pushBack m .nonReady false with
  | none => rfl
  | some q' =>
    rw [pushBack] at hback
    split_ifs at hback
    rw [← Option.some.inj hback]
    rfl

/-- A completed access keeps the bound of the queue. -/
theorem maxSize_pipelineFire {k : Nat} (hs : C.pipelineFire s k = some s') :
    s'.m_processing_queue.maxSize = s.m_processing_queue.maxSize := by
  obtain ⟨op, -, hs⟩ := Option.bind_eq_some_iff.1 hs
  obtain ⟨s₁, hs₁, rfl⟩ := Option.map_eq_some_iff.1 hs
  rw [complete] at hs₁
  split at hs₁
  · split at hs₁
    · rw [execute] at hs₁
      have hsize := maxSize_effect hs₁
      exact hsize
    · simp only [pushBack, Bool.not_true, Bool.false_and, Bool.false_eq_true, if_false, Option.map_some] at hs₁
      rw [← Option.some.inj hs₁]
      rfl
  · have hsize := maxSize_effect hs₁
    exact hsize

/-- A scan keeps the bound of the queue. -/
theorem maxSize_getFirstReady {scan : Scan} {o : Option Message} {q' : FRFCFSBuffer}
    (h : q.getFirstReady scan = (o, q')) : q'.maxSize = q.maxSize := by
  rw [getFirstReady] at h
  split_ifs at h
  · rw [← (Prod.mk.inj h).2]
  · split at h <;> rw [← (Prod.mk.inj h).2]

/-- A round of the loop keeps the bound of the queue. -/
theorem maxSize_iterate (hs : C.iterate s = some s') :
    s'.m_processing_queue.maxSize = s.m_processing_queue.maxSize := by
  rw [iterate] at hs
  split at hs
  · next q hpop =>
    rw [← Option.some.inj hs]
    exact maxSize_getFirstReady hpop
  · next m q hpop =>
    have hq := maxSize_getFirstReady hpop
    split_ifs at hs
    · rw [← Option.some.inj hs, ← hq]
      exact maxSize_getD
    · rw [← Option.some.inj hs]
      exact hq
    · rw [maxSize_effect hs]
      exact hq

/-- Taking messages in keeps the bound of the queue. -/
theorem maxSize_intake (upper lower : Option Message) :
    (C.checkReplacements (lower.elim (upper.elim s (C.intakeUpper s))
      (C.intakeLower (upper.elim s (C.intakeUpper s))))).m_processing_queue.maxSize = s.m_processing_queue.maxSize := by
  have hreplace : ∀ t : CacheController ε,
      (C.checkReplacements t).m_processing_queue.maxSize = t.m_processing_queue.maxSize := by
    intro t
    rw [checkReplacements]
    split
    · rfl
    · simp only [pushBack, Bool.not_true, Bool.false_and, Bool.false_eq_true, if_false]
  rw [hreplace, (intake_frame upper lower).2.2.2]

/-- The queue has its bound along every run. -/
theorem maxSize_inductive : C.system.Inductive fun s => s.m_processing_queue.maxSize = C.processing_queue_size where
  init := by
    rintro s ⟨e, rfl⟩
    rfl
  step := by
    intro s l s' _ h hstep
    simp only [system, step] at hstep
    cases l with
    | cycle =>
      simp only at hstep
      split_ifs at hstep
      rw [← Option.some.inj hstep]
      exact h
    | fire k =>
      simp only at hstep
      split_ifs at hstep
      rw [maxSize_pipelineFire hstep, h]
    | intake upper lower =>
      simp only at hstep
      split_ifs at hstep
      rw [← Option.some.inj hstep, maxSize_intake, h]
    | flush =>
      simp only at hstep
      split at hstep
      · split at hstep
        · rw [← Option.some.inj hstep]
          exact h
        · rw [maxSize_pipelineFire hstep, h]
      · simp at hstep
    | iterate =>
      simp only at hstep
      split_ifs at hstep
      rw [maxSize_iterate hstep, h]

/-- A popped message is processed, waits for the data array or is in the queue again. -/
def Kept (s s' : CacheController ε) (m : Message) (q : FRFCFSBuffer) : Prop :=
  s'.processed = s.processed ++ [m] ∨ s'.m_array_ops = s.m_array_ops ++ [⟨.message, m⟩] ∨
    (items s'.m_processing_queue.buffer).Perm (m :: items q.buffer)

instance : Decidable (Kept s s' m q) := inferInstanceAs (Decidable (_ ∨ _ ∨ _))

/-- In every run, a popped message is kept exactly if it is admitted or the queue has room without it. -/
theorem popped_kept_iff (hr : C.system.Reachable s)
    (hpop : s.m_processing_queue.getFirstReady (C.scan s.env s.m_array_ops) = (some m, q))
    (hs : C.step s .iterate = some s') :
    Kept s s' m q ↔ C.canAdmitRequest s.env m = true ∨ ∀ bound ∈ C.processing_queue_size, q.buffer.length < bound := by
  have hbound : q.maxSize = C.processing_queue_size :=
    (maxSize_getFirstReady hpop).trans (maxSize_inductive.reachable hr)
  simp only [step] at hs
  split_ifs at hs
  rw [iterate, hpop] at hs
  dsimp only at hs
  cases hadmitted : C.canAdmitRequest s.env m with
  | true =>
    rw [hadmitted, Bool.not_true, if_neg Bool.false_ne_true] at hs
    refine ⟨fun _ => .inl rfl, fun _ => ?_⟩
    split_ifs at hs
    · rw [← Option.some.inj hs]
      exact .inr (.inl rfl)
    · exact .inl (processed_effect hs)
  | false =>
    rw [hadmitted, Bool.not_false, if_pos rfl] at hs
    obtain rfl := Option.some.inj hs
    simp only [Bool.false_eq_true, false_or, ← hbound]
    constructor
    · rintro (hprocessed | hops | hqueue)
      · simp at hprocessed
      · simp at hops
      · -- an item more than before: the request found room
        intro bound hb
        by_contra hfull
        have hnone : q.pushBack m .nonReady false = none := by
          simpa [pushBack, Option.any_eq_true] using ⟨bound, hb, Nat.le_of_not_lt hfull⟩
        simp only [hnone, Option.getD_none] at hqueue
        simpa using hqueue.length_eq
    · intro hroom
      have hback : q.pushBack m .nonReady false = some { q with buffer := q.buffer ++ [⟨m, .nonReady⟩], dirty := true } := by
        rw [pushBack, if_neg]
        simpa [Option.any_eq_true] using hroom
      refine .inr (.inr ?_)
      simp only [hback, Option.getD_some, items_append, items_cons, items_nil]
      exact List.perm_append_singleton m _

end ControllerCore

namespace L1Lines

open ControllerCore

/-- A Load finds no register free, and its queue has room for it. -/
def refusedRun : List ControllerLabel :=
  cycleOf none (some (request 0 2 8)) 2 ++ [.intake none (some (request 0 4 16))]

/-- The next round of the loop, if it takes a message. -/
def roundOf (cfg : L1Config) (s : CacheController L1Lines) :
    Option (CacheController L1Lines × Message × FRFCFSBuffer) :=
  let scanned := s.m_processing_queue.getFirstReady ((L1Lines.core cfg).scan s.env s.m_array_ops)
  scanned.1.bind fun m => ((L1Lines.core cfg).step s .iterate).map fun s' => (s', m, scanned.2)

/-- What the next round does. -/
theorem roundOf_eq_some {cfg : L1Config} {s s' : CacheController L1Lines} {m : Message} {q : FRFCFSBuffer}
    (h : roundOf cfg s = some (s', m, q)) :
    s.m_processing_queue.getFirstReady ((L1Lines.core cfg).scan s.env s.m_array_ops) = (some m, q) ∧
      (L1Lines.core cfg).step s .iterate = some s' := by
  obtain ⟨m', hm, h⟩ := Option.bind_eq_some_iff.1 h
  obtain ⟨s₁, hs₁, heq⟩ := Option.map_eq_some_iff.1 h
  obtain ⟨rfl, rfl, rfl⟩ : s₁ = s' ∧ m' = m ∧ _ = q := by simpa using heq
  exact ⟨Prod.ext hm rfl, hs₁⟩

/-- A Load that is refused while the queue has room is in the queue again. -/
theorem popped_kept_refusedRun : ∃ (s s' : CacheController L1Lines) (m : Message) (q : FRFCFSBuffer),
    (L1Lines.core oneRequest).runWhile (fun _ _ => true) ((L1Lines.core oneRequest).start L1Lines.start) refusedRun =
      some s ∧ (L1Lines.core oneRequest).canAdmitRequest s.env m = false ∧ Kept s s' m q := by
  have hsome : ((L1Lines.core oneRequest).runWhile (fun _ _ => true)
      ((L1Lines.core oneRequest).start L1Lines.start) refusedRun).any fun s => (roundOf oneRequest s).any fun r =>
        !(L1Lines.core oneRequest).canAdmitRequest s.env r.2.1 && r.2.2.buffer.length == 0 := by
    decide
  obtain ⟨s, hs, hround⟩ := (Option.any_eq_true _ _).1 hsome
  obtain ⟨⟨s', m, q⟩, hr, hstate⟩ := (Option.any_eq_true _ _).1 hround
  simp only [Bool.and_eq_true, Bool.not_eq_true', beq_iff_eq] at hstate
  obtain ⟨hpop, hstep⟩ := roundOf_eq_some hr
  refine ⟨s, s', m, q, hs, hstate.1, (popped_kept_iff (run_reachable _ (.init ⟨_, rfl⟩) hs) hpop hstep).2 (.inr ?_)⟩
  rintro bound hbound
  obtain rfl : 1 = bound := by simpa [L1Lines.core, oneRequest] using hbound
  omega

/--
A Replacement of line 0, whose upgrade is under way, waits on a Stall cell in a queue with room for
one message. A Load of line 16 that came before it is refused, and its place is taken.
-/
def lossRun : List ControllerLabel :=
  cycleOf none (some (request 0 1 0)) 2 ++ cycleOf (some (granted 0 1 0)) none 2 ++ cycleOf (some (filled 1 0)) none 2 ++
    cycleOf none (some (request 0 2 8)) 2 ++ cycleOf (some (granted 0 2 8)) none 2 ++
    cycleOf none (some (request 1 3 0)) 2 ++ cycleOf none (some (request 0 4 16)) 1 ++
    cycleOf (some (filled 2 8)) none 2 ++ [.intake none none, .flush]

/-- A popped Load is lost. -/
theorem popped_lost : ∃ (s s' : CacheController L1Lines) (m : Message) (q : FRFCFSBuffer),
    (L1Lines.core oneRequest).system.Reachable s ∧
      s.m_processing_queue.getFirstReady ((L1Lines.core oneRequest).scan s.env s.m_array_ops) = (some m, q) ∧
      (L1Lines.core oneRequest).step s .iterate = some s' ∧ ¬ Kept s s' m q := by
  have hsome : ((L1Lines.core oneRequest).runWhile (fun _ _ => true)
      ((L1Lines.core oneRequest).start L1Lines.start) lossRun).any fun s => (roundOf oneRequest s).any fun r =>
        decide (¬ Kept s r.1 r.2.1 r.2.2) := by
    decide
  obtain ⟨s, hs, hround⟩ := (Option.any_eq_true _ _).1 hsome
  obtain ⟨⟨s', m, q⟩, hr, hlost⟩ := (Option.any_eq_true _ _).1 hround
  obtain ⟨hpop, hstep⟩ := roundOf_eq_some hr
  exact ⟨s, s', m, q, run_reachable _ (.init ⟨_, rfl⟩) hs, hpop, hstep, of_decide_eq_true hlost⟩

end L1Lines

end Octopus
