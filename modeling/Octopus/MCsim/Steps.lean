import Octopus.MCsim.MemorySystem

/-!
# The parts of a cycle

A cycle prepares (requests become commands, commands are queued), sends the head of a queue or nothing, and finishes
(data go on, the timers run down). For each part, what it does and what it leaves as it is; later modules do not look
into the loops again.
-/

namespace Octopus.MCsim.MemorySystem

variable {cfg : MemoryConfig} {s s' : MemorySystem}

/-- The place of every request is one of the first rank. -/
theorem request_place (cfg : MemoryConfig) (handle clockCycle requestorID address : Nat) (isRead : Bool) (size : Nat) :
    (request cfg handle clockCycle requestorID address isRead size).rank = 0 ∧
      (request cfg handle clockCycle requestorID address isRead size).bank < (orgTable cfg.org).banks := by
  have hlog : 2 ^ log2 (orgTable cfg.org).banks = (orgTable cfg.org).banks := by cases cfg.org <;> decide
  have hfit : FieldsFit (decodeIndex frfcfsFormat (memTable (orgTable cfg.org)))
      (addressMapping (decodeIndex frfcfsFormat (memTable (orgTable cfg.org))) address fun _ => 0) :=
    addressMapping_fit (by cases cfg.org <;> decide) address _
  have hrank := hfit (.rank, 0) (by cases cfg.org <;> decide)
  have hbank := hfit (.bank, log2 (orgTable cfg.org).banks) (List.mem_map.2 ⟨.bank, by decide, rfl⟩)
  rw [hlog] at hbank
  exact ⟨Nat.lt_one_iff.1 hrank, hbank⟩

/-- What the loops of the scheduler keep, if scheduling a request of the queue keeps it. -/
theorem scheduleLoop_keeps {P : MemorySystem → Prop}
    (hkeep : ∀ s index r, P s → s.generalBuffer[index]? = some r → P (s.schedule cfg index r)) (hitsOnly : Bool)
    (fuel index : Nat) (bankFlag : Nat → Bool) (hs : P s) : P (scheduleLoop cfg hitsOnly fuel index s bankFlag).1 := by
  induction fuel generalizing index s bankFlag with
  | zero => exact hs
  | succ fuel ih =>
    rw [scheduleLoop]
    cases hr : s.generalBuffer[index]? with
    | none => exact hs
    | some r =>
      dsimp only
      split_ifs
      · exact ih (index + 1) _ (hkeep s index r hs hr)
      · exact ih (index + 1) bankFlag hs

/-- What the scheduler keeps. -/
theorem requestSchedule_keeps {P : MemorySystem → Prop}
    (hkeep : ∀ s index r, P s → s.generalBuffer[index]? = some r → P (s.schedule cfg index r)) (hs : P s) :
    P (s.requestSchedule cfg) :=
  scheduleLoop_keeps hkeep false _ 0 _ (scheduleLoop_keeps hkeep true _ 0 _ hs)

/-- The candidate that is sent is one of the candidates. -/
theorem commandSchedule_mem {p : BusPacket × Nat} (h : s.commandSchedule cfg = some p) : p ∈ s.candidates cfg := by
  have hfold : ∀ (rest : List (BusPacket × Nat)) (kept : Option (BusPacket × Nat)) (p : BusPacket × Nat),
      rest.foldl (fun kept next => some ((kept.map fun kept => prefer kept next).getD next)) kept = some p →
        p ∈ kept.toList ++ rest := by
    intro rest
    induction rest with
    | nil =>
      intro kept p hp
      rw [List.foldl_nil] at hp
      simp [hp]
    | cons next rest ih =>
      intro kept p hp
      rw [List.foldl_cons] at hp
      have hmem := ih _ p hp
      rw [Option.toList_some, List.singleton_append, List.mem_cons] at hmem
      rw [List.mem_append, List.mem_cons]
      cases hmem with
      | inr hmem => exact .inr (.inr hmem)
      | inl hmem =>
        cases kept with
        | none => exact .inr (.inl hmem)
        | some kept =>
          have hprefer : prefer kept next = next ∨ prefer kept next = kept := by
            rw [prefer]
            split
            · exact .inl rfl
            all_goals
              first
              | exact .inr rfl
              | exact ite_eq_or_eq _ _ _
          rw [Option.map_some, Option.getD_some] at hmem
          cases hprefer with
          | inl hnext => exact .inr (.inl (hmem.trans hnext))
          | inr hkept => exact .inl (by rw [hmem, hkept]; exact List.mem_singleton_self kept)
  exact hfold _ none p h

/-- A candidate is the head of its queue, ready, and let pass by the device. -/
theorem mem_candidates {p : BusPacket} {index : Nat} :
    (p, index) ∈ s.candidates cfg ↔ index < cfg.queueNumber ∧ (s.hrtBuffer index).head? = some p ∧
      s.isReady p index = true ∧ s.isIssuable cfg p = true := by
  rw [candidates, List.mem_filterMap]
  constructor
  · intro h
    cases h with
    | intro i hi =>
      cases hhead : (s.hrtBuffer i).head? with
      | none => simp [hhead] at hi
      | some q =>
        rw [hhead, Option.bind_some] at hi
        split_ifs at hi with hready
        · have heq := Option.some.inj hi.2
          rw [Prod.mk.injEq] at heq
          rw [← heq.1, ← heq.2]
          rw [Bool.and_eq_true] at hready
          exact ⟨List.mem_range.1 hi.1, hhead, hready.1, hready.2⟩
        · exact absurd hi.2 (by simp)
  · intro h
    refine ⟨index, List.mem_range.2 h.1, ?_⟩
    rw [h.2.1, Option.bind_some, h.2.2.1, h.2.2.2]
    rfl

/-- A cycle sends nothing, or the head of a queue. -/
theorem updateCommand_cases (cfg : MemoryConfig) (s : MemorySystem) :
    s.commandSchedule cfg = none ∧ s.updateCommand cfg = s ∨
      ∃ p index, index < cfg.queueNumber ∧ s.hrtBuffer index = p :: (s.hrtBuffer index).tail ∧
        s.isReady p index = true ∧ s.isIssuable cfg p = true ∧ s.updateCommand cfg = s.sendCommand cfg p index := by
  rw [updateCommand]
  cases hschedule : s.commandSchedule cfg with
  | none => exact .inl ⟨rfl, rfl⟩
  | some q =>
    have hmem := mem_candidates.1 (commandSchedule_mem hschedule)
    exact .inr ⟨q.1, q.2, hmem.1, (List.cons_head?_tail hmem.2.1).symm, hmem.2.2.1, hmem.2.2.2, rfl⟩

/-- Every command of a request is one of its packets. -/
theorem mem_commands {r : Request} {isOpen first : Bool} {p : BusPacket} (hp : p ∈ commands cfg r isOpen first) :
    ∃ type column, p = packet r type column := by
  rw [commands, List.mem_append, List.mem_map] at hp
  cases hp with
  | inl hp =>
    split_ifs at hp <;> simp only [List.not_mem_nil, List.mem_cons, or_false] at hp
    · exact ⟨_, _, hp⟩
    · exact hp.elim (fun hp => ⟨_, _, hp⟩) fun hp => ⟨_, _, hp⟩
  | inr hp =>
    cases hp with
    | intro x hx => exact ⟨_, _, hx.2.symm⟩

/-- Queueing a command of a listed requestor puts it behind its queue. -/
theorem enqueueCommand_listed {p : BusPacket} (hlisted : p.requestorID < cfg.numberRequestors) :
    s.enqueueCommand cfg p = { s with
      hrtBuffer := Function.update s.hrtBuffer p.bank (s.hrtBuffer p.bank ++ [{ p with arriveTime := s.clockCycle }]) } :=
  if_pos hlisted

/-- What the loop makes of the queues: each gets its commands, stamped. -/
theorem foldl_enqueueCommand (ps : List BusPacket) (hlisted : ∀ p ∈ ps, p.requestorID < cfg.numberRequestors) :
    ps.foldl (enqueueCommand cfg) s = { s with
      hrtBuffer := fun bank => s.hrtBuffer bank ++
        (ps.filter fun p => p.bank = bank).map fun p => { p with arriveTime := s.clockCycle } } := by
  induction ps generalizing s with
  | nil => simp
  | cons p ps ih =>
    rw [List.forall_mem_cons] at hlisted
    rw [List.foldl_cons, enqueueCommand_listed hlisted.1, ih hlisted.2]
    congr 1
    funext bank
    dsimp only
    by_cases hbank : p.bank = bank
    · rw [← hbank, Function.update_self, List.filter_cons_of_pos (by simp), List.map_cons, List.append_assoc,
        List.singleton_append]
    · rw [Function.update_of_ne (Ne.symm hbank), List.filter_cons_of_neg (by simpa using hbank)]

/-- What `enqueueCommands` makes of the state. -/
theorem enqueueCommands_eq (hlisted : ∀ p ∈ s.commandBuffer, p.requestorID < cfg.numberRequestors) :
    s.enqueueCommands cfg = { s with
      hrtBuffer := fun bank => s.hrtBuffer bank ++
        (s.commandBuffer.filter fun p => p.bank = bank).map fun p => { p with arriveTime := s.clockCycle }
      commandBuffer := [] } := by
  rw [enqueueCommands, foldl_enqueueCommand s.commandBuffer hlisted]

/-! ## Frames -/

/-- The scheduler of requests leaves the commands that are queued as they are. -/
theorem requestSchedule_frame (cfg : MemoryConfig) (s : MemorySystem) :
    ∃ generalBuffer bankTable first commandBuffer,
      s.requestSchedule cfg = { s with generalBuffer, bankTable, first, commandBuffer } := by
  let P : MemorySystem → Prop := fun s' => ∃ generalBuffer bankTable first commandBuffer,
    s' = { s with generalBuffer, bankTable, first, commandBuffer }
  have hschedule : ∀ s' index r, P s' → s'.generalBuffer[index]? = some r → P (s'.schedule cfg index r) := by
    intro s' index r h _
    obtain ⟨_, _, _, _, h⟩ := h
    rw [h]
    exact ⟨_, _, _, _, rfl⟩
  have hs : P s := ⟨_, _, _, _, rfl⟩
  exact requestSchedule_keeps hschedule hs

/-- Queueing changes the queues only. -/
theorem enqueueCommands_frame (cfg : MemoryConfig) (s : MemorySystem) :
    ∃ hrtBuffer srtBuffer, s.enqueueCommands cfg = { s with hrtBuffer, srtBuffer, commandBuffer := [] } := by
  have hfold : ∀ (ps : List BusPacket) (s : MemorySystem), ∃ hrtBuffer srtBuffer,
      ps.foldl (enqueueCommand cfg) s = { s with hrtBuffer, srtBuffer } := by
    intro ps
    induction ps with
    | nil => exact fun s => ⟨_, _, rfl⟩
    | cons p ps ih =>
      intro s
      obtain ⟨hrtBuffer, srtBuffer, h⟩ := ih (s.enqueueCommand cfg p)
      rw [List.foldl_cons, h, enqueueCommand]
      dsimp only
      split_ifs <;> exact ⟨_, _, rfl⟩
  obtain ⟨hrtBuffer, srtBuffer, h⟩ := hfold s.commandBuffer s
  rw [enqueueCommands, h]
  exact ⟨_, _, rfl⟩

/-- The objects change in their sizes only. -/
theorem shareSizes_unsized (pending queue : List Request) :
    (shareSizes pending queue).map Request.unsized = queue.map Request.unsized := by
  rw [shareSizes, List.map_map]
  apply List.map_congr_left
  intro r _
  rw [Function.comp_apply]
  cases pending.find? fun p => p.handle = r.handle <;> rfl

/-- The data of writes are apart from the commands, but for the sizes of what is queued. -/
theorem updateSendData_frame (cfg : MemoryConfig) (s : MemorySystem) :
    ∃ generalBuffer sendData pendingWriteRequest written,
      generalBuffer.map Request.unsized = s.generalBuffer.map Request.unsized ∧
      s.updateSendData cfg = { s with generalBuffer, sendData, pendingWriteRequest, written } := by
  rw [updateSendData]
  split
  · exact ⟨_, _, _, _, shareSizes_unsized _ _, rfl⟩
  · exact ⟨_, _, _, _, rfl, rfl⟩

/-- So are the data of reads. -/
theorem updateDevice_frame (cfg : MemoryConfig) (s : MemorySystem) :
    ∃ generalBuffer pendingReadData pendingReadRequest returned,
      generalBuffer.map Request.unsized = s.generalBuffer.map Request.unsized ∧
      s.updateDevice cfg = { s with generalBuffer, pendingReadData, pendingReadRequest, returned } := by
  rw [updateDevice]
  split
  · exact ⟨_, _, _, _, shareSizes_unsized _ _, rfl⟩
  · exact ⟨_, _, _, _, rfl, rfl⟩

/-- The first part of a cycle. -/
def prepare (cfg : MemoryConfig) (s : MemorySystem) : MemorySystem := (s.requestSchedule cfg).enqueueCommands cfg

/-- The last part of a cycle. -/
def finish (cfg : MemoryConfig) (s : MemorySystem) : MemorySystem := (s.updateSendData cfg).tick.updateDevice cfg

/-- Before a command is sent, no time passes. -/
theorem prepare_frame (cfg : MemoryConfig) (s : MemorySystem) :
    ∃ generalBuffer bankTable first hrtBuffer srtBuffer,
      s.prepare cfg = { s with generalBuffer, bankTable, first, hrtBuffer, srtBuffer, commandBuffer := [] } := by
  obtain ⟨_, _, _, _, hschedule⟩ := requestSchedule_frame cfg s
  obtain ⟨_, _, henqueue⟩ := enqueueCommands_frame cfg (s.requestSchedule cfg)
  rw [prepare, henqueue, hschedule]
  exact ⟨_, _, _, _, _, rfl⟩

/-- After a command is sent, only data go on, and the timers; of what is queued, sizes may change. -/
theorem finish_frame (cfg : MemoryConfig) (s : MemorySystem) :
    ∃ generalBuffer sendData pendingReadData pendingWriteRequest pendingReadRequest written returned,
      generalBuffer.map Request.unsized = s.generalBuffer.map Request.unsized ∧ s.finish cfg = { s with
        generalBuffer, sendData, pendingReadData, pendingWriteRequest, pendingReadRequest, written, returned
        cmdQueueTimer := fun index type => s.cmdQueueTimer index type - 1
        clockCycle := s.clockCycle + 1 } := by
  obtain ⟨_, _, _, _, hsizes, hsend⟩ := updateSendData_frame cfg s
  obtain ⟨_, _, _, _, hsizes', hdevice⟩ := updateDevice_frame cfg (s.updateSendData cfg).tick
  rw [hsend] at hsizes'
  rw [finish, hdevice, hsend]
  exact ⟨_, _, _, _, _, _, _, hsizes'.trans hsizes, rfl⟩

/-- A cycle prepares, sends the head of a queue if it is ready and the device lets it pass, and finishes. -/
theorem update_cases (cfg : MemoryConfig) (s : MemorySystem) :
    (s.prepare cfg).commandSchedule cfg = none ∧ s.update cfg = (s.prepare cfg).finish cfg ∨
      ∃ p index, index < cfg.queueNumber ∧
        (s.prepare cfg).hrtBuffer index = p :: ((s.prepare cfg).hrtBuffer index).tail ∧
        (s.prepare cfg).isReady p index = true ∧ (s.prepare cfg).isIssuable cfg p = true ∧
        s.update cfg = ((s.prepare cfg).sendCommand cfg p index).finish cfg := by
  change _ ∧ ((s.prepare cfg).updateCommand cfg).finish cfg = _ ∨ ∃ p index, _ ∧ _ ∧ _ ∧ _ ∧
    ((s.prepare cfg).updateCommand cfg).finish cfg = _
  cases updateCommand_cases cfg (s.prepare cfg) with
  | inl hnone => exact .inl ⟨hnone.1, by rw [hnone.2]⟩
  | inr hsend =>
    obtain ⟨p, index, hindex, hqueue, hready, hissuable, hsend⟩ := hsend
    exact .inr ⟨p, index, hindex, hqueue, hready, hissuable, by rw [hsend]⟩

/-- The buffer of the generator is empty between steps. -/
theorem commandBuffer_inductive (cfg : MemoryConfig) : (system cfg).Inductive fun s => s.commandBuffer = [] where
  init s hs := by
    have hstart : s = initial cfg := hs
    rw [hstart]
    rfl
  step s l s' _ h hstep := by
    have heq : s' = s.step cfg l := hstep
    rw [heq]
    cases l with
    | addRequest requestorID address isRead size => exact h
    | update =>
      obtain ⟨_, _, _, _, _, hprepare⟩ := prepare_frame cfg s
      change (s.update cfg).commandBuffer = []
      cases update_cases cfg s with
      | inl hnone =>
        obtain ⟨_, _, _, _, _, _, _, _, hfinish⟩ := finish_frame cfg (s.prepare cfg)
        rw [hnone.2, hfinish, hprepare]
      | inr hsend =>
        obtain ⟨p, index, _, _, _, _, hsend⟩ := hsend
        obtain ⟨_, _, _, _, _, _, _, _, hfinish⟩ := finish_frame cfg ((s.prepare cfg).sendCommand cfg p index)
        rw [hsend, hfinish, hprepare]
        rfl

/-! ## The queues -/

/-- The queue of a bank holds commands to that bank, from requestors of the table. -/
def Queued (cfg : MemoryConfig) (s : MemorySystem) : Prop :=
  ∀ index, ∀ p ∈ s.hrtBuffer index, p.bank = index ∧ p.requestorID < cfg.numberRequestors

/-- A command is queued at its bank, if its requestor is listed. -/
theorem Queued.prepare (h : s.Queued cfg) : (s.prepare cfg).Queued cfg := by
  have henqueue : ∀ (ps : List BusPacket) (s : MemorySystem), s.Queued cfg →
      (ps.foldl (enqueueCommand cfg) s).Queued cfg := by
    intro ps
    induction ps with
    | nil => exact fun _ h => h
    | cons p ps ih =>
      intro s h
      apply ih
      rw [enqueueCommand]
      dsimp only
      split_ifs with hlisted
      · intro index q hq
        change q ∈ Function.update s.hrtBuffer p.bank _ index at hq
        rw [Function.update_apply] at hq
        split_ifs at hq with hindex
        · cases List.mem_append.1 hq with
          | inl hq => exact hindex ▸ h p.bank q hq
          | inr hq =>
            rw [List.mem_singleton.1 hq]
            exact ⟨hindex.symm, hlisted⟩
        · exact h index q hq
      · exact h
  obtain ⟨_, _, _, _, hschedule⟩ := requestSchedule_frame cfg s
  have hrest : (s.requestSchedule cfg).Queued cfg := by
    rw [hschedule]
    exact h
  exact henqueue _ _ hrest

/-- Taking a command from a queue leaves the others. -/
theorem Queued.sendCommand (h : s.Queued cfg) (p : BusPacket) (index : Nat) : (s.sendCommand cfg p index).Queued cfg := by
  intro i q hq
  change q ∈ Function.update s.hrtBuffer index (s.hrtBuffer index).tail i at hq
  rw [Function.update_apply] at hq
  split_ifs at hq with hi
  · exact hi ▸ h index q (List.mem_of_mem_tail hq)
  · exact h i q hq

/-- The queues hold what they should in every run. -/
theorem queued_inductive (cfg : MemoryConfig) : (system cfg).Inductive (Queued cfg) where
  init s hs := by
    have hstart : s = initial cfg := hs
    rw [hstart]
    exact fun _ _ hp => absurd hp List.not_mem_nil
  step s l s' _ h hstep := by
    have heq : s' = s.step cfg l := hstep
    rw [heq]
    cases l with
    | addRequest requestorID address isRead size => exact h
    | update =>
      change (s.update cfg).Queued cfg
      cases update_cases cfg s with
      | inl hnone =>
        obtain ⟨_, _, _, _, _, _, _, _, hfinish⟩ := finish_frame cfg (s.prepare cfg)
        rw [hnone.2, hfinish]
        exact h.prepare
      | inr hsend =>
        obtain ⟨p, index, _, _, _, _, hsend⟩ := hsend
        obtain ⟨_, _, _, _, _, _, _, _, hfinish⟩ := finish_frame cfg ((s.prepare cfg).sendCommand cfg p index)
        rw [hsend, hfinish]
        exact h.prepare.sendCommand p index

end Octopus.MCsim.MemorySystem
