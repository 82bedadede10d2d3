import Octopus.MCsim.Steps

/-!
# The rows of the banks

A bank has one row open at most. It has to be closed to be activated, and open at the row of a read or a write. The
scheduler keeps no state of the banks; it remembers the row that it last asked for and generates commands as if
all those before them had been sent. The commands of a bank that were sent, are queued and are still to be queued are
its timeline. Only the generator lengthens a timeline, so it is enough that it does so with commands that the bank can
take.
-/

namespace Octopus.MCsim

/-- What a command makes of the open row of its bank; `none` where the bank cannot take it. -/
def rowStep (openRow : Option Nat) (p : BusPacket) : Option (Option Nat) :=
  match p.busPacketType with
  | .act => if openRow = none then some (some p.row) else none
  | .pre => if openRow = none then none else some none
  | .rd | .wr => if openRow = some p.row then some openRow else none

/-- What commands make of the open row of a bank. -/
def rowRun (openRow : Option Nat) (ps : List BusPacket) : Option (Option Nat) := ps.foldlM rowStep openRow

/-- Commands after others. -/
theorem rowRun_append (openRow : Option Nat) (ps qs : List BusPacket) :
    rowRun openRow (ps ++ qs) = (rowRun openRow ps).bind fun row => rowRun row qs := by
  rw [rowRun, List.foldlM_append]
  rfl

/-- A command without the cycle in which it was queued. -/
def BusPacket.untimed (p : BusPacket) : BusPacket := { p with arriveTime := 0 }

/-- The cycle in which a command was queued does not matter to its bank. -/
theorem rowRun_untimed (openRow : Option Nat) (ps : List BusPacket) :
    rowRun openRow (ps.map BusPacket.untimed) = rowRun openRow ps := by
  induction ps generalizing openRow with
  | nil => rfl
  | cons p ps ih =>
    rw [List.map_cons, rowRun, List.foldlM_cons, rowRun, List.foldlM_cons]
    exact congrArg _ (funext fun row => ih row)

namespace MemorySystem

variable {cfg : MemoryConfig} {s s' : MemorySystem}

/-- The commands that were sent to a bank, the oldest first. -/
def sent (s : MemorySystem) (bank : Nat) : List BusPacket :=
  (s.issued.reverse.map Prod.fst).filter fun p => p.bank = bank

/-- The commands of a bank: sent, queued, and still to be queued. -/
def timeline (s : MemorySystem) (bank : Nat) : List BusPacket :=
  (s.sent bank ++ s.hrtBuffer bank ++ s.commandBuffer.filter fun p => p.bank = bank).map BusPacket.untimed

/-! ## Timelines -/

/-- Scheduling a request lengthens the timeline of its bank by its commands. -/
theorem schedule_timeline (index : Nat) (r : Request) (bank : Nat) :
    (s.schedule cfg index r).timeline bank = s.timeline bank ++
      if r.bank = bank then (commands cfg r (s.isRowHit r) (s.first r.bank)).map BusPacket.untimed else [] := by
  have hbank : ∀ p ∈ commands cfg r (s.isRowHit r) (s.first r.bank), p.bank = r.bank := by
    intro p hp
    cases mem_commands hp with
    | intro type h =>
      cases h with
      | intro column h =>
        rw [h]
        rfl
  rw [timeline, timeline]
  change (s.sent bank ++ s.hrtBuffer bank ++ List.filter _ (s.commandBuffer ++ _)).map _ = _
  rw [List.filter_append, ← List.append_assoc, List.map_append]
  congr 1
  split_ifs with h
  · rw [List.filter_eq_self.2 fun p hp => decide_eq_true ((hbank p hp).trans h)]
  · rw [List.filter_eq_nil_iff.2 fun p hp => by simpa using fun heq => h ((hbank p hp).symm.trans heq)]
    rfl

/-- Queueing leaves every timeline as it is. -/
theorem enqueueCommands_timeline (hlisted : ∀ p ∈ s.commandBuffer, p.requestorID < cfg.numberRequestors)
    (bank : Nat) : (s.enqueueCommands cfg).timeline bank = s.timeline bank := by
  rw [enqueueCommands_eq hlisted, timeline, timeline]
  change (s.sent bank ++ _ ++ []).map _ = _
  simp only [List.append_nil, ← List.append_assoc, List.map_append, List.map_map]
  rfl

/-- Sending the head of the queue of its bank leaves every timeline as it is. -/
theorem sendCommand_timeline {p : BusPacket} {rest : List BusPacket} (hqueue : s.hrtBuffer p.bank = p :: rest)
    (bank : Nat) : (s.sendCommand cfg p p.bank).timeline bank = s.timeline bank := by
  have hsent : (s.sendCommand cfg p p.bank).sent bank = s.sent bank ++ if p.bank = bank then [p] else [] := by
    change List.filter _ (((p, s.clockCycle) :: s.issued).reverse.map Prod.fst) = _
    rw [List.reverse_cons, List.map_append, List.filter_append, sent]
    by_cases hbank : p.bank = bank <;> simp [hbank]
  have hrest : (s.sendCommand cfg p p.bank).hrtBuffer bank = if p.bank = bank then rest else s.hrtBuffer bank := by
    change Function.update s.hrtBuffer p.bank (s.hrtBuffer p.bank).tail bank = _
    by_cases hbank : p.bank = bank
    · rw [← hbank, Function.update_self, hqueue, if_pos rfl]
      rfl
    · rw [Function.update_of_ne (Ne.symm hbank), if_neg hbank]
  rw [timeline, timeline, hsent, hrest]
  by_cases hbank : p.bank = bank
  · rw [if_pos hbank, if_pos hbank, ← hbank, hqueue, List.append_assoc (s.sent p.bank), List.singleton_append]
    rfl
  · rw [if_neg hbank, if_neg hbank, List.append_nil]
    rfl

/-! ## The invariant -/

/-- A label whose request comes from a requestor of the table. -/
def FromListed (cfg : MemoryConfig) (_ : MemorySystem) : MemoryLabel → Prop
  | .addRequest requestorID _ _ _ => requestorID < cfg.numberRequestors
  | .update => True

/-- The banks can take the commands of their timelines, and the table of rows tells what they end in. -/
structure Rows (cfg : MemoryConfig) (s : MemorySystem) : Prop where
  timeline : ∀ bank, rowRun none (s.timeline bank) = some (s.bankTable 0 bank)
  first : ∀ bank, s.first bank = (s.bankTable 0 bank).isNone
  bank : ∀ index, ∀ p ∈ s.hrtBuffer index, p.bank = index
  requests : ∀ r ∈ s.generalBuffer, r.requestorID < cfg.numberRequestors ∧ r.rank = 0
  listed : ∀ p ∈ s.commandBuffer, p.requestorID < cfg.numberRequestors

/-- The commands of a request open its row, if the table tells the row of its bank. -/
theorem rowRun_commands (r : Request) (openRow : Option Nat) :
    rowRun openRow (commands cfg r (openRow == some r.row) openRow.isNone) = some (some r.row) := by
  have haccess : ∀ columns : List Nat, rowRun (some r.row) (columns.map fun x =>
      packet r (if r.requestType = .dataWrite then .wr else .rd) (r.col + x)) = some (some r.row) := by
    intro columns
    induction columns with
    | nil => rfl
    | cons x columns ih =>
      rw [List.map_cons, rowRun, List.foldlM_cons]
      have hstep : rowStep (some r.row) (packet r (if r.requestType = .dataWrite then .wr else .rd) (r.col + x)) =
          some (some r.row) := by
        split_ifs
        · exact if_pos rfl
        · exact if_pos rfl
      rw [hstep]
      exact ih
  rw [commands, rowRun_append]
  cases openRow with
  | none => exact haccess _
  | some row =>
    by_cases hrow : row = r.row
    · rw [hrow, beq_self_eq_true]
      exact haccess _
    · rw [beq_false_of_ne (by simpa using hrow)]
      exact haccess _

/-- Scheduling a request of the queue keeps the invariant. -/
theorem Rows.scheduled (h : s.Rows cfg) {index : Nat} {r : Request} (hr : s.generalBuffer[index]? = some r) :
    (s.schedule cfg index r).Rows cfg := by
  have hrequest := h.requests r (List.mem_of_getElem? hr)
  have htable : ∀ bank, (s.schedule cfg index r).bankTable 0 bank =
      if r.bank = bank then some r.row else s.bankTable 0 bank := by
    intro bank
    change Function.update s.bankTable r.rank _ 0 bank = _
    rw [hrequest.2, Function.update_self, Function.update_apply]
    split_ifs with h1 h2 h2
    · rfl
    · exact absurd h1.symm h2
    · exact absurd h2.symm h1
    · rfl
  constructor
  · intro bank
    rw [schedule_timeline, rowRun_append, h.timeline, Option.bind_some, htable]
    split_ifs with hbank
    · rw [rowRun_untimed, isRowHit, h.first, hbank]
      exact rowRun_commands r _
    · rfl
  · intro bank
    rw [htable]
    change (if s.isRowHit r = true then s.first else Function.update s.first r.bank false) bank = _
    by_cases hbank : r.bank = bank
    · rw [if_pos hbank, Option.isNone_some, ← hbank]
      split_ifs with hhit
      · rw [h.first, eq_of_beq hhit]
        rfl
      · rw [Function.update_self]
    · rw [if_neg hbank, ← h.first]
      split_ifs
      · rfl
      · rw [Function.update_of_ne (Ne.symm hbank)]
  · exact h.bank
  · exact fun r' hr' => h.requests r' (List.mem_of_mem_eraseIdx hr')
  · intro p hp
    cases List.mem_append.1 hp with
    | inl hp => exact h.listed p hp
    | inr hp =>
      have hfrom : p.requestorID = r.requestorID := by
        cases mem_commands hp with
        | intro type h =>
          cases h with
          | intro column h =>
            rw [h]
            rfl
      rw [hfrom]
      exact hrequest.1

/-- A request of a listed requestor keeps the invariant. -/
theorem Rows.addRequest (h : s.Rows cfg) {requestorID : Nat} (hlisted : requestorID < cfg.numberRequestors)
    (address : Nat) (isRead : Bool) (size : Nat) : (s.addRequest cfg requestorID address isRead size).Rows cfg where
  timeline := h.timeline
  first := h.first
  bank := h.bank
  requests r hr := by
    cases List.mem_append.1 hr with
    | inl hr => exact h.requests r hr
    | inr hr =>
      rw [List.mem_singleton.1 hr]
      exact ⟨hlisted, (request_place _ _ _ _ _ _ _).1⟩
  listed := h.listed

/-- Queueing the commands keeps the invariant. -/
theorem Rows.enqueueCommands (h : s.Rows cfg) : (s.enqueueCommands cfg).Rows cfg := by
  have heq := enqueueCommands_eq h.listed
  refine ⟨fun bank => ?_, ?_, ?_, ?_, ?_⟩
  · rw [enqueueCommands_timeline h.listed, heq]
    exact h.timeline bank
  · rw [heq]
    exact h.first
  · rw [heq]
    intro index p hp
    cases List.mem_append.1 hp with
    | inl hp => exact h.bank index p hp
    | inr hp =>
      cases List.mem_map.1 hp with
      | intro q hq =>
        rw [← hq.2]
        exact of_decide_eq_true (List.mem_filter.1 hq.1).2
  · rw [heq]
    exact h.requests
  · rw [heq]
    exact fun p hp => absurd hp List.not_mem_nil

/-- Sending the head of a queue keeps the invariant. -/
theorem Rows.sendCommand (h : s.Rows cfg) {p : BusPacket} {index : Nat}
    (hqueue : s.hrtBuffer index = p :: (s.hrtBuffer index).tail) : (s.sendCommand cfg p index).Rows cfg := by
  have hbank := h.bank index p (by rw [hqueue]; exact List.mem_cons_self)
  rw [← hbank] at hqueue ⊢
  refine ⟨fun bank => ?_, h.first, fun i q hq => ?_, h.requests, h.listed⟩
  · rw [sendCommand_timeline hqueue]
    exact h.timeline bank
  · change q ∈ Function.update s.hrtBuffer p.bank (s.hrtBuffer p.bank).tail i at hq
    rw [Function.update_apply] at hq
    split_ifs at hq with hi
    · rw [hi]
      exact h.bank p.bank q (List.mem_of_mem_tail hq)
    · exact h.bank i q hq

/-- The rest of a cycle keeps the invariant. -/
theorem Rows.finish (h : s.Rows cfg) : (s.finish cfg).Rows cfg := by
  obtain ⟨_, _, _, _, _, _, _, hsizes, hfinish⟩ := finish_frame cfg s
  rw [hfinish]
  refine ⟨h.timeline, h.first, h.bank, fun r hr => ?_, h.listed⟩
  have hmem := List.mem_map_of_mem (f := Request.unsized) hr
  rw [hsizes] at hmem
  obtain ⟨r', hr', heq⟩ := List.mem_map.1 hmem
  have hplace := h.requests r' hr'
  exact ⟨congrArg Request.requestorID heq ▸ hplace.1, (congrArg Request.rank heq).symm.trans hplace.2⟩

/-- A cycle keeps the invariant. -/
theorem Rows.update (h : s.Rows cfg) : (s.update cfg).Rows cfg := by
  have hprepare : (s.prepare cfg).Rows cfg :=
    (requestSchedule_keeps (fun _ _ _ h hr => Rows.scheduled h hr) h).enqueueCommands
  cases update_cases cfg s with
  | inl hnone =>
    rw [hnone.2]
    exact hprepare.finish
  | inr hsend =>
    obtain ⟨p, index, _, hqueue, _, _, hsend⟩ := hsend
    rw [hsend]
    exact (hprepare.sendCommand hqueue).finish

/-- The invariant holds in every run of listed requestors. -/
theorem rows_inductive (cfg : MemoryConfig) : ((system cfg).restrict (FromListed cfg)).Inductive (Rows cfg) where
  init s hs := by
    have hstart : s = initial cfg := hs
    rw [hstart]
    exact ⟨fun _ => rfl, fun _ => rfl, fun _ p hp => absurd hp List.not_mem_nil,
      fun r hr => absurd hr List.not_mem_nil, fun p hp => absurd hp List.not_mem_nil⟩
  step s l s' _ h hstep := by
    have heq : s' = s.step cfg l := hstep.2
    rw [heq]
    cases l with
    | addRequest requestorID address isRead size => exact h.addRequest hstep.1 address isRead size
    | update => exact h.update

/-- The commands of every bank respect its rows, in every run whose requests come from requestors of the table and
whatever their order: a bank is activated when it is closed, precharged when it is open, and read or written where it
is open; and once the queue of a bank is empty, the row that the scheduler remembers is the open one. -/
theorem rows_respected (hr : ((system cfg).restrict (FromListed cfg)).Reachable s) (bank : Nat) :
    ∃ openRow, rowRun none (s.sent bank) = some openRow ∧
      (s.hrtBuffer bank = [] → openRow = s.bankTable 0 bank) := by
  have hbuffer := (commandBuffer_inductive cfg).reachable hr.of_restrict
  have h := ((rows_inductive cfg).reachable hr).timeline bank
  rw [MemorySystem.timeline, rowRun_untimed, List.append_assoc, rowRun_append, Option.bind_eq_some_iff] at h
  cases h with
  | intro openRow h =>
    refine ⟨openRow, h.1, fun hqueue => ?_⟩
    have hrest := h.2
    rw [hqueue, hbuffer] at hrest
    exact Option.some.inj hrest

/-- A run of two reads of different rows of the first bank. -/
def twoRows : MemorySystem :=
  run twoRequestors ([.addRequest 0 0 true 64, .addRequest 1 (2 ^ 18) true 64] ++ List.replicate 80 .update)

/-- In the end the second row is open. -/
theorem rows_respected_twoRows : rowRun none (twoRows.sent 0) = some (some 2) := by
  have hr : ((system twoRequestors).restrict (FromListed twoRequestors)).Reachable twoRows := by
    apply run_reachable_restrict
    intro l hl s
    rw [List.mem_append, List.mem_cons, List.mem_singleton, List.mem_replicate] at hl
    rcases hl with (hl | hl) | hl
    · rw [hl]
      exact Nat.two_pos
    · rw [hl]
      exact Nat.one_lt_two
    · rw [hl.2]
      trivial
  have hqueue : twoRows.hrtBuffer 0 = [] := by decide +kernel
  have htable : twoRows.bankTable 0 0 = some 2 := by decide +kernel
  cases rows_respected hr 0 with
  | intro openRow h => rw [h.1, h.2 hqueue, htable]

-- a requestor that is not in the table: its write is never sent, but the scheduler remembers its row
example : rowRun none ((run twoRequestors
    ([.addRequest 7 0 false 64, .addRequest 1 64 true 64] ++ List.replicate 2 .update)).sent 0) = none := by decide

end MemorySystem

end Octopus.MCsim
