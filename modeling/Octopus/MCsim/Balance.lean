import Octopus.MCsim.Objects
import Mathlib.Algebra.BigOperators.Group.Finset.Piecewise
import Mathlib.Algebra.Order.BigOperators.Group.List

/-!
# The balance of bursts

Data find their request by requestor and address, whatever request they were sent for. While no two pending requests of
a type are for the same data, that is as good as if each burst knew its request: for each pair of the two, the bursts
that the pending requests still wait for are exactly those that are on their way. So data never find no request, and
no request is left without data.
-/

namespace Octopus.MCsim.MemorySystem

variable {cfg : MemoryConfig} {s s' : MemorySystem} {type : RequestType} {data : DataPacket}

/-- The bursts of some data that requests ask for. -/
def asked (cfg : MemoryConfig) (data : DataPacket) (rs : List Request) : Nat :=
  (rs.map fun r => if r.data = data then r.requestSize / cfg.dataBusWidth else 0).sum

/-- The commands of a kind in the queues of all banks. -/
def queued (cfg : MemoryConfig) (s : MemorySystem) (P : BusPacket → Bool) : Nat :=
  ∑ bank ∈ Finset.range cfg.queueNumber, (s.hrtBuffer bank).countP P

/-- The bursts of some data whose command is still to be sent. -/
def unsent (cfg : MemoryConfig) (s : MemorySystem) (type : RequestType) (data : DataPacket) : Nat :=
  asked cfg data (s.waiting type) + s.commandBuffer.countP (BusPacket.bursts type data) +
    s.queued cfg (BusPacket.bursts type data)

/-- The bursts of some data that are on their way. -/
def carried (data : DataPacket) (ds : List (DataPacket × Nat)) : Nat := ds.countP fun d => d.1 = data

/-! ## Counting -/

/-- Requests after others. -/
theorem asked_append (rs rs' : List Request) : asked cfg data (rs ++ rs') = asked cfg data rs + asked cfg data rs' := by
  rw [asked, List.map_append, List.sum_append]
  rfl

/-- The order of requests does not matter. -/
theorem asked_perm (cfg : MemoryConfig) (data : DataPacket) {rs rs' : List Request} (h : rs.Perm rs') :
    asked cfg data rs = asked cfg data rs' :=
  (h.map _).sum_eq

/-- Every command to a bank is in the queue of the bank. -/
theorem sum_countP_bank {n : Nat} {ps : List BusPacket} (hbank : ∀ p ∈ ps, p.bank < n) (P : BusPacket → Bool) :
    ∑ bank ∈ Finset.range n, (ps.filter fun p => p.bank = bank).countP P = ps.countP P := by
  induction ps with
  | nil => exact Finset.sum_const_zero
  | cons p ps ih =>
    rw [List.forall_mem_cons] at hbank
    rw [List.countP_cons, ← ih hbank.2]
    have hsplit : ∀ bank, ((p :: ps).filter fun p => p.bank = bank).countP P =
        (ps.filter fun p => p.bank = bank).countP P + if bank = p.bank then (if P p then 1 else 0) else 0 := by
      intro bank
      by_cases hp : p.bank = bank
      · rw [List.filter_cons_of_pos (by simpa using hp), List.countP_cons, if_pos hp.symm]
      · rw [List.filter_cons_of_neg (by simpa using hp), if_neg (Ne.symm hp), Nat.add_zero]
    rw [Finset.sum_congr rfl fun bank _ => hsplit bank, Finset.sum_add_distrib, Finset.sum_ite_eq',
      if_pos (Finset.mem_range.2 hbank.1)]

/-- Queueing moves the commands of the generator into the queues. -/
theorem queued_enqueueCommands {P : BusPacket → Bool} (hP : ∀ p time, P { p with arriveTime := time } = P p)
    (hlisted : ∀ p ∈ s.commandBuffer, p.requestorID < cfg.numberRequestors)
    (hbank : ∀ p ∈ s.commandBuffer, p.bank < cfg.queueNumber) :
    (s.enqueueCommands cfg).queued cfg P = s.commandBuffer.countP P + s.queued cfg P := by
  rw [enqueueCommands_eq hlisted, queued, ← sum_countP_bank hbank P, queued, ← Finset.sum_add_distrib]
  apply Finset.sum_congr rfl
  intro bank _
  have hstamp : (P ∘ fun p : BusPacket => { p with arriveTime := s.clockCycle }) = P := funext fun p => hP p _
  rw [List.countP_append, List.countP_map, hstamp, Nat.add_comm]

/-- Sending takes its command from the queues. -/
theorem queued_sendCommand {p : BusPacket} {index : Nat} (hindex : index < cfg.queueNumber)
    (hqueue : s.hrtBuffer index = p :: (s.hrtBuffer index).tail) (P : BusPacket → Bool) :
    (s.sendCommand cfg p index).queued cfg P + (if P p then 1 else 0) = s.queued cfg P := by
  have hmem := Finset.mem_range.2 hindex
  rw [queued, queued, ← Finset.add_sum_erase _ _ hmem, ← Finset.add_sum_erase _ _ hmem]
  have hrest : ∀ bank ∈ (Finset.range cfg.queueNumber).erase index,
      ((s.sendCommand cfg p index).hrtBuffer bank).countP P = (s.hrtBuffer bank).countP P := by
    intro bank hbank
    change (Function.update s.hrtBuffer index (s.hrtBuffer index).tail bank).countP P = _
    rw [Function.update_of_ne (Finset.ne_of_mem_erase hbank)]
  have hhead : ((s.sendCommand cfg p index).hrtBuffer index).countP P + (if P p then 1 else 0) =
      (s.hrtBuffer index).countP P := by
    change (Function.update s.hrtBuffer index (s.hrtBuffer index).tail index).countP P + _ = _
    rw [Function.update_self, ← List.countP_cons, ← hqueue]
  rw [Finset.sum_congr rfl hrest]
  omega

/-- The commands of a request for its own bursts, and for no others. -/
theorem countP_commands (cfg : MemoryConfig) (type : RequestType) (data : DataPacket) (r : Request)
    (isOpen first : Bool) :
    (commands cfg r isOpen first).countP (BusPacket.bursts type data) =
      if r.requestType = type ∧ r.data = data then r.requestSize / cfg.dataBusWidth else 0 := by
  have haccess : (BusPacket.bursts type data ∘ fun x =>
      packet r (if r.requestType = .dataWrite then .wr else .rd) (r.col + x)) =
        fun _ => decide (r.requestType = type ∧ r.data = data) := by
    funext x
    rw [Function.comp_apply, BusPacket.bursts]
    congr 1
    cases type <;> cases r.requestType <;> simp [packet, RequestType.access, BusPacket.data, Request.data]
  have hactivation : ∀ type' column, type' ≠ .rd → type' ≠ .wr →
      BusPacket.bursts type data (packet r type' column) = false := by
    intro type' column hrd hwr
    rw [BusPacket.bursts, decide_eq_false_iff_not]
    cases type with
    | dataRead => exact fun h => hrd h.1
    | dataWrite => exact fun h => hwr h.1
  rw [commands, List.countP_append, List.countP_map]
  have hnone : List.countP (BusPacket.bursts type data) (if isOpen = true then [] else if first = true then
      [packet r .act r.col] else [packet r .pre r.col, packet r .act r.col]) = 0 := by
    split_ifs <;> simp [hactivation]
  rw [hnone, Nat.zero_add, haccess]
  by_cases h : r.requestType = type ∧ r.data = data
  · rw [if_pos h, List.countP_eq_length.2 fun _ _ => decide_eq_true h, List.length_range]
  · rw [if_neg h, List.countP_eq_zero.2 fun _ _ => by simpa using h]

/-- What arrives was on its way, and the rest still is. -/
theorem carried_arriving (type : RequestType) (data : DataPacket) (ds : List (DataPacket × Nat)) :
    carried data (arriving type ds).2 + (if (arriving type ds).1 = some data then 1 else 0) = carried data ds := by
  have hcount : ∀ l : List (DataPacket × Nat), carried data (countDown l) = carried data l := by
    intro l
    rw [carried, countDown, List.countP_map]
    rfl
  have hcons : ∀ (d : DataPacket) (n : Nat) (l : List (DataPacket × Nat)),
      carried data ((d, n) :: l) = carried data l + if some d = some data then 1 else 0 := by
    intro d n l
    rw [carried, List.countP_cons]
    simp [carried]
  cases type with
  | dataRead =>
    rw [arriving, ← hcount ds]
    cases hds : countDown ds with
    | nil => simp
    | cons d rest =>
      cases d with
      | mk d n =>
        cases n with
        | zero => exact (hcons d 0 rest).symm
        | succ n => simp
  | dataWrite =>
    cases ds with
    | nil => simp [arriving, hcount]
    | cons d rest =>
      cases d with
      | mk d n =>
        cases n with
        | zero =>
          rw [hcons, arriving, hcount]
        | succ n => simp [arriving, hcount]

/-- A request that asks for whole bursts. -/
def Whole (cfg : MemoryConfig) (r : Request) : Prop := 0 < r.requestSize ∧ cfg.dataBusWidth ∣ r.requestSize

/-- A burst has some width. -/
theorem dataBusWidth_pos (cfg : MemoryConfig) : 0 < cfg.dataBusWidth := by
  have hdq : ∀ org, 0 < (orgTable org).dq := by
    intro org
    cases org <;> decide
  exact Nat.mul_pos (hdq cfg.org) (by decide)

/-- Data that some request asks for are taken from what is asked, and from nothing else. -/
theorem burstDone_asked {rs : List Request} (hwhole : ∀ r ∈ rs, Whole cfg r) (hasked : 0 < asked cfg data rs) :
    (∀ r ∈ (burstDone cfg data rs).2, Whole cfg r) ∧ ∀ data',
      asked cfg data' (burstDone cfg data rs).2 + (if data = data' then 1 else 0) = asked cfg data' rs := by
  have hcons : ∀ data' r (rs : List Request), asked cfg data' (r :: rs) =
      (if r.data = data' then r.requestSize / cfg.dataBusWidth else 0) + asked cfg data' rs := fun _ _ _ => rfl
  induction rs with
  | nil => exact absurd hasked (Nat.lt_irrefl 0)
  | cons r rest ih =>
    rw [List.forall_mem_cons] at hwhole
    rw [burstDone]
    simp only [data_eq_iff]
    split_ifs with hdata hsize
    · refine ⟨hwhole.2, fun data' => ?_⟩
      rw [hcons, hsize, Nat.div_self (dataBusWidth_pos cfg), hdata, Nat.add_comm]
    · have hwidth := dataBusWidth_pos cfg
      have hle := Nat.le_of_dvd hwhole.1.1 hwhole.1.2
      have hless : Whole cfg { r with requestSize := r.requestSize - cfg.dataBusWidth } :=
        ⟨Nat.sub_pos_of_lt (Nat.lt_of_le_of_ne hle (Ne.symm hsize)), Nat.dvd_sub hwhole.1.2 (dvd_refl _)⟩
      refine ⟨List.forall_mem_cons.2 ⟨hless, hwhole.2⟩, fun data' => ?_⟩
      have hdiv := Nat.div_eq_sub_div hwidth hle
      rw [hcons, hcons]
      change (if r.data = data' then (r.requestSize - cfg.dataBusWidth) / cfg.dataBusWidth else 0) + _ + _ = _
      rw [hdata]
      split_ifs <;> omega
    · rw [hcons, if_neg hdata, Nat.zero_add] at hasked
      have hrest := ih hwhole.2 hasked
      refine ⟨List.forall_mem_cons.2 ⟨hwhole.1, hrest.1⟩, fun data' => ?_⟩
      rw [hcons, hcons, ← hrest.2 data', Nat.add_assoc]

/-! ## The invariant -/

/-- A label whose request comes from a requestor of the table, asks for whole bursts, and is for other data than the
pending requests of its type. -/
def Regular (cfg : MemoryConfig) (s : MemorySystem) : MemoryLabel → Prop
  | .addRequest requestorID address isRead size => Listed cfg requestorID ∧ (0 < size ∧ cfg.dataBusWidth ∣ size) ∧
      ∀ r ∈ s.pending (if isRead then .dataRead else .dataWrite), r.data ≠ ⟨requestorID, address⟩
  | .update => True

/-- The pending requests of a type wait for what is on its way. -/
structure Balanced (cfg : MemoryConfig) (type : RequestType) (s : MemorySystem) : Prop where
  requests : ∀ r ∈ s.generalBuffer, Listed cfg r.requestorID ∧ r.bank < cfg.queueNumber ∧ Whole cfg r
  commands : ∀ p ∈ s.commandBuffer, Listed cfg p.requestorID ∧ p.bank < cfg.queueNumber
  whole : ∀ r ∈ s.pending type, Whole cfg r
  bursts : ∀ data, asked cfg data (s.pending type) = s.unsent cfg type data + carried data (s.inFlight type)

/-- Scheduling a request turns it into commands. -/
theorem schedule_unsent {index : Nat} {r : Request} (hr : s.generalBuffer[index]? = some r) (data : DataPacket) :
    (s.schedule cfg index r).unsent cfg type data = s.unsent cfg type data := by
  have hperm : (r :: s.generalBuffer.eraseIdx index).Perm s.generalBuffer := by
    obtain ⟨hlt, hget⟩ := List.getElem?_eq_some_iff.1 hr
    rw [← hget]
    exact List.getElem_cons_eraseIdx_perm hlt
  have hwaiting := asked_perm cfg data (hperm.filter fun r => decide (r.requestType = type))
  have hcommands := countP_commands cfg type data r (s.isRowHit r) (s.first r.bank)
  have hbuffer : (s.schedule cfg index r).commandBuffer =
      s.commandBuffer ++ commands cfg r (s.isRowHit r) (s.first r.bank) := rfl
  have hqueued : (s.schedule cfg index r).queued cfg = s.queued cfg := rfl
  have hrest : (s.schedule cfg index r).waiting type =
      (s.generalBuffer.eraseIdx index).filter fun r => decide (r.requestType = type) := rfl
  rw [unsent, unsent, hbuffer, hqueued, hrest, List.countP_append, hcommands, waiting, ← hwaiting]
  by_cases htype : r.requestType = type
  · rw [List.filter_cons_of_pos (by simpa using htype)]
    change _ = (if r.data = data then _ else 0) + asked cfg data _ + _ + _
    simp only [htype, true_and]
    omega
  · rw [List.filter_cons_of_neg (by simpa using htype), if_neg fun h => htype h.1]
    rfl

/-- Scheduling a request keeps the balance. -/
theorem Balanced.scheduled (h : s.Balanced cfg type) {index : Nat} {r : Request}
    (hr : s.generalBuffer[index]? = some r) : (s.schedule cfg index r).Balanced cfg type := by
  refine ⟨fun r' hr' => h.requests r' (List.mem_of_mem_eraseIdx hr'), fun p hp => ?_, ?_, fun data => ?_⟩
  · cases List.mem_append.1 hp with
    | inl hp => exact h.commands p hp
    | inr hp =>
      obtain ⟨_, _, hpacket⟩ := mem_commands hp
      rw [hpacket]
      have hrequest := h.requests r (List.mem_of_getElem? hr)
      exact ⟨hrequest.1, hrequest.2.1⟩
  · cases type <;> exact h.whole
  · rw [schedule_unsent hr]
    cases type <;> exact h.bursts data

/-- Queueing commands keeps the balance. -/
theorem Balanced.enqueueCommands (h : s.Balanced cfg type) : (s.enqueueCommands cfg).Balanced cfg type := by
  have heq := enqueueCommands_eq fun p hp => (h.commands p hp).1
  have hunsent : ∀ data, (s.enqueueCommands cfg).unsent cfg type data = s.unsent cfg type data := by
    intro data
    have hqueued := queued_enqueueCommands (P := BusPacket.bursts type data) (fun _ _ => rfl)
      (fun p hp => (h.commands p hp).1) fun p hp => (h.commands p hp).2
    rw [unsent, unsent, hqueued, heq]
    change asked cfg data (s.waiting type) + 0 + _ = _
    omega
  refine ⟨?_, ?_, ?_, fun data => ?_⟩
  · rw [heq]
    exact h.requests
  · rw [heq]
    exact fun p hp => absurd hp List.not_mem_nil
  · rw [heq]
    cases type <;> exact h.whole
  · rw [hunsent, heq]
    cases type <;> exact h.bursts data

/-- Sending a command sets its data on their way. -/
theorem Balanced.sendCommand (h : s.Balanced cfg type) {p : BusPacket} {index : Nat} (hindex : index < cfg.queueNumber)
    (hqueue : s.hrtBuffer index = p :: (s.hrtBuffer index).tail) : (s.sendCommand cfg p index).Balanced cfg type := by
  refine ⟨h.requests, h.commands, ?_, fun data => ?_⟩
  · cases type <;> exact h.whole
  · have hqueued := queued_sendCommand hindex hqueue (BusPacket.bursts type data)
    have hpending : (s.sendCommand cfg p index).pending type = s.pending type := by cases type <;> rfl
    have hcarried : carried data ((s.sendCommand cfg p index).inFlight type) =
        carried data (s.inFlight type) + if BusPacket.bursts type data p then 1 else 0 := by
      rw [sendCommand_inFlight, carried, List.countP_append, BusPacket.bursts]
      by_cases htype : p.busPacketType = type.access
      · rw [if_pos htype, List.countP_singleton]
        simp [htype, carried]
      · rw [if_neg htype]
        simp [htype, carried]
    rw [hpending, h.bursts, hcarried, unsent, unsent, ← hqueued]
    change asked cfg data (s.waiting type) + s.commandBuffer.countP _ + _ + _ =
      asked cfg data (s.waiting type) + s.commandBuffer.countP _ + _ + _
    omega

/-- What some data are asked for, by the one request that is for them. -/
theorem asked_of_nodup {rs : List Request} (hnodup : (rs.map Request.data).Nodup) {r : Request} (hr : r ∈ rs) :
    asked cfg r.data rs = r.requestSize / cfg.dataBusWidth := by
  induction rs with
  | nil => exact absurd hr List.not_mem_nil
  | cons p rest ih =>
    rw [List.map_cons, List.nodup_cons] at hnodup
    change (if p.data = r.data then p.requestSize / cfg.dataBusWidth else 0) + asked cfg r.data rest = _
    cases List.mem_cons.1 hr with
    | inl hr =>
      have hrest : asked cfg r.data rest = 0 := by
        refine List.sum_eq_zero fun n hn => ?_
        obtain ⟨q, hq, rfl⟩ := List.mem_map.1 hn
        exact if_neg fun hdata => hnodup.1 (List.mem_map.2 ⟨q, hq, hdata.trans (congrArg Request.data hr)⟩)
      rw [hrest, hr, if_pos rfl, Nat.add_zero]
    | inr hr =>
      have hother : p.data ≠ r.data := fun hdata => hnodup.1 (List.mem_map.2 ⟨r, hr, hdata.symm⟩)
      rw [if_neg hother, ih hnodup.2 hr, Nat.zero_add]

/-- A request asks for no more than all requests do. -/
theorem le_asked {rs : List Request} {r : Request} (hr : r ∈ rs) :
    r.requestSize / cfg.dataBusWidth ≤ asked cfg r.data rs := by
  have hmem := List.mem_map_of_mem (f := fun p : Request =>
    if p.data = r.data then p.requestSize / cfg.dataBusWidth else 0) hr
  rw [if_pos rfl] at hmem
  exact List.single_le_sum (fun _ _ => Nat.zero_le _) _ hmem

/-- The data that arrive are for no request of the queue: all that it asks for is still to be sent. -/
theorem Balanced.arriving_ne (h : s.Balanced cfg type) (hdistinct : s.Distinct) {r : Request}
    (hr : r ∈ s.generalBuffer) (htype : r.requestType = type) :
    (arriving type (s.inFlight type)).1 ≠ some r.data := by
  intro harrive
  have hcarried := carried_arriving type r.data (s.inFlight type)
  rw [if_pos harrive] at hcarried
  have hpending : asked cfg r.data (s.pending type) = r.requestSize / cfg.dataBusWidth :=
    asked_of_nodup (hdistinct.data type) (htype ▸ hdistinct.queued r hr)
  have hwaiting : r.requestSize / cfg.dataBusWidth ≤ asked cfg r.data (s.waiting type) :=
    le_asked (List.mem_filter.2 ⟨hr, decide_eq_true htype⟩)
  have hbursts := h.bursts r.data
  rw [unsent] at hbursts
  omega

/-- The data that arrive at the end of a cycle find a request. -/
theorem Balanced.finish (h : s.Balanced cfg type) (hqueue : (s.finish cfg).generalBuffer = s.generalBuffer) :
    (s.finish cfg).Balanced cfg type := by
  obtain ⟨_, _, _, _, _, _, _, _, hfinish⟩ := finish_frame cfg s
  obtain ⟨hinFlight, hpending, _, _⟩ := finish_data cfg s type
  have hreceive : (∀ r ∈ (receive cfg (arriving type (s.inFlight type)).1 (s.pending type)).2, Whole cfg r) ∧
      ∀ data, asked cfg data (receive cfg (arriving type (s.inFlight type)).1 (s.pending type)).2 +
        (if (arriving type (s.inFlight type)).1 = some data then 1 else 0) = asked cfg data (s.pending type) := by
    cases harrive : (arriving type (s.inFlight type)).1 with
    | none => exact ⟨h.whole, fun data => rfl⟩
    | some data =>
      have hcarried := carried_arriving type data (s.inFlight type)
      rw [if_pos harrive] at hcarried
      have hfound : 0 < asked cfg data (s.pending type) := by
        rw [h.bursts data]
        omega
      have hasked := burstDone_asked h.whole hfound
      simp only [Option.some.injEq]
      exact hasked
  refine ⟨?_, ?_, ?_, fun data => ?_⟩
  · rw [hqueue]
    exact h.requests
  · rw [hfinish]
    exact h.commands
  · rw [hpending]
    exact hreceive.1
  · have hunsent : (s.finish cfg).unsent cfg type data = s.unsent cfg type data := by
      rw [unsent, waiting, hqueue, hfinish]
      rfl
    have hcarried := carried_arriving type data (s.inFlight type)
    have hasked := hreceive.2 data
    have hbursts := h.bursts data
    rw [hpending, hinFlight, hunsent]
    omega

/-- There is a queue for every bank. -/
theorem banks_le_queueNumber (cfg : MemoryConfig) : (orgTable cfg.org).banks ≤ cfg.queueNumber := by
  have hgroups : ∀ org, 0 < (orgTable org).bankGroups := by
    intro org
    cases org <;> decide
  exact Nat.le_mul_of_pos_left _ (hgroups cfg.org)

/-- A regular request keeps the balance. -/
theorem Balanced.addRequest (h : s.Balanced cfg type) {requestorID size : Nat} (hlisted : Listed cfg requestorID)
    (hsize : 0 < size ∧ cfg.dataBusWidth ∣ size) (address : Nat) (isRead : Bool) :
    (s.addRequest cfg requestorID address isRead size).Balanced cfg type := by
  obtain ⟨hpending, _, hwaiting, _, hinFlight⟩ := addRequest_data cfg s requestorID address isRead size
    type
  have hplace := request_place cfg s.allocated s.clockCycle requestorID address isRead size
  refine ⟨fun r hr => ?_, h.commands, ?_, fun data => ?_⟩
  · cases List.mem_append.1 hr with
    | inl hr => exact h.requests r hr
    | inr hr =>
      rw [List.mem_singleton.1 hr]
      exact ⟨hlisted, hplace.2.trans_le (banks_le_queueNumber cfg), hsize⟩
  · rw [hpending]
    intro r hr
    cases List.mem_append.1 hr with
    | inl hr => exact h.whole r hr
    | inr hr =>
      split_ifs at hr
      · rw [List.mem_singleton.1 hr]
        exact hsize
      · exact absurd hr List.not_mem_nil
  · have hbursts := h.bursts data
    rw [unsent] at hbursts
    rw [hpending, hinFlight, unsent, hwaiting, asked_append, asked_append]
    change _ = asked cfg data (s.waiting type) + _ + s.commandBuffer.countP _ + s.queued cfg _ + _
    omega

/-- The pending requests are apart, and wait for what is on its way. -/
structure Booked (cfg : MemoryConfig) (s : MemorySystem) : Prop where
  distinct : s.Distinct
  balanced : ∀ type, s.Balanced cfg type

/-- Preparing commands keeps the books. -/
theorem Booked.prepare (h : s.Booked cfg) : (s.prepare cfg).Booked cfg where
  distinct := by
    obtain ⟨_, _, _, _, _, hframe⟩ := prepare_frame cfg s
    refine h.distinct.of_subset (fun type => (prepare_data cfg s type).1) (by rw [hframe]) (by rw [hframe]) ?_
    have hkeep : (s.requestSchedule cfg).generalBuffer ⊆ s.generalBuffer :=
      requestSchedule_keeps (P := fun s' => s'.generalBuffer ⊆ s.generalBuffer)
        (fun s' index r hsub _ _ hr => hsub (List.mem_of_mem_eraseIdx hr)) (List.Subset.refl _)
    obtain ⟨_, _, henqueue⟩ := enqueueCommands_frame cfg (s.requestSchedule cfg)
    rw [MemorySystem.prepare, henqueue]
    exact hkeep
  balanced type :=
    (requestSchedule_keeps (fun _ _ _ h hr => Balanced.scheduled h hr) (h.balanced type)).enqueueCommands

/-- Sending a command keeps the books. -/
theorem Booked.sendCommand (h : s.Booked cfg) {p : BusPacket} {index : Nat} (hindex : index < cfg.queueNumber)
    (hqueue : s.hrtBuffer index = p :: (s.hrtBuffer index).tail) : (s.sendCommand cfg p index).Booked cfg where
  distinct := h.distinct.of_subset (fun type => by cases type <;> rfl) rfl rfl (List.Subset.refl _)
  balanced type := (h.balanced type).sendCommand hindex hqueue

/-- The end of a cycle leaves the queue as it is. -/
theorem Booked.finish_queue (h : s.Booked cfg) : (s.finish cfg).generalBuffer = s.generalBuffer :=
  h.distinct.finish_queue fun r hr => (h.balanced r.requestType).arriving_ne h.distinct hr rfl

/-- The end of a cycle keeps the books. -/
theorem Booked.finish (h : s.Booked cfg) : (s.finish cfg).Booked cfg where
  distinct := h.distinct.finish fun r hr => (h.balanced r.requestType).arriving_ne h.distinct hr rfl
  balanced type := (h.balanced type).finish h.finish_queue

/-- The books are kept in every regular run. -/
theorem booked_inductive (cfg : MemoryConfig) : ((system cfg).restrict (Regular cfg)).Inductive (Booked cfg) where
  init s hs := by
    have hstart : s = initial cfg := hs
    have hqueued : ∀ P, (initial cfg).queued cfg P = 0 := fun P => Finset.sum_const_zero
    rw [hstart]
    refine ⟨.initial cfg, fun type => ⟨fun _ hr => absurd hr List.not_mem_nil,
      fun _ hp => absurd hp List.not_mem_nil, ?_, fun data => ?_⟩⟩
    · cases type <;> exact fun _ hr => absurd hr List.not_mem_nil
    · rw [unsent, hqueued]
      cases type <;> rfl
  step s l s' _ h hstep := by
    have heq : s' = s.step cfg l := hstep.2
    rw [heq]
    cases l with
    | addRequest requestorID address isRead size =>
      exact ⟨h.distinct.addRequest hstep.1.2.2,
        fun type => (h.balanced type).addRequest hstep.1.1 hstep.1.2.1 address isRead⟩
    | update =>
      change (s.update cfg).Booked cfg
      cases update_cases cfg s with
      | inl hnone =>
        rw [hnone.2]
        exact h.prepare.finish
      | inr hsend =>
        obtain ⟨p, index, hindex, hqueue, _, _, hsend⟩ := hsend
        rw [hsend]
        exact (h.prepare.sendCommand hindex hqueue).finish

/-- The books of the memory system: in every regular run and for reads and writes alike, every request that was
accepted is done or pending, once, and the bursts of some data for which the pending requests wait are those whose
command is to be sent and those that are on their way; and what is queued is still pending, as it was accepted. -/
theorem requests_accounted (hr : ((system cfg).restrict (Regular cfg)).Reachable s) (type : RequestType) :
    ((s.completed type ++ s.pending type).map Request.unsized).Perm ((s.acceptedOf type).map Request.unsized) ∧
      (∀ data, asked cfg data (s.pending type) = s.unsent cfg type data + carried data (s.inFlight type)) ∧
      ∀ r ∈ s.generalBuffer, r ∈ s.pending r.requestType ∧ r ∈ s.accepted := by
  have hbooked := (booked_inductive cfg).reachable hr
  exact ⟨(conserved_inductive cfg type).reachable hr.of_restrict, (hbooked.balanced type).bursts,
    fun r hr => ⟨hbooked.distinct.queued r hr, hbooked.distinct.unchanged r hr⟩⟩

/-- A read that is answered. -/
def answered : MemorySystem := run twoRequestors ([.addRequest 0 0 true 64] ++ List.replicate 60 .update)

/-- Then the same data are read again and written. -/
def readAgain : MemorySystem :=
  (List.replicate 20 MemoryLabel.update).foldl (step twoRequestors)
    ((answered.addRequest twoRequestors 0 0 true 192).addRequest twoRequestors 0 0 false 64)

/-- A request of the first requestor continues a regular run, if its data are not asked for already. -/
theorem asked_reachable {s : MemorySystem} (hs : ((system twoRequestors).restrict (Regular twoRequestors)).Reachable s)
    (address size : Nat) (isRead : Bool) (hsize : 0 < size ∧ twoRequestors.dataBusWidth ∣ size)
    (hnew : ∀ r ∈ s.pending (if isRead then .dataRead else .dataWrite), r.data ≠ ⟨0, address⟩) :
    ((system twoRequestors).restrict (Regular twoRequestors)).Reachable
      (s.addRequest twoRequestors 0 address isRead size) :=
  hs.step (l := .addRequest 0 address isRead size) ⟨⟨Nat.two_pos, hsize, hnew⟩, rfl⟩

/-- It is a regular run. -/
theorem readAgain_reachable : ((system twoRequestors).restrict (Regular twoRequestors)).Reachable readAgain := by
  have hupdates : ∀ n, ∀ l ∈ List.replicate n MemoryLabel.update, ∀ s, Regular twoRequestors s l := by
    intro n l hl s
    rw [List.eq_of_mem_replicate hl]
    trivial
  have hanswered : ((system twoRequestors).restrict (Regular twoRequestors)).Reachable answered := by
    rw [answered, run, List.foldl_append]
    exact foldl_reachable_restrict (hupdates 60) (asked_reachable (.init rfl) 0 64 true (by decide) (by decide))
  have hagain := asked_reachable hanswered 0 192 true (by decide) (by decide +kernel)
  have hwritten := asked_reachable hagain 0 64 false (by decide) (by decide +kernel)
  exact foldl_reachable_restrict (hupdates 20) hwritten

/-- The second read waits for three bursts and the write for one, of which all are to be sent or on their way. -/
theorem requests_accounted_readAgain :
    readAgain.unsent twoRequestors .dataRead ⟨0, 0⟩ + carried ⟨0, 0⟩ (readAgain.inFlight .dataRead) = 3 ∧
      readAgain.unsent twoRequestors .dataWrite ⟨0, 0⟩ + carried ⟨0, 0⟩ (readAgain.inFlight .dataWrite) = 1 := by
  rw [← (requests_accounted readAgain_reachable .dataRead).2.1,
    ← (requests_accounted readAgain_reachable .dataWrite).2.1]
  decide +kernel

/-- A request, and two of one requestor for the same data. -/
def sameData : MemorySystem :=
  run twoRequestors ([.addRequest 0 8192 true 64, .addRequest 0 0 true 128, .addRequest 0 0 true 320] ++
    List.replicate 80 .update)

/-- They ask for eight bursts. The last is scheduled before the second, its first data shrink the second, which is still
queued, and so one command is never made: the last request waits for a burst that nobody will send. -/
theorem sameData_unaccounted : (sameData.accepted.map fun r => r.requestSize / twoRequestors.dataBusWidth).sum = 8 ∧
    (sameData.issued.countP fun q => q.1.busPacketType = .rd) = 7 ∧
    asked twoRequestors ⟨0, 0⟩ (sameData.pending .dataRead) = 1 ∧
    sameData.unsent twoRequestors .dataRead ⟨0, 0⟩ + carried ⟨0, 0⟩ (sameData.inFlight .dataRead) = 0 := by
  decide +kernel

end Octopus.MCsim.MemorySystem
