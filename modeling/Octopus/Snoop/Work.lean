import Mathlib.Algebra.BigOperators.Group.Finset.Basic
import Mathlib.Algebra.BigOperators.Fin
import Mathlib.Algebra.Order.BigOperators.Group.Finset
import Octopus.Lib.Settling
import Octopus.Snoop.Lawful
import Octopus.Snoop.Queue

/-!
# The work that is left

Every message on its way, every request that is parked, queued or stalled, and every read that is not
answered is some work. A grant, a delivery, a retry or a fill makes less of it, whatever the state: what it
sends costs less than what it consumed. So between two processor requests, replacements or evictions the
network takes only so many steps.
-/

namespace Octopus.Snoop

variable {σ τ : Type} {n : Nat}

/-- A data message: for the last-level cache it is the last one, for its owner it may still go home, for
another cache it may still go to the owner and home. -/
def Supply.work (llc : Nat) (f : Supply) : Nat := if f.dest = llc then 1 else if f.dest = f.owner then 3 else 5

/-- A message in the queue of the last-level cache: a replacement may cause an invalidation. -/
def HomeMsg.work (n llc : Nat) : HomeMsg → Nat
  | .request r => if r.type = requestTypePutM ∧ r.owner = llc then 6 * n + 24 else 12
  | .replacement => 6 * n + 24
  | .data _ => 0
  | .fill _ => 0

/-- A request on the bus: every private cache may park or answer it, and the last-level cache queues it. -/
def Req.work (n llc : Nat) (r : Req) : Nat := 6 * n + 1 + (HomeMsg.request r).work n llc

/-- The work of some data messages. -/
def suppliesWork (llc : Nat) (flight : List Supply) : Nat := (flight.map (Supply.work llc)).sum

/-- The work of some queued messages. -/
def queueWork (n llc : Nat) (queue : List HomeMsg) : Nat := (queue.map (HomeMsg.work n llc)).sum

/-- The work of some requests on the bus. -/
def busWork (n llc : Nat) (bus : List Req) : Nat := (bus.map (Req.work n llc)).sum

/-- The work that is left in a state. -/
def Skeleton.work (llc : Nat) (s : Skeleton n σ τ) : Nat :=
  ∑ i, (5 * (s.core i).saved.length + 6 * (s.waiting i).length) + queueWork n llc s.queue + busWork n llc s.bus +
    suppliesWork llc s.flight + 5 * s.home.pending.length + s.memory.length

/-- What the measure asks of two tables: which actions do not occur in which columns. -/
structure WorkLaws (T : Tables σ τ) : Prop where
  /-- Only processor requests and replacements send requests. -/
  quiet : ∀ s e, e ∉ requestEvents →
    ActionId.getS ∉ T.l1.getActions s e ∧ ActionId.getM ∉ T.l1.getActions s e ∧ ActionId.putM ∉ T.l1.getActions s e
  /-- A processor request or a replacement sends at most one request. -/
  asks : ∀ s e, e ∈ requestEvents → (busRequests 0 (T.l1.getActions s e)).length ≤ 1
  /-- A request is parked or answered. -/
  parks : ∀ s e, ActionId.saveReq ∈ T.l1.getActions s e →
    ActionId.data2Req ∉ T.l1.getActions s e ∧ ActionId.data2Both ∉ T.l1.getActions s e
  data : ∀ s x, ActionId.saveReq ∉ T.l1.getActions s (T.dataEvent x).1 ∧
    ActionId.stall ∉ T.l1.getActions s (T.dataEvent x).1
  dataEvent : ∀ x, (T.dataEvent x).1 ∉ requestEvents
  /-- Only a replacement issues an invalidation. -/
  invalidates : ∀ s e, e ≠ .replacement → LLCActionId.issueInv ∉ T.llc.getActions s e
  homeData : ∀ s, Home.responds (T.llc.getActions s .dataFromLowerInterface) = false ∧
    LLCActionId.getData ∉ T.llc.getActions s .dataFromLowerInterface
  homeFill : ∀ s, LLCActionId.getData ∉ T.llc.getActions s .dataFromUpperInterface

section Sums

variable {llc : Nat}

/-- The work of two lists of data messages. -/
@[simp] theorem suppliesWork_append (flight flight' : List Supply) :
    suppliesWork llc (flight ++ flight') = suppliesWork llc flight + suppliesWork llc flight' := by
  simp [suppliesWork]

/-- The work of no data message. -/
@[simp] theorem suppliesWork_nil : suppliesWork llc [] = 0 := rfl

/-- The work of the data messages of several senders. -/
theorem suppliesWork_flatMap {α : Type} (f : α → List Supply) (l : List α) :
    suppliesWork llc (l.flatMap f) = (l.map fun a => suppliesWork llc (f a)).sum := by
  induction l with
  | nil => rfl
  | cons a l ih => rw [List.flatMap_cons, suppliesWork_append, ih, List.map_cons, List.sum_cons]

/-- The work of two queues. -/
@[simp] theorem queueWork_append (queue queue' : List HomeMsg) :
    queueWork n llc (queue ++ queue') = queueWork n llc queue + queueWork n llc queue' := by
  simp [queueWork]

/-- The work of a message in front of a queue. -/
@[simp] theorem queueWork_cons (m : HomeMsg) (queue : List HomeMsg) :
    queueWork n llc (m :: queue) = m.work n llc + queueWork n llc queue := rfl

/-- The work of an empty queue. -/
@[simp] theorem queueWork_nil : queueWork n llc [] = 0 := rfl

/-- The work of two lists of requests. -/
@[simp] theorem busWork_append (bus bus' : List Req) :
    busWork n llc (bus ++ bus') = busWork n llc bus + busWork n llc bus' := by
  simp [busWork]

/-- The work of no request. -/
@[simp] theorem busWork_nil : busWork n llc [] = 0 := rfl

/-- One member of a list and the others. -/
theorem sum_map_eraseIdx {α : Type} (f : α → Nat) {l : List α} {k : Nat} {a : α} (hk : l[k]? = some a) :
    (l.map f).sum = f a + ((l.eraseIdx k).map f).sum := by
  induction l generalizing k with
  | nil => simp at hk
  | cons b l ih =>
    cases k with
    | zero =>
      simp only [List.getElem?_cons_zero, Option.some.injEq] at hk
      simp [hk]
    | succ k =>
      rw [List.getElem?_cons_succ] at hk
      rw [List.eraseIdx_cons_succ, List.map_cons, List.map_cons, List.sum_cons, List.sum_cons, ih hk]
      omega

/-- One member of a list less. -/
theorem length_eraseIdx_add_one {α : Type} {l : List α} {k : Nat} {a : α} (hk : l[k]? = some a) :
    (l.eraseIdx k).length + 1 = l.length := by
  have hlt : k < l.length := (List.getElem?_eq_some_iff.1 hk).1
  rw [List.length_eraseIdx_of_lt hlt]
  omega

/-- The sum over the private caches after one of them has changed. -/
theorem sum_update_add {f : Fin n → Nat} (i : Fin n) (v : Nat) :
    ∑ j, Function.update f i v j + f i = ∑ j, f j + v := by
  have hleft := Finset.sum_update_of_mem (Finset.mem_univ i) f v
  have hright := Finset.add_sum_erase Finset.univ f (Finset.mem_univ i)
  rw [hleft, ← hright, ← Finset.sdiff_singleton_eq_erase]
  omega

end Sums

section Cores

variable {llc self : Nat} {T : Tables σ τ} {c c' : Core σ} {e : EventId} {r : Req} {exclusive : Bool} {out : CoreOut}

/-- A data message for its owner. -/
theorem work_self_le (llc owner : Nat) (exclusive : Bool) : Supply.work llc ⟨owner, owner, exclusive⟩ ≤ 3 := by
  simp only [Supply.work, if_true]
  split <;> omega

/-- Any data message. -/
theorem work_le (llc : Nat) (f : Supply) : f.work llc ≤ 5 := by
  simp only [Supply.work]
  split
  · omega
  · split <;> omega

/-- A data message for the last-level cache. -/
theorem work_home (llc owner : Nat) (exclusive : Bool) : Supply.work llc ⟨llc, owner, exclusive⟩ = 1 := by
  simp [Supply.work]

/-- Data messages for a list of addressees. -/
theorem supplyTo_work_le (llc owner : Nat) (exclusive : Bool) (dests : List Nat) :
    suppliesWork llc (supplyTo owner exclusive dests) ≤ 5 * dests.length := by
  induction dests with
  | nil => exact Nat.le_refl _
  | cons dest dests ih =>
    have hfirst := work_le llc ⟨dest, owner, exclusive⟩
    simp only [supplyTo, suppliesWork, List.map_cons, List.sum_cons, List.length_cons, List.map_map] at ih ⊢
    omega

/-- Data messages for two lists of addressees. -/
theorem supplyTo_append (owner : Nat) (exclusive : Bool) (dests dests' : List Nat) :
    supplyTo owner exclusive (dests ++ dests') = supplyTo owner exclusive dests ++ supplyTo owner exclusive dests' :=
  List.map_append

/-- Copies for the last-level cache. -/
theorem supplyTo_home_le (llc owner : Nat) (exclusive b : Bool) :
    suppliesWork llc (supplyTo owner exclusive (if b then [llc] else [])) ≤ 1 := by
  cases b <;> simp [supplyTo, suppliesWork, work_home]

/-- Where nothing is parked, the line goes to its owner, or home. -/
theorem supplies_nil_work_le (llc self : Nat) (both exclusive : Bool) (owner : Nat) :
    suppliesWork llc (supplies llc self both exclusive [] owner) ≤ if owner = self then 2 else 4 := by
  have hdirect := supplyTo_home_le llc owner exclusive both
  simp only [supplies, supplyTo_append, suppliesWork_append]
  by_cases hself : owner = self
  · have hhome := work_home llc owner exclusive
    simp only [hself, if_true] at hdirect hhome ⊢
    simp only [supplyTo, suppliesWork, List.map_cons, List.map_nil, List.sum_cons, List.sum_nil] at hdirect ⊢
    omega
  · have hown := work_self_le llc owner exclusive
    simp only [hself, if_false]
    simp only [supplyTo, suppliesWork, List.map_cons, List.map_nil, List.sum_cons, List.sum_nil] at hdirect ⊢
    omega

/-- Parked requests cost more than the data messages that answer them. -/
theorem supplies_cons_work_lt (llc self : Nat) (both exclusive : Bool) (owner : Nat) (first : Req) (rest : List Req) :
    suppliesWork llc (supplies llc self both exclusive (first :: rest) owner) < 5 * (first :: rest).length := by
  have hrest := supplyTo_work_le llc first.owner exclusive (rest.map Req.owner)
  have hlast : suppliesWork llc (supplyTo first.owner exclusive [if first.owner = self then llc else first.owner]) ≤ 3 := by
    have hown := work_self_le llc first.owner exclusive
    have hhome := work_home llc first.owner exclusive
    simp only [supplyTo, suppliesWork, List.map_cons, List.map_nil, List.sum_cons, List.sum_nil]
    split <;> omega
  have hcopy : suppliesWork llc (supplyTo first.owner exclusive
      (if !both && first.type == requestTypeGetS then (if both then [llc] else []) ++ [llc]
        else if both then [llc] else [])) ≤ 1 := by
    cases both with
    | true => exact supplyTo_home_le llc first.owner exclusive true
    | false => exact supplyTo_home_le llc first.owner exclusive (first.type == requestTypeGetS)
  simp only [supplies, supplyTo_append, suppliesWork_append]
  simp only [List.length_map, List.length_cons] at hrest ⊢
  omega

/-- The data messages of a cell. -/
def answer (llc self : Nat) (actions : List ActionId) (exclusive : Bool) (saved : List Req) (owner : Nat) : List Supply :=
  if ActionId.data2Req ∈ actions then supplies llc self false exclusive saved owner
  else if ActionId.data2Both ∈ actions then supplies llc self true exclusive saved owner
  else []

/-- The line for the parked requests, or for its owner where there are none. -/
theorem supplies_work_le (llc self : Nat) (both exclusive : Bool) (saved : List Req) (owner : Nat) :
    suppliesWork llc (supplies llc self both exclusive saved owner) ≤
      5 * saved.length + if owner = self then 2 else 4 := by
  cases saved with
  | nil =>
    rw [List.length_nil, Nat.mul_zero, Nat.zero_add]
    exact supplies_nil_work_le llc self both exclusive owner
  | cons first rest =>
    have hless := supplies_cons_work_lt llc self both exclusive owner first rest
    omega

/-- A cell that parks nothing answers what was parked, or forgets it, or leaves it. -/
theorem answer_work_le (llc self : Nat) (exclusive : Bool) (r : Req) (actions : List ActionId) (saved : List Req)
    (hsave : ActionId.saveReq ∉ actions) :
    5 * (savedAfter actions saved r).length + suppliesWork llc (answer llc self actions exclusive saved r.owner) ≤
      5 * saved.length + if r.owner = self then 2 else 4 := by
  by_cases hreq : ActionId.data2Req ∈ actions
  · have hwork := supplies_work_le llc self false exclusive saved r.owner
    simpa [savedAfter, answer, hsave, hreq] using hwork
  · by_cases hboth : ActionId.data2Both ∈ actions
    · have hwork := supplies_work_le llc self true exclusive saved r.owner
      simpa [savedAfter, answer, hsave, hreq, hboth] using hwork
    · by_cases hremove : ActionId.removeSavedReq ∈ actions
      · simp [savedAfter, answer, hsave, hreq, hboth, hremove]
      · simp [savedAfter, answer, hsave, hreq, hboth, hremove]

/-- What a cell does: it stalls, or it parks, answers and sends. -/
theorem process_cases (h : c.process T.l1 llc self e r exclusive = .ok (c', out)) :
    ActionId.stall ∈ T.l1.getActions c.state e ∧ c' = c ∧ out = { stalled := [r] } ∨
      c'.saved = savedAfter (T.l1.getActions c.state e) c.saved r ∧
        out = { bus := busRequests self (T.l1.getActions c.state e)
                data := answer llc self (T.l1.getActions c.state e) exclusive c.saved r.owner } := by
  rw [Core.process] at h
  split at h
  · simp at h
  split at h
  · next hstall =>
    simp only [Except.ok.injEq, Prod.mk.injEq] at h
    exact .inl ⟨hstall, h.1.symm, h.2.symm⟩
  · simp only [Except.ok.injEq, Prod.mk.injEq] at h
    exact .inr ⟨by rw [← h.1], h.2.symm⟩

/-- A cell of a message that a cache did not send itself makes at most one more parked or stalled request. -/
theorem process_work_le (hT : WorkLaws T) (he : e ∉ requestEvents)
    (h : c.process T.l1 llc self e r exclusive = .ok (c', out)) :
    out.bus = [] ∧ out.stalled.length ≤ 1 ∧ 5 * c'.saved.length + 5 * out.stalled.length + suppliesWork llc out.data ≤
      5 * c.saved.length + 5 := by
  cases process_cases h with
  | inl hstall =>
    rw [hstall.2.1, hstall.2.2]
    simp
  | inr hcell =>
    have hquiet := hT.quiet c.state e he
    have hbus : busRequests self (T.l1.getActions c.state e) = [] := by
      rw [busRequests, List.filterMap_eq_nil_iff]
      intro a ha
      cases a with
      | getS => exact absurd ha hquiet.1
      | getM => exact absurd ha hquiet.2.1
      | putM => exact absurd ha hquiet.2.2
      | _ => rfl
    rw [hcell.1, hcell.2, hbus]
    refine ⟨rfl, Nat.zero_le 1, ?_⟩
    by_cases hsave : ActionId.saveReq ∈ T.l1.getActions c.state e
    · have hnone := hT.parks c.state e hsave
      simp only [savedAfter, answer, hsave, hnone.1, hnone.2, if_true, if_false, List.length_append,
        List.length_singleton, List.length_nil, suppliesWork_nil]
      omega
    · have hwork := answer_work_le llc self exclusive r _ c.saved hsave
      simp only [List.length_nil]
      split at hwork <;> omega

/-- Data that reaches a cache makes less work. -/
theorem process_data_work_lt (hT : WorkLaws T) (hself : self ≠ llc) {f : Supply} (hdest : f.dest = self)
    (h : c.process T.l1 llc self (T.dataEvent exclusive).1 ⟨0, f.owner⟩ exclusive' = .ok (c', out)) :
    out.bus = [] ∧ out.stalled = [] ∧
      5 * c'.saved.length + suppliesWork llc out.data < 5 * c.saved.length + f.work llc := by
  have hrow := hT.data c.state exclusive
  have hbus := (process_work_le hT (hT.dataEvent exclusive) h).1
  cases process_cases h with
  | inl hstall => exact absurd hstall.1 hrow.2
  | inr hcell =>
    have hwork := answer_work_le llc self exclusive' ⟨0, f.owner⟩ _ c.saved hrow.1
    have hf : (if f.owner = self then 2 else 4) < f.work llc := by
      rw [Supply.work, hdest, if_neg hself]
      by_cases howner : f.owner = self
      · simp [howner]
      · simp [howner, Ne.symm howner]
    refine ⟨hbus, by rw [hcell.2], ?_⟩
    rw [hcell.1, hcell.2]
    simp only at hwork ⊢
    omega

end Cores

section Home

variable {llc : Nat} {T : Tables σ τ} {h h' : Home τ} {m : HomeMsg} {out : HomeOut} {e : LLCEventId} {o : Nat}

/-- The data messages of a cell cost at most five each. -/
theorem responses_work_le (llc o : Nat) (exclusive : Bool) (owners : List Nat) :
    suppliesWork llc (owners.map fun owner => ⟨o, owner, exclusive⟩) ≤ 5 * owners.length := by
  induction owners with
  | nil => exact Nat.le_refl _
  | cons owner owners ih =>
    have hfirst := work_le llc ⟨o, owner, exclusive⟩
    simp only [suppliesWork, List.map_cons, List.sum_cons, List.length_cons] at ih ⊢
    omega

/-- An invalidation on the bus. -/
theorem busWork_invalidation (n llc : Nat) : busWork n llc [⟨requestTypeInv, llc⟩] = 6 * n + 13 := by
  simp [busWork, Req.work, HomeMsg.work, requestTypeInv, requestTypePutM]

/-- What a cell costs: a pending read and its request, an answer, an invalidation. -/
theorem take_work_le (hstep : h.take T.llc llc m e o = .ok (h', out)) (hfill : m.isFill = false) :
    5 * h'.pending.length + suppliesWork llc out.data + out.memory.length + busWork n llc out.bus ≤
      5 * h.pending.length + 11 + if LLCActionId.issueInv ∈ T.llc.getActions h.state e then 6 * n + 13 else 0 := by
  have hinv := busWork_invalidation n llc
  rw [Home.take] at hstep
  split at hstep
  · simp at hstep
  split at hstep
  · simp at hstep
  simp only [Except.ok.injEq, Prod.mk.injEq] at hstep
  rw [← hstep.1, ← hstep.2]
  have hanswer := responses_work_le llc o
    (decide (LLCActionId.sendExeclusiveData ∈ T.llc.getActions h.state e))
    (Home.answered (T.llc.getActions h.state e) m o h.pending)
  have hone : (Home.answered (T.llc.getActions h.state e) m o h.pending).length ≤ 1 := by
    simp only [Home.answered, hfill]
    split <;> simp
  have hpending : 5 * (Home.pendingAfter (T.llc.getActions h.state e) m o h.pending).length +
      (if LLCActionId.getData ∈ T.llc.getActions h.state e then [o] else []).length ≤ 5 * h.pending.length + 6 := by
    by_cases hget : LLCActionId.getData ∈ T.llc.getActions h.state e
    · simp [Home.pendingAfter, hget]
      omega
    · simp [Home.pendingAfter, hget, hfill]
  by_cases hissue : LLCActionId.issueInv ∈ T.llc.getActions h.state e
  · simp only [hissue, if_true, hinv]
    omega
  · simp only [hissue, if_false, busWork_nil]
    omega

/-- What a cell costs that neither reads memory nor invalidates nor answers a request. -/
theorem take_data_work_le (hstep : h.take T.llc llc m e o = .ok (h', out))
    (hget : LLCActionId.getData ∉ T.llc.getActions h.state e)
    (hissue : LLCActionId.issueInv ∉ T.llc.getActions h.state e)
    (hanswer : m.isFill = false → Home.responds (T.llc.getActions h.state e) = false) :
    5 * h'.pending.length + suppliesWork llc out.data + out.memory.length + busWork n llc out.bus ≤
      5 * h.pending.length := by
  rw [Home.take] at hstep
  split at hstep
  · simp at hstep
  split at hstep
  · simp at hstep
  simp only [Except.ok.injEq, Prod.mk.injEq] at hstep
  rw [← hstep.1, ← hstep.2]
  simp only [hget, if_false, List.length_nil, busWork_nil, Nat.add_zero, Home.pendingAfter, Home.answered]
  cases hresponds : Home.responds (T.llc.getActions h.state e) with
  | false => simp
  | true =>
    cases hfill : m.isFill with
    | false => rw [hanswer hfill] at hresponds; simp at hresponds
    | true =>
      have hwork := responses_work_le llc o
        (decide (LLCActionId.sendExeclusiveData ∈ T.llc.getActions h.state e)) h.pending
      simpa using hwork

/-- What the last-level cache sends for a message costs no more than the message. -/
theorem homeProcess_work_le (hT : WorkLaws T) (hstep : h.process T.llc llc m = .ok (h', out)) :
    5 * h'.pending.length + suppliesWork llc out.data + out.memory.length + busWork n llc out.bus ≤
      5 * h.pending.length + m.work n llc := by
  rw [Home.process] at hstep
  cases m with
  | data o =>
    exact take_data_work_le hstep (hT.homeData _).2 (hT.invalidates _ _ (by decide)) fun _ => (hT.homeData _).1
  | fill o => exact take_data_work_le hstep (hT.homeFill _) (hT.invalidates _ _ (by decide)) (by simp [HomeMsg.isFill])
  | replacement =>
    have hwork := take_work_le (n := n) hstep rfl
    simp only [HomeMsg.work]
    split at hwork <;> omega
  | request r =>
    cases hevent : h.event llc (.request r) with
    | error e => simp [hevent] at hstep
    | ok e =>
      simp only [hevent] at hstep
      have hwork := take_work_le (n := n) hstep rfl
      by_cases hputM : r.type = requestTypePutM ∧ r.owner = llc
      · simp only [HomeMsg.work, if_pos hputM]
        split at hwork <;> omega
      · have hne : e ≠ .replacement := by
          intro heq
          subst heq
          simp only [Home.event] at hevent
          split_ifs at hevent <;> simp_all
        simp only [HomeMsg.work, if_neg hputM]
        rw [if_neg (hT.invalidates _ _ hne)] at hwork
        omega

/-- One message that the last-level cache processes. -/
theorem homeStep_work_le (hT : WorkLaws T) {s s' : Skeleton n σ τ}
    (hstep : Skeleton.homeStep T llc s m = .ok s') : s'.work llc ≤ s.work llc + m.work n llc := by
  rw [Skeleton.homeStep] at hstep
  split at hstep
  · simp at hstep
  · next h' out hprocess =>
    have hwork := homeProcess_work_le (n := n) hT hprocess
    rw [← Except.ok.inj hstep]
    simp only [Skeleton.work, Skeleton.emitHome, busWork_append, suppliesWork_append, List.length_append]
    omega

/-- A drain makes no work. -/
theorem drain_work_le (hT : WorkLaws T) (fuel : Nat) {s s' : Skeleton n σ τ}
    (hdrain : Skeleton.drain T llc fuel s = .ok s') : s'.work llc ≤ s.work llc := by
  induction fuel generalizing s with
  | zero => rw [Except.ok.inj hdrain]
  | succ fuel ih =>
    rw [Skeleton.drain] at hdrain
    split at hdrain
    · rw [Except.ok.inj hdrain]
    · next m queue hfirst =>
      split at hdrain
      · simp at hdrain
      · next s₁ hstep =>
        have hrest := ih hdrain
        have hmessage := homeStep_work_le hT hstep
        have hqueue : queueWork n llc s.queue = m.work n llc + queueWork n llc queue := by
          have hsplit := Home.firstReady_eq_some hfirst
          cases hsplit with
          | intro pre hsplit =>
            cases hsplit with
            | intro post hsplit =>
              rw [hsplit.1, hsplit.2.1]
              simp only [List.nil_append, queueWork_append, queueWork_cons]
              omega
        simp only [Skeleton.work] at hrest hmessage ⊢
        omega

/-- A drain of a queue makes no work beyond the queue's. -/
theorem drainQueue_work_le (hT : WorkLaws T) {s s' : Skeleton n σ τ} {queue : List HomeMsg}
    (hdrain : s.drainQueue T llc queue = .ok s') :
    s'.work llc + queueWork n llc s.queue ≤ s.work llc + queueWork n llc queue := by
  have hwork := drain_work_le hT _ hdrain
  simp only [Skeleton.work] at hwork ⊢
  omega

end Home

section Steps

variable {llc : Nat} {T : Tables σ τ} {s s' : Skeleton n σ τ}

/-- A request is no processor event. -/
theorem event_not_request {self : Nat} {r : Req} {e : EventId} (h : r.event self = .ok e) : e ∉ requestEvents := by
  rw [Req.event] at h
  split_ifs at h <;> simp_all [requestEvents]
  all_goals
    subst h
    decide

/-- The steps of the network: nobody outside asks for anything. -/
def SkeletonLabel.isNetwork : SkeletonLabel n → Prop
  | .grant _ | .retry _ _ | .deliver _ | .fill _ => True
  | .core _ _ | .evict => False

/-- The sum over the private caches after one of them has taken a cell. -/
theorem sum_update_core (s : Skeleton n σ τ) (i : Fin n) (c : Core σ) (w : List Req) :
    ∑ j, (5 * (Function.update s.core i c j).saved.length + 6 * (Function.update s.waiting i w j).length) +
        (5 * (s.core i).saved.length + 6 * (s.waiting i).length) =
      ∑ j, (5 * (s.core j).saved.length + 6 * (s.waiting j).length) + (5 * c.saved.length + 6 * w.length) := by
  have hsum := sum_update_add (f := fun j => 5 * (s.core j).saved.length + 6 * (s.waiting j).length) i
    (5 * c.saved.length + 6 * w.length)
  rw [← hsum]
  congr 2
  funext j
  by_cases hj : j = i
  · subst hj
    simp
  · simp [hj]

/-- A cell of one private cache changes the work by what it parks, stalls and sends. -/
theorem runCore_work {i : Fin n} {e : EventId} {r : Req} {exclusive : Bool}
    (h : s.runCore T llc i e r exclusive = .ok s') :
    ∃ c out, (s.core i).process T.l1 llc i e r exclusive = .ok (c, out) ∧
      s'.work llc + 5 * (s.core i).saved.length =
        s.work llc + 5 * c.saved.length + 6 * out.stalled.length + busWork n llc out.bus +
          suppliesWork llc out.data := by
  rw [Skeleton.runCore] at h
  split at h
  · simp at h
  · next c out hprocess =>
    refine ⟨c, out, hprocess, ?_⟩
    have hsum := sum_update_core s i c (s.waiting i ++ out.stalled)
    rw [← Except.ok.inj h]
    simp only [Skeleton.work, Skeleton.emitCore, busWork_append, suppliesWork_append, List.length_append] at hsum ⊢
    omega

/-- A broadcast: each private cache makes at most one parked or stalled request of it. -/
theorem broadcast_work_le (hT : WorkLaws T) {r : Req} (h : s.broadcast T llc r = .ok s') :
    s'.work llc ≤ s.work llc + 6 * n + (HomeMsg.request r).work n llc := by
  rw [Skeleton.broadcast] at h
  split at h
  · simp at h
  · next results hresults =>
    rw [Lib.sequence_eq_ok] at hresults
    have hcore (i : Fin n) : (results i).2.bus = [] ∧ (results i).2.stalled.length ≤ 1 ∧
        5 * (results i).1.saved.length + 5 * (results i).2.stalled.length + suppliesWork llc (results i).2.data ≤
          5 * (s.core i).saved.length + 5 := by
      have hsnoop := hresults i
      rw [Skeleton.snoop] at hsnoop
      split at hsnoop
      · simp at hsnoop
      · next e hevent => exact process_work_le hT (event_not_request hevent) hsnoop
    have hdrain := drainQueue_work_le hT h
    have hbus : ((List.finRange n).flatMap fun i => (results i).2.bus) = [] := by
      rw [List.flatMap_eq_nil_iff]
      exact fun i _ => (hcore i).1
    have hdata : suppliesWork llc ((List.finRange n).flatMap fun i => (results i).2.data) =
        ∑ i, suppliesWork llc (results i).2.data := by
      rw [suppliesWork_flatMap, Fin.sum_univ_def]
    have hsum : ∑ i, (5 * (results i).1.saved.length + 6 * ((s.waiting i).length + (results i).2.stalled.length)) +
        ∑ i, suppliesWork llc (results i).2.data ≤
          ∑ i, (5 * (s.core i).saved.length + 6 * (s.waiting i).length) + 6 * n := by
      have hsix : ∑ _i : Fin n, 6 = 6 * n := by simp [Nat.mul_comm]
      rw [← hsix, ← Finset.sum_add_distrib, ← Finset.sum_add_distrib]
      apply Finset.sum_le_sum
      intro i _
      have hi := (hcore i).2
      omega
    simp only [Skeleton.work, Skeleton.emitAll, hbus, busWork_append, busWork_nil, suppliesWork_append,
      List.length_append, queueWork_append, queueWork_cons, queueWork_nil, hdata] at hdrain ⊢
    omega

/-- A step of the network leaves less work than there was. -/
theorem step_work_lt (hT : WorkLaws T) {l : SkeletonLabel n} (hl : l.isNetwork)
    (h : s.step T llc l = some (.ok s')) : s'.work llc < s.work llc := by
  cases l with
  | core i e => exact hl.elim
  | evict => exact hl.elim
  | grant k =>
    rw [Skeleton.step] at h
    cases hk : s.bus[k]? with
    | none => simp [hk] at h
    | some r =>
      simp only [hk, Option.some.injEq] at h
      have hwork := broadcast_work_le hT h
      have hbus : busWork n llc s.bus = r.work n llc + busWork n llc (s.bus.eraseIdx k) := sum_map_eraseIdx _ hk
      simp only [Skeleton.work, Req.work] at hwork hbus ⊢
      omega
  | retry i k =>
    rw [Skeleton.step] at h
    cases hk : (s.waiting i)[k]? with
    | none => simp [hk] at h
    | some r =>
      simp only [hk] at h
      cases hevent : r.event i with
      | error e => simp [hevent] at h
      | ok e =>
        simp only [hevent] at h
        split at h
        · simp at h
        · next hstall =>
          have hrun := runCore_work (Option.some.inj h)
          cases hrun with
          | intro c hrun =>
            cases hrun with
            | intro out hrun =>
              have hcell := process_work_le hT (event_not_request hevent) hrun.1
              have hnone : out.stalled = [] := by
                cases process_cases hrun.1 with
                | inl hcase => exact absurd hcase.1 hstall
                | inr hcase => rw [hcase.2]
              have hlength := length_eraseIdx_add_one hk
              have hsum := sum_update_core s i (s.core i) ((s.waiting i).eraseIdx k)
              rw [Function.update_eq_self] at hsum
              have hwork := hrun.2
              rw [hcell.1, hnone] at hwork
              simp only [hnone, Skeleton.work, List.length_nil, busWork_nil] at hwork hcell hsum ⊢
              omega
  | deliver k =>
    rw [Skeleton.step] at h
    cases hk : s.flight[k]? with
    | none => simp [hk] at h
    | some f =>
      have hflight : suppliesWork llc s.flight = f.work llc + suppliesWork llc (s.flight.eraseIdx k) :=
        sum_map_eraseIdx _ hk
      simp only [hk] at h
      split at h
      · next hdest =>
        have hdrain := drainQueue_work_le hT (Option.some.inj h)
        have hone : f.work llc = 1 := by rw [Supply.work, if_pos hdest]
        simp only [Skeleton.work, queueWork_append, queueWork_cons, queueWork_nil, HomeMsg.work] at hdrain ⊢
        omega
      · next hdest =>
        split at h
        · next hlt =>
          have hrun := runCore_work (Option.some.inj h)
          cases hrun with
          | intro c hrun =>
            cases hrun with
            | intro out hrun =>
              have hcell := process_data_work_lt hT hdest rfl hrun.1
              have hwork := hrun.2
              rw [hcell.1, hcell.2.1] at hwork
              simp only [Skeleton.work, List.length_nil, busWork_nil] at hwork hcell ⊢
              omega
        · simp at h
  | fill k =>
    rw [Skeleton.step] at h
    cases hk : s.memory[k]? with
    | none => simp [hk] at h
    | some o =>
      simp only [hk] at h
      have hdrain := drainQueue_work_le hT (Option.some.inj h)
      have hlength := length_eraseIdx_add_one hk
      have hsplit : queueWork n llc (s.queue.take (Skeleton.behindFill s.queue)) +
          queueWork n llc (s.queue.drop (Skeleton.behindFill s.queue)) = queueWork n llc s.queue := by
        rw [← queueWork_append, List.take_append_drop]
      simp only [Skeleton.work, queueWork_append, queueWork_cons, HomeMsg.work] at hdrain ⊢
      omega

/-- How many requests a cell sends does not depend on who sends them. -/
theorem busRequests_length (self self' : Nat) (actions : List ActionId) :
    (busRequests self actions).length = (busRequests self' actions).length := by
  induction actions with
  | nil => rfl
  | cons a actions ih =>
    rw [busRequests, busRequests] at ih ⊢
    cases a <;> simpa using ih

/-- What a private cache asks for on its own account. -/
theorem busRequests_work_le (i : Fin n) (hn : n ≤ llc) (actions : List ActionId) :
    busWork n llc (busRequests i actions) ≤ (6 * n + 13) * (busRequests i actions).length := by
  have hone : ∀ r ∈ busRequests i actions, r.work n llc ≤ 6 * n + 13 := by
    intro r hr
    have howner : r.owner ≠ llc := by
      rw [busRequests, List.mem_filterMap] at hr
      cases hr with
      | intro a hr =>
        have hi := i.isLt
        cases a <;> simp at hr
        all_goals
          rw [← hr.2]
          simp only
          omega
    simp [Req.work, HomeMsg.work, howner]
  have hsum := List.sum_le_card_nsmul ((busRequests (i : Nat) actions).map (Req.work n llc)) (6 * n + 13)
    (by simpa using hone)
  rw [List.length_map, smul_eq_mul, Nat.mul_comm] at hsum
  exact hsum

/-- A request of a processor, a replacement or an eviction makes so much work at most. -/
theorem step_work_le (hT : WorkLaws T) (hn : n ≤ llc) {l : SkeletonLabel n} (hl : ¬ l.isNetwork)
    (h : s.step T llc l = some (.ok s')) : s'.work llc ≤ s.work llc + (6 * n + 24) := by
  cases l with
  | core i e =>
    rw [Skeleton.step] at h
    split at h
    · next henabled =>
      have hrun := runCore_work (Option.some.inj h)
      cases hrun with
      | intro c hrun =>
        cases hrun with
        | intro out hrun =>
          cases process_cases hrun.1 with
          | inl hstall => exact absurd hstall.1 henabled.2
          | inr hcell =>
            have hwork := hrun.2
            have hbus := busRequests_work_le i hn (T.l1.getActions (s.core i).state e)
            have hlength := hT.asks (s.core i).state e henabled.1
            rw [busRequests_length 0 i] at hlength
            have hcost := hbus.trans (Nat.mul_le_mul_left (6 * n + 13) hlength)
            rw [hcell.1, hcell.2] at hwork
            by_cases hsave : ActionId.saveReq ∈ T.l1.getActions (s.core i).state e
            · have hnone := hT.parks _ _ hsave
              simp only [savedAfter, answer, hsave, hnone.1, hnone.2, if_true, if_false, List.length_append,
                List.length_singleton, List.length_nil, suppliesWork_nil] at hwork
              omega
            · have hanswer := answer_work_le llc i false
                ⟨if e = .store then 1 else 0, i⟩ _ (s.core i).saved hsave
              simp only [List.length_nil, if_true] at hwork hanswer
              omega
    · simp at h
  | evict =>
    rw [Skeleton.step] at h
    split at h
    · have hdrain := drainQueue_work_le hT (Option.some.inj h)
      simp only [Skeleton.work, queueWork_append, queueWork_cons, queueWork_nil, HomeMsg.work] at hdrain ⊢
      omega
    · simp at h
  | grant k => exact absurd trivial hl
  | retry i k => exact absurd trivial hl
  | deliver k => exact absurd trivial hl
  | fill k => exact absurd trivial hl

end Steps

section System

variable {t : Topology}

/-- The steps of the network. -/
def Label.isNetwork : Label n → Prop
  | .grant _ | .retry _ _ | .deliver _ | .fill _ => True
  | .load _ _ | .store _ _ _ | .replacement _ | .evict => False

instance : DecidablePred (Label.isNetwork (n := n)) := fun l => by
  cases l <;> unfold Label.isNetwork <;> infer_instance

/-- The skeleton takes a step of the network where the system does. -/
theorem absLabel_isNetwork (l : Label t.n) : (absLabel l).isNetwork ↔ l.isNetwork := by
  cases l <;> exact Iff.rfl

/-- The work that is left in a state of the full system. -/
def System.work (P : Protocols σ τ) (s : System t σ τ) : Nat := (abs P s).work t.llcId

variable {P : Protocols σ τ} {holds : σ → Bool} {llcHolds : τ → Bool} {s s' : System t σ τ}

/-- A step of the network leaves less work than there was. -/
theorem system_step_work_lt (hP : Lawful P holds llcHolds) (hT : WorkLaws hP.tables)
    (hr : (system t P).Reachable s) {l : Label t.n} (hl : l.isNetwork) (h : (system t P).step s l s') :
    s'.work P < s.work P :=
  step_work_lt hT ((absLabel_isNetwork l).2 hl) ((simulation (t := t) hP).step s l s' hr h)

/-- Any other step makes so much work at most. -/
theorem system_step_work_le (hP : Lawful P holds llcHolds) (hT : WorkLaws hP.tables)
    (hr : (system t P).Reachable s) {l : Label t.n} (hl : ¬ l.isNetwork) (h : (system t P).step s l s') :
    s'.work P ≤ s.work P + (6 * t.n + 24) :=
  step_work_le hT t.llcId_ge (fun hnetwork => hl ((absLabel_isNetwork l).1 hnetwork))
    ((simulation (t := t) hP).step s l s' hr h)

/-- A run of network steps of a lawful system is no longer than the work that was left. -/
theorem network_run_length_le (hP : Lawful P holds llcHolds) (hT : WorkLaws hP.tables)
    (hr : (system t P).Reachable s) {labels : List (Label t.n)}
    (hrun : (system t P).InternalRun Label.isNetwork labels s s') : labels.length + s'.work P ≤ s.work P :=
  hrun.length_add_le hr fun _ _ _ hr hl hstep => system_step_work_lt hP hT hr hl hstep

/-- In every run, what comes from outside pays for the steps of the network. -/
def PaysForNetwork {σ τ : Type} (t : Topology) (P : Protocols σ τ) : Prop :=
  ∀ h s, (system t P).Path h s →
    h.countP (fun p => decide p.2.isNetwork) + s.work P ≤
      (6 * t.n + 24) * h.countP fun p => decide (¬ p.2.isNetwork)

/-- Outside events pay for the network of a lawful system with such tables. -/
theorem Lawful.paysForNetwork (t : Topology) (hP : Lawful P holds llcHolds) (hT : WorkLaws hP.tables) :
    PaysForNetwork t P := by
  intro h s hp
  apply hp.countP_internal_le
  · intro s hs
    rw [show s = System.initial t σ τ from hs]
    simp [System.work, Skeleton.work, abs, System.initial, queueWork, busWork, suppliesWork,
      absCore, absHome]
  · exact fun s l s' hr hl hstep => system_step_work_lt hP hT hr hl hstep
  · exact fun s l s' hr hl hstep => system_step_work_le hP hT hr hl hstep

/-- The MSI tables. -/
theorem msi_workLaws : WorkLaws msiLawful.tables := by constructor <;> decide

/-- The MESI tables. -/
theorem mesi_workLaws : WorkLaws mesiLawful.tables := by constructor <;> decide

/-- The MOESI tables. -/
theorem moesi_workLaws : WorkLaws moesiLawful.tables := by constructor <;> decide

/-- In the three snooping protocols the network takes at most `6 * n + 24` steps for each processor request,
replacement and eviction, in whatever order it takes them. -/
theorem snooping_paysForNetwork (t : Topology) :
    PaysForNetwork t msiProtocols ∧ PaysForNetwork t mesiProtocols ∧ PaysForNetwork t moesiProtocols :=
  ⟨msiLawful.paysForNetwork t msi_workLaws, mesiLawful.paysForNetwork t mesi_workLaws,
    moesiLawful.paysForNetwork t moesi_workLaws⟩

end System

end Octopus.Snoop
