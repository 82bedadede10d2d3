import Octopus.Snoop.Queue

/-!
# Every message has an addressee

The owners that messages name, and the addressees of data messages, are private caches or the last-level cache,
in every state of the skeleton that a run reaches. So every data message on its way can be delivered.
-/

namespace Octopus.Snoop

variable {σ τ : Type} {n llc : Nat} {T : Tables σ τ} {s s' : Skeleton n σ τ}

/-- The identifiers of the controllers. -/
def IsAddress (n llc o : Nat) : Prop := o < n ∨ o = llc

/-- The requests of a list name controllers. -/
def Addresses (n llc : Nat) (rs : List Req) : Prop := ∀ r ∈ rs, IsAddress n llc r.owner

/-- The data messages of a list name controllers and go to controllers. -/
def Deliverable (n llc : Nat) (fs : List Supply) : Prop := ∀ f ∈ fs, IsAddress n llc f.dest ∧ IsAddress n llc f.owner

/-- Whatever a state of the skeleton names is a controller. -/
structure Skeleton.Addressed (llc : Nat) (s : Skeleton n σ τ) : Prop where
  saved : ∀ i, Addresses n llc (s.core i).saved
  waiting : ∀ i, Addresses n llc (s.waiting i)
  queue : ∀ m ∈ s.queue, IsAddress n llc (m.owner llc)
  bus : Addresses n llc s.bus
  flight : Deliverable n llc s.flight
  pending : ∀ o ∈ s.home.pending, IsAddress n llc o
  memory : ∀ o ∈ s.memory, IsAddress n llc o

/-- Two lists of requests. -/
theorem Addresses.append {rs rs' : List Req} (h : Addresses n llc rs) (h' : Addresses n llc rs') :
    Addresses n llc (rs ++ rs') := by
  intro r hr
  cases List.mem_append.1 hr with
  | inl hr => exact h r hr
  | inr hr => exact h' r hr

/-- Two lists of data messages. -/
theorem Deliverable.append {fs fs' : List Supply} (h : Deliverable n llc fs) (h' : Deliverable n llc fs') :
    Deliverable n llc (fs ++ fs') := by
  intro f hf
  cases List.mem_append.1 hf with
  | inl hf => exact h f hf
  | inr hf => exact h' f hf

section Cores

variable {c c' : Core σ} {i : Fin n} {e : EventId} {r : Req} {exclusive : Bool} {out : CoreOut}

/-- One data message to each of some controllers. -/
theorem supplyTo_deliverable {owner : Nat} {dests : List Nat} (howner : IsAddress n llc owner)
    (hdests : ∀ d ∈ dests, IsAddress n llc d) : Deliverable n llc (supplyTo owner exclusive dests) := by
  intro f hf
  rw [supplyTo, List.mem_map] at hf
  cases hf with
  | intro d hd =>
    rw [← hd.2]
    exact ⟨hdests d hd.1, howner⟩

/-- A cache sends the line to the caches whose requests it parked, to the owner of the message and home. -/
theorem supplies_deliverable (self : Nat) (both : Bool) {saved : List Req} {owner : Nat}
    (hsaved : Addresses n llc saved) (howner : IsAddress n llc owner) :
    Deliverable n llc (supplies llc self both exclusive saved owner) := by
  have hhome : IsAddress n llc llc := .inr rfl
  have hto : ∀ {o}, IsAddress n llc o → IsAddress n llc (if o = self then llc else o) := by
    intro o ho
    split
    · exact hhome
    · exact ho
  cases saved with
  | nil =>
    apply supplyTo_deliverable howner
    intro d hd
    simp only [List.mem_append, List.mem_singleton] at hd
    cases hd with
    | inl hd =>
      cases both <;> simp at hd
      exact hd ▸ hhome
    | inr hd => exact hd ▸ hto howner
  | cons first rest =>
    have hfirst := hsaved first List.mem_cons_self
    apply supplyTo_deliverable hfirst
    intro d hd
    simp only [List.mem_append, List.mem_singleton, List.mem_map] at hd
    rcases hd with (hd | hd) | hd
    · cases both <;> cases hread : first.type == requestTypeGetS <;> simp [hread] at hd
      all_goals exact hd ▸ hhome
    · cases hd with
      | intro r hr => exact hr.2 ▸ hsaved r (List.mem_cons_of_mem _ hr.1)
    · exact hd ▸ hto hfirst

/-- What a cell of a private cache parks and sends names controllers. -/
theorem process_addresses (hr : IsAddress n llc r.owner) (hc : Addresses n llc c.saved)
    (h : c.process T.l1 llc i e r exclusive = .ok (c', out)) :
    Addresses n llc c'.saved ∧ Addresses n llc out.bus ∧ Addresses n llc out.stalled ∧ Deliverable n llc out.data := by
  have hone : Addresses n llc [r] := fun q hq => List.mem_singleton.1 hq ▸ hr
  have hnil : Addresses n llc [] := fun q hq => absurd hq List.not_mem_nil
  rw [Core.process] at h
  split at h
  · simp at h
  split at h
  · simp only [Except.ok.injEq, Prod.mk.injEq] at h
    rw [← h.1, ← h.2]
    exact ⟨hc, hnil, hone, fun f hf => absurd hf List.not_mem_nil⟩
  · simp only [Except.ok.injEq, Prod.mk.injEq] at h
    rw [← h.1, ← h.2]
    refine ⟨?_, ?_, hnil, ?_⟩
    · rw [savedAfter]
      split
      · exact hc.append hone
      split
      · exact hnil
      · exact hc
    · intro q hq
      simp only [busRequests, List.mem_filterMap] at hq
      cases hq with
      | intro a ha =>
        cases a <;> simp at ha
        all_goals exact ha.2 ▸ .inl i.isLt
    · split
      · exact supplies_deliverable i false hc hr
      split
      · exact supplies_deliverable i true hc hr
      · exact fun f hf => absurd hf List.not_mem_nil

/-- A cell of one private cache. -/
theorem runCore_addressed (hs : s.Addressed llc) (hr : IsAddress n llc r.owner)
    (h : s.runCore T llc i e r exclusive = .ok s') : s'.Addressed llc := by
  rw [Skeleton.runCore] at h
  split at h
  · simp at h
  · next c out hprocess =>
    have hcell := process_addresses hr (hs.saved i) hprocess
    rw [← Except.ok.inj h]
    refine ⟨fun j => ?_, fun j => ?_, hs.queue, hs.bus.append hcell.2.1, hs.flight.append hcell.2.2.2, hs.pending,
      hs.memory⟩
    · by_cases hj : j = i
      · subst hj
        simpa [Skeleton.emitCore] using hcell.1
      · simpa [Skeleton.emitCore, hj] using hs.saved j
    · by_cases hj : j = i
      · subst hj
        simpa [Skeleton.emitCore] using (hs.waiting j).append hcell.2.2.1
      · simpa [Skeleton.emitCore, hj] using hs.waiting j

end Cores

section Home

variable {m : HomeMsg}

/-- A message that the last-level cache processes. -/
theorem homeStep_addressed (hs : s.Addressed llc) (hm : IsAddress n llc (m.owner llc))
    (h : Skeleton.homeStep T llc s m = .ok s') : s'.Addressed llc := by
  rw [Skeleton.homeStep] at h
  split at h
  · simp at h
  · next home out hprocess =>
    rw [← Except.ok.inj h]
    rw [Home.process] at hprocess
    split at hprocess
    · simp at hprocess
    rw [Home.take] at hprocess
    split at hprocess
    · simp at hprocess
    split at hprocess
    · simp at hprocess
    simp only [Except.ok.injEq, Prod.mk.injEq] at hprocess
    rw [← hprocess.1, ← hprocess.2]
    refine ⟨hs.saved, hs.waiting, hs.queue, hs.bus.append ?_, hs.flight.append ?_, ?_, ?_⟩
    · intro r hr
      dsimp only at hr
      split at hr
      · exact List.mem_singleton.1 hr ▸ .inr rfl
      · exact absurd hr List.not_mem_nil
    · intro f hf
      rw [List.mem_map] at hf
      cases hf with
      | intro o ho =>
        rw [← ho.2]
        refine ⟨hm, ?_⟩
        have hanswered := ho.1
        rw [Home.answered] at hanswered
        split at hanswered
        · split at hanswered
          · exact hs.pending o hanswered
          · exact List.mem_singleton.1 hanswered ▸ hm
        · exact absurd hanswered List.not_mem_nil
    · intro o ho
      simp only [Skeleton.emitHome, Home.pendingAfter] at ho
      split at ho
      · cases List.mem_append.1 ho with
        | inl ho => exact hs.pending o ho
        | inr ho => exact List.mem_singleton.1 ho ▸ hm
      split at ho
      · exact absurd ho List.not_mem_nil
      · exact hs.pending o ho
    · intro o ho
      cases List.mem_append.1 ho with
      | inl ho => exact hs.memory o ho
      | inr ho =>
        dsimp only at ho
        split at ho
        · exact List.mem_singleton.1 ho ▸ hm
        · exact absurd ho List.not_mem_nil

/-- A drain. -/
theorem drain_addressed {fuel : Nat} (hs : s.Addressed llc) (h : Skeleton.drain T llc fuel s = .ok s') :
    s'.Addressed llc := by
  induction fuel generalizing s with
  | zero => exact Except.ok.inj h ▸ hs
  | succ fuel ih =>
    rw [Skeleton.drain] at h
    split at h
    · exact Except.ok.inj h ▸ hs
    · next m queue hfirst =>
      split at h
      · simp at h
      · next s₁ hstep =>
        have hqueue : m ∈ s.queue ∧ ∀ x ∈ queue, x ∈ s.queue := by
          cases Home.firstReady_eq_some hfirst with
          | intro pre hsplit =>
            cases hsplit with
            | intro post hsplit =>
              rw [hsplit.1, hsplit.2.1]
              refine ⟨by simp, fun x hx => ?_⟩
              simp only [List.nil_append, List.mem_append, List.mem_cons] at hx ⊢
              cases hx with
              | inl hx => exact .inl hx
              | inr hx => exact .inr (.inr hx)
        apply ih _ h
        exact homeStep_addressed (s := { s with queue := queue })
          ⟨hs.saved, hs.waiting, fun x hx => hs.queue x (hqueue.2 x hx), hs.bus, hs.flight, hs.pending, hs.memory⟩
          (hs.queue m hqueue.1) hstep

/-- A drain of a queue. -/
theorem drainQueue_addressed {queue : List HomeMsg} (hs : s.Addressed llc)
    (hqueue : ∀ m ∈ queue, IsAddress n llc (m.owner llc)) (h : s.drainQueue T llc queue = .ok s') :
    s'.Addressed llc :=
  drain_addressed (s := { s with queue := queue })
    ⟨hs.saved, hs.waiting, hqueue, hs.bus, hs.flight, hs.pending, hs.memory⟩ h

/-- A message at the end of the queue. -/
theorem append_addressed (hs : s.Addressed llc) (hm : IsAddress n llc (m.owner llc)) :
    ∀ x ∈ s.queue ++ [m], IsAddress n llc (x.owner llc) := by
  intro x hx
  cases List.mem_append.1 hx with
  | inl hx => exact hs.queue x hx
  | inr hx => exact List.mem_singleton.1 hx ▸ hm

end Home

/-- A broadcast request. -/
theorem broadcast_addressed {r : Req} (hs : s.Addressed llc) (hr : IsAddress n llc r.owner)
    (h : s.broadcast T llc r = .ok s') : s'.Addressed llc := by
  rw [Skeleton.broadcast] at h
  split at h
  · simp at h
  · next results hresults =>
    have hcell : ∀ i, Addresses n llc (results i).1.saved ∧ Addresses n llc (results i).2.bus ∧
        Addresses n llc (results i).2.stalled ∧ Deliverable n llc (results i).2.data := by
      intro i
      have hsnoop := Lib.sequence_eq_ok.1 hresults i
      rw [Skeleton.snoop] at hsnoop
      split at hsnoop
      · simp at hsnoop
      · exact process_addresses hr (hs.saved i) hsnoop
    have hemit : Skeleton.Addressed llc
        ({ s with core := fun i => (results i).1 }.emitAll fun i => (results i).2) := by
      refine ⟨fun i => (hcell i).1, fun i => (hs.waiting i).append (hcell i).2.2.1, hs.queue, hs.bus.append ?_,
        hs.flight.append ?_, hs.pending, hs.memory⟩
      · intro q hq
        cases List.mem_flatMap.1 hq with
        | intro i hi => exact (hcell i).2.1 q hi.2
      · intro f hf
        cases List.mem_flatMap.1 hf with
        | intro i hi => exact (hcell i).2.2.2 f hi.2
    exact drainQueue_addressed hemit (append_addressed (m := .request r) hemit hr) h

/-- In every state that a run reaches, messages name controllers only. -/
theorem addressed_inductive : (skeletonSystem T n llc).Inductive (Skeleton.Addressed llc) where
  init s hs := by
    rw [show s = .initial T n from hs]
    constructor <;> simp [Skeleton.initial, Addresses, Deliverable]
  step s l s' _ hs h := by
    rw [show (skeletonSystem T n llc).step s l s' = (s.step T llc l = some (.ok s')) from rfl] at h
    cases l with
    | core i e =>
      rw [Skeleton.step] at h
      split at h
      · exact runCore_addressed hs (.inl i.isLt) (Option.some.inj h)
      · simp at h
    | evict =>
      rw [Skeleton.step] at h
      split at h
      · have hhome : Skeleton.Addressed llc { s with home := { s.home with location := some .pwb } } :=
          ⟨hs.saved, hs.waiting, hs.queue, hs.bus, hs.flight, hs.pending, hs.memory⟩
        exact drainQueue_addressed hhome (append_addressed hhome (.inr rfl)) (Option.some.inj h)
      · simp at h
    | grant k =>
      rw [Skeleton.step] at h
      split at h
      · next r hr =>
        have hbus : Skeleton.Addressed llc { s with bus := s.bus.eraseIdx k } :=
          ⟨hs.saved, hs.waiting, hs.queue, fun q hq => hs.bus q (List.mem_of_mem_eraseIdx hq), hs.flight, hs.pending,
            hs.memory⟩
        exact broadcast_addressed hbus (hs.bus r (List.mem_of_getElem? hr)) (Option.some.inj h)
      · simp at h
    | retry i k =>
      rw [Skeleton.step] at h
      split at h
      · next r hr =>
        split at h
        · simp at h
        · split at h
          · simp at h
          · have hwaiting : Skeleton.Addressed llc
                { s with waiting := Function.update s.waiting i ((s.waiting i).eraseIdx k) } := by
              refine ⟨hs.saved, fun j => ?_, hs.queue, hs.bus, hs.flight, hs.pending, hs.memory⟩
              by_cases hj : j = i
              · subst hj
                intro q hq
                exact hs.waiting j q (List.mem_of_mem_eraseIdx (by simpa using hq))
              · simpa [hj] using hs.waiting j
            exact runCore_addressed hwaiting (hs.waiting i r (List.mem_of_getElem? hr)) (Option.some.inj h)
      · simp at h
    | deliver k =>
      rw [Skeleton.step] at h
      split at h
      · next f hf =>
        have hflight : Skeleton.Addressed llc { s with flight := s.flight.eraseIdx k } :=
          ⟨hs.saved, hs.waiting, hs.queue, hs.bus, fun g hg => hs.flight g (List.mem_of_mem_eraseIdx hg), hs.pending,
            hs.memory⟩
        have howner := (hs.flight f (List.mem_of_getElem? hf)).2
        dsimp only at h
        split at h
        · exact drainQueue_addressed hflight (append_addressed (m := .data f.owner) hflight howner) (Option.some.inj h)
        · split at h
          · exact runCore_addressed hflight howner (Option.some.inj h)
          · simp at h
      · simp at h
    | fill k =>
      rw [Skeleton.step] at h
      split at h
      · next o ho =>
        have hmemory : Skeleton.Addressed llc { s with memory := s.memory.eraseIdx k } :=
          ⟨hs.saved, hs.waiting, hs.queue, hs.bus, hs.flight, hs.pending,
            fun q hq => hs.memory q (List.mem_of_mem_eraseIdx hq)⟩
        refine drainQueue_addressed hmemory ?_ (Option.some.inj h)
        intro m hm
        cases List.mem_append.1 hm with
        | inl hm => exact hs.queue m (List.mem_of_mem_take hm)
        | inr hm =>
          cases List.mem_cons.1 hm with
          | inl hm => exact hm ▸ hs.memory o (List.mem_of_getElem? ho)
          | inr hm => exact hs.queue m (List.mem_of_mem_drop hm)
      · simp at h

end Octopus.Snoop
