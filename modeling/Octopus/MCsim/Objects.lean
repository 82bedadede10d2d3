import Octopus.MCsim.Bursts

/-!
# The objects of the requests

A request is queued and pending as one object. The data of a burst find the first pending request of their requestor
and address, which may be another one than they were sent for, and one that is still queued; then the code makes fewer
commands for it than it asked for, or frees it. While no two pending requests of a type are for the same data, this
does not happen: what is queued is pending, and stays as it was accepted.
-/

namespace Octopus.MCsim.MemorySystem

variable {cfg : MemoryConfig} {s : MemorySystem} {type : RequestType} {data : DataPacket} {rs : List Request}

/-! ## What a burst changes -/

/-- The requests that the data of a burst find are those for them. -/
theorem data_eq_iff (data : DataPacket) (r : Request) :
    (data.requestorID = r.requestorID ∧ data.address = r.address) ↔ r.data = data := by
  rw [Request.data]
  constructor
  · exact fun h => by rw [← h.1, ← h.2]
  · exact fun h => ⟨(congrArg DataPacket.requestorID h).symm, (congrArg DataPacket.address h).symm⟩

/-- A burst takes a request from the pending ones, or leaves all that is not its size. -/
theorem receive_sublist {β : Type} {f : Request → β} (hf : ∀ r size, f { r with requestSize := size } = f r)
    (data : Option DataPacket) (rs : List Request) : ((receive cfg data rs).2.map f).Sublist (rs.map f) := by
  cases data with
  | none => exact List.Sublist.refl _
  | some data =>
    change ((burstDone cfg data rs).2.map f).Sublist _
    induction rs with
    | nil => exact List.Sublist.refl _
    | cons r rest ih =>
      rw [burstDone]
      split_ifs
      · exact List.sublist_cons_self _ _
      · rw [List.map_cons, hf]
        exact List.Sublist.refl _
      · exact ih.cons_cons _

/-- What is pending after a burst was pending, or is the object that the data found. -/
theorem mem_receive {data : Option DataPacket} {p : Request} (hp : p ∈ (receive cfg data rs).2) :
    p ∈ rs ∨ ∃ q ∈ rs, data = some q.data ∧ p.handle = q.handle := by
  cases data with
  | none => exact .inl hp
  | some data =>
    change p ∈ (burstDone cfg data rs).2 at hp
    induction rs with
    | nil => exact .inl hp
    | cons r rest ih =>
      rw [burstDone] at hp
      split_ifs at hp with hfound
      · exact .inl (List.mem_cons_of_mem r hp)
      · cases List.mem_cons.1 hp with
        | inl hp => exact .inr ⟨r, List.mem_cons_self, by rw [(data_eq_iff data r).1 hfound], by rw [hp]⟩
        | inr hp => exact .inl (List.mem_cons_of_mem r hp)
      · cases List.mem_cons.1 hp with
        | inl hp => exact .inl (hp ▸ List.mem_cons_self)
        | inr hp =>
          cases ih hp with
          | inl hmem => exact .inl (List.mem_cons_of_mem r hmem)
          | inr hfound =>
            obtain ⟨q, hq, hdata⟩ := hfound
            exact .inr ⟨q, List.mem_cons_of_mem r hq, hdata⟩

/-- A request for other data stays pending as it is. -/
theorem mem_receive_of_ne {data : Option DataPacket} {r : Request} (hr : r ∈ rs) (hne : data ≠ some r.data) :
    r ∈ (receive cfg data rs).2 := by
  cases data with
  | none => exact hr
  | some data =>
    change r ∈ (burstDone cfg data rs).2
    induction rs with
    | nil => exact hr
    | cons r' rest ih =>
      rw [burstDone]
      have hother : (data.requestorID = r'.requestorID ∧ data.address = r'.address) → r ≠ r' := by
        intro hfound heq
        rw [data_eq_iff, ← heq] at hfound
        exact hne (congrArg some hfound.symm)
      split_ifs with hfound
      · exact List.mem_of_ne_of_mem (hother hfound) hr
      · exact List.mem_cons_of_mem _ (List.mem_of_ne_of_mem (hother hfound) hr)
      · cases List.mem_cons.1 hr with
        | inl hr => exact hr ▸ List.mem_cons_self
        | inr hr => exact List.mem_cons_of_mem r' (ih hr)

/-- The queue does not change if its requests have the sizes of their objects. -/
theorem shareSizes_eq_self {pending queue : List Request}
    (h : ∀ r ∈ queue, ∀ p ∈ pending, p.handle = r.handle → p.requestSize = r.requestSize) :
    shareSizes pending queue = queue := by
  rw [shareSizes]
  refine (List.map_congr_left fun r hr => ?_).trans (List.map_id queue)
  cases hfind : pending.find? fun p => p.handle = r.handle with
  | none => rfl
  | some p =>
    have hhandle : p.handle = r.handle := by simpa using List.find?_some hfind
    have hsize := h r hr p (List.mem_of_find?_eq_some hfind) hhandle
    rw [Option.elim_some, hsize]
    rfl

/-! ## The invariant -/

/-- The pending requests are different objects, those of a type are for different data, and what is queued is pending
and as it was accepted. -/
structure Distinct (s : MemorySystem) : Prop where
  ofType : ∀ type, ∀ r ∈ s.pending type, r.requestType = type
  handles : ((s.pending .dataRead ++ s.pending .dataWrite).map Request.handle).Nodup
  allocated : ∀ type, ∀ r ∈ s.pending type, r.handle < s.allocated
  data : ∀ type, ((s.pending type).map Request.data).Nodup
  queued : ∀ r ∈ s.generalBuffer, r ∈ s.pending r.requestType
  unchanged : ∀ r ∈ s.generalBuffer, r ∈ s.accepted

namespace Distinct

/-- Pending requests with one object are the same. -/
theorem eq_of_handle (h : s.Distinct) {type' : RequestType} {r r' : Request} (hr : r ∈ s.pending type)
    (hr' : r' ∈ s.pending type') (hhandle : r.handle = r'.handle) : r = r' := by
  have hmem : ∀ {type : RequestType} {r : Request}, r ∈ s.pending type →
      r ∈ s.pending .dataRead ++ s.pending .dataWrite := by
    intro type r hr
    cases type with
    | dataRead => exact List.mem_append_left _ hr
    | dataWrite => exact List.mem_append_right _ hr
  exact List.inj_on_of_nodup_map h.handles (hmem hr) (hmem hr') hhandle

/-- Before the first request there is nothing to keep apart. -/
theorem initial (cfg : MemoryConfig) : (MemorySystem.initial cfg).Distinct where
  ofType type := by cases type <;> exact fun _ hr => absurd hr List.not_mem_nil
  handles := List.nodup_nil
  allocated type := by cases type <;> exact fun _ hr => absurd hr List.not_mem_nil
  data type := by cases type <;> exact List.nodup_nil
  queued _ hr := absurd hr List.not_mem_nil
  unchanged _ hr := absurd hr List.not_mem_nil

/-- A request for data that no pending request of its type is for. -/
theorem addRequest (h : s.Distinct) {requestorID address size : Nat} {isRead : Bool}
    (hnew : ∀ r ∈ s.pending (if isRead then .dataRead else .dataWrite), r.data ≠ ⟨requestorID, address⟩) :
    (s.addRequest cfg requestorID address isRead size).Distinct := by
  generalize hr : request cfg s.allocated s.clockCycle requestorID address isRead size = r
  have htype : r.requestType = if isRead then .dataRead else .dataWrite := by rw [← hr]; rfl
  have hhandle : r.handle = s.allocated := by rw [← hr]; rfl
  have hdata : r.data = ⟨requestorID, address⟩ := by rw [← hr]; rfl
  have hpending : ∀ type, (s.addRequest cfg requestorID address isRead size).pending type =
      s.pending type ++ if r.requestType = type then [r] else [] := by
    intro type
    rw [← hr]
    exact (addRequest_data cfg s requestorID address isRead size type).1
  have hmem : ∀ type, ∀ p ∈ (s.addRequest cfg requestorID address isRead size).pending type,
      p ∈ s.pending type ∨ r.requestType = type ∧ p = r := by
    intro type p hp
    rw [hpending, List.mem_append] at hp
    refine hp.imp_right fun hp => ?_
    split_ifs at hp with htype
    · exact ⟨htype, List.mem_singleton.1 hp⟩
    · exact absurd hp List.not_mem_nil
  have hbelow : ∀ p ∈ s.pending .dataRead ++ s.pending .dataWrite, p.handle ≠ s.allocated := by
    intro p hp
    cases List.mem_append.1 hp with
    | inl hp => exact (h.allocated .dataRead p hp).ne
    | inr hp => exact (h.allocated .dataWrite p hp).ne
  constructor
  · intro type p hp
    cases hmem type p hp with
    | inl hp => exact h.ofType type p hp
    | inr hp => exact hp.2 ▸ hp.1
  · have hperm : ((s.addRequest cfg requestorID address isRead size).pending .dataRead ++
        (s.addRequest cfg requestorID address isRead size).pending .dataWrite).Perm
          (r :: (s.pending .dataRead ++ s.pending .dataWrite)) := by
      rw [hpending, hpending, htype]
      cases isRead with
      | true => simp
      | false => simpa using List.perm_append_singleton r (s.pending .dataRead ++ s.pending .dataWrite)
    rw [(hperm.map Request.handle).nodup_iff, List.map_cons, List.nodup_cons, List.mem_map]
    refine ⟨fun hused => ?_, h.handles⟩
    obtain ⟨p, hp, heq⟩ := hused
    exact hbelow p hp (heq.trans hhandle)
  · intro type p hp
    change p.handle < s.allocated + 1
    cases hmem type p hp with
    | inl hp => exact Nat.lt_succ_of_lt (h.allocated type p hp)
    | inr hp =>
      rw [hp.2, hhandle]
      exact Nat.lt_succ_self _
  · intro type
    rw [hpending]
    split_ifs with heq
    · rw [List.map_append, List.map_singleton, ← List.concat_eq_append]
      refine (h.data type).concat fun hused => ?_
      obtain ⟨p, hp, hpdata⟩ := List.mem_map.1 hused
      rw [← heq, htype] at hp
      exact hnew p hp (hpdata.trans hdata)
    · rw [List.append_nil]
      exact h.data type
  · intro p hp
    rw [hpending]
    cases List.mem_append.1 hp with
    | inl hp => exact List.mem_append_left _ (h.queued p hp)
    | inr hp =>
      rw [List.mem_singleton.1 hp, hr, if_pos rfl]
      exact List.mem_append_right _ (List.mem_singleton_self r)
  · intro p hp
    exact (List.mem_append.1 hp).elim (fun hp => List.mem_append_left _ (h.unchanged p hp)) (List.mem_append_right _)

/-- Commands have no part in it: what is pending stays, and the queue only gets shorter. -/
theorem of_subset (h : s.Distinct) {s' : MemorySystem} (hpending : ∀ type, s'.pending type = s.pending type)
    (hallocated : s'.allocated = s.allocated) (haccepted : s'.accepted = s.accepted)
    (hqueue : s'.generalBuffer ⊆ s.generalBuffer) : s'.Distinct where
  ofType type := by
    rw [hpending]
    exact h.ofType type
  handles := by
    rw [hpending, hpending]
    exact h.handles
  allocated type := by
    rw [hpending, hallocated]
    exact h.allocated type
  data type := by
    rw [hpending]
    exact h.data type
  queued r hr := by
    rw [hpending]
    exact h.queued r (hqueue hr)
  unchanged r hr := by
    rw [haccepted]
    exact h.unchanged r (hqueue hr)

/-- If the data that arrive are for no request of the queue, the objects of the queue keep their sizes. -/
theorem shareSizes (h : s.Distinct) (type : RequestType)
    (hdata : ∀ r ∈ s.generalBuffer, (arriving r.requestType (s.inFlight r.requestType)).1 ≠ some r.data) :
    MemorySystem.shareSizes (receive cfg (arriving type (s.inFlight type)).1 (s.pending type)).2 s.generalBuffer =
      s.generalBuffer := by
  apply shareSizes_eq_self
  intro r hr p hp hhandle
  have hpending := h.queued r hr
  cases mem_receive hp with
  | inl hold => rw [h.eq_of_handle hold hpending hhandle]
  | inr hfound =>
    obtain ⟨q, hq, harrive, hsame⟩ := hfound
    have hqr : q = r := h.eq_of_handle hq hpending (hsame.symm.trans hhandle)
    have htype : r.requestType = type := h.ofType type r (hqr ▸ hq)
    have hne := hdata r hr
    rw [htype] at hne
    exact absurd (hqr ▸ harrive) hne

/-- Then the queue stays as it is. -/
theorem finish_queue (h : s.Distinct)
    (hdata : ∀ r ∈ s.generalBuffer, (arriving r.requestType (s.inFlight r.requestType)).1 ≠ some r.data) :
    (s.finish cfg).generalBuffer = s.generalBuffer := by
  have helim : ∀ o : Option DataPacket, (o.elim s.generalBuffer fun _ => s.generalBuffer) = s.generalBuffer := by
    intro o
    cases o <;> rfl
  have hshare := @shareSizes cfg _ h
  have hwrite := hshare .dataWrite hdata
  have hread := hshare .dataRead hdata
  rw [finish, updateDevice_eq, updateSendData_eq]
  simp only [pending, inFlight] at hwrite hread
  simp only [tick, hwrite, helim, hread]

/-- And the requests stay apart. -/
theorem finish (h : s.Distinct)
    (hdata : ∀ r ∈ s.generalBuffer, (arriving r.requestType (s.inFlight r.requestType)).1 ≠ some r.data) :
    (s.finish cfg).Distinct := by
  have hpending := fun type => (finish_data cfg s type).2.1
  obtain ⟨_, _, _, _, _, _, _, _, hfinish⟩ := finish_frame cfg s
  have hallocated : (s.finish cfg).allocated = s.allocated := by rw [hfinish]
  have haccepted : (s.finish cfg).accepted = s.accepted := by rw [hfinish]
  have hsub : ∀ {β : Type} {f : Request → β}, (∀ r size, f { r with requestSize := size } = f r) → ∀ type,
      (((s.finish cfg).pending type).map f).Sublist ((s.pending type).map f) := by
    intro β f hf type
    rw [hpending]
    exact receive_sublist hf _ _
  constructor
  · intro type r hr
    obtain ⟨p, hp, heq⟩ := List.mem_map.1 ((hsub (fun _ _ => rfl) type).subset
      (List.mem_map_of_mem (f := Request.requestType) hr))
    exact heq ▸ h.ofType type p hp
  · have hhandles := (hsub (f := Request.handle) (fun _ _ => rfl) .dataRead).append
      (hsub (f := Request.handle) (fun _ _ => rfl) .dataWrite)
    rw [← List.map_append, ← List.map_append] at hhandles
    exact h.handles.sublist hhandles
  · intro type r hr
    obtain ⟨p, hp, heq⟩ := List.mem_map.1 ((hsub (fun _ _ => rfl) type).subset
      (List.mem_map_of_mem (f := Request.handle) hr))
    rw [hallocated, ← heq]
    exact h.allocated type p hp
  · exact fun type => (h.data type).sublist (hsub (fun _ _ => rfl) type)
  · intro r hr
    rw [h.finish_queue hdata] at hr
    rw [hpending]
    exact mem_receive_of_ne (h.queued r hr) (hdata r hr)
  · intro r hr
    rw [h.finish_queue hdata] at hr
    rw [haccepted]
    exact h.unchanged r hr

end Distinct

end Octopus.MCsim.MemorySystem
