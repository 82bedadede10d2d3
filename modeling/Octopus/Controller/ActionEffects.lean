import Octopus.Controller.CacheLines

/-!
# What a list of actions can do to a line

The facts about the actions of a row that the processing loop rests on: what goes back into the
queue, what waits for the data array, whether the line gets a pending request, and whether it
enters the array.
-/

namespace Octopus

namespace ControllerAction

variable {σ : Type}

/-- The address an action of a row is about. -/
def addr? : ControllerAction σ → Option Nat
  | .removePending msg | .hitAction msg | .addPending msg | .sendBusMsg msg | .writeBack msg
  | .updateCacheLine msg _ | .modifyData msg | .saveReqForWriteBack msg | .stall msg | .sendInvMsg msg =>
    some msg.addr
  | .noAction | .removeSavedReq => none

end ControllerAction

namespace LineController

variable {σ : Type} {cfg : ControllerConfig} {acfg : ArrayConfig} {firing : Bool} {d : DataArray}
  {c : LineController σ} {msg : Message} {kind : ParkedKind} {as bs : List (ControllerAction σ)}
  {o o' : Outcome (LineController σ) ParkedAction}

/-- What a list of actions leaves behind. -/
structure Effect (cfg : ControllerConfig) (c : LineController σ) (as : List (ControllerAction σ))
    (o : Outcome (LineController σ) ParkedAction) : Prop where
  queued : ∀ x ∈ o.emitted, x.port = .processingQueue → .stall x.msg ∈ as
  parked : ∀ p ∈ o.parked, ∃ a ∈ as, a.addr? = some p.msg.addr
  pending : o.line.pending ≠ [] → c.pending ≠ [] ∨ ∃ x, .addPending x ∈ as
  array : o.line.slot.lineLocation = some .array → c.slot.lineLocation = some .array ∨
    c.slot.lineLocation = some .mshr ∧ ∃ x l, .updateCacheLine x l ∈ as ∧ writesData cfg x l = true
  mshr : o.line.slot.lineLocation = some .mshr → c.slot.lineLocation = some .mshr ∨
    ∃ x l, .updateCacheLine x l ∈ as ∧ writesData cfg x l = false
  pwb : o.line.slot.lineLocation = some .pwb → c.slot.lineLocation = some .pwb

/-- Nothing happens. -/
theorem Effect.nil : Effect cfg c [] { line := c, array := d } where
  queued := by simp
  parked := by simp
  pending := .inl
  array := .inl
  mshr := .inl
  pwb := id

/-- Two lists one after the other, whose line updates agree on whether they bring the bytes. -/
theorem Effect.append (h : Effect cfg c as o) (h' : Effect cfg o.line bs o') {w : Bool}
    (hw : ∀ x l, .updateCacheLine x l ∈ as ++ bs → writesData cfg x l = w) :
    Effect cfg c (as ++ bs) { o' with emitted := o.emitted ++ o'.emitted, parked := o.parked ++ o'.parked } where
  queued x hx hport := by
    rcases List.mem_append.1 hx with hx | hx
    · exact List.mem_append_left _ (h.queued x hx hport)
    · exact List.mem_append_right _ (h'.queued x hx hport)
  parked p hp := by
    rcases List.mem_append.1 hp with hp | hp
    · obtain ⟨a, ha, haddr⟩ := h.parked p hp
      exact ⟨a, List.mem_append_left _ ha, haddr⟩
    · obtain ⟨a, ha, haddr⟩ := h'.parked p hp
      exact ⟨a, List.mem_append_right _ ha, haddr⟩
  pending hne := by
    rcases h'.pending hne with hmid | ⟨x, hx⟩
    · refine (h.pending hmid).imp_right ?_
      rintro ⟨x, hx⟩
      exact ⟨x, List.mem_append_left _ hx⟩
    · exact .inr ⟨x, List.mem_append_right _ hx⟩
  array harray := by
    rcases h'.array harray with hmid | ⟨hmid, x, l, hx, hwrites⟩
    · refine (h.array hmid).imp_right ?_
      rintro ⟨hloc, x, l, hx, hwrites⟩
      exact ⟨hloc, x, l, List.mem_append_left _ hx, hwrites⟩
    · rcases h.mshr hmid with hloc | ⟨y, l', hy, hnot⟩
      · exact .inr ⟨hloc, x, l, List.mem_append_right _ hx, hwrites⟩
      · -- the line enters a holding register only on an update without bytes
        rw [hw x l (List.mem_append_right _ hx)] at hwrites
        rw [hw y l' (List.mem_append_left _ hy), hwrites] at hnot
        simp at hnot
  mshr hmshr := by
    rcases h'.mshr hmshr with hmid | ⟨x, l, hx, hnot⟩
    · refine (h.mshr hmid).imp_right ?_
      rintro ⟨x, l, hx, hnot⟩
      exact ⟨x, l, List.mem_append_left _ hx, hnot⟩
    · exact .inr ⟨x, l, List.mem_append_right _ hx, hnot⟩
  pwb hpwb := h.pwb (h'.pwb hpwb)

/-- An outcome of a reading action: it waits, or it runs. -/
theorem reading_eq_ok {run : Result σ} (h : reading acfg firing d c msg kind run = .ok o) :
    o = { line := c, array := d, parked := [⟨kind, msg⟩] } ∨
      ∃ r array, run = .ok r ∧ o = { line := r.1, array := array, emitted := r.2 } := by
  rw [reading] at h
  by_cases hwait : (msg.data.isNone && !checkReadinessOfCache acfg firing d c.slot) = true
  · rw [if_pos hwait] at h
    exact .inl (Except.ok.inj h).symm
  · rw [if_neg hwait] at h
    cases run with
    | error e => simp [Except.map] at h
    | ok r => exact .inr ⟨r, _, rfl, (Except.ok.inj h).symm⟩

/-- An outcome that changes no location and no pending request, and puts nothing back into the queue. -/
theorem Effect.of_keeps (a : ControllerAction σ) (haddr : ∀ p ∈ o.parked, a.addr? = some p.msg.addr)
    (hqueued : ∀ x ∈ o.emitted, x.port ≠ .processingQueue) (hpending : o.line.pending ≠ [] → c.pending ≠ [])
    (hloc : o.line.slot.lineLocation = c.slot.lineLocation) : Effect cfg c [a] o where
  queued x hx hport := absurd hport (hqueued x hx)
  parked p hp := ⟨a, List.mem_singleton_self a, haddr p hp⟩
  pending hne := .inl (hpending hne)
  array harray := .inl (hloc ▸ harray)
  mshr hmshr := .inl (hloc ▸ hmshr)
  pwb hpwb := hloc ▸ hpwb

/-- A hit, waiting or not. -/
theorem hitTimed_effect (h : hitTimed acfg firing d c msg = .ok o) : Effect cfg c [.hitAction msg] o := by
  obtain rfl | ⟨r, array, hrun, rfl⟩ := reading_eq_ok h
  · exact .of_keeps _ (by simp [ControllerAction.addr?]) (by simp) id rfl
  · obtain rfl := Except.ok.inj hrun
    exact .of_keeps _ (by simp) (by simp) id rfl

/-- An answer to the pending requests, waiting or not. -/
theorem removePendingTimed_effect (h : removePendingTimed acfg firing d c msg = .ok o) :
    Effect cfg c [.removePending msg] o := by
  obtain rfl | ⟨r, array, hrun, rfl⟩ := reading_eq_ok h
  · exact .of_keeps _ (by simp [ControllerAction.addr?]) (by simp) id rfl
  · rw [removePendingAndRespond] at hrun
    split_ifs at hrun
    split at hrun
    · simp at hrun
    · obtain rfl := Except.ok.inj hrun
      exact .of_keeps _ (by simp) (by simp) (by simp) rfl

/-- Addressing the parked requests keeps the address. -/
theorem addressSavedRequests_addr : (addressSavedRequests cfg c msg).addr = msg.addr := by
  rw [addressSavedRequests]
  split <;> rfl

/-- A write-back, waiting or not. -/
theorem writeBackTimed_effect (h : writeBackTimed cfg acfg firing d c msg = .ok o) :
    Effect cfg c [.writeBack msg] o := by
  obtain rfl | ⟨r, array, hrun, rfl⟩ := reading_eq_ok h
  · exact .of_keeps _ (by simp [ControllerAction.addr?, addressSavedRequests_addr]) (by simp) id rfl
  · obtain rfl := Except.ok.inj hrun
    exact .of_keeps _ (by simp) (by simp) id rfl

/-- Where a line is after its bytes have been written. -/
theorem lineLocation_updateLineData {slot slot' : Slot σ} {bytes : List UInt8} {n : Nat}
    (h : slot.updateLineData n bytes = some slot') :
    slot'.lineLocation = if slot.lineLocation = some .mshr then some .array else slot.lineLocation := by
  obtain ⟨r, rfl, rfl⟩ := Option.map_eq_some_iff.1 h
  simp only [Slot.lineLocation, Option.map_some, Option.some.injEq]
  split_ifs <;> rfl

/-- The bits of a valid line leave it where it is. -/
theorem lineLocation_updateLineBits {slot : Slot σ} {l : GenericCacheLine σ} (hvalid : l.valid = true) :
    ((slot.updateLineBits l).getD slot).lineLocation = slot.lineLocation := by
  cases slot <;> simp [Slot.updateLineBits, Slot.lineLocation, hvalid]

/-- The bits of a line leave it where it is, remove it, or enter it in a holding register. -/
theorem lineLocation_writeLine2MSHR (slot : Slot σ) (l : GenericCacheLine σ) :
    ((slot.updateLineBits l).getD (slot.writeLine2MSHR l)).lineLocation = slot.lineLocation ∨
      ((slot.updateLineBits l).getD (slot.writeLine2MSHR l)).lineLocation = none ∨
      slot.lineLocation = none ∧
        ((slot.updateLineBits l).getD (slot.writeLine2MSHR l)).lineLocation = some .mshr := by
  cases hvalid : l.valid <;> cases slot <;>
    simp [Slot.updateLineBits, Slot.writeLine2MSHR, Slot.lineLocation, hvalid]

/-- The bytes of a line, waiting or not. -/
theorem writeCacheLineData_spec (h : writeCacheLineData cfg acfg firing d c msg = .ok o) :
    o.emitted = [] ∧ (∀ p ∈ o.parked, p.msg = msg) ∧ o.line.pending = c.pending ∧
      (o.line.slot.lineLocation = c.slot.lineLocation ∨
        c.slot.lineLocation = some .mshr ∧ o.line.slot.lineLocation = some .array) := by
  rw [writeCacheLineData] at h
  by_cases hready : checkReadinessOfCache acfg firing d c.slot = true
  · rw [if_pos hready] at h
    split at h
    · simp at h
    · next slot' hslot' =>
      have hloc := lineLocation_updateLineData hslot'
      rw [← Except.ok.inj h]
      refine ⟨rfl, by simp, rfl, ?_⟩
      by_cases hmshr : c.slot.lineLocation = some .mshr
      · rw [if_pos hmshr] at hloc
        exact .inr ⟨hmshr, hloc⟩
      · rw [if_neg hmshr] at hloc
        exact .inl hloc
  · rw [if_neg hready] at h
    rw [← Except.ok.inj h]
    exact ⟨rfl, by simp, rfl, .inl rfl⟩

/-- A line update that brings its bytes. -/
theorem writeCacheLineData_effect {slot : Slot σ} {l : GenericCacheLine σ}
    (hslot : slot.lineLocation = c.slot.lineLocation) (hwrites : writesData cfg msg l = true)
    (h : writeCacheLineData cfg acfg firing d { c with slot := slot } msg = .ok o) :
    Effect cfg c [.updateCacheLine msg l] o := by
  obtain ⟨hout, hparked, hpending, hloc | ⟨hmshr, hloc⟩⟩ := writeCacheLineData_spec h
  · exact .of_keeps _ (fun p hp => by rw [hparked p hp]; rfl) (by simp [hout]) (by simp [hpending])
      (hloc.trans hslot)
  · refine ⟨by simp [hout], fun p hp => ⟨_, List.mem_singleton_self _, by rw [hparked p hp]; rfl⟩,
      by simp [hpending], fun _ => .inr ⟨hslot.symm.trans hmshr, msg, l, List.mem_singleton_self _, hwrites⟩,
      by simp [hloc], by simp [hloc]⟩

/-- A line update that brings no bytes. -/
theorem updateCacheLine_effect {l : GenericCacheLine σ} {r : LineController σ × List Emission}
    (hwrites : writesData cfg msg l = false) (h : c.updateCacheLine cfg msg l = .ok r) :
    Effect cfg c [.updateCacheLine msg l] { line := r.1, array := d, emitted := r.2 } := by
  have hbits : r = ({ c with slot := (c.slot.updateLineBits l).getD (c.slot.writeLine2MSHR l) }, []) := by
    rw [updateCacheLine] at h
    split at h
    · exact (Except.ok.inj h).symm
    · next bytes hbytes =>
      have hshort : (!l.valid || decide (msg.dataSize < cfg.blockSize)) = true := by
        cases hvalid : l.valid <;> simp_all [writesData]
      rw [if_pos hshort] at h
      exact (Except.ok.inj h).symm
  subst hbits
  rcases lineLocation_writeLine2MSHR c.slot l with hloc | hloc | ⟨-, hloc⟩
  · exact .of_keeps _ (by simp) (by simp) id hloc
  · exact ⟨by simp, by simp, .inl, by simp [hloc], by simp [hloc], by simp [hloc]⟩
  · exact ⟨by simp, by simp, .inl, by simp [hloc],
      fun _ => .inr ⟨msg, l, List.mem_singleton_self _, hwrites⟩, by simp [hloc]⟩

/-- A store into the line keeps the line where it is. -/
theorem modifyData_keeps {r : LineController σ × List Emission} (h : c.modifyData cfg msg = .ok r) :
    r.2 = [] ∧ r.1.pending = c.pending ∧ r.1.slot.lineLocation = c.slot.lineLocation := by
  rw [modifyData] at h
  dsimp only at h
  split at h
  · obtain rfl := Except.ok.inj h
    exact ⟨rfl, rfl, rfl⟩
  · split at h
    · next hnone =>
      obtain rfl := Except.ok.inj h
      exact ⟨rfl, rfl, rfl⟩
    · next resident hslot =>
      split at h
      · simp at h
      · obtain rfl := Except.ok.inj h
        exact ⟨rfl, rfl, by simp [Slot.lineLocation, hslot]⟩

/-- One action. -/
theorem execTimed_effect {a : ControllerAction σ} (h : execTimed cfg acfg firing d c a = .ok o) :
    Effect cfg c [a] o := by
  rw [execTimed.eq_def] at h
  cases a with
  | hitAction msg => exact hitTimed_effect h
  | removePending msg => exact removePendingTimed_effect h
  | writeBack msg => exact writeBackTimed_effect h
  | updateCacheLine msg l =>
    dsimp only at h
    split_ifs at h with hwrites
    · have hvalid : l.valid = true := by simp_all [writesData]
      exact writeCacheLineData_effect (lineLocation_updateLineBits hvalid) hwrites h
    · cases hrun : c.updateCacheLine cfg msg l with
      | error e => simp [hrun, Except.map] at h
      | ok r =>
        rw [hrun] at h
        obtain rfl := Except.ok.inj h
        exact updateCacheLine_effect (by simpa using hwrites) hrun
  | modifyData msg =>
    dsimp only at h
    by_cases hready : c.slot.isReady acfg d = true
    · rw [if_pos hready] at h
      cases hrun : c.modifyData cfg msg with
      | error e => simp [hrun, Except.map] at h
      | ok r =>
        rw [hrun] at h
        obtain rfl := Except.ok.inj h
        obtain ⟨hout, hpending, hloc⟩ := modifyData_keeps hrun
        exact .of_keeps _ (by simp) (by simp [hout]) (by simp [hpending]) hloc
    · rw [if_neg hready] at h
      obtain rfl := Except.ok.inj h
      exact .of_keeps _ (by simp) (by simp) id rfl
  | addPending msg =>
    obtain rfl := Except.ok.inj h
    exact ⟨by simp, by simp, fun _ => .inr ⟨msg, List.mem_singleton_self _⟩, .inl, .inl, id⟩
  | stall msg =>
    obtain rfl := Except.ok.inj h
    exact ⟨by simp, by simp, .inl, .inl, .inl, id⟩
  | sendBusMsg msg =>
    obtain rfl := Except.ok.inj h
    exact .of_keeps _ (by simp) (by simp) id rfl
  | saveReqForWriteBack msg =>
    obtain rfl := Except.ok.inj h
    exact .of_keeps _ (by simp) (by simp) id rfl
  | noAction =>
    obtain rfl := Except.ok.inj h
    exact .of_keeps _ (by simp) (by simp) id rfl
  | sendInvMsg msg =>
    obtain rfl := Except.ok.inj h
    exact .of_keeps _ (by simp) (by simp) id rfl
  | removeSavedReq =>
    obtain rfl := Except.ok.inj h
    exact .of_keeps _ (by simp) (by simp) id rfl

/-- The actions of a row, whose line updates agree on whether they bring the bytes; some may be no controller actions. -/
theorem execAll_effect {κ α : Type} {view : κ → LineController σ} {base : α → Option (ControllerAction σ)}
    {exec : DataArray → κ → α → Except Exit (Outcome κ ParkedAction)}
    (hexec : ∀ {d c a o}, exec d c a = .ok o → Effect cfg (view c) (base a).toList (o.mapLine view))
    {as : List α} {w : Bool} (hw : ∀ x l, .updateCacheLine x l ∈ as.filterMap base → writesData cfg x l = w)
    {d : DataArray} {c : κ} {o : Outcome κ ParkedAction} (h : execAll exec d c as = .ok o) :
    Effect cfg (view c) (as.filterMap base) (o.mapLine view) := by
  induction as generalizing d c o with
  | nil =>
    obtain rfl := Except.ok.inj h
    exact .nil
  | cons a rest ih =>
    have hcons : (a :: rest).filterMap base = (base a).toList ++ rest.filterMap base := by
      rw [List.filterMap_cons]
      cases base a <;> rfl
    rw [hcons] at hw ⊢
    rw [execAll] at h
    split at h
    · simp at h
    · next o₁ ho₁ =>
      split at h
      · simp at h
      · next o₂ ho₂ =>
        obtain rfl := Except.ok.inj h
        have hrest := ih (fun x l hx => hw x l (List.mem_append_right _ hx)) ho₂
        exact (hexec ho₁).append hrest hw

/-- What a deferred access leaves behind when it completes. -/
structure FireEffect (c : LineController σ) (p : ParkedAction) (o : Outcome (LineController σ) ParkedAction) :
    Prop where
  queued : ∀ x ∈ o.emitted, x.port ≠ .processingQueue
  parked : ∀ q ∈ o.parked, q.msg.addr = p.msg.addr
  pending : o.line.pending ≠ [] → c.pending ≠ []
  array : o.line.slot.lineLocation = some .array → c.slot.lineLocation = some .array ∨
    c.slot.lineLocation = some .mshr ∧ p.kind = .writeCacheLineData
  pwb : o.line.slot.lineLocation = some .pwb → c.slot.lineLocation = some .pwb

/-- An access that is an action of a row, and neither asks for the line nor updates it. -/
theorem Effect.fire {p : ParkedAction} {a : ControllerAction σ} (h : Effect cfg c [a] o)
    (haddr : a.addr? = some p.msg.addr) (hother : (∀ x, a ≠ .stall x) ∧ (∀ x, a ≠ .addPending x) ∧
      ∀ x l, a ≠ .updateCacheLine x l) : FireEffect c p o where
  queued x hx hport := by
    exact hother.1 x.msg (List.mem_singleton.1 (h.queued x hx hport)).symm
  parked q hq := by
    obtain ⟨b, hb, haddr'⟩ := h.parked q hq
    rw [List.mem_singleton.1 hb, haddr] at haddr'
    exact (Option.some.inj haddr').symm
  pending hne := by
    rcases h.pending hne with hc | ⟨x, hx⟩
    · exact hc
    · exact absurd (List.mem_singleton.1 hx).symm (hother.2.1 x)
  array harray := by
    rcases h.array harray with hc | ⟨-, x, l, hx, -⟩
    · exact .inl hc
    · exact absurd (List.mem_singleton.1 hx).symm (hother.2.2 x l)
  pwb := h.pwb

/-- What was parked, when its access completes. -/
theorem fireParked_effect {p : ParkedAction} (h : fireParked cfg acfg d c p = .ok o) : FireEffect c p o := by
  rw [fireParked] at h
  split at h
  · exact (@hitTimed_effect _ cfg _ _ _ _ _ _ h).fire rfl (by simp)
  · exact (@removePendingTimed_effect _ cfg _ _ _ _ _ _ h).fire rfl (by simp)
  · exact (writeBackTimed_effect h).fire rfl (by simp)
  · next hkind =>
    obtain ⟨hout, hparked, hpending, hloc⟩ := writeCacheLineData_spec h
    refine ⟨by simp [hout], fun q hq => by rw [hparked q hq], by simp [hpending], ?_, ?_⟩
    · intro harray
      rcases hloc with hloc | ⟨hmshr, -⟩
      · exact .inl (hloc.symm.trans harray)
      · exact .inr ⟨hmshr, hkind⟩
    · intro hpwb
      rcases hloc with hloc | ⟨-, hloc⟩
      · exact hloc.symm.trans hpwb
      · simp [hloc] at hpwb

end LineController

end Octopus
