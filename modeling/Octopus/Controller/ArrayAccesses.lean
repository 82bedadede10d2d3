import Octopus.Controller.EnvStep

/-!
# The accesses that wait for the data array

What a step does to the list of deferred accesses together with the state that the loop consults.
Under the interlock a deferred message is the only access to its line, and a message that is carried
out finds no access to its line on the list.
-/

namespace Octopus

namespace ControllerCore

open FRFCFSBuffer

variable {ε : Type} (C : ControllerCore ε) {s s' : CacheController ε} {l : ControllerLabel}

/-- No access of a list is to the line of an address. -/
def Free (ops : List DataArrayOp) (addr : Nat) : Prop := ∀ op ∈ ops, C.getAddressKey op.msg.addr ≠ C.getAddressKey addr

/-- What a step does to the state that the loop consults and to the list of deferred accesses. -/
inductive AccessStep (s : CacheController ε) (l : ControllerLabel) : ε → List DataArrayOp → Prop
  | same : C.carriesOut s l = none → AccessStep s l s.env s.m_array_ops
  | cycle : C.carriesOut s l = none → AccessStep s l (C.updateCycle s.env) s.m_array_ops
  | pendingWB {w : PendingWB} {e : ε} : C.carriesOut s l = none → C.addressOfLinePendingWB s.env = some (w, e) →
    AccessStep s l e s.m_array_ops
  | deferred {msg : Message} : C.carriesOut s l = none → (C.m_line_interlock = true → C.Free s.m_array_ops msg.addr) →
    AccessStep s l s.env (s.m_array_ops ++ [⟨.message, msg⟩])
  | processed {msg : Message} {r : Processed ε} : C.carriesOut s l = some (.message, msg) → l = .iterate →
    (C.m_line_interlock = true → C.Free s.m_array_ops msg.addr) → C.deferForDataArray s.env msg = false →
    C.processRequest s.env msg = .ok r → AccessStep s l r.env (s.m_array_ops ++ r.parked.map fun m => ⟨.actions, m⟩)
  | putBack {pre post : List DataArrayOp} {op : DataArrayOp} : C.carriesOut s l = none → op.kind = .message →
    s.m_array_ops = pre ++ op :: post → AccessStep s l s.env (pre ++ post)
  | fired {pre post : List DataArrayOp} {op : DataArrayOp} {msg : Message} {r : Processed ε} :
    C.carriesOut s l = some (.message, msg) → l ≠ .iterate → op.kind = .message →
    C.getAddressKey msg.addr = C.getAddressKey op.msg.addr → s.m_array_ops = pre ++ op :: post →
    C.processRequest s.env msg = .ok r → AccessStep s l r.env (pre ++ post ++ r.parked.map fun m => ⟨.actions, m⟩)
  | completed {pre post : List DataArrayOp} {op : DataArrayOp} {r : Processed ε} :
    C.carriesOut s l = some (.actions, op.msg) → l ≠ .iterate → op.kind = .actions → s.m_array_ops = pre ++ op :: post →
    C.fireActions s.env op.msg = .ok r → AccessStep s l r.env (pre ++ post ++ r.parked.map fun m => ⟨.actions, m⟩)

variable {C}

/-- The state and the accesses after an effect. -/
theorem accesses_effect {res : Except Exit (Processed ε)} (h : effect s res = some s') : ∃ r, res = .ok r ∧
    s'.env = r.env ∧ s'.m_array_ops = s.m_array_ops ++ r.parked.map fun m => ⟨.actions, m⟩ := by
  rw [effect.eq_def] at h
  cases res with
  | error e => simp at h
  | ok r =>
    obtain ⟨q, -, rfl⟩ := Option.map_eq_some_iff.1 h
    exact ⟨r, rfl, rfl, rfl⟩

/-- A completed access that a step carries out. -/
theorem accessStep_pipelineFire {k : Nat} (h : C.pipelineFire s k = some s') (hl : l ≠ .iterate)
    (hcarries : C.carriesOut s l = s.m_array_ops[k]?.bind (C.completes s.env)) :
    C.AccessStep s l s'.env s'.m_array_ops := by
  obtain ⟨op, hop, h⟩ := Option.bind_eq_some_iff.1 h
  obtain ⟨s₁, hs₁, rfl⟩ := Option.map_eq_some_iff.1 h
  obtain ⟨hlt, hget⟩ := List.getElem?_eq_some_iff.1 hop
  have hops : s.m_array_ops = s.m_array_ops.take k ++ op :: s.m_array_ops.drop (k + 1) := by
    rw [← hget, List.getElem_cons_drop, List.take_append_drop]
  rw [hop, Option.bind_some] at hcarries
  rw [List.eraseIdx_eq_take_drop_succ] at hs₁
  generalize s.m_array_ops.take k = pre at hops hs₁
  generalize s.m_array_ops.drop (k + 1) = post at hops hs₁
  rw [complete.eq_def] at hs₁
  cases hkind : op.kind with
  | message =>
    simp only [hkind] at hs₁
    rcases hstate : C.getRequestState s.env op.msg with ⟨state, msg⟩
    have haddr : msg.addr = op.msg.addr := by rw [← C.edit_addr s.env op.msg, hstate]
    cases state with
    | ready =>
      simp only [hstate] at hs₁
      obtain ⟨r, hr, henv, haccesses⟩ := accesses_effect hs₁
      rw [henv, haccesses]
      exact .fired (hcarries.trans (by simp [completes, hkind, hstate])) hl hkind (by rw [haddr]) hops hr
    | _ =>
      simp only [hstate] at hs₁
      obtain ⟨q, -, rfl⟩ := Option.map_eq_some_iff.1 hs₁
      exact .putBack (hcarries.trans (by simp [completes, hkind, hstate])) hkind hops
  | actions =>
    simp only [hkind] at hs₁
    obtain ⟨r, hr, henv, haccesses⟩ := accesses_effect hs₁
    rw [henv, haccesses]
    exact .completed (hcarries.trans (by simp [completes, hkind])) hl hkind hops hr

/-- What the loop takes is not held: under the interlock no access to its line waits. -/
theorem free_of_popped {msg : Message} {q : FRFCFSBuffer}
    (hpop : s.m_processing_queue.getFirstReady (C.scan s.env s.m_array_ops) = (some msg, q))
    (hlock : C.m_line_interlock = true) : C.Free s.m_array_ops msg.addr := by
  rw [getFirstReady] at hpop
  split_ifs at hpop
  · simp at hpop
  split at hpop
  · next m buffer hscan =>
    obtain rfl := Option.some.inj (Prod.mk.inj hpop).1
    obtain ⟨-, e, -, -, -, -, -, hhold, -, htaken⟩ := firstReady_some (fun m _ => C.ready_or_nonReady s.env m) hscan
    have haddr : m.addr = e.item.addr := by
      cases htaken with
      | ready _ => rfl
      | checked _ _ => exact C.edit_addr _ _
    simp only [scan, hlock, Bool.true_and, lineHasDeferredOp, List.any_eq_false] at hhold
    rw [Free, haddr]
    simpa using hhold
  · simp at hpop

/-- What one step does to the list of deferred accesses. -/
theorem accessStep (h : C.step s l = some s') : C.AccessStep s l s'.env s'.m_array_ops := by
  rw [step.eq_def] at h
  cases l with
  | cycle =>
    dsimp only at h
    split_ifs at h
    obtain rfl := Option.some.inj h
    exact .cycle rfl
  | fire k =>
    dsimp only at h
    split_ifs at h
    exact accessStep_pipelineFire h (by simp) rfl
  | intake upper lower =>
    dsimp only at h
    split_ifs at h
    obtain rfl := Option.some.inj h
    obtain ⟨henv, hops, -⟩ := intake_frame (C := C) (s := s) upper lower
    generalize lower.elim (upper.elim s (C.intakeUpper s)) (C.intakeLower (upper.elim s (C.intakeUpper s))) = s₁
      at henv hops
    rw [checkReplacements]
    split
    · rw [henv, hops]
      exact .same rfl
    · next w e hpending =>
      dsimp only
      split
      · rw [henv, hops]
        exact .same rfl
      · rw [hops]
        exact .pendingWB rfl (henv ▸ hpending)
  | flush =>
    dsimp only at h
    split at h
    · next key hphase =>
      split at h
      · next hnone =>
        obtain rfl := Option.some.inj h
        exact .same (by simp only [carriesOut, hphase, hnone, Option.bind_none])
      · next k hk =>
        refine accessStep_pipelineFire h (by simp) ?_
        simp only [carriesOut, hphase, hk, Option.bind_some]
    · simp at h
  | iterate =>
    dsimp only at h
    split_ifs at h
    rw [iterate] at h
    split at h
    · next q hpop =>
      obtain rfl := Option.some.inj h
      exact .same (by simp [carriesOut, hpop])
    · next msg q hpop =>
      split_ifs at h with hadmit hdefer
      · obtain rfl := Option.some.inj h
        have hrefused : C.canAdmitRequest s.env msg = false := by simpa using hadmit
        exact .same (by simp [carriesOut, hpop, hrefused])
      · obtain rfl := Option.some.inj h
        exact .deferred (by simp [carriesOut, hpop, hdefer]) fun hlock => free_of_popped hpop hlock
      · obtain ⟨r, hr, henv, haccesses⟩ := accesses_effect h
        have hadmit' : C.canAdmitRequest s.env msg = true := by simpa using hadmit
        have hdefer' : C.deferForDataArray s.env msg = false := by simpa using hdefer
        rw [henv, haccesses]
        exact .processed (by simp [carriesOut, hpop, hadmit', hdefer']) rfl (fun hlock => free_of_popped hpop hlock) hdefer' hr

variable (C)

/-- A deferred message is the only access to its line. -/
def Alone (ops : List DataArrayOp) : Prop :=
  ops.Pairwise fun a b => a.kind = .message ∨ b.kind = .message → C.getAddressKey a.msg.addr ≠ C.getAddressKey b.msg.addr

variable {C}

/-- No access is to the line of a deferred message but the message. -/
theorem Alone.free {pre post : List DataArrayOp} {op : DataArrayOp} (h : C.Alone (pre ++ op :: post))
    (hkind : op.kind = .message) : C.Free (pre ++ post) op.msg.addr := by
  simp only [Alone, List.pairwise_append, List.pairwise_cons] at h
  obtain ⟨-, ⟨hpost, -⟩, hpre⟩ := h
  intro x hx
  rcases List.mem_append.1 hx with hx | hx
  · exact hpre x hx op List.mem_cons_self (.inr hkind)
  · exact (hpost x hx (.inl hkind)).symm

/-- An access leaves the list. -/
theorem Alone.remove {pre post : List DataArrayOp} {op : DataArrayOp} (h : C.Alone (pre ++ op :: post)) :
    C.Alone (pre ++ post) :=
  List.Pairwise.sublist ((List.Sublist.refl pre).append (List.sublist_cons_self op post)) h

/-- Accesses to a line enter the list while no message of the line is on it. -/
theorem Alone.park {ops : List DataArrayOp} (h : C.Alone ops) {addr : Nat} {msgs : List Message}
    (hline : ∀ m ∈ msgs, C.getAddressKey m.addr = C.getAddressKey addr)
    (hfree : ∀ op ∈ ops, op.kind = .message → C.getAddressKey op.msg.addr ≠ C.getAddressKey addr) :
    C.Alone (ops ++ msgs.map fun m => ⟨.actions, m⟩) := by
  refine List.pairwise_append.2 ⟨h, ?_, fun a ha b hb hkind => ?_⟩
  · rw [List.pairwise_map]
    exact List.pairwise_of_forall fun a b hkind => by simp at hkind
  · obtain ⟨m, hm, rfl⟩ := List.mem_map.1 hb
    rw [hline m hm]
    exact hfree a ha (by simpa using hkind)

/-- Under the interlock a step keeps the deferred messages alone. -/
theorem AccessStep.alone (hlock : C.m_line_interlock = true) {e : ε} {ops : List DataArrayOp}
    (h : C.AccessStep s l e ops) (halone : C.Alone s.m_array_ops) : C.Alone ops := by
  cases h with
  | same | cycle | pendingWB => exact halone
  | deferred _ hfree =>
    refine List.pairwise_append.2 ⟨halone, List.pairwise_singleton _ _, fun a ha b hb _ => ?_⟩
    rw [List.mem_singleton.1 hb]
    exact hfree hlock a ha
  | processed _ _ hfree _ hr => exact halone.park (C.parked_key (.inl hr)) fun op hop _ => hfree hlock op hop
  | putBack _ _ hops =>
    rw [hops] at halone
    exact halone.remove
  | fired _ _ hkind hkey hops hr =>
    rw [hops] at halone
    refine halone.remove.park (fun m hm => (C.parked_key (.inl hr) m hm).trans hkey) fun x hx _ => ?_
    exact halone.free hkind x hx
  | completed _ _ hkind hops hr =>
    rw [hops] at halone
    refine halone.remove.park (C.parked_key (.inr hr)) fun x hx hmessage => ?_
    simp only [Alone, List.pairwise_append, List.pairwise_cons] at halone
    obtain ⟨-, ⟨hpost, -⟩, hpre⟩ := halone
    rcases List.mem_append.1 hx with hx | hx
    · exact hpre x hx _ List.mem_cons_self (.inl hmessage)
    · exact (hpost x hx (.inr hmessage)).symm

end ControllerCore

end Octopus
