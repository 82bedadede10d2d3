import Octopus.Controller.ProcessLogic

/-!
# What a step of a controller carries out

A step runs the row of one message at most, or what one message has parked. Everything that the
loop consults changes by that, by the eviction that becomes a Replacement, or with the clock.
-/

namespace Octopus

namespace ControllerCore

variable {ε : Type} (C : ControllerCore ε) {s s' : CacheController ε} {l : ControllerLabel}

/-- What a deferred access carries out when it completes: the message, or what it parked. -/
def completes (e : ε) (op : DataArrayOp) : Option (DataArrayOpKind × Message) :=
  match op.kind with
  | .message =>
    match C.getRequestState e op.msg with
    | (.ready, msg) => some (.message, msg)
    | _ => none
  | .actions => some (.actions, op.msg)

/-- What a step carries out: a message that runs its row, or what a message has parked. -/
def carriesOut (s : CacheController ε) : ControllerLabel → Option (DataArrayOpKind × Message)
  | .fire k => s.m_array_ops[k]?.bind (C.completes s.env)
  | .flush =>
    match s.phase with
    | .flushing key =>
      (s.m_array_ops.findIdx? fun op => C.getAddressKey op.msg.addr == key).bind fun k =>
        s.m_array_ops[k]?.bind (C.completes s.env)
    | _ => none
  | .iterate =>
    match s.m_processing_queue.getFirstReady (C.scan s.env s.m_array_ops) with
    | (some msg, _) =>
      if C.canAdmitRequest s.env msg && !C.deferForDataArray s.env msg then some (.message, msg) else none
    | _ => none
  | _ => none

/-- What a step does to the state that the loop consults. -/
inductive EnvStep (s : CacheController ε) (l : ControllerLabel) : ε → Prop
  | same : EnvStep s l s.env
  | cycle : EnvStep s l (C.updateCycle s.env)
  | pendingWB {w : PendingWB} {e : ε} : C.addressOfLinePendingWB s.env = some (w, e) → EnvStep s l e
  | message {msg : Message} {r : Processed ε} : C.carriesOut s l = some (.message, msg) →
      (l = .iterate → C.canAdmitRequest s.env msg = true) → C.processRequest s.env msg = .ok r → EnvStep s l r.env
  | actions {msg : Message} {r : Processed ε} : C.carriesOut s l = some (.actions, msg) →
      C.fireActions s.env msg = .ok r → EnvStep s l r.env

variable {C}

/-- An effect leaves the history of the processed messages. -/
theorem processed_effect {res : Except Exit (Processed ε)} (h : effect s res = some s') :
    s'.processed = s.processed := by
  cases res with
  | error e => simp [effect] at h
  | ok r =>
    obtain ⟨q, -, rfl⟩ := Option.map_eq_some_iff.1 h
    rfl

/-- The state after an effect. -/
theorem env_effect {res : Except Exit (Processed ε)} (h : effect s res = some s') : ∃ r, res = .ok r ∧ s'.env = r.env := by
  rw [effect.eq_def] at h
  cases res with
  | error e => simp at h
  | ok r =>
    obtain ⟨q, -, rfl⟩ := Option.map_eq_some_iff.1 h
    exact ⟨r, rfl, rfl⟩

/-- The state after a completed access. -/
theorem env_pipelineFire {k : Nat} (h : C.pipelineFire s k = some s') : ∃ op, s.m_array_ops[k]? = some op ∧
    (s'.env = s.env ∨
      (∃ msg r, C.completes s.env op = some (.message, msg) ∧ C.processRequest s.env msg = .ok r ∧ s'.env = r.env) ∨
      ∃ msg r, C.completes s.env op = some (.actions, msg) ∧ C.fireActions s.env msg = .ok r ∧ s'.env = r.env) := by
  obtain ⟨op, hop, h⟩ := Option.bind_eq_some_iff.1 h
  obtain ⟨s₁, hs₁, rfl⟩ := Option.map_eq_some_iff.1 h
  refine ⟨op, hop, ?_⟩
  rw [complete.eq_def] at hs₁
  cases hkind : op.kind with
  | message =>
    simp only [hkind] at hs₁
    rcases hstate : C.getRequestState s.env op.msg with ⟨state, msg⟩
    cases state with
    | ready =>
      simp only [hstate] at hs₁
      obtain ⟨r, hr, henv⟩ := env_effect hs₁
      exact .inr (.inl ⟨msg, r, by simp [completes, hkind, hstate], hr, henv⟩)
    | _ =>
      simp only [hstate] at hs₁
      obtain ⟨q, -, rfl⟩ := Option.map_eq_some_iff.1 hs₁
      exact .inl rfl
  | actions =>
    simp only [hkind] at hs₁
    obtain ⟨r, hr, henv⟩ := env_effect hs₁
    exact .inr (.inr ⟨op.msg, r, by simp [completes, hkind], hr, henv⟩)

/-- A completed access that a step carries out. -/
theorem envStep_pipelineFire {k : Nat} (h : C.pipelineFire s k = some s') (hl : l ≠ .iterate)
    (hcarries : C.carriesOut s l = s.m_array_ops[k]?.bind (C.completes s.env)) : C.EnvStep s l s'.env := by
  obtain ⟨op, hop, hsame | ⟨msg, r, hop', hr, henv⟩ | ⟨msg, r, hop', hr, henv⟩⟩ := env_pipelineFire h
  all_goals rw [hop, Option.bind_some] at hcarries
  · rw [hsame]
    exact .same
  · rw [henv]
    exact .message (hcarries.trans hop') (fun heq => absurd heq hl) hr
  · rw [henv]
    exact .actions (hcarries.trans hop') hr

/-- What one step does to the state that the loop consults. -/
theorem envStep (h : C.step s l = some s') : C.EnvStep s l s'.env := by
  rw [step.eq_def] at h
  cases l with
  | cycle =>
    dsimp only at h
    split_ifs at h
    obtain rfl := Option.some.inj h
    exact .cycle
  | fire k =>
    dsimp only at h
    split_ifs at h
    exact envStep_pipelineFire h (by simp) rfl
  | intake upper lower =>
    dsimp only at h
    split_ifs at h
    obtain rfl := Option.some.inj h
    obtain ⟨henv, -⟩ := intake_frame (C := C) (s := s) upper lower
    generalize lower.elim (upper.elim s (C.intakeUpper s)) (C.intakeLower (upper.elim s (C.intakeUpper s))) = s₁ at henv
    rw [checkReplacements]
    split
    · rw [henv]
      exact .same
    · next w e hpending =>
      dsimp only
      split
      · rw [henv]
        exact .same
      · exact .pendingWB (henv ▸ hpending)
  | flush =>
    dsimp only at h
    split at h
    · next key hphase =>
      split at h
      · obtain rfl := Option.some.inj h
        exact .same
      · next k hk =>
        refine envStep_pipelineFire h (by simp) ?_
        simp only [carriesOut, hphase, hk, Option.bind_some]
    · simp at h
  | iterate =>
    dsimp only at h
    split_ifs at h
    rw [iterate] at h
    split at h
    · obtain rfl := Option.some.inj h
      exact .same
    · next msg q hpop =>
      split_ifs at h with hadmit hdefer
      · obtain rfl := Option.some.inj h
        exact .same
      · obtain rfl := Option.some.inj h
        exact .same
      · obtain ⟨r, hr, henv⟩ := env_effect h
        rw [henv]
        have hadmit' : C.canAdmitRequest s.env msg = true := by simpa using hadmit
        exact .message (by simp [carriesOut, hpop, hadmit', hdefer]) (fun _ => hadmit') hr

end ControllerCore

end Octopus
