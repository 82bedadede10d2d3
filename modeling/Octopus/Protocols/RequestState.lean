import Octopus.Snoop.Lawful

/-!
# Asking whether a message is ready

A controller asks `getRequestState` about a message before it processes it: when it scans its
queue, and in `pipelineFire` for a message that has waited for the data array. The question is
asked of a constant message, but the private-cache protocols read the event of the message itself,
and reading exclusive data consumes its mark.
-/

namespace Octopus

open Snoop

/-- Data from above that still bears the mark of an exclusive copy. -/
def Message.IsMarkedExclusive (msg : Message) : Prop :=
  msg.source = .upperInterconnect ∧ msg.data.isSome ∧ msg.complementaryValue = 2

section Consulting

variable {α β : Type} {ask : Message → Except Exit (FRFCFSState × Message)}
  {run : Message → Except Exit α} {meaning : Message → β} {msg : Message}

/-- A message after its request state has been asked for a number of times. -/
def consult (ask : Message → Except Exit (FRFCFSState × Message)) : Nat → Message → Except Exit Message
  | 0, msg => .ok msg
  | k + 1, msg =>
    match ask msg with
    | .error e => .error e
    | .ok (_, msg') => consult ask k msg'

/-- `pipelineFire` of a message that waited for the data array; `none` puts it back in the queue. -/
def pipelineFire (ask : Message → Except Exit (FRFCFSState × Message)) (run : Message → Except Exit α)
    (msg : Message) : Except Exit (Option α) :=
  match ask msg with
  | .error e => .error e
  | .ok (.ready, msg') => (run msg').map some
  | .ok (_, _) => .ok none

/-- A message means the same however often it is asked about, and also when it fires later. -/
structure Harmless (ask : Message → Except Exit (FRFCFSState × Message)) (run : Message → Except Exit α)
    (meaning : Message → β) (msg : Message) : Prop where
  consult : ∀ k msg', consult ask k msg = .ok msg' → meaning msg' = meaning msg
  fire : ∀ a, pipelineFire ask run msg = .ok (some a) → run msg = .ok a

/-- A message that stays as it is when it is asked about. -/
theorem Harmless.of_ask (h : ∀ r msg', ask msg = .ok (r, msg') → msg' = msg) :
    Harmless ask run meaning msg := by
  constructor
  · have hconsult : ∀ k msg', Octopus.consult ask k msg = .ok msg' → msg' = msg := by
      intro k
      induction k with
      | zero => exact fun msg' hk => (Except.ok.inj hk).symm
      | succ k ih =>
        intro msg' hk
        rw [Octopus.consult] at hk
        split at hk
        · simp at hk
        · next r m hr =>
          obtain rfl := h r m hr
          exact ih msg' hk
    exact fun k msg' hk => by rw [hconsult k msg' hk]
  · intro a hfire
    rw [pipelineFire] at hfire
    split at hfire
    · simp at hfire
    · next m hr =>
      obtain rfl := h _ m hr
      cases hrun : run m with
      | error e => simp [hrun, Except.map] at hfire
      | ok b =>
        rw [hrun] at hfire
        obtain rfl := Option.some.inj (Except.ok.inj hfire)
        rfl
    · simp at hfire

end Consulting

namespace L1Protocol

variable {σ : Type} (P : L1Protocol σ)

/-- What a message means in a line state: its event, the next state and the row's actions. -/
def meaning (cfg : ControllerConfig) (line : GenericCacheLine σ) (msg : Message) :
    Except Exit (EventId × σ × Except Exit (List (ControllerAction σ))) :=
  (P.readEvent cfg.id msg).map fun read =>
    (read.1, P.fsm.getNextState line.state read.1, P.processRequest cfg line msg)

/-- Asking a private cache about a message does not change what the message means. -/
def ConsultingIsHarmless (cfg : ControllerConfig) (line : GenericCacheLine σ) (msg : Message) : Prop :=
  Harmless (P.getRequestState cfg.id line) (P.processRequest cfg line) (P.meaning cfg line) msg

variable {P}

/-- A message that reading its event leaves as it is may be asked about. -/
theorem ConsultingIsHarmless.of_readEvent {cfg : ControllerConfig} {line : GenericCacheLine σ} {msg : Message}
    (h : ∀ e msg', P.readEvent cfg.id msg = .ok (e, msg') → msg' = msg) :
    P.ConsultingIsHarmless cfg line msg := by
  refine .of_ask fun r msg' hr => ?_
  rw [L1Protocol.getRequestState] at hr
  split at hr
  · simp at hr
  · next e m hread =>
    obtain ⟨-, rfl⟩ := Prod.mk.inj (Except.ok.inj hr)
    exact h e _ hread

/-- A protocol that reads exclusive data as MESI does is harmless exactly for unmarked messages. -/
theorem consultingIsHarmless_iff (hread : P.readEvent = MESIProtocol.readEvent) (cfg : ControllerConfig)
    (line : GenericCacheLine σ) (msg : Message) :
    P.ConsultingIsHarmless cfg line msg ↔ ¬ msg.IsMarkedExclusive := by
  constructor
  · rintro h ⟨hsource, hdata, hmark⟩
    have hfirst : P.readEvent cfg.id msg = .ok (.ownDataExeclusive, { msg with complementaryValue := 0 }) := by
      rw [hread, mesi_readEvent_data _ hsource hdata, if_pos hmark]
    have hsecond : P.readEvent cfg.id { msg with complementaryValue := 0 } =
        .ok (.ownData, { msg with complementaryValue := 0 }) := by
      rw [hread, @mesi_readEvent_data cfg.id { msg with complementaryValue := 0 } hsource hdata]
      rfl
    have hconsult : consult (P.getRequestState cfg.id line) 1 msg = .ok { msg with complementaryValue := 0 } := by
      simp [consult, L1Protocol.getRequestState, hfirst]
    have hmeaning := h.consult 1 _ hconsult
    rw [L1Protocol.meaning, L1Protocol.meaning, hfirst, hsecond] at hmeaning
    have hevent := congrArg Prod.fst (Except.ok.inj hmeaning)
    simp at hevent
  · intro hmark
    refine .of_readEvent fun e msg' he => ?_
    rw [hread] at he
    by_cases hdata : msg.source = .upperInterconnect ∧ msg.data.isSome
    · rw [mesi_readEvent_data _ hdata.1 hdata.2, if_neg fun hcv => hmark ⟨hdata.1, hdata.2, hcv⟩] at he
      exact (Prod.mk.inj (Except.ok.inj he)).2.symm
    · rw [mesi_readEvent_other _ hdata] at he
      cases hmsi : MSIProtocol.readEvent cfg.id msg with
      | error e => simp [hmsi, Except.map] at he
      | ok e =>
        rw [hmsi] at he
        exact (Prod.mk.inj (Except.ok.inj he)).2.symm

end L1Protocol

namespace LLCProtocol

variable {τ : Type} (P : LLCProtocol τ)

/-- What a message means in a line state: its event and the next state, if any, and the row's actions. -/
def meaning (cfg : ControllerConfig) (line : GenericCacheLine τ) (msg : Message) :
    Except Exit (Option (LLCEventId × τ) × Except Exit (List (ControllerAction τ))) :=
  (LLCMSIProtocol.readEvent cfg.id line msg).map fun read =>
    (read.map fun e => (e, P.fsm.getNextState line.state e), P.processRequest cfg line msg)

/-- Asking a last-level cache about a message does not change what the message means. -/
def ConsultingIsHarmless (cfg : ControllerConfig) (line : GenericCacheLine τ) (msg : Message) : Prop :=
  Harmless (P.getRequestState cfg.id line) (P.processRequest cfg line) (P.meaning cfg line) msg

/-- A last-level cache only looks at a message. -/
theorem consultingIsHarmless (cfg : ControllerConfig) (line : GenericCacheLine τ) (msg : Message) :
    P.ConsultingIsHarmless cfg line msg := by
  refine .of_ask fun r msg' hr => ?_
  rw [LLCProtocol.getRequestState] at hr
  split at hr
  · simp at hr
  · exact (Prod.mk.inj (Except.ok.inj hr)).2.symm
  · exact (Prod.mk.inj (Except.ok.inj hr)).2.symm

end LLCProtocol

/--
Asking about a message is harmless in MSI and in every last-level cache, and in MESI and MOESI
exactly for messages other than exclusive data whose mark is still there.
-/
theorem consulting_harmless_iff (cfg : ControllerConfig) (msg : Message) :
    (∀ line, msiProtocol.ConsultingIsHarmless cfg line msg) ∧
      (∀ line, mesiProtocol.ConsultingIsHarmless cfg line msg ↔ ¬ msg.IsMarkedExclusive) ∧
      (∀ line, moesiProtocol.ConsultingIsHarmless cfg line msg ↔ ¬ msg.IsMarkedExclusive) ∧
      (∀ line, llcMSIProtocol.ConsultingIsHarmless cfg line msg) ∧
      (∀ line, llcMESIProtocol.ConsultingIsHarmless cfg line msg) ∧
      ∀ line, llcMOESIProtocol.ConsultingIsHarmless cfg line msg := by
  refine ⟨fun line => .of_readEvent fun e msg' he => ?_, fun line => L1Protocol.consultingIsHarmless_iff rfl ..,
    fun line => L1Protocol.consultingIsHarmless_iff rfl .., fun line => LLCProtocol.consultingIsHarmless ..,
    fun line => LLCProtocol.consultingIsHarmless .., fun line => LLCProtocol.consultingIsHarmless ..⟩
  have hread : msiProtocol.readEvent cfg.id msg = (MSIProtocol.readEvent cfg.id msg).map fun e => (e, msg) := rfl
  rw [hread] at he
  cases hmsi : MSIProtocol.readEvent cfg.id msg with
  | error e => simp [hmsi, Except.map] at he
  | ok e =>
    rw [hmsi] at he
    exact (Prod.mk.inj (Except.ok.inj he)).2.symm

/-- Exclusive data for a private cache. -/
def exclusiveData : Message :=
  { complementaryValue := 2, source := .upperInterconnect, data := some [0], dataSize := 64, toIds := [0] }

/-- The same data with its mark consumed. -/
def consumedData : Message := { exclusiveData with complementaryValue := 0 }

/--
Asked about once, exclusive data for a cache in `IS_d` is read as plain data: the row that runs
leaves the line in `S` instead of `E`.
-/
theorem mesi_consulting_loses_exclusiveness :
    ¬ ∀ cfg line msg, mesiProtocol.ConsultingIsHarmless cfg line msg := by
  intro h
  have hmeaning := (h ⟨0, 10, 8, true⟩ ⟨true, .IS_d, none⟩ exclusiveData).consult 1 consumedData rfl
  have hstates := congrArg (Except.map fun m => m.2.1) hmeaning
  have hplain : (mesiProtocol.meaning ⟨0, 10, 8, true⟩ ⟨true, .IS_d, none⟩ consumedData).map (fun m => m.2.1) =
      .ok .S := rfl
  have hexclusive : (mesiProtocol.meaning ⟨0, 10, 8, true⟩ ⟨true, .IS_d, none⟩ exclusiveData).map
      (fun m => m.2.1) = .ok .E := rfl
  rw [hplain, hexclusive] at hstates
  simp at hstates

end Octopus
