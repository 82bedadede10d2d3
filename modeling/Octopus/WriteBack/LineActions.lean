import Octopus.Snoop.HomeSimulation
import Octopus.WriteBack.Runs

/-!
# The actions of a last-level cache on its line

The actions of a row of a last-level cache leave the line as it is, except for the line update that
comes last. So what a row writes back is the line as it was before the row, or the bytes that the row
hands over itself.
-/

namespace Octopus.WriteBack

open LineController
open Snoop (execActions_cons execActions_append)

variable {σ : Type} {cfg : ControllerConfig} {c c' : LineController σ} {out : List Emission} {msg : Message}

/-- The actions that leave the line and the parked requests alone. -/
def leavesLine : ControllerAction σ → Bool
  | .updateCacheLine _ _ | .modifyData _ | .saveReqForWriteBack _ | .removeSavedReq => false
  | _ => true

/-- Whether an action is a write-back. -/
def isWriteBack : ControllerAction σ → Bool
  | .writeBack _ => true
  | _ => false

/-- A write-back as it leaves a cache with this line and nothing parked. -/
structure Sent (cfg : ControllerConfig) (slot : Slot σ) (msg m : Message) : Prop where
  toIds : m.toIds = msg.toIds ++ [if msg.owner = cfg.id then cfg.sharedMemoryId else msg.owner]
  data : m.data = (msg.data <|> slot.readCacheLine)

/-- An action that leaves the line alone. -/
theorem execAction_leavesLine {a : ControllerAction σ} (ha : leavesLine a = true) (hsaved : c.saved = [])
    (h : c.execAction cfg a = .ok (c', out)) :
    c'.slot = c.slot ∧ c'.saved = [] ∧ (writeBacks out).length = (if isWriteBack a then 1 else 0) ∧
      ∀ m ∈ writeBacks out, ∃ msg, a = .writeBack msg ∧ Sent cfg c.slot msg m := by
  rw [execAction.eq_def] at h
  cases a with
  | updateCacheLine | modifyData | saveReqForWriteBack | removeSavedReq => simp [leavesLine] at ha
  | writeBack msg =>
    obtain ⟨rfl, rfl⟩ := Prod.mk.inj (Except.ok.inj h)
    refine ⟨rfl, rfl, rfl, fun m hm => ⟨msg, rfl, ?_⟩⟩
    obtain rfl : m = _ := by simpa [writeBacks] using hm
    cases hdata : msg.data <;> cases hline : c.slot.readCacheLine <;> constructor <;>
      simp [addressSavedRequests, hsaved, withLineData, hdata, hline]
  | removePending msg =>
    simp only [removePendingAndRespond] at h
    split_ifs at h
    split at h
    · simp at h
    · obtain ⟨rfl, rfl⟩ := Prod.mk.inj (Except.ok.inj h)
      refine ⟨rfl, hsaved, ?_, fun m hm => ?_⟩
      · simp [writeBacks, isWriteBack, List.filterMap_map]
      · simp [writeBacks] at hm
  | hitAction msg | addPending msg | sendBusMsg msg | noAction | stall msg | sendInvMsg msg =>
    obtain ⟨rfl, rfl⟩ := Prod.mk.inj (Except.ok.inj h)
    exact ⟨rfl, hsaved, by simp [writeBacks, isWriteBack], fun m hm => by simp [writeBacks] at hm⟩

/-- A list of actions that leave the line alone. -/
theorem execActions_leaveLine {actions : List (ControllerAction σ)} (hactions : ∀ a ∈ actions, leavesLine a = true)
    (hsaved : c.saved = []) (h : c.execActions cfg actions = .ok (c', out)) :
    c'.slot = c.slot ∧ c'.saved = [] ∧ (writeBacks out).length = actions.countP isWriteBack ∧
      ∀ m ∈ writeBacks out, ∃ msg, .writeBack msg ∈ actions ∧ Sent cfg c.slot msg m := by
  induction actions generalizing c out with
  | nil =>
    obtain ⟨rfl, rfl⟩ := Prod.mk.inj (Except.ok.inj h)
    exact ⟨rfl, hsaved, rfl, by simp⟩
  | cons a rest ih =>
    rw [List.forall_mem_cons] at hactions
    obtain ⟨c₁, out₁, out₂, h₁, h₂, rfl⟩ := execActions_cons h
    obtain ⟨hslot₁, hsaved₁, hlength₁, hsent₁⟩ := execAction_leavesLine hactions.1 hsaved h₁
    obtain ⟨hslot₂, hsaved₂, hlength₂, hsent₂⟩ := ih hactions.2 hsaved₁ h₂
    refine ⟨hslot₂.trans hslot₁, hsaved₂, ?_, fun m hm => ?_⟩
    · rw [writeBacks_append, List.length_append, hlength₁, hlength₂, List.countP_cons, Nat.add_comm]
    · rw [writeBacks_append] at hm
      rcases List.mem_append.1 hm with hm | hm
      · obtain ⟨msg, rfl, hsent⟩ := hsent₁ m hm
        exact ⟨msg, List.mem_cons_self, hsent⟩
      · obtain ⟨msg, hmem, hsent⟩ := hsent₂ m hm
        exact ⟨msg, List.mem_cons_of_mem a hmem, hslot₁ ▸ hsent⟩

/-- What the line update leaves of the bytes. -/
theorem updateCacheLine_bytes {line : GenericCacheLine σ} (hvalid : line.valid = true)
    (hmsg : WholeBlock cfg.blockSize msg) (h : c.updateCacheLine cfg msg line = .ok (c', out)) :
    c'.slot.readCacheLine = ((msg.data.map (·.take cfg.blockSize)) <|> c.slot.readCacheLine) := by
  rw [updateCacheLine] at h
  cases hdata : msg.data with
  | none =>
    simp only [hdata] at h
    obtain ⟨rfl, rfl⟩ := Prod.mk.inj (Except.ok.inj h)
    cases c.slot <;> simp [Slot.updateLineBits, Slot.writeLine2MSHR, Slot.readCacheLine, hvalid]
  | some bytes =>
    have hsize : ¬ msg.dataSize < cfg.blockSize := Nat.not_lt.2 (hmsg (by simp [hdata]))
    simp only [hdata, hvalid, hsize, Bool.not_true, Bool.false_or, decide_false, Bool.false_eq_true, if_false] at h
    split at h
    · next slot hslot =>
      obtain ⟨rfl, rfl⟩ := Prod.mk.inj (Except.ok.inj h)
      obtain ⟨r, -, rfl⟩ := Option.map_eq_some_iff.1 hslot
      simp [Slot.readCacheLine]
    · simp at h

/-- The bytes of a message or of the line are the last ones given, if there are any. -/
theorem latestAfter_eq {blockSize : Nat} {bytes : Option (List UInt8)}
    (h : msg.data.isSome = true ∨ bytes.isSome = true) :
    ((msg.data.map (·.take blockSize)) <|> bytes) = some (latestAfter blockSize (bytes.getD []) msg) := by
  cases hdata : msg.data <;> cases bytes <;> simp_all [latestAfter]

/-- A row of a last-level cache: actions that leave the line alone, then the line update. -/
theorem execActions_row {actions : List (ControllerAction σ)} {line : GenericCacheLine σ} (hsaved : c.saved = [])
    (hactions : ∀ a ∈ actions, leavesLine a = true) (hmsg : WholeBlock cfg.blockSize msg)
    (h : c.execActions cfg (actions ++ [.updateCacheLine msg line]) = .ok (c', out)) :
    c'.saved = [] ∧ (writeBacks out).length = actions.countP isWriteBack ∧
      (∀ m ∈ writeBacks out, ∃ msg, .writeBack msg ∈ actions ∧ Sent cfg c.slot msg m) ∧
      (line.valid = false → c'.slot = none) ∧
      (line.valid = true → (∀ initial, c'.slot.readLineBits initial = line) ∧
        c'.slot.readCacheLine = ((msg.data.map (·.take cfg.blockSize)) <|> c.slot.readCacheLine)) := by
  obtain ⟨c₁, out₁, out₂, h₁, h₂, rfl⟩ := execActions_append h
  obtain ⟨hslot, hsaved₁, hlength, hsent⟩ := execActions_leaveLine hactions hsaved h₁
  obtain ⟨c₂, out₃, out₄, h₃, h₄, rfl⟩ := execActions_cons h₂
  obtain ⟨rfl, rfl⟩ := Prod.mk.inj (Except.ok.inj h₄)
  rw [execAction] at h₃
  obtain ⟨rfl, hupdated⟩ := Snoop.updateCacheLine_updated h₃
  refine ⟨hupdated.saved.trans hsaved₁, by simpa using hlength, by simpa using hsent, hupdated.invalid,
    fun hvalid => ⟨hupdated.bits hvalid, ?_⟩⟩
  rw [updateCacheLine_bytes hvalid hmsg h₃, hslot]

/-- The actions of a row before its line update: at most these write-backs, all of one message. -/
structure Prepared (writes : Nat) (carried : Message) (actions : List (ControllerAction σ)) : Prop where
  leaves : ∀ a ∈ actions, leavesLine a = true
  count : actions.countP isWriteBack = writes
  carried : ∀ m, .writeBack m ∈ actions → m = carried

/-- A row starts with no action. -/
theorem Prepared.nil {carried : Message} : Prepared (σ := σ) 0 carried [] := by
  constructor <;> simp

/-- Actions that are no write-backs are added to a row. -/
theorem Prepared.append {writes : Nat} {carried : Message} {actions more : List (ControllerAction σ)}
    (h : Prepared writes carried actions) (hmore : ∀ a ∈ more, leavesLine a = true ∧ isWriteBack a = false) :
    Prepared writes carried (actions ++ more) where
  leaves a ha := (List.mem_append.1 ha).elim (h.leaves a) fun hin => (hmore a hin).1
  count := by
    have hnone : more.countP isWriteBack = 0 := List.countP_eq_zero.2 fun a ha => by simp [(hmore a ha).2]
    rw [List.countP_append, h.count, hnone, Nat.add_zero]
  carried m hm := by
    apply (List.mem_append.1 hm).elim (h.carried m)
    intro hin
    have := (hmore _ hin).2
    simp [isWriteBack] at this

/-- The write-back is added to a row. -/
theorem Prepared.writeBack {writes : Nat} {carried : Message} {actions : List (ControllerAction σ)}
    (h : Prepared writes carried actions) : Prepared (writes + 1) carried (actions ++ [.writeBack carried]) where
  leaves a ha := by
    rcases List.mem_append.1 ha with hin | hin
    · exact h.leaves a hin
    · rw [List.mem_singleton.1 hin]
      rfl
  count := by
    rw [List.countP_append, h.count]
    rfl
  carried m hm := by
    rcases List.mem_append.1 hm with hin | hin
    · exact h.carried m hin
    · simpa using hin

/-- What the table of a last-level cache promises about the write-backs of its rows. -/
structure LawfulTable {ε α : Type} [DecidableEq α] (fsm : Fsm σ ε α) (phase : σ → Phase) (initial : σ) (fill : ε → Bool)
    (writeBack : α) (exits : List α) : Prop where
  initial_absent : phase initial = .absent
  invalid_absent : ∀ s, fsm.isValidState s = false → phase s = .absent
  moves : ∀ s e, (∀ a ∈ exits, a ∉ fsm.getActions s e) →
    phase (fsm.getNextState s e) ∈ (phase s).moves (fill e) (decide (writeBack ∈ fsm.getActions s e))
  once : ∀ s e, (fsm.getActions s e).count writeBack ≤ 1

/-- The phase of a line. -/
def phaseOf (phase : σ → Phase) (initial : σ) (c : LineController σ) : Phase := phase (c.slot.readLineBits initial).state

/-- What the actions of a row do, in the terms of a cache. -/
theorem LawfulTable.row {ε α : Type} [DecidableEq α] {fsm : Fsm σ ε α} {phase : σ → Phase} {initial : σ}
    {fill : ε → Bool} {writeBack : α} {exits : List α} (hfsm : LawfulTable fsm phase initial fill writeBack exits)
    {s : σ} {e : ε} {actions : List (ControllerAction σ)} {carried : Message} {ownerId : Option Nat}
    (hs : phase s = phaseOf phase initial c) (hexits : ∀ a ∈ exits, a ∉ fsm.getActions s e)
    (hactions : Prepared ((fsm.getActions s e).count writeBack) carried actions) (hsaved : c.saved = [])
    (hmsg : WholeBlock cfg.blockSize msg)
    (h : c.execActions cfg (actions ++ [.updateCacheLine msg
      { valid := fsm.isValidState (fsm.getNextState s e), state := fsm.getNextState s e, ownerId := ownerId }]) =
      .ok (c', out)) :
    c'.saved = [] ∧
      phaseOf phase initial c' ∈ (phaseOf phase initial c).moves (fill e) !(writeBacks out).isEmpty ∧
      (writeBacks out).length ≤ 1 ∧ (∀ m ∈ writeBacks out, Sent cfg c.slot carried m) ∧
      (phaseOf phase initial c' = .holding → msg.data.isSome = true ∨ c.slot.readCacheLine.isSome = true →
        c'.slot.readCacheLine = some (latestAfter cfg.blockSize (c.slot.readCacheLine.getD []) msg)) := by
  obtain ⟨hsaved', hlength, hsent, hinvalid, hvalid⟩ := execActions_row hsaved hactions.leaves hmsg h
  rw [hactions.count] at hlength
  have hwrites : (!(writeBacks out).isEmpty) = decide (writeBack ∈ fsm.getActions s e) := by
    rw [Bool.eq_iff_iff, Bool.not_eq_true', List.isEmpty_eq_false_iff, decide_eq_true_iff, ← List.count_pos_iff,
      ← hlength, List.length_pos_iff]
  have hphase : phaseOf phase initial c' = phase (fsm.getNextState s e) := by
    unfold phaseOf
    cases hv : fsm.isValidState (fsm.getNextState s e) with
    | true => rw [(hvalid hv).1]
    | false =>
      rw [hinvalid hv, hfsm.invalid_absent _ hv]
      exact hfsm.initial_absent
  refine ⟨hsaved', ?_, hlength ▸ hfsm.once s e, ?_, ?_⟩
  · rw [hphase, hwrites, ← hs]
    exact hfsm.moves s e hexits
  · intro m hm
    obtain ⟨m', hmem, hm'⟩ := hsent m hm
    rw [← hactions.carried m' hmem]
    exact hm'
  · intro hholding hbytes
    cases hv : fsm.isValidState (fsm.getNextState s e) with
    | true => rw [(hvalid hv).2, latestAfter_eq hbytes]
    | false =>
      rw [hphase, hfsm.invalid_absent _ hv] at hholding
      simp at hholding

end Octopus.WriteBack
