import Octopus.WriteBack.LineActions

/-!
# The write-backs of the snooping last-level cache

`LLCMSIProtocol` over its table as a cache with write-backs: its phases, the actions its handler lists
for a row, and the message that it writes back, whose owner is that of the message of the row.
-/

namespace Octopus.WriteBack

/-- What a state of the snooping last-level cache says about the write-back. -/
def snoopingPhase : LLCMSIState → Phase
  | .N => .absent
  | .NIorS_d | .NM_d => .fetching
  | .IorS | .M | .IorS_d | .IorS_a | .N_d => .holding
  | .N_a => .written

/-- Whether an event is the fill from memory. -/
def isFillEvent (e : LLCEventId) : Bool := e == .dataFromUpperInterface

/-- The table writes a line back once, after its fill and before it leaves. -/
theorem msiLLC_lawful :
    LawfulTable msiLLC snoopingPhase .N isFillEvent .writeBack [.stall, .fault] where
  initial_absent := rfl
  invalid_absent := by decide
  moves := by decide
  once := by decide

/-- The snooping MSI last-level cache. -/
def snoopingLLC (cfg : ControllerConfig) : Cache (LineController LLCMSIState) where
  cfg := cfg
  start := {}
  process := llcMSIProtocol.process cfg
  moveLine2WB c := { c with slot := c.slot.moveLine2WB }
  phase := phaseOf snoopingPhase .N
  bytes c := c.slot.readCacheLine

@[simp] theorem snoopingLLC_cfg (cfg : ControllerConfig) : (snoopingLLC cfg).cfg = cfg := rfl

/-- The message that a row of the snooping last-level cache writes back. -/
def snoopingWriteBack (msg : Message) : Message :=
  let message : Message := { msgId := msg.msgId, addr := msg.addr, owner := msg.owner }
  { (match msg.data with
      | some bytes => message.copyData bytes
      | none => message) with kind := .memWrite }

@[simp] theorem snoopingWriteBack_owner (msg : Message) : (snoopingWriteBack msg).owner = msg.owner := by
  cases h : msg.data <;> simp [snoopingWriteBack, h]

@[simp] theorem snoopingWriteBack_toIds (msg : Message) : (snoopingWriteBack msg).toIds = [] := by
  cases h : msg.data <;> simp [snoopingWriteBack, h]

@[simp] theorem snoopingWriteBack_data (msg : Message) : (snoopingWriteBack msg).data = msg.data := by
  cases h : msg.data <;> simp [snoopingWriteBack, h]

section Handler

variable {τ : Type} {cfg : ControllerConfig} {msg : Message} {line : GenericCacheLine τ}

/-- The events of the upper interconnect are fills, which bring data. -/
theorem readEvent_isFill {id : Nat} {e : LLCEventId} (h : LLCMSIProtocol.readEvent id line msg = .ok (some e)) :
    (msg.source == .upperInterconnect) = isFillEvent e ∧ (msg.source = .upperInterconnect → msg.data.isSome = true) := by
  rw [LLCMSIProtocol.readEvent.eq_def] at h
  cases hsource : msg.source <;> simp only [hsource] at h
  case upperInterconnect =>
    split_ifs at h with hdata
    · obtain rfl := Option.some.inj (Except.ok.inj h)
      exact ⟨rfl, fun _ => hdata⟩
    · simp at h
  all_goals
    refine ⟨?_, by simp⟩
    split_ifs at h <;> simp_all only [Except.ok.injEq, Option.some.injEq, reduceCtorEq] <;> subst h <;> rfl

/-- One action of a cell adds its controller actions; only `WriteBack` adds a write-back. -/
theorem addAction_prepared {writes : Nat} {built built' : List (ControllerAction τ) × GenericCacheLine τ}
    {a : LLCActionId} (hbuilt : Prepared writes (snoopingWriteBack msg) built.1)
    (h : LLCMSIProtocol.addAction cfg msg built a = .ok built') :
    a ∉ [LLCActionId.stall, .fault] ∧
      Prepared (writes + [a].count .writeBack) (snoopingWriteBack msg) built'.1 := by
  cases a <;> simp only [LLCMSIProtocol.addAction, reduceCtorEq, Except.ok.injEq] at h <;> subst h <;>
    refine ⟨by decide, ?_⟩
  case writeBack =>
    exact Prepared.writeBack hbuilt
  case sendExeclusiveData => exact hbuilt
  all_goals
    apply Prepared.append hbuilt
    simp [leavesLine, isWriteBack]
  all_goals
    split_ifs <;> simp

/-- The actions of a cell, one after the other. -/
theorem addActions_prepared {actions : List LLCActionId} {writes : Nat}
    {built built' : List (ControllerAction τ) × GenericCacheLine τ}
    (hbuilt : Prepared writes (snoopingWriteBack msg) built.1)
    (h : actions.foldlM (LLCMSIProtocol.addAction cfg msg) built = .ok built') :
    (∀ a ∈ [LLCActionId.stall, .fault], a ∉ actions) ∧
      Prepared (writes + actions.count .writeBack) (snoopingWriteBack msg) built'.1 := by
  induction actions generalizing writes built with
  | nil =>
    obtain rfl := Except.ok.inj h
    exact ⟨by simp, hbuilt⟩
  | cons a rest ih =>
    rw [List.foldlM_cons] at h
    cases hfirst : LLCMSIProtocol.addAction cfg msg built a with
    | error e => simp [hfirst, bind, Except.bind] at h
    | ok middle =>
      simp only [hfirst, bind, Except.bind] at h
      obtain ⟨hgood, hmiddle⟩ := addAction_prepared hbuilt hfirst
      obtain ⟨hrest, hbuilt'⟩ := ih hmiddle h
      refine ⟨?_, ?_⟩
      · intro x hx hmem
        rcases List.mem_cons.1 hmem with rfl | hmem
        · exact hgood hx
        · exact hrest x hx hmem
      · rw [List.count_cons, ← List.count_singleton, Nat.add_comm (rest.count _), ← Nat.add_assoc]
        exact hbuilt'

end Handler

/-- A message processed by the snooping last-level cache runs a row of its table. -/
theorem snooping_row {cfg : ControllerConfig} {c c' : LineController LLCMSIState} {msg : Message} {out : List Emission}
    (hsaved : c.saved = []) (hmsg : WholeBlock cfg.blockSize msg) (h : llcMSIProtocol.process cfg c msg = .ok (c', out)) :
    c'.saved = [] ∧ Row (snoopingLLC cfg) c msg c' out ∧
      ∀ m ∈ writeBacks out, Sent cfg c.slot (snoopingWriteBack msg) m := by
  simp only [LLCProtocol.process, LLCProtocol.processRequest, llcMSIProtocol, LLCMSIProtocol.handleAction] at h
  cases hevent : LLCMSIProtocol.readEvent cfg.id (c.slot.readLineBits LLCMSIState.N) msg with
  | error e => simp [hevent] at h
  | ok e =>
    cases e with
    | none => simp [hevent] at h
    | some e =>
      obtain ⟨hfill, hdata⟩ := readEvent_isFill hevent
      simp only [hevent] at h
      cases hbuilt : (msiLLC.getActions (c.slot.readLineBits LLCMSIState.N).state e).foldlM
          (LLCMSIProtocol.addAction cfg msg) ([], c.slot.readLineBits .N) with
      | error e => simp [hbuilt] at h
      | ok built =>
        obtain ⟨hexits, hprepared⟩ := addActions_prepared Prepared.nil hbuilt
        simp only [hbuilt] at h
        rw [Nat.zero_add] at hprepared
        obtain ⟨hsaved', hmove, honce, hsent, hbytes⟩ := msiLLC_lawful.row rfl hexits hprepared hsaved hmsg h
        refine ⟨hsaved', ⟨?_, honce, hdata, ?_⟩, hsent⟩
        · rw [hfill]
          exact hmove
        · exact fun hphase hbytes' => hbytes hphase (hbytes'.imp_left And.right)

/-- The snooping last-level cache keeps its promises; no request is ever parked there. -/
theorem snoopingLLC_laws (cfg : ControllerConfig) : Laws (snoopingLLC cfg) fun c => c.saved = [] where
  start_ok := rfl
  start_phase := rfl
  evict_ok h := h
  evict_phase c := by
    cases h : c.slot <;> simp [snoopingLLC, phaseOf, h, Slot.moveLine2WB, Slot.readLineBits]
  evict_bytes c := by
    cases h : c.slot <;> simp [snoopingLLC, h, Slot.moveLine2WB, Slot.readCacheLine]
  row hsaved hmsg h := ⟨(snooping_row hsaved hmsg h).1, (snooping_row hsaved hmsg h).2.1⟩

end Octopus.WriteBack
