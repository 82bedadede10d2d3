import Octopus.Protocols.LLCDirectory
import Octopus.WriteBack.LineActions

/-!
# The write-backs of the directory home

`LLCMSIDirectory` over its table as a cache with write-backs. The actions on the sharers leave the line
alone, so a row acts on the line as its other actions do. The write-back is a message of the home
itself and carries no data, so it takes the line's bytes from the array.
-/

namespace Octopus.WriteBack

open LineController (execActions)

section Line

variable {σ : Type} {cfg : ControllerConfig} {c c' : DirectoryController σ} {out : List Emission}

/-- The actions of a directory row on the line. -/
def lineActions (actions : List (DirectoryAction σ)) : List (ControllerAction σ) :=
  actions.filterMap fun a => match a with
    | .base a => some a
    | _ => none

@[simp] theorem lineActions_append (actions more : List (DirectoryAction σ)) :
    lineActions (actions ++ more) = lineActions actions ++ lineActions more := List.filterMap_append

/-- The home never drops pending requests without a response. -/
def keepsPending : DirectoryAction σ → Bool
  | .removePendingNoResponse _ => false
  | _ => true

/-- A directory row acts on the line as its line actions do, and writes back what they write back. -/
theorem execActions_lineActions {actions : List (DirectoryAction σ)} (hkeeps : ∀ a ∈ actions, keepsPending a = true)
    (h : c.execActions cfg actions = .ok (c', out)) :
    ∃ out', c.line.execActions cfg (lineActions actions) = .ok (c'.line, out') ∧ writeBacks out' = writeBacks out := by
  induction actions generalizing c out with
  | nil =>
    obtain ⟨rfl, rfl⟩ := Prod.mk.inj (Except.ok.inj h)
    exact ⟨[], rfl, rfl⟩
  | cons a rest ih =>
    rw [List.forall_mem_cons] at hkeeps
    rw [DirectoryController.execActions] at h
    cases hfirst : c.execAction cfg a with
    | error e => simp [hfirst] at h
    | ok middle =>
      simp only [hfirst] at h
      cases hrest : middle.1.execActions cfg rest with
      | error e => simp [hrest] at h
      | ok last =>
        simp only [hrest] at h
        obtain ⟨rfl, rfl⟩ := Prod.mk.inj (Except.ok.inj h)
        obtain ⟨out', hline, hwrites⟩ := ih hkeeps.2 hrest
        cases a with
        | base a =>
          simp only [DirectoryController.execAction] at hfirst
          cases hbase : c.line.execAction cfg a with
          | error e => simp [hbase, Except.map] at hfirst
          | ok r =>
            simp only [hbase, Except.map, Except.ok.injEq] at hfirst
            obtain rfl := hfirst
            refine ⟨r.2 ++ out', ?_, by simp [hwrites]⟩
            simp only [lineActions, List.filterMap_cons, LineController.execActions, hbase]
            rw [← lineActions, hline]
        | removePendingNoResponse msg => simp [keepsPending] at hkeeps
        | sendForwardMessage msg =>
          obtain rfl := Except.ok.inj hfirst
          refine ⟨out', hline, ?_⟩
          rw [writeBacks_append, hwrites]
          split_ifs <;> simp [writeBacks]
        | setACKNumber msg | decrementACK msg | incrementSharers msg | decrementSharers msg | setSharers msg =>
          obtain rfl := Except.ok.inj hfirst
          refine ⟨out', ?_, by simpa using hwrites⟩
          simpa [lineActions] using hline

end Line

/-- What a state of the directory home says about the write-back. -/
def directoryPhase : LLCMSIDirectoryState → Phase
  | .N => .absent
  | .NS_d | .NM_d => .fetching
  | .I | .S | .M | .S_d | .N_d => .holding
  | .N_a => .written

/-- Whether an event is the fill from memory. -/
def isHomeFillEvent (e : HomeEventId) : Bool := e == .dataFromUpperInterface

/-- The table writes a line back once, after its fill and before it leaves. -/
theorem msiLLCDirectory_lawful :
    LawfulTable msiLLCDirectory directoryPhase .N isHomeFillEvent .writeBack [.stall, .fault] where
  initial_absent := rfl
  invalid_absent := by decide
  moves := by decide
  once := by decide

/-- The MSI directory home. -/
def directoryHome (cfg : ControllerConfig) : Cache (DirectoryController LLCMSIDirectoryState) where
  cfg := cfg
  start := {}
  process := llcMSIDirectory.process cfg
  moveLine2WB c := { c with line := { c.line with slot := c.line.slot.moveLine2WB } }
  phase c := phaseOf directoryPhase .N c.line
  bytes c := c.line.slot.readCacheLine

@[simp] theorem directoryHome_cfg (cfg : ControllerConfig) : (directoryHome cfg).cfg = cfg := rfl

/-- The message that a row of the directory home writes back. -/
def directoryWriteBack (cfg : ControllerConfig) (msg : Message) : Message :=
  { msgId := msg.msgId, addr := msg.addr, owner := cfg.id, kind := .memWrite }

section Handler

variable {τ : Type} {cfg : ControllerConfig} {msg : Message} {line : GenericCacheLine τ} {sharers : Option (List Nat)}
  {oldOwner : Option Nat}

/-- The events of the upper interconnect are fills, which bring data. -/
theorem readEvent_isHomeFill {e : HomeEventId} (h : LLCMSIDirectory.readEvent cfg line sharers msg = .ok e) :
    (msg.source == .upperInterconnect) = isHomeFillEvent e ∧
      (msg.source = .upperInterconnect → msg.data.isSome = true) := by
  rw [LLCMSIDirectory.readEvent.eq_def] at h
  cases hsource : msg.source <;> simp only [hsource] at h
  case upperInterconnect =>
    split_ifs at h with hdata
    · obtain rfl := Except.ok.inj h
      exact ⟨rfl, fun _ => hdata⟩
  all_goals
    refine ⟨?_, by simp⟩
    split_ifs at h <;> simp_all only [Except.ok.injEq] <;> subst h <;> rfl

/-- The actions of a row before its line update, as far as the line goes. -/
structure HomePrepared (writes : Nat) (carried : Message) (actions : List (DirectoryAction τ)) : Prop where
  keeps : ∀ a ∈ actions, keepsPending a = true
  line : Prepared writes carried (lineActions actions)

/-- Actions that are no write-backs are added to a row. -/
theorem HomePrepared.append {writes : Nat} {carried : Message} {actions more : List (DirectoryAction τ)}
    (h : HomePrepared writes carried actions) (hkeeps : ∀ a ∈ more, keepsPending a = true)
    (hmore : ∀ a ∈ lineActions more, leavesLine a = true ∧ isWriteBack a = false) :
    HomePrepared writes carried (actions ++ more) where
  keeps a ha := (List.mem_append.1 ha).elim (h.keeps a) (hkeeps a)
  line := by
    rw [lineActions_append]
    exact h.line.append hmore

/-- One action of a cell adds its controller actions; only `WriteBack` adds a write-back. -/
theorem homeAddAction_prepared {writes : Nat} {built built' : List (DirectoryAction τ) × GenericCacheLine τ}
    {a : HomeActionId} (hbuilt : HomePrepared writes (directoryWriteBack cfg msg) built.1)
    (h : LLCMSIDirectory.addAction cfg sharers oldOwner msg built a = .ok built') :
    a ∉ [HomeActionId.stall, .fault] ∧
      HomePrepared (writes + [a].count .writeBack) (directoryWriteBack cfg msg) built'.1 := by
  cases a <;> simp only [LLCMSIDirectory.addAction, reduceCtorEq] at h
  case sendInv =>
    cases sharers with
    | none => simp at h
    | some list =>
      obtain rfl := Except.ok.inj h
      exact ⟨by decide, hbuilt.append (by simp [keepsPending]) (by simp [lineActions])⟩
  case writeBack =>
    obtain rfl := Except.ok.inj h
    refine ⟨by decide, ?_, ?_⟩
    · intro a ha
      apply (List.mem_append.1 ha).elim (hbuilt.keeps a)
      exact fun hin => List.mem_singleton.1 hin ▸ rfl
    · rw [lineActions_append]
      exact hbuilt.line.writeBack
  all_goals
    obtain rfl := Except.ok.inj h
    refine ⟨by decide, ?_⟩
  case sendEData | sendAckC | sendInvM => exact hbuilt
  all_goals
    apply hbuilt.append
    · simp [keepsPending, LLCMSIDirectory.respond]
    · simp [lineActions, leavesLine, isWriteBack, LLCMSIDirectory.respond] <;> split_ifs <;> simp

/-- The actions of a cell, one after the other. -/
theorem homeAddActions_prepared {actions : List HomeActionId} {writes : Nat}
    {built built' : List (DirectoryAction τ) × GenericCacheLine τ}
    (hbuilt : HomePrepared writes (directoryWriteBack cfg msg) built.1)
    (h : actions.foldlM (LLCMSIDirectory.addAction cfg sharers oldOwner msg) built = .ok built') :
    (∀ a ∈ [HomeActionId.stall, .fault], a ∉ actions) ∧
      HomePrepared (writes + actions.count .writeBack) (directoryWriteBack cfg msg) built'.1 := by
  induction actions generalizing writes built with
  | nil =>
    obtain rfl := Except.ok.inj h
    exact ⟨by simp, hbuilt⟩
  | cons a rest ih =>
    rw [List.foldlM_cons] at h
    cases hfirst : LLCMSIDirectory.addAction cfg sharers oldOwner msg built a with
    | error e => simp [hfirst, bind, Except.bind] at h
    | ok middle =>
      simp only [hfirst, bind, Except.bind] at h
      obtain ⟨hgood, hmiddle⟩ := homeAddAction_prepared hbuilt hfirst
      obtain ⟨hrest, hbuilt'⟩ := ih hmiddle h
      refine ⟨?_, ?_⟩
      · intro x hx hmem
        rcases List.mem_cons.1 hmem with rfl | hmem
        · exact hgood hx
        · exact hrest x hx hmem
      · rw [List.count_cons, ← List.count_singleton, Nat.add_comm (rest.count _), ← Nat.add_assoc]
        exact hbuilt'

end Handler

/-- A message processed by the directory home runs a row of its table. -/
theorem directory_row {cfg : ControllerConfig} {c c' : DirectoryController LLCMSIDirectoryState} {msg : Message}
    {out : List Emission} (hsaved : c.line.saved = []) (hmsg : WholeBlock cfg.blockSize msg)
    (h : llcMSIDirectory.process cfg c msg = .ok (c', out)) :
    c'.line.saved = [] ∧ Row (directoryHome cfg) c msg c' out ∧
      ∀ m ∈ writeBacks out, Sent cfg c.line.slot (directoryWriteBack cfg msg) m := by
  simp only [HomeProtocol.process, HomeProtocol.processRequest, llcMSIDirectory, LLCMSIDirectory.handleAction] at h
  cases hevent : LLCMSIDirectory.readEvent cfg (c.line.slot.readLineBits LLCMSIDirectoryState.N) c.sharers msg with
  | error e => simp [hevent] at h
  | ok e =>
    obtain ⟨hfill, hdata⟩ := readEvent_isHomeFill hevent
    simp only [hevent] at h
    generalize (c.line.slot.readLineBits LLCMSIDirectoryState.N).ownerId = oldOwner at h
    cases hbuilt : (msiLLCDirectory.getActions (c.line.slot.readLineBits LLCMSIDirectoryState.N).state e).foldlM
        (LLCMSIDirectory.addAction cfg c.sharers oldOwner msg) ([], c.line.slot.readLineBits .N) with
    | error e => simp [hbuilt] at h
    | ok built =>
      obtain ⟨hexits, hprepared⟩ := homeAddActions_prepared ⟨by simp, Prepared.nil⟩ hbuilt
      simp only [hbuilt] at h
      rw [Nat.zero_add] at hprepared
      obtain ⟨out', hline, hwrites⟩ := execActions_lineActions (by
        intro a ha
        apply (List.mem_append.1 ha).elim (hprepared.keeps a)
        exact fun hin => List.mem_singleton.1 hin ▸ rfl) h
      rw [lineActions_append] at hline
      obtain ⟨hsaved', hmove, honce, hsent, hbytes⟩ :=
        msiLLCDirectory_lawful.row rfl hexits hprepared.line hsaved hmsg hline
      rw [hwrites] at hmove honce hsent
      refine ⟨hsaved', ⟨?_, honce, hdata, ?_⟩, hsent⟩
      · rw [hfill]
        exact hmove
      · exact fun hphase hbytes' => hbytes hphase (hbytes'.imp_left And.right)

/-- The directory home keeps its promises; no request is ever parked there. -/
theorem directoryHome_laws (cfg : ControllerConfig) : Laws (directoryHome cfg) fun c => c.line.saved = [] where
  start_ok := rfl
  start_phase := rfl
  evict_ok h := h
  evict_phase c := by
    cases h : c.line.slot <;> simp [directoryHome, phaseOf, h, Slot.moveLine2WB, Slot.readLineBits]
  evict_bytes c := by
    cases h : c.line.slot <;> simp [directoryHome, h, Slot.moveLine2WB, Slot.readCacheLine]
  row hsaved hmsg h := ⟨(directory_row hsaved hmsg h).1, (directory_row hsaved hmsg h).2.1⟩

end Octopus.WriteBack
