import Octopus.Snoop.Simulation

/-!
# The three snooping protocols

MSI, MESI and MOESI satisfy what the simulation asks of a protocol. Every field is a fact about
a finite table; what has to be found is the set of states in which a line has its bytes.
-/

namespace Octopus.Snoop

/-- MESI and MOESI data is read as data. -/
theorem mesi_readEvent_data (id : Nat) {msg : Message} (hsource : msg.source = .upperInterconnect)
    (hdata : msg.data.isSome) :
    MESIProtocol.readEvent id msg =
      if msg.complementaryValue = 2 then .ok (.ownDataExeclusive, { msg with complementaryValue := 0 })
      else .ok (.ownData, msg) := by
  have hread : MSIProtocol.readEvent id msg = .ok .ownData := by
    simp [MSIProtocol.readEvent, hsource, hdata]
  rw [MESIProtocol.readEvent, hread]

/-- Without data from above, MESI and MOESI read a message as MSI does. -/
theorem mesi_readEvent_other (id : Nat) {msg : Message}
    (h : ¬ (msg.source = .upperInterconnect ∧ msg.data.isSome)) :
    MESIProtocol.readEvent id msg = (MSIProtocol.readEvent id msg).map fun e => (e, msg) := by
  have hne : MSIProtocol.readEvent id msg ≠ .ok .ownData := by
    intro hread
    rw [MSIProtocol.readEvent] at hread
    cases hsource : msg.source <;> simp only [hsource] at hread
    all_goals split_ifs at hread <;> simp_all
  rw [MESIProtocol.readEvent]
  cases hread : MSIProtocol.readEvent id msg with
  | error e => rfl
  | ok e =>
    rw [hread] at hne
    cases e <;> first | rfl | exact absurd rfl hne

/-- How MESI and MOESI read data: the mark of exclusive data is consumed. -/
def mesiDataEvent (exclusive : Bool) : EventId × Bool :=
  (if exclusive then .ownDataExeclusive else .ownData, false)

/-- The reading of data with its mark, for MESI and MOESI. -/
theorem mesi_readEvent_mark (id : Nat) (msg : Message) (hsource : msg.source = .upperInterconnect)
    (hdata : msg.data.isSome) :
    ∃ msg', MESIProtocol.readEvent id msg =
        .ok ((mesiDataEvent (msg.complementaryValue == 2)).1, msg') ∧
      (msg'.complementaryValue == 2) = (mesiDataEvent (msg.complementaryValue == 2)).2 ∧
      msg'.data = msg.data ∧ msg'.dataSize = msg.dataSize ∧ msg'.owner = msg.owner := by
  rw [mesi_readEvent_data id hsource hdata]
  by_cases hcv : msg.complementaryValue = 2
  · exact ⟨{ msg with complementaryValue := 0 }, by simp [hcv, mesiDataEvent], by simp [mesiDataEvent],
      rfl, rfl, rfl⟩
  · exact ⟨msg, by simp [hcv, mesiDataEvent], by simp [hcv, mesiDataEvent], rfl, rfl, rfl⟩

/-- MSI reads data whatever its mark. -/
theorem msi_readEvent_data (id : Nat) {msg : Message} (hsource : msg.source = .upperInterconnect)
    (hdata : msg.data.isSome) : msiProtocol.readEvent id msg = .ok (.ownData, msg) := by
  simp [msiProtocol, MSIProtocol.readEvent, hsource, hdata, Except.map]

/-- The MSI action handler is that of MESI on the cells without a dropped request. -/
theorem msi_handleAction_eq (cfg : ControllerConfig) (fsm : Fsm MSIState EventId ActionId)
    {actions : List ActionId} (msg : Message) (line : GenericCacheLine MSIState) (next : MSIState)
    (h : ActionId.removeSavedReq ∉ actions) :
    MSIProtocol.handleAction cfg fsm actions msg line next =
      MESIProtocol.handleAction cfg fsm actions msg line next := by
  rw [MESIProtocol.handleAction, List.erase_of_not_mem h]
  simp only [h, if_false]
  split <;> simp_all

/-- The MSI last-level handler is that of MESI on the cells without an exclusive response. -/
theorem llcMSI_handleAction_eq (cfg : ControllerConfig) (fsm : Fsm LLCMSIState LLCEventId LLCActionId)
    {actions : List LLCActionId} (msg : Message) (line : GenericCacheLine LLCMSIState)
    (next : LLCMSIState) (h : LLCActionId.sendExeclusiveData ∉ actions) :
    LLCMSIProtocol.handleAction cfg fsm actions msg line next =
      LLCMESIProtocol.handleAction cfg fsm actions msg line next := by
  rw [LLCMESIProtocol.handleAction, List.erase_of_not_mem h]
  simp only [h, if_false]
  split <;> simp_all

/-- The MSI states in which a private cache has the bytes its non-data rows send. -/
def msiHolds (s : MSIState) : Bool := s ∈ [MSIState.M, .MI_a, .MII_a, .IM_a, .SM_a]

/-- The MESI states in which a private cache has the bytes its non-data rows send. -/
def mesiHolds (s : MESIState) : Bool := s ∈ [MESIState.M, .MI_a, .E, .IM_a, .SM_a]

/-- The MOESI states in which a private cache has the bytes its non-data rows send. -/
def moesiHolds (s : MOESIState) : Bool :=
  s ∈ [MOESIState.M, .MI_a, .E, .O, .OM_a, .OI_a, .EI_a, .EM_a, .IM_a, .SM_a]

/-- The MSI states in which the last-level cache has the bytes it answers requests with. -/
def llcMSIHolds (s : LLCMSIState) : Bool := s ∈ [LLCMSIState.IorS, .IorS_a]

/-- The MESI states in which the last-level cache has the bytes it answers requests with. -/
def llcMESIHolds (s : LLCMESIState) : Bool := s ∈ [LLCMESIState.I, .S, .IorS_a]

/-- The MOESI states in which the last-level cache has the bytes it answers requests with. -/
def llcMOESIHolds (s : LLCMOESIState) : Bool := s ∈ [LLCMOESIState.I, .S, .E, .I_a, .S_a]

/-- The MSI private cache. -/
theorem msi_lawfulL1 : LawfulL1 msiProtocol msiHolds where
  readEvent_data id msg hsource hdata :=
    ⟨.ownData, msg, msi_readEvent_data id hsource hdata, rfl, rfl, rfl, rfl, rfl⟩
  readEvent_other _ _ _ := rfl
  handleAction_eq cfg s e msg line next :=
    msi_handleAction_eq cfg _ msg line next (by revert s e; decide)
  actions_mem := by decide
  initial_invalid := rfl
  eq_initial := by decide
  holds_initial := rfl
  holds_next := by decide
  holds_supply := by decide

/-- The MSI last-level cache. -/
theorem msi_lawfulLLC : LawfulLLC llcMSIProtocol llcMSIHolds where
  handleAction_eq cfg s e msg line next :=
    llcMSI_handleAction_eq cfg _ msg line next (by revert s e; decide)
  actions_mem := by decide
  initial_invalid := rfl
  eq_initial := by decide
  holds_initial := rfl
  holds_next := by decide
  holds_respond := by decide
  respond_valid := by decide

/-- The snooping MSI system. -/
def msiProtocols : Protocols MSIState LLCMSIState := ⟨msiProtocol, llcMSIProtocol⟩

/-- The snooping MSI system is lawful. -/
def msiLawful : Lawful msiProtocols msiHolds llcMSIHolds where
  l1 := msi_lawfulL1
  llc := msi_lawfulLLC
  dataEvent x := (.ownData, x)
  readEvent_data id msg hsource hdata :=
    ⟨msg, msi_readEvent_data id hsource hdata, rfl, rfl, rfl, rfl⟩
  dataEvent_isData _ := rfl
  data_row := by decide
  core_row := by decide

/-- The reading of data by MESI and MOESI, as the simulation asks for it. -/
theorem mesi_readEvent_isData (id : Nat) (msg : Message) (hsource : msg.source = .upperInterconnect)
    (hdata : msg.data.isSome) :
    ∃ e msg', MESIProtocol.readEvent id msg = .ok (e, msg') ∧ isDataEvent e ∧ msg'.data = msg.data ∧
      msg'.dataSize = msg.dataSize ∧ msg'.owner = msg.owner ∧ msg'.source = msg.source := by
  rw [mesi_readEvent_data id hsource hdata]
  by_cases hcv : msg.complementaryValue = 2
  · exact ⟨_, _, if_pos hcv, rfl, rfl, rfl, rfl, rfl⟩
  · exact ⟨_, _, if_neg hcv, rfl, rfl, rfl, rfl, rfl⟩

/-- The MESI private cache. -/
theorem mesi_lawfulL1 : LawfulL1 mesiProtocol mesiHolds where
  readEvent_data := mesi_readEvent_isData
  readEvent_other id _ h := mesi_readEvent_other id h
  handleAction_eq _ _ _ _ _ _ := rfl
  actions_mem := by decide
  initial_invalid := rfl
  eq_initial := by decide
  holds_initial := rfl
  holds_next := by decide
  holds_supply := by decide

/-- The MESI last-level cache. -/
theorem mesi_lawfulLLC : LawfulLLC llcMESIProtocol llcMESIHolds where
  handleAction_eq _ _ _ _ _ _ := rfl
  actions_mem := by decide
  initial_invalid := rfl
  eq_initial := by decide
  holds_initial := rfl
  holds_next := by decide
  holds_respond := by decide
  respond_valid := by decide

/-- The snooping MESI system. -/
def mesiProtocols : Protocols MESIState LLCMESIState := ⟨mesiProtocol, llcMESIProtocol⟩

/-- The snooping MESI system is lawful. -/
def mesiLawful : Lawful mesiProtocols mesiHolds llcMESIHolds where
  l1 := mesi_lawfulL1
  llc := mesi_lawfulLLC
  dataEvent := mesiDataEvent
  readEvent_data := mesi_readEvent_mark
  dataEvent_isData := by decide
  data_row := by decide
  core_row := by decide

/-- The MOESI private cache. -/
theorem moesi_lawfulL1 : LawfulL1 moesiProtocol moesiHolds where
  readEvent_data := mesi_readEvent_isData
  readEvent_other id _ h := mesi_readEvent_other id h
  handleAction_eq _ _ _ _ _ _ := rfl
  actions_mem := by decide
  initial_invalid := rfl
  eq_initial := by decide
  holds_initial := rfl
  holds_next := by decide
  holds_supply := by decide

/-- The MOESI last-level cache. -/
theorem moesi_lawfulLLC : LawfulLLC llcMOESIProtocol llcMOESIHolds where
  handleAction_eq _ _ _ _ _ _ := rfl
  actions_mem := by decide
  initial_invalid := rfl
  eq_initial := by decide
  holds_initial := rfl
  holds_next := by decide
  holds_respond := by decide
  respond_valid := by decide

/-- The snooping MOESI system. -/
def moesiProtocols : Protocols MOESIState LLCMOESIState := ⟨moesiProtocol, llcMOESIProtocol⟩

/-- The snooping MOESI system is lawful. -/
def moesiLawful : Lawful moesiProtocols moesiHolds llcMOESIHolds where
  l1 := moesi_lawfulL1
  llc := moesi_lawfulLLC
  dataEvent := mesiDataEvent
  readEvent_data := mesi_readEvent_mark
  dataEvent_isData := by decide
  data_row := by decide
  core_row := by decide

end Octopus.Snoop
