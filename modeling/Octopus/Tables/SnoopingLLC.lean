import Mathlib.Data.Fintype.Basic
import Octopus.Fsm

/-!
# The tables of the snooping last-level caches

`MSI_LLC`, `MESI_LLC` and `MOESI_LLC`, row by row. MSI has no action that answers with
exclusive data.
-/

namespace Octopus

/-- The events of a snooping last-level cache. -/
inductive LLCEventId
  | getS | getM | replacement | putMFromOwner | putMFromNonOwner | dataFromLowerInterface
  | dataFromUpperInterface | ownInvalidation
  deriving DecidableEq, Repr

/-- The actions of a snooping last-level cache. -/
inductive LLCActionId
  | stall | getData | sendData | saveData | setOwner | clearOwner | issueInv | writeBack | fault
  | sendExeclusiveData
  deriving DecidableEq, Repr

/-- Every event, once. -/
def LLCEventId.all : List LLCEventId :=
  [.getS, .getM, .replacement, .putMFromOwner, .putMFromNonOwner, .dataFromLowerInterface,
    .dataFromUpperInterface, .ownInvalidation]

/-- The events are finitely many, so facts about a whole table can be decided. -/
instance : Fintype LLCEventId := ⟨⟨LLCEventId.all, by decide⟩, fun s => by cases s <;> decide⟩

/-- The column of an event. -/
def LLCEventId.num : LLCEventId → Nat
  | getS => 0
  | getM => 1
  | replacement => 2
  | putMFromOwner => 3
  | putMFromNonOwner => 4
  | dataFromLowerInterface => 5
  | dataFromUpperInterface => 6
  | ownInvalidation => 7

open Cell (stay goto act move)

/-- A request that must wait in its queue. -/
def LLCCell.stall {σ : Type} : Cell σ LLCActionId := act [.stall]

/-- A transition the protocol holds to be unreachable. -/
def LLCCell.fault {σ : Type} : Cell σ LLCActionId := act [.fault]

open LLCCell (stall fault)

/-- The line states of a snooping MSI last-level cache. -/
inductive LLCMSIState
  | N | NIorS_d | NM_d | IorS | M | IorS_d | IorS_a | N_d | N_a
  deriving DecidableEq, Repr

/-- Every state, once. -/
def LLCMSIState.all : List LLCMSIState :=
  [.N, .NIorS_d, .NM_d, .IorS, .M, .IorS_d, .IorS_a, .N_d, .N_a]

/-- The states are finitely many, so facts about a whole table can be decided. -/
instance : Fintype LLCMSIState := ⟨⟨LLCMSIState.all, by decide⟩, fun s => by cases s <;> decide⟩

/-- The table `MSI_LLC`. -/
def msiLLC : Fsm LLCMSIState LLCEventId LLCActionId where
  eventId := LLCEventId.num
  row
    | .N => ⟨true, false, [move [.getData] .NIorS_d, move [.getData, .setOwner] .NM_d, stay, fault,
        stay, fault, fault, fault]⟩
    | .NIorS_d => ⟨false, true, [stall, stall, stall, fault, fault, fault, move [.sendData] .IorS,
        fault]⟩
    | .NM_d => ⟨false, true, [stall, stall, stall, fault, fault, fault, move [.sendData] .M, fault]⟩
    | .IorS => ⟨true, true, [act [.sendData], move [.sendData, .setOwner] .M, act [.issueInv], fault,
        stay, fault, fault, move [.writeBack] .N]⟩
    | .M => ⟨true, true, [move [.clearOwner] .IorS_d, act [.setOwner], act [.issueInv],
        move [.clearOwner] .IorS_d, stay, move [.saveData] .IorS_a, fault, move [.clearOwner] .N_d]⟩
    | .IorS_d => ⟨false, true, [stall, stall, stall, stall, stay, move [.saveData] .IorS, fault,
        goto .N_d]⟩
    | .IorS_a => ⟨false, true, [move [.clearOwner] .IorS, stall, stall, move [.clearOwner] .IorS,
        stay, fault, fault, move [.writeBack] .N_a]⟩
    | .N_d => ⟨false, true, [stall, stall, stall, fault, stay, move [.writeBack] .N, fault, fault]⟩
    | .N_a => ⟨false, true, [move [.clearOwner] .N, stall, stall, move [.clearOwner] .N, stay, fault,
        fault, fault]⟩

/-- The line states of a snooping MESI last-level cache. -/
inductive LLCMESIState
  | N | NE_d | NM_d | I | S | EorM | IorS_a | MN_d | S_d | I_d | N_a
  deriving DecidableEq, Repr

/-- Every state, once. -/
def LLCMESIState.all : List LLCMESIState :=
  [.N, .NE_d, .NM_d, .I, .S, .EorM, .IorS_a, .MN_d, .S_d, .I_d, .N_a]

/-- The states are finitely many, so facts about a whole table can be decided. -/
instance : Fintype LLCMESIState := ⟨⟨LLCMESIState.all, by decide⟩, fun s => by cases s <;> decide⟩

/-- The table `MESI_LLC`. -/
def mesiLLC : Fsm LLCMESIState LLCEventId LLCActionId where
  eventId := LLCEventId.num
  row
    | .N => ⟨true, false, [move [.getData, .setOwner] .NE_d, move [.getData, .setOwner] .NM_d, stay,
        fault, stay, fault, fault, move [.saveData] .N]⟩
    | .NE_d => ⟨false, true, [stall, stall, stall, fault, fault, fault,
        move [.sendExeclusiveData] .EorM, fault]⟩
    | .NM_d => ⟨false, true, [stall, stall, stall, fault, fault, fault, move [.sendData] .EorM,
        fault]⟩
    | .I => ⟨true, true, [move [.sendExeclusiveData, .setOwner] .EorM,
        move [.sendData, .setOwner] .EorM, act [.issueInv], fault, stay, fault, fault,
        move [.writeBack] .N]⟩
    | .S => ⟨true, true, [act [.sendData], move [.sendData, .setOwner] .EorM, act [.issueInv], fault,
        stay, fault, fault, move [.writeBack] .N]⟩
    | .EorM => ⟨true, true, [move [.clearOwner] .S_d, act [.setOwner], act [.issueInv],
        move [.clearOwner] .I_d, stay, move [.saveData] .IorS_a, fault, move [.clearOwner] .MN_d]⟩
    | .IorS_a => ⟨false, true, [move [.clearOwner] .S, stall, stall, move [.clearOwner] .I, stay,
        fault, fault, move [.writeBack] .N_a]⟩
    | .MN_d => ⟨false, true, [stall, stall, stall, fault, stay, move [.writeBack] .N, fault,
        move [.saveData] .MN_d]⟩
    | .S_d => ⟨false, true, [stall, stall, stall, fault, stay, move [.saveData] .S, fault,
        goto .MN_d]⟩
    | .I_d => ⟨false, true, [stall, stall, stall, fault, stay, move [.saveData] .I, fault,
        goto .MN_d]⟩
    | .N_a => ⟨false, true, [move [.clearOwner] .N, stall, stall, move [.clearOwner] .N, stay, fault,
        fault, fault]⟩

/-- The line states of a snooping MOESI last-level cache. -/
inductive LLCMOESIState
  | N | NE_d | NM_d | I | S | E | I_a | MN_d | S_d | I_d | O | S_a | O_d | M
  deriving DecidableEq, Repr

/-- Every state, once. -/
def LLCMOESIState.all : List LLCMOESIState :=
  [.N, .NE_d, .NM_d, .I, .S, .E, .I_a, .MN_d, .S_d, .I_d, .O, .S_a, .O_d, .M]

/-- The states are finitely many, so facts about a whole table can be decided. -/
instance : Fintype LLCMOESIState := ⟨⟨LLCMOESIState.all, by decide⟩, fun s => by cases s <;> decide⟩

/-- The table `MOESI_LLC`. -/
def moesiLLC : Fsm LLCMOESIState LLCEventId LLCActionId where
  eventId := LLCEventId.num
  row
    | .N => ⟨true, false, [move [.getData, .setOwner] .NE_d, move [.getData, .setOwner] .NM_d, stay,
        fault, stay, fault, fault, move [.saveData] .N]⟩
    | .NE_d => ⟨false, true, [stall, stall, stall, fault, fault, fault,
        move [.sendExeclusiveData] .E, fault]⟩
    | .NM_d => ⟨false, true, [stall, stall, stall, fault, fault, fault, move [.sendData] .M, fault]⟩
    | .I => ⟨true, true, [move [.sendExeclusiveData, .setOwner] .E, move [.sendData, .setOwner] .M,
        act [.issueInv], fault, stay, fault, fault, move [.writeBack] .N]⟩
    | .S => ⟨true, true, [act [.sendData], move [.sendData, .setOwner] .M, act [.issueInv], fault,
        stay, fault, fault, move [.writeBack] .N]⟩
    | .E => ⟨true, true, [move [.clearOwner] .S, move [.setOwner] .M, act [.issueInv],
        move [.clearOwner] .I, stay, fault, fault, move [.clearOwner, .writeBack] .N]⟩
    | .I_a => ⟨false, true, [stall, stall, stall, move [.clearOwner] .I, stay, fault, fault, fault]⟩
    | .MN_d => ⟨false, true, [stall, stall, stall, fault, stay, move [.writeBack] .N, fault,
        move [.saveData] .MN_d]⟩
    | .S_d => ⟨false, true, [stall, stall, stall, fault, stay, move [.saveData] .S, fault,
        goto .MN_d]⟩
    | .I_d => ⟨false, true, [stall, stall, stall, fault, stay, move [.saveData] .I, fault,
        goto .MN_d]⟩
    | .O => ⟨true, true, [stay, move [.setOwner] .M, act [.issueInv], goto .S_d, stay,
        move [.saveData] .S, fault, move [.clearOwner] .MN_d]⟩
    | .S_a => ⟨false, true, [stall, stall, stall, move [.clearOwner] .S, stay, fault, fault, fault]⟩
    | .O_d => ⟨false, true, [stall, stall, stall, fault, stay, move [.saveData] .O, fault,
        goto .MN_d]⟩
    | .M => ⟨true, true, [goto .O, move [.setOwner] .M, act [.issueInv], move [.clearOwner] .I_d,
        stay, move [.saveData] .I_a, fault, move [.clearOwner] .MN_d]⟩

end Octopus
