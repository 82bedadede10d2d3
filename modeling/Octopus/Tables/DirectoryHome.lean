import Mathlib.Data.Fintype.Basic
import Octopus.Fsm

/-!
# The tables of the directory homes

`MSI_LLC_directory`, `MESI_LLC_directory` and `MOESI_LLC_directory`, row by row. The three share
their events and actions; MSI and MESI use a part of them.
-/

namespace Octopus

/-- The events of a directory home. -/
inductive HomeEventId
  | getS | getM | replacement | putS | lastPutS | invAck | lastInvAck | putMDataFromOwner
  | putMDataFromNonOwner | dataFromLowerInterface | dataFromUpperInterface | putEFromOwner
  | putEFromNonOwner | getMFromOwner | putODataFromOwner | putODataFromNonOwner | lastPutOFromOwner
  | dataFromLowerInterfaceLastAck
  deriving DecidableEq, Repr

/-- Every event, once. -/
def HomeEventId.all : List HomeEventId :=
  [.getS, .getM, .replacement, .putS, .lastPutS, .invAck, .lastInvAck, .putMDataFromOwner,
    .putMDataFromNonOwner, .dataFromLowerInterface, .dataFromUpperInterface, .putEFromOwner,
    .putEFromNonOwner, .getMFromOwner, .putODataFromOwner, .putODataFromNonOwner, .lastPutOFromOwner,
    .dataFromLowerInterfaceLastAck]

/-- The events are finitely many, so facts about a whole table can be decided. -/
instance : Fintype HomeEventId := ⟨⟨HomeEventId.all, by decide⟩, fun s => by cases s <;> decide⟩

/-- The column of an event. -/
def HomeEventId.num : HomeEventId → Nat
  | getS => 0
  | getM => 1
  | replacement => 2
  | putS => 3
  | lastPutS => 4
  | invAck => 5
  | lastInvAck => 6
  | putMDataFromOwner => 7
  | putMDataFromNonOwner => 8
  | dataFromLowerInterface => 9
  | dataFromUpperInterface => 10
  | putEFromOwner => 11
  | putEFromNonOwner => 12
  | getMFromOwner => 13
  | putODataFromOwner => 14
  | putODataFromNonOwner => 15
  | lastPutOFromOwner => 16
  | dataFromLowerInterfaceLastAck => 17

/-- The actions of a directory home. -/
inductive HomeActionId
  | stall | getData | sendData | saveData | setOwner | clearOwner | sendInv | writeBack | fwdGetS | fwdGetM
  | putAck | incSharers | decSharers | fault | sendEData | sendAckC | sendInvM
  deriving DecidableEq, Repr

open Cell (stay goto act move)

/-- A request that must wait in its queue. -/
def HomeCell.stall {σ : Type} : Cell σ HomeActionId := act [.stall]

/-- A transition the protocol holds to be unreachable. -/
def HomeCell.fault {σ : Type} : Cell σ HomeActionId := act [.fault]

open HomeCell (stall fault)

/-- The line states of an MSI directory home. -/
inductive LLCMSIDirectoryState
  | N | NS_d | NM_d | I | S | M | S_d | N_d | N_a
  deriving DecidableEq, Repr

/-- Every state, once. -/
def LLCMSIDirectoryState.all : List LLCMSIDirectoryState :=
  [.N, .NS_d, .NM_d, .I, .S, .M, .S_d, .N_d, .N_a]

/-- The states are finitely many, so facts about a whole table can be decided. -/
instance : Fintype LLCMSIDirectoryState := ⟨⟨LLCMSIDirectoryState.all, by decide⟩, fun s => by cases s <;> decide⟩

/-- The table `MSI_LLC_directory`. -/
def msiLLCDirectory : Fsm LLCMSIDirectoryState HomeEventId HomeActionId where
  eventId := HomeEventId.num
  row
    | .N => ⟨true, false, [move [.getData, .incSharers] .NS_d, move [.setOwner, .getData] .NM_d, fault,
        fault, fault, fault, fault, fault, act [.putAck], fault, fault]⟩
    | .NS_d => ⟨false, true, [stall, stall, stall, fault, fault, fault, fault, fault, act [.putAck], fault,
        move [.sendData] .S]⟩
    | .NM_d => ⟨false, true, [stall, stall, stall, fault, fault, fault, fault, fault, act [.putAck], fault,
        move [.sendData] .M]⟩
    | .I => ⟨true, true, [move [.sendData, .incSharers] .S, move [.setOwner, .sendData] .M,
        move [.writeBack] .N, act [.putAck], act [.putAck], fault, act [.putAck], fault, act [.putAck],
        fault, fault]⟩
    | .S => ⟨true, true, [act [.sendData, .incSharers], move [.setOwner, .sendData, .sendInv] .M,
        move [.sendInv, .writeBack] .N_a, act [.putAck, .decSharers], move [.putAck, .decSharers] .I,
        fault, fault, fault, act [.putAck, .decSharers], fault, fault]⟩
    | .M => ⟨true, true, [move [.clearOwner, .fwdGetS, .incSharers] .S_d, act [.setOwner, .fwdGetM],
        move [.sendInv] .N_d, act [.putAck], act [.putAck], act [.decSharers], act [.decSharers],
        move [.clearOwner, .decSharers, .putAck, .saveData] .I, act [.putAck], fault, fault]⟩
    | .S_d => ⟨false, true, [stall, stall, stall, stall, stall, fault, fault, fault,
        act [.putAck, .decSharers], move [.saveData] .S, fault]⟩
    | .N_d => ⟨false, true, [stall, stall, stall, fault, fault, fault,
        move [.clearOwner, .decSharers, .writeBack] .N,
        move [.clearOwner, .decSharers, .putAck, .writeBack] .N, act [.putAck],
        move [.decSharers, .writeBack] .N, fault]⟩
    | .N_a => ⟨false, true, [stall, stall, stall, act [.putAck], act [.putAck], act [.decSharers],
        move [.decSharers] .N, fault, act [.putAck], fault, fault]⟩

/-- The line states of a MESI directory home. -/
inductive LLCMESIDirectoryState
  | N | NE_d | NM_d | I | S | E | M | S_d | N_d | N_a
  deriving DecidableEq, Repr

/-- Every state, once. -/
def LLCMESIDirectoryState.all : List LLCMESIDirectoryState :=
  [.N, .NE_d, .NM_d, .I, .S, .E, .M, .S_d, .N_d, .N_a]

/-- The states are finitely many, so facts about a whole table can be decided. -/
instance : Fintype LLCMESIDirectoryState := ⟨⟨LLCMESIDirectoryState.all, by decide⟩, fun s => by cases s <;> decide⟩

/-- The table `MESI_LLC_directory`. -/
def mesiLLCDirectory : Fsm LLCMESIDirectoryState HomeEventId HomeActionId where
  eventId := HomeEventId.num
  row
    | .N => ⟨true, false, [move [.setOwner, .getData] .NE_d, move [.setOwner, .getData] .NM_d, fault,
        fault, fault, fault, fault, fault, fault, fault, fault, fault, fault]⟩
    | .NE_d => ⟨false, true, [stall, stall, stall, fault, fault, fault, fault, fault, fault, fault,
        move [.sendEData] .E, fault, fault]⟩
    | .NM_d => ⟨false, true, [stall, stall, stall, fault, fault, fault, fault, fault, fault, fault,
        move [.sendData] .M, fault, fault]⟩
    | .I => ⟨true, true, [move [.setOwner, .sendEData] .E, move [.setOwner, .sendData] .M,
        move [.writeBack] .N, act [.putAck], act [.putAck], fault, stay, fault, act [.putAck], fault,
        fault, fault, act [.putAck]]⟩
    | .S => ⟨true, true, [act [.sendData, .incSharers], move [.setOwner, .sendData, .sendInv] .M,
        move [.sendInv, .writeBack] .N_a, act [.putAck, .decSharers], move [.putAck, .decSharers] .I,
        fault, fault, fault, act [.putAck, .decSharers], fault, fault, fault, act [.putAck, .decSharers]]⟩
    | .E => ⟨true, true, [move [.clearOwner, .fwdGetS, .incSharers] .S_d, act [.setOwner, .fwdGetM],
        move [.sendInv] .N_d, act [.putAck], act [.putAck], act [.decSharers], act [.decSharers],
        move [.clearOwner, .decSharers, .putAck, .saveData] .I, act [.putAck], fault, fault,
        move [.clearOwner, .decSharers, .putAck] .I, act [.putAck]]⟩
    | .M => ⟨true, true, [move [.clearOwner, .fwdGetS, .incSharers] .S_d, act [.setOwner, .fwdGetM],
        move [.sendInv] .N_d, act [.putAck], act [.putAck], act [.decSharers], act [.decSharers],
        move [.clearOwner, .decSharers, .putAck, .saveData] .I, act [.putAck], fault, fault, fault,
        act [.putAck]]⟩
    | .S_d => ⟨false, true, [stall, stall, stall, stall, stall, fault, fault, fault,
        act [.putAck, .decSharers], move [.saveData] .S, fault, fault, act [.putAck, .decSharers]]⟩
    | .N_d => ⟨false, true, [stall, stall, stall, fault, fault, fault, stay,
        move [.clearOwner, .decSharers, .putAck, .writeBack] .N, act [.putAck],
        move [.decSharers, .writeBack] .N, fault, move [.clearOwner, .decSharers, .putAck] .N,
        act [.putAck]]⟩
    | .N_a => ⟨false, true, [stall, stall, stall, act [.putAck], act [.putAck], act [.decSharers],
        move [.decSharers] .N, fault, fault, fault, fault, fault, fault]⟩

/-- The line states of a MOESI directory home. -/
inductive LLCMOESIDirectoryState
  | N | NE_d | NM_d | I | S | E | M | O | S_d | N_ad | N_d | N_a
  deriving DecidableEq, Repr

/-- Every state, once. -/
def LLCMOESIDirectoryState.all : List LLCMOESIDirectoryState :=
  [.N, .NE_d, .NM_d, .I, .S, .E, .M, .O, .S_d, .N_ad, .N_d, .N_a]

/-- The states are finitely many, so facts about a whole table can be decided. -/
instance : Fintype LLCMOESIDirectoryState := ⟨⟨LLCMOESIDirectoryState.all, by decide⟩, fun s => by cases s <;> decide⟩

/-- The table `MOESI_LLC_directory`. -/
def moesiLLCDirectory : Fsm LLCMOESIDirectoryState HomeEventId HomeActionId where
  eventId := HomeEventId.num
  row
    | .N => ⟨true, false, [move [.setOwner, .getData] .NE_d, move [.setOwner, .getData] .NM_d, fault,
        fault, fault, fault, fault, fault, fault, fault, fault, fault, fault, fault, fault, fault, fault,
        fault]⟩
    | .NE_d => ⟨false, true, [stall, stall, stall, fault, fault, fault, fault, fault, fault, fault,
        move [.sendEData] .E, fault, fault, fault, fault, fault, fault, fault]⟩
    | .NM_d => ⟨false, true, [stall, stall, stall, fault, fault, fault, fault, fault, fault, fault,
        move [.sendData] .M, fault, fault, fault, fault, fault, fault, fault]⟩
    | .I => ⟨true, true, [move [.setOwner, .sendEData] .E, move [.setOwner, .sendData] .M,
        move [.writeBack] .N, act [.putAck], act [.putAck], fault, act [.putAck], fault, act [.putAck],
        fault, fault, fault, act [.putAck], fault, fault, act [.putAck], fault, fault]⟩
    | .S => ⟨true, true, [act [.sendData, .incSharers], move [.setOwner, .sendData, .sendInv] .M,
        move [.sendInv, .writeBack] .N_a, act [.putAck, .decSharers], move [.putAck, .decSharers] .I,
        fault, fault, fault, act [.putAck, .decSharers], fault, fault, fault, act [.putAck, .decSharers],
        fault, fault, act [.putAck, .decSharers], fault, fault]⟩
    | .E => ⟨true, true, [move [.fwdGetS, .incSharers] .O, act [.setOwner, .fwdGetM],
        move [.sendInvM] .N_d, act [.putAck], act [.putAck], act [.decSharers], act [.decSharers],
        move [.clearOwner, .decSharers, .putAck, .saveData] .I, act [.putAck], fault, fault,
        move [.clearOwner, .decSharers, .putAck] .I, act [.putAck], fault, fault, act [.putAck], fault,
        fault]⟩
    | .M => ⟨true, true, [move [.fwdGetS, .incSharers] .O, act [.setOwner, .fwdGetM],
        move [.sendInvM] .N_d, act [.putAck], act [.putAck], act [.decSharers], act [.decSharers],
        move [.clearOwner, .decSharers, .putAck, .saveData] .I, act [.putAck], fault, fault, fault,
        act [.putAck], fault, fault, act [.putAck], fault, fault]⟩
    | .O => ⟨true, true, [act [.fwdGetS, .incSharers], move [.setOwner, .fwdGetM, .sendInv] .M,
        move [.sendInv] .N_ad, act [.putAck, .decSharers], act [.putAck, .decSharers], fault, fault,
        move [.clearOwner, .decSharers, .putAck, .saveData] .S, act [.putAck, .decSharers], fault, fault,
        move [.clearOwner, .decSharers, .putAck] .S, fault, move [.setOwner, .sendAckC, .sendInv] .M,
        move [.clearOwner, .decSharers, .putAck, .saveData] .S, act [.putAck, .decSharers],
        move [.clearOwner, .decSharers, .putAck, .saveData] .I, fault]⟩
    | .S_d => ⟨false, true, [stall, stall, stall, stall, stall, fault, fault, fault,
        act [.putAck, .decSharers], move [.saveData] .S, fault, fault, act [.putAck, .decSharers], fault,
        fault, fault, fault, move [.saveData] .S]⟩
    | .N_ad => ⟨false, true, [stall, stall, stall, act [.putAck], act [.putAck], act [.decSharers],
        move [.decSharers] .N_d, fault, act [.putAck], move [.decSharers, .saveData] .N_a, fault, fault,
        fault, stall, move [.clearOwner, .decSharers, .putAck, .saveData] .N_a, act [.putAck],
        move [.clearOwner, .decSharers, .putAck, .writeBack] .N, move [.decSharers, .writeBack] .N]⟩
    | .N_d => ⟨false, true, [stall, stall, stall, fault, fault, fault, fault,
        move [.clearOwner, .decSharers, .putAck, .writeBack] .N, act [.putAck],
        move [.decSharers, .writeBack] .N, fault, move [.clearOwner, .decSharers, .putAck, .writeBack] .N,
        act [.putAck], stall, fault, act [.putAck],
        move [.clearOwner, .decSharers, .putAck, .writeBack] .N, move [.decSharers, .writeBack] .N]⟩
    | .N_a => ⟨false, true, [stall, stall, stall, act [.putAck], act [.putAck], act [.decSharers],
        move [.decSharers] .N, fault, fault, fault, fault, fault, fault, stall, fault, fault, fault, fault]⟩

end Octopus
