import Mathlib.Data.Fintype.Basic
import Octopus.Fsm

/-!
# The tables of the private caches under a directory

`MSI_directory`, `MESI_directory` and `MOESI_directory`, row by row. The three share their events
and actions; MSI and MESI use a part of them.
-/

namespace Octopus

/-- The events of a private cache under a directory. -/
inductive DirectoryEventId
  | load | store | replacement | fwdGetS | fwdGetM | inv | putAck | dataZeroAck | dataNonZeroAck
  | dataFromOwner | invAck | lastInvAck | dataExeclusive | ackCount | ackCountZero | dataFromOwnerNonZeroAck
  | invM
  deriving DecidableEq, Repr

/-- Every event, once. -/
def DirectoryEventId.all : List DirectoryEventId :=
  [.load, .store, .replacement, .fwdGetS, .fwdGetM, .inv, .putAck, .dataZeroAck, .dataNonZeroAck,
    .dataFromOwner, .invAck, .lastInvAck, .dataExeclusive, .ackCount, .ackCountZero,
    .dataFromOwnerNonZeroAck, .invM]

/-- The events are finitely many, so facts about a whole table can be decided. -/
instance : Fintype DirectoryEventId := ⟨⟨DirectoryEventId.all, by decide⟩, fun s => by cases s <;> decide⟩

/-- The column of an event. -/
def DirectoryEventId.num : DirectoryEventId → Nat
  | load => 0
  | store => 1
  | replacement => 2
  | fwdGetS => 3
  | fwdGetM => 4
  | inv => 5
  | putAck => 6
  | dataZeroAck => 7
  | dataNonZeroAck => 8
  | dataFromOwner => 9
  | invAck => 10
  | lastInvAck => 11
  | dataExeclusive => 12
  | ackCount => 13
  | ackCountZero => 14
  | dataFromOwnerNonZeroAck => 15
  | invM => 16

/-- The actions of a private cache under a directory. -/
inductive DirectoryActionId
  | stall | hit | getS | getM | putS | putMData | data2Both | data2Req | invAck2Req | invAckData | ackDec
  | ackNumSet | saveReq | fault | putE | putOData | setAck
  deriving DecidableEq, Repr

open Cell (stay goto act move)

/-- A request that must wait in its queue. -/
def DirectoryCell.stall {σ : Type} : Cell σ DirectoryActionId := act [.stall]

/-- A transition the protocol holds to be unreachable. -/
def DirectoryCell.fault {σ : Type} : Cell σ DirectoryActionId := act [.fault]

open DirectoryCell (stall fault)

/-- The line states of an MSI private cache under a directory. -/
inductive MSIDirectoryState
  | I | IS_d | IS_dI | IM_ad | IM_a | IM_aS | IM_aSI | IM_aI | S | SM_ad | SM_a | M | MI_a | SI_a | II_a
  deriving DecidableEq, Repr

/-- Every state, once. -/
def MSIDirectoryState.all : List MSIDirectoryState :=
  [.I, .IS_d, .IS_dI, .IM_ad, .IM_a, .IM_aS, .IM_aSI, .IM_aI, .S, .SM_ad, .SM_a, .M, .MI_a, .SI_a, .II_a]

/-- The states are finitely many, so facts about a whole table can be decided. -/
instance : Fintype MSIDirectoryState := ⟨⟨MSIDirectoryState.all, by decide⟩, fun s => by cases s <;> decide⟩

/-- The table `MSI_directory`. -/
def msiDirectory : Fsm MSIDirectoryState DirectoryEventId DirectoryActionId where
  eventId := DirectoryEventId.num
  row
    | .I => ⟨true, false, [move [.getS] .IS_d, move [.getM] .IM_ad, stay, fault, fault, fault, fault,
        fault, fault, fault, fault, fault]⟩
    | .IS_d => ⟨false, true, [stall, stall, stall, fault, fault, move [.invAck2Req] .IS_dI, fault,
        move [.hit] .S, fault, move [.hit] .S, fault, fault]⟩
    | .IS_dI => ⟨false, true, [stall, stall, stall, fault, fault, fault, fault, move [.hit] .I, fault,
        move [.hit] .I, fault, fault]⟩
    | .IM_ad => ⟨false, true, [stall, stall, stall, stall, stall, stall, fault, move [.hit] .M,
        move [.ackNumSet] .IM_a, move [.hit] .M, act [.ackDec], fault]⟩
    | .IM_a => ⟨false, true, [stall, stall, stall, move [.saveReq] .IM_aS, move [.saveReq] .IM_aI, fault,
        fault, fault, fault, fault, act [.ackDec], move [.hit, .ackDec] .M]⟩
    | .IM_aS => ⟨false, true, [stall, stall, stall, fault, fault, move [.invAck2Req] .IM_aSI, fault, fault,
        fault, fault, act [.ackDec], move [.hit, .ackDec, .data2Both] .S]⟩
    | .IM_aSI => ⟨false, true, [stall, stall, stall, fault, fault, fault, fault, fault, fault, fault,
        act [.ackDec], move [.hit, .data2Both, .ackDec] .I]⟩
    | .IM_aI => ⟨false, true, [stall, stall, stall, fault, fault, fault, fault, fault, fault, fault,
        act [.ackDec], move [.hit, .data2Req, .ackDec] .I]⟩
    | .S => ⟨true, true, [act [.hit], move [.getM] .SM_ad, move [.putS] .SI_a, fault, fault,
        move [.invAck2Req] .I, fault, fault, fault, fault, fault, fault]⟩
    | .SM_ad => ⟨false, true, [act [.hit], stall, stall, stall, stall, move [.invAck2Req] .IM_ad, fault,
        move [.hit] .M, move [.ackNumSet] .SM_a, fault, act [.ackDec], fault]⟩
    | .SM_a => ⟨false, true, [act [.hit], stall, stall, stall, stall, fault, fault, fault, fault, fault,
        act [.ackDec], move [.hit, .ackDec] .M]⟩
    | .M => ⟨true, true, [act [.hit], act [.hit], move [.putMData] .MI_a, move [.data2Both] .S,
        move [.data2Req] .I, move [.invAckData] .I, fault, fault, fault, fault, fault, fault]⟩
    | .MI_a => ⟨false, true, [stall, stall, stall, move [.data2Both] .SI_a, move [.data2Req] .II_a, stay,
        goto .I, fault, fault, fault, fault, fault]⟩
    | .SI_a => ⟨false, true, [stall, stall, stall, fault, fault, move [.invAck2Req] .II_a, goto .I, fault,
        fault, fault, fault, fault]⟩
    | .II_a => ⟨false, true, [stall, stall, stall, fault, fault, fault, goto .I, fault, fault, fault,
        fault, fault]⟩

/-- The line states of a MESI private cache under a directory. -/
inductive MESIDirectoryState
  | I | IS_d | IS_dI | IM_ad | IM_a | IM_aS | IM_aSI | IM_aI | S | SM_ad | SM_a | SM_aS | SM_aSI | SM_aI | M
  | E | MI_a | EI_a | SI_a | II_a
  deriving DecidableEq, Repr

/-- Every state, once. -/
def MESIDirectoryState.all : List MESIDirectoryState :=
  [.I, .IS_d, .IS_dI, .IM_ad, .IM_a, .IM_aS, .IM_aSI, .IM_aI, .S, .SM_ad, .SM_a, .SM_aS, .SM_aSI, .SM_aI, .M,
    .E, .MI_a, .EI_a, .SI_a, .II_a]

/-- The states are finitely many, so facts about a whole table can be decided. -/
instance : Fintype MESIDirectoryState := ⟨⟨MESIDirectoryState.all, by decide⟩, fun s => by cases s <;> decide⟩

/-- The table `MESI_directory`. -/
def mesiDirectory : Fsm MESIDirectoryState DirectoryEventId DirectoryActionId where
  eventId := DirectoryEventId.num
  row
    | .I => ⟨true, false, [move [.getS] .IS_d, move [.getM] .IM_ad, stay, fault, fault, fault, fault,
        fault, fault, fault, fault, fault, fault]⟩
    | .IS_d => ⟨false, true, [stall, stall, stall, stall, stall, move [.invAck2Req] .IS_dI, fault,
        move [.hit] .S, fault, move [.hit] .S, fault, fault, move [.hit] .E]⟩
    | .IS_dI => ⟨false, true, [stall, stall, stall, stall, stall, fault, fault, move [.hit] .I, fault,
        move [.hit] .I, fault, fault, move [.hit, .data2Req] .I]⟩
    | .IM_ad => ⟨false, true, [stall, stall, stall, stall, stall, stall, fault, move [.hit] .M,
        move [.ackNumSet] .IM_a, move [.hit] .M, act [.ackDec], fault, fault]⟩
    | .IM_a => ⟨false, true, [stall, stall, stall, move [.saveReq] .IM_aS, move [.saveReq] .IM_aI, fault,
        fault, fault, fault, fault, act [.ackDec], move [.hit, .ackDec] .M, fault]⟩
    | .IM_aS => ⟨false, true, [stall, stall, stall, fault, fault, move [.invAck2Req] .IM_aSI, fault, fault,
        fault, fault, act [.ackDec], move [.hit, .ackDec, .data2Both] .S, fault]⟩
    | .IM_aSI => ⟨false, true, [stall, stall, stall, fault, fault, fault, fault, fault, fault, fault,
        act [.ackDec], move [.hit, .data2Both, .ackDec] .I, fault]⟩
    | .IM_aI => ⟨false, true, [stall, stall, stall, fault, fault, fault, fault, fault, fault, fault,
        act [.ackDec], move [.hit, .data2Req, .ackDec] .I, fault]⟩
    | .S => ⟨true, true, [act [.hit], move [.getM] .SM_ad, move [.putS] .SI_a, fault, fault,
        move [.invAck2Req] .I, fault, fault, fault, fault, fault, fault, fault]⟩
    | .SM_ad => ⟨false, true, [act [.hit], stall, stall, stall, stall, move [.invAck2Req] .IM_ad, fault,
        move [.hit] .M, move [.ackNumSet] .SM_a, fault, act [.ackDec], fault, fault]⟩
    | .SM_a => ⟨false, true, [act [.hit], stall, stall, move [.saveReq] .SM_aS, move [.saveReq] .SM_aI,
        fault, fault, fault, fault, fault, act [.ackDec], move [.hit, .ackDec] .M, fault]⟩
    | .SM_aS => ⟨false, true, [stall, stall, stall, fault, fault, move [.invAck2Req] .SM_aSI, fault, fault,
        fault, fault, act [.ackDec], move [.hit, .ackDec, .data2Both] .S, fault]⟩
    | .SM_aSI => ⟨false, true, [stall, stall, stall, fault, fault, fault, fault, fault, fault, fault,
        act [.ackDec], move [.hit, .data2Both, .ackDec] .I, fault]⟩
    | .SM_aI => ⟨false, true, [stall, stall, stall, fault, fault, fault, fault, fault, fault, fault,
        act [.ackDec], move [.hit, .data2Req, .ackDec] .I, fault]⟩
    | .M => ⟨true, true, [act [.hit], act [.hit], move [.putMData] .MI_a, move [.data2Both] .S,
        move [.data2Req] .I, move [.invAckData] .I, fault, fault, fault, fault, fault, fault, fault]⟩
    | .E => ⟨true, true, [act [.hit], move [.hit] .M, move [.putE] .EI_a, move [.data2Both] .S,
        move [.data2Req] .I, move [.invAckData] .I, fault, fault, fault, fault, fault, fault, fault]⟩
    | .MI_a => ⟨false, true, [stall, stall, stall, move [.data2Both] .SI_a, move [.data2Req] .II_a, stay,
        goto .I, fault, fault, fault, fault, fault, fault]⟩
    | .EI_a => ⟨false, true, [stall, stall, stall, move [.data2Both] .SI_a, move [.data2Req] .II_a, stay,
        goto .I, fault, fault, fault, fault, fault, fault]⟩
    | .SI_a => ⟨false, true, [stall, stall, stall, fault, fault, move [.invAck2Req] .II_a, goto .I, fault,
        fault, fault, fault, fault, fault]⟩
    | .II_a => ⟨false, true, [stall, stall, stall, fault, fault, fault, goto .I, fault, fault, fault,
        fault, fault, fault]⟩

/-- The line states of a MOESI private cache under a directory. -/
inductive MOESIDirectoryState
  | I | IS_d | IS_dI | IM_ad | IM_a | S | SM_ad | SM_a | M | E | O | OM_ac | OM_a | OI_a | MI_a | EI_a
  | SI_a | II_a | IS_dInvM
  deriving DecidableEq, Repr

/-- Every state, once. -/
def MOESIDirectoryState.all : List MOESIDirectoryState :=
  [.I, .IS_d, .IS_dI, .IM_ad, .IM_a, .S, .SM_ad, .SM_a, .M, .E, .O, .OM_ac, .OM_a, .OI_a, .MI_a, .EI_a,
    .SI_a, .II_a, .IS_dInvM]

/-- The states are finitely many, so facts about a whole table can be decided. -/
instance : Fintype MOESIDirectoryState := ⟨⟨MOESIDirectoryState.all, by decide⟩, fun s => by cases s <;> decide⟩

/-- The table `MOESI_directory`. -/
def moesiDirectory : Fsm MOESIDirectoryState DirectoryEventId DirectoryActionId where
  eventId := DirectoryEventId.num
  row
    | .I => ⟨true, false, [move [.getS] .IS_d, move [.getM] .IM_ad, stay, fault, fault, fault, fault,
        fault, fault, fault, fault, fault, fault, fault, fault, fault, fault]⟩
    | .IS_d => ⟨false, true, [stall, stall, stall, stall, stall, move [.invAck2Req] .IS_dI, fault,
        move [.hit] .S, fault, move [.hit] .S, fault, fault, move [.hit] .E, fault, fault, fault,
        goto .IS_dInvM]⟩
    | .IS_dI => ⟨false, true, [stall, stall, stall, stall, stall, fault, fault, move [.hit] .I, fault,
        move [.hit] .I, fault, fault, move [.hit, .data2Req] .I, fault, fault, fault, fault]⟩
    | .IM_ad => ⟨false, true, [stall, stall, stall, stall, stall, stall, fault, move [.hit] .M,
        move [.ackNumSet] .IM_a, move [.hit] .M, act [.ackDec], fault, fault, fault, fault,
        move [.ackNumSet] .IM_a, stall]⟩
    | .IM_a => ⟨false, true, [stall, stall, stall, stall, stall, stall, fault, fault, fault, fault,
        act [.ackDec], move [.hit, .ackDec] .M, fault, fault, fault, fault, stall]⟩
    | .S => ⟨true, true, [act [.hit], move [.getM] .SM_ad, move [.putS] .SI_a, fault, fault,
        move [.invAck2Req] .I, fault, fault, fault, fault, fault, fault, fault, fault, fault, fault, fault]⟩
    | .SM_ad => ⟨false, true, [act [.hit], stall, stall, stall, stall, move [.invAck2Req] .IM_ad, fault,
        move [.hit] .M, move [.ackNumSet] .SM_a, move [.hit] .M, act [.ackDec], fault, fault, fault, fault,
        move [.ackNumSet] .SM_a, stall]⟩
    | .SM_a => ⟨false, true, [act [.hit], stall, stall, stall, stall, stall, fault, fault, fault, fault,
        act [.ackDec], move [.hit, .ackDec] .M, fault, fault, fault, fault, stall]⟩
    | .M => ⟨true, true, [act [.hit], act [.hit], move [.putMData] .MI_a, move [.data2Req] .O,
        move [.data2Req] .I, move [.invAckData] .I, fault, fault, fault, fault, fault, fault, fault, fault,
        fault, fault, move [.invAckData] .I]⟩
    | .E => ⟨true, true, [act [.hit], move [.hit] .M, move [.putE] .EI_a, move [.data2Req] .O,
        move [.data2Req] .I, move [.invAckData] .I, fault, fault, fault, fault, fault, fault, fault, fault,
        fault, fault, move [.invAckData] .I]⟩
    | .O => ⟨true, true, [act [.hit], move [.getM] .OM_ac, move [.putOData] .OI_a, act [.data2Req],
        move [.data2Req] .I, move [.invAckData] .I, fault, fault, fault, fault, fault, fault, fault, fault,
        fault, fault, move [.invAckData] .I]⟩
    | .OM_ac => ⟨false, true, [act [.hit], stall, stall, act [.data2Req], move [.data2Req] .IM_ad,
        move [.invAckData] .IM_ad, fault, fault, fault, fault, act [.ackDec], fault, fault,
        move [.setAck] .OM_a, move [.hit, .setAck] .M, fault, move [.invAckData] .IM_ad]⟩
    | .OM_a => ⟨false, true, [act [.hit], stall, stall, stall, stall, stall, fault, fault, fault, fault,
        act [.ackDec], move [.hit, .ackDec] .M, fault, fault, fault, fault, stall]⟩
    | .OI_a => ⟨false, true, [stall, stall, stall, act [.data2Req], move [.data2Req] .II_a, stay, goto .I,
        fault, fault, fault, fault, fault, fault, fault, fault, fault, stay]⟩
    | .MI_a => ⟨false, true, [stall, stall, stall, move [.data2Req] .OI_a, move [.data2Req] .II_a, stay,
        goto .I, fault, fault, fault, fault, fault, fault, fault, fault, fault, stay]⟩
    | .EI_a => ⟨false, true, [stall, stall, stall, move [.data2Req] .SI_a, move [.data2Req] .II_a, stay,
        goto .I, fault, fault, fault, fault, fault, fault, fault, fault, fault, stay]⟩
    | .SI_a => ⟨false, true, [stall, stall, stall, fault, fault, move [.invAck2Req] .II_a, goto .I, fault,
        fault, fault, fault, fault, fault, fault, fault, fault, fault]⟩
    | .II_a => ⟨false, true, [stall, stall, stall, fault, fault, fault, goto .I, fault, fault, fault,
        fault, fault, fault, fault, fault, fault, fault]⟩
    | .IS_dInvM => ⟨false, true, [stall, stall, stall, stall, stall, fault, fault,
        move [.hit, .data2Req] .I, fault, move [.hit, .data2Req] .I, fault, fault,
        move [.hit, .data2Req] .I, fault, fault, fault, fault]⟩

end Octopus
