import Mathlib.Data.Fintype.Basic
import Octopus.Fsm

/-!
# The tables of the snooping private caches

`MSI_splitBus_snooping`, `MESI_splitBus_snooping` and `MOESI_splitBus_snooping`, row by row.
The three share their events and actions; MSI has no column for exclusive data and no action
that drops a parked request.
-/

namespace Octopus

/-- The events of a snooping private cache. -/
inductive EventId
  | load | store | replacement | ownGetS | ownGetM | ownPutM | otherGetS | otherGetM | otherPutM
  | ownData | invalidation | ownDataExeclusive
  deriving DecidableEq, Repr

/-- The actions of a snooping private cache. -/
inductive ActionId
  | stall | hit | getS | getM | putM | data2Req | data2Both | saveReq | fault | removeSavedReq
  deriving DecidableEq, Repr

/-- Every event, once. -/
def EventId.all : List EventId :=
  [.load, .store, .replacement, .ownGetS, .ownGetM, .ownPutM, .otherGetS, .otherGetM, .otherPutM,
    .ownData, .invalidation, .ownDataExeclusive]

/-- The events are finitely many, so facts about a whole table can be decided. -/
instance : Fintype EventId := ⟨⟨EventId.all, by decide⟩, fun s => by cases s <;> decide⟩

/-- The column of an event. -/
def EventId.num : EventId → Nat
  | load => 0
  | store => 1
  | replacement => 2
  | ownGetS => 3
  | ownGetM => 4
  | ownPutM => 5
  | otherGetS => 6
  | otherGetM => 7
  | otherPutM => 8
  | ownData => 9
  | invalidation => 10
  | ownDataExeclusive => 11

open Cell (stay goto act move)

/-- A request that must wait in its queue. -/
def L1Cell.stall {σ : Type} : Cell σ ActionId := act [.stall]

/-- A transition the protocol holds to be unreachable. -/
def L1Cell.fault {σ : Type} : Cell σ ActionId := act [.fault]

open L1Cell (stall fault)

/-- The line states of a snooping MSI private cache. -/
inductive MSIState
  | I | IS_ad | IS_d | IS_a | IS_dI | IM_ad | IM_d | IM_a | IM_dI | IM_dS | IM_dSI | S | SM_ad
  | SM_d | SM_a | SM_dI | SM_dS | SM_dSI | M | MI_a | MII_a | II_a
  deriving DecidableEq, Repr

/-- Every state, once. -/
def MSIState.all : List MSIState :=
  [.I, .IS_ad, .IS_d, .IS_a, .IS_dI, .IM_ad, .IM_d, .IM_a, .IM_dI, .IM_dS, .IM_dSI, .S, .SM_ad,
    .SM_d, .SM_a, .SM_dI, .SM_dS, .SM_dSI, .M, .MI_a, .MII_a, .II_a]

/-- The states are finitely many, so facts about a whole table can be decided. -/
instance : Fintype MSIState := ⟨⟨MSIState.all, by decide⟩, fun s => by cases s <;> decide⟩

/-- The table `MSI_splitBus_snooping`. -/
def msiSplitBusSnooping : Fsm MSIState EventId ActionId where
  eventId := EventId.num
  row
    | .I => ⟨true, false, [move [.getS] .IS_ad, move [.getM] .IM_ad, stay, fault, fault, fault, stay,
        stay, stay, fault, stay]⟩
    | .IS_ad => ⟨false, true, [stall, stall, stall, goto .IS_d, fault, fault, stay, stay, stay,
        goto .IS_a, stay]⟩
    | .IS_d => ⟨false, true, [stall, stall, stall, fault, fault, fault, stay, goto .IS_dI, stay,
        move [.hit] .S, goto .IS_dI]⟩
    | .IS_a => ⟨false, true, [stall, stall, stall, move [.hit] .S, fault, fault, stay, stay, fault,
        fault, goto .IS_ad]⟩
    | .IS_dI => ⟨false, true, [stall, stall, stall, fault, fault, fault, stay, stay, stay,
        move [.hit] .I, stay]⟩
    | .IM_ad => ⟨false, true, [stall, stall, stall, fault, goto .IM_d, fault, stay, stay, stay,
        goto .IM_a, stay]⟩
    | .IM_d => ⟨false, true, [stall, stall, stall, fault, fault, fault, move [.saveReq] .IM_dS,
        move [.saveReq] .IM_dI, stay, move [.hit] .M, move [.saveReq] .IM_dI]⟩
    | .IM_a => ⟨false, true, [stall, stall, stall, fault, move [.hit] .M, fault, stay, stay, stay,
        fault, goto .IM_ad]⟩
    | .IM_dI => ⟨false, true, [stall, stall, stall, fault, fault, fault, stay, stay, stay,
        move [.hit, .data2Req] .I, stay]⟩
    | .IM_dS => ⟨false, true, [stall, stall, stall, fault, fault, fault, stay, goto .IM_dSI, stay,
        move [.hit, .data2Both] .S, goto .IM_dSI]⟩
    | .IM_dSI => ⟨false, true, [stall, stall, stall, fault, fault, fault, stay, stay, stay,
        move [.hit, .data2Both] .I, stay]⟩
    | .S => ⟨true, true, [act [.hit], move [.getM] .SM_ad, goto .I, fault, fault, fault, stay,
        goto .I, stay, fault, goto .I]⟩
    | .SM_ad => ⟨false, true, [act [.hit], stall, stall, fault, goto .SM_d, fault, stay, goto .IM_ad,
        stay, goto .SM_a, goto .IM_ad]⟩
    | .SM_d => ⟨false, true, [act [.hit], stall, stall, fault, fault, fault, move [.saveReq] .SM_dS,
        move [.saveReq] .SM_dI, stay, move [.hit] .M, move [.saveReq] .IM_dI]⟩
    | .SM_a => ⟨false, true, [act [.hit], stall, stall, fault, move [.hit] .M, fault, stay,
        goto .IM_a, fault, fault, goto .IM_a]⟩
    | .SM_dI => ⟨false, true, [act [.hit], stall, stall, fault, fault, fault, stay, stay, stay,
        move [.hit, .data2Req] .I, stay]⟩
    | .SM_dS => ⟨false, true, [act [.hit], stall, stall, fault, fault, fault, stay, goto .SM_dSI,
        stay, move [.hit, .data2Both] .S, goto .SM_dSI]⟩
    | .SM_dSI => ⟨false, true, [act [.hit], stall, stall, fault, fault, fault, stay, stay, stay,
        move [.hit, .data2Both] .I, stay]⟩
    | .M => ⟨true, true, [act [.hit], act [.hit], move [.putM] .MI_a, fault, fault, fault,
        move [.data2Both] .S, move [.data2Req] .I, stay, fault, move [.data2Req] .I]⟩
    | .MI_a => ⟨false, true, [act [.hit], act [.hit], stall, fault, fault, move [.data2Req] .I,
        move [.data2Both] .II_a, move [.data2Req] .II_a, stay, fault, goto .MII_a]⟩
    | .MII_a => ⟨false, true, [act [.hit], act [.hit], stall, fault, fault, move [.data2Req] .I,
        stay, stay, stay, fault, stay]⟩
    | .II_a => ⟨false, true, [stall, stall, stall, fault, fault, goto .I, stay, stay, stay, fault,
        stay]⟩

/-- The line states of a snooping MESI private cache. -/
inductive MESIState
  | I | IS_ad | IS_d | IS_a | IS_dI | IM_ad | IM_d | IM_a | IM_dI | IM_dS | IM_dSI | S | SM_ad
  | SM_d | SM_a | SM_dI | SM_dS | SM_dSI | M | MI_a | II_a | E | IES_d | IES_dI
  deriving DecidableEq, Repr

/-- Every state, once. -/
def MESIState.all : List MESIState :=
  [.I, .IS_ad, .IS_d, .IS_a, .IS_dI, .IM_ad, .IM_d, .IM_a, .IM_dI, .IM_dS, .IM_dSI, .S, .SM_ad,
    .SM_d, .SM_a, .SM_dI, .SM_dS, .SM_dSI, .M, .MI_a, .II_a, .E, .IES_d, .IES_dI]

/-- The states are finitely many, so facts about a whole table can be decided. -/
instance : Fintype MESIState := ⟨⟨MESIState.all, by decide⟩, fun s => by cases s <;> decide⟩

/-- The table `MESI_splitBus_snooping`. -/
def mesiSplitBusSnooping : Fsm MESIState EventId ActionId where
  eventId := EventId.num
  row
    | .I => ⟨true, false, [move [.getS] .IS_ad, move [.getM] .IM_ad, stay, fault, fault, fault, stay,
        stay, stay, fault, stay, fault]⟩
    | .IS_ad => ⟨false, true, [stall, stall, stall, goto .IS_d, fault, fault, stay, stay, stay,
        goto .IS_a, stay, fault]⟩
    | .IS_d => ⟨false, true, [stall, stall, stall, fault, fault, fault, move [.saveReq] .IES_d,
        move [.saveReq] .IS_dI, stay, move [.hit] .S, goto .IS_dI, move [.hit] .E]⟩
    | .IS_a => ⟨false, true, [stall, stall, stall, move [.hit] .S, fault, fault, stay, stay, fault,
        fault, goto .IS_ad, fault]⟩
    | .IS_dI => ⟨false, true, [stall, stall, stall, fault, fault, fault, stay, stay, stay,
        move [.hit, .removeSavedReq] .I, stay, move [.hit, .data2Req] .I]⟩
    | .IM_ad => ⟨false, true, [stall, stall, stall, fault, goto .IM_d, fault, stay, stay, stay,
        goto .IM_a, stay, fault]⟩
    | .IM_d => ⟨false, true, [stall, stall, stall, fault, fault, fault, move [.saveReq] .IM_dS,
        move [.saveReq] .IM_dI, stay, move [.hit] .M, move [.saveReq] .IM_dI, fault]⟩
    | .IM_a => ⟨false, true, [stall, stall, stall, fault, move [.hit] .M, fault, stay, stay, stay,
        fault, goto .IM_ad, fault]⟩
    | .IM_dI => ⟨false, true, [stall, stall, stall, fault, fault, fault, stay, stay, stay,
        move [.hit, .data2Req] .I, stay, fault]⟩
    | .IM_dS => ⟨false, true, [stall, stall, stall, fault, fault, fault, stay, goto .IM_dSI, stay,
        move [.hit, .data2Both] .S, goto .IM_dSI, fault]⟩
    | .IM_dSI => ⟨false, true, [stall, stall, stall, fault, fault, fault, stay, stay, stay,
        move [.hit, .data2Both] .I, stay, fault]⟩
    | .S => ⟨true, true, [act [.hit], move [.getM] .SM_ad, goto .I, fault, fault, fault, stay,
        goto .I, stay, fault, goto .I, fault]⟩
    | .SM_ad => ⟨false, true, [act [.hit], stall, stall, fault, goto .SM_d, fault, stay, goto .IM_ad,
        stay, goto .SM_a, goto .IM_ad, fault]⟩
    | .SM_d => ⟨false, true, [act [.hit], stall, stall, fault, fault, fault, move [.saveReq] .SM_dS,
        move [.saveReq] .SM_dI, stay, move [.hit] .M, move [.saveReq] .IM_dI, fault]⟩
    | .SM_a => ⟨false, true, [act [.hit], stall, stall, fault, move [.hit] .M, fault, stay,
        goto .IM_a, fault, fault, goto .IM_a, fault]⟩
    | .SM_dI => ⟨false, true, [act [.hit], stall, stall, fault, fault, fault, stay, stay, stay,
        move [.hit, .data2Req] .I, stay, fault]⟩
    | .SM_dS => ⟨false, true, [act [.hit], stall, stall, fault, fault, fault, stay, goto .SM_dSI,
        stay, move [.hit, .data2Both] .S, goto .SM_dSI, fault]⟩
    | .SM_dSI => ⟨false, true, [act [.hit], stall, stall, fault, fault, fault, stay, stay, stay,
        move [.hit, .data2Both] .I, stay, fault]⟩
    | .M => ⟨true, true, [act [.hit], act [.hit], move [.putM] .MI_a, fault, fault, fault,
        move [.data2Both] .S, move [.data2Req] .I, stay, fault, move [.data2Req] .I, fault]⟩
    | .MI_a => ⟨false, true, [act [.hit], act [.hit], stall, fault, fault, move [.data2Req] .I,
        move [.data2Both] .II_a, move [.data2Req] .II_a, stay, fault, move [.data2Req] .II_a, fault]⟩
    | .II_a => ⟨false, true, [stall, stall, stall, fault, fault, goto .I, stay, stay, stay, fault,
        stay, fault]⟩
    | .E => ⟨true, true, [act [.hit], move [.hit] .M, move [.putM] .MI_a, fault, fault, fault,
        move [.data2Both] .S, move [.data2Req] .I, stay, fault, move [.data2Req] .I, fault]⟩
    | .IES_d => ⟨false, true, [stall, stall, stall, fault, fault, fault, stay, goto .IES_dI, stay,
        move [.hit, .removeSavedReq] .S, goto .IS_dI, move [.hit, .data2Both] .S]⟩
    | .IES_dI => ⟨false, true, [stall, stall, stall, fault, fault, fault, stay, stay, stay,
        move [.hit, .removeSavedReq] .S, goto .IS_dI, move [.hit, .data2Both] .I]⟩

/-- The line states of a snooping MOESI private cache. -/
inductive MOESIState
  | I | IS_ad | IS_d | IS_a | IS_dI | IM_ad | IM_d | IM_a | IM_dI | IM_dO | S | SM_ad | SM_d
  | SM_a | SM_dI | SM_dO | M | MI_a | II_a | E | O | OM_a | OI_a | EI_a | IES_d | IES_dI | EM_a
  | IM_dOI | SM_dOI
  deriving DecidableEq, Repr

/-- Every state, once. -/
def MOESIState.all : List MOESIState :=
  [.I, .IS_ad, .IS_d, .IS_a, .IS_dI, .IM_ad, .IM_d, .IM_a, .IM_dI, .IM_dO, .S, .SM_ad, .SM_d,
    .SM_a, .SM_dI, .SM_dO, .M, .MI_a, .II_a, .E, .O, .OM_a, .OI_a, .EI_a, .IES_d, .IES_dI, .EM_a,
    .IM_dOI, .SM_dOI]

/-- The states are finitely many, so facts about a whole table can be decided. -/
instance : Fintype MOESIState := ⟨⟨MOESIState.all, by decide⟩, fun s => by cases s <;> decide⟩

/-- The table `MOESI_splitBus_snooping`. -/
def moesiSplitBusSnooping : Fsm MOESIState EventId ActionId where
  eventId := EventId.num
  row
    | .I => ⟨true, false, [move [.getS] .IS_ad, move [.getM] .IM_ad, stay, fault, fault, fault, stay,
        stay, stay, fault, stay, fault]⟩
    | .IS_ad => ⟨false, true, [stall, stall, stall, goto .IS_d, fault, fault, stay, stay, stay,
        goto .IS_a, stay, fault]⟩
    | .IS_d => ⟨false, true, [stall, stall, stall, fault, fault, fault, move [.saveReq] .IES_d,
        move [.saveReq] .IS_dI, stay, move [.hit] .S, goto .IS_dI, move [.hit] .E]⟩
    | .IS_a => ⟨false, true, [stall, stall, stall, move [.hit] .S, fault, fault, stay, stay, fault,
        fault, goto .IS_ad, fault]⟩
    | .IS_dI => ⟨false, true, [stall, stall, stall, fault, fault, fault, stay, stay, stay,
        move [.hit, .removeSavedReq] .I, stay, move [.hit, .data2Req] .I]⟩
    | .IM_ad => ⟨false, true, [stall, stall, stall, fault, goto .IM_d, fault, stay, stay, stay,
        goto .IM_a, stay, fault]⟩
    | .IM_d => ⟨false, true, [stall, stall, stall, fault, fault, fault, move [.saveReq] .IM_dO,
        move [.saveReq] .IM_dI, stay, move [.hit] .M, move [.saveReq] .IM_dI, fault]⟩
    | .IM_a => ⟨false, true, [stall, stall, stall, fault, move [.hit] .M, fault, stay, stay, stay,
        fault, goto .IM_ad, fault]⟩
    | .IM_dI => ⟨false, true, [stall, stall, stall, fault, fault, fault, stay, stay, stay,
        move [.hit, .data2Req] .I, stay, fault]⟩
    | .IM_dO => ⟨false, true, [stall, stall, stall, fault, fault, fault, act [.saveReq],
        move [.saveReq] .IM_dOI, stay, move [.hit, .data2Req] .O, move [.saveReq] .IM_dOI, fault]⟩
    | .S => ⟨true, true, [act [.hit], move [.getM] .SM_ad, goto .I, fault, fault, fault, stay,
        goto .I, stay, fault, goto .I, fault]⟩
    | .SM_ad => ⟨false, true, [act [.hit], stall, stall, fault, goto .SM_d, fault, stay, goto .IM_ad,
        stay, goto .SM_a, goto .IM_ad, fault]⟩
    | .SM_d => ⟨false, true, [act [.hit], stall, stall, fault, fault, fault, move [.saveReq] .SM_dO,
        move [.saveReq] .SM_dI, stay, move [.hit] .M, move [.saveReq] .IM_dI, fault]⟩
    | .SM_a => ⟨false, true, [act [.hit], stall, stall, fault, move [.hit] .M, fault, stay,
        goto .IM_a, fault, fault, goto .IM_a, fault]⟩
    | .SM_dI => ⟨false, true, [act [.hit], stall, stall, fault, fault, fault, stay, stay, stay,
        move [.hit, .data2Req] .I, stay, fault]⟩
    | .SM_dO => ⟨false, true, [act [.hit], stall, stall, fault, fault, fault, act [.saveReq],
        move [.saveReq] .SM_dOI, stay, move [.hit, .data2Req] .O, move [.saveReq] .SM_dOI, fault]⟩
    | .M => ⟨true, true, [act [.hit], act [.hit], move [.putM] .MI_a, fault, fault, fault,
        move [.data2Req] .O, move [.data2Req] .I, stay, fault, move [.data2Req] .I, fault]⟩
    | .MI_a => ⟨false, true, [act [.hit], act [.hit], stall, fault, fault, move [.data2Req] .I,
        move [.data2Req] .OI_a, move [.data2Req] .II_a, stay, fault, move [.data2Req] .II_a, fault]⟩
    | .II_a => ⟨false, true, [stall, stall, stall, fault, fault, goto .I, stay, stay, stay, fault,
        stay, fault]⟩
    | .E => ⟨true, true, [act [.hit], move [.getM] .EM_a, move [.putM] .EI_a, fault, fault, fault,
        move [.data2Req] .S, move [.data2Req] .I, stay, fault, goto .I, fault]⟩
    | .O => ⟨true, true, [act [.hit], move [.getM] .OM_a, move [.putM] .OI_a, fault, fault, fault,
        act [.data2Req], move [.data2Req] .I, stay, fault, move [.data2Req] .I, fault]⟩
    | .OM_a => ⟨false, true, [act [.hit], stall, stall, fault, move [.hit] .M, fault,
        act [.data2Req], move [.data2Req] .IM_ad, stay, fault, move [.data2Req] .IM_ad, fault]⟩
    | .OI_a => ⟨false, true, [act [.hit], stall, stall, fault, fault, move [.data2Req] .I,
        act [.data2Req], move [.data2Req] .II_a, stay, fault, move [.data2Req] .II_a, fault]⟩
    | .EI_a => ⟨false, true, [act [.hit], stall, stall, fault, fault, goto .I, act [.data2Req],
        move [.data2Req] .II_a, stay, fault, goto .II_a, fault]⟩
    | .IES_d => ⟨false, true, [stall, stall, stall, fault, fault, fault, stay, goto .IES_dI, stay,
        move [.hit, .removeSavedReq] .S, goto .IS_dI, move [.hit, .data2Req] .S]⟩
    | .IES_dI => ⟨false, true, [stall, stall, stall, fault, fault, fault, stay, stay, stay,
        move [.hit, .removeSavedReq] .S, goto .IS_dI, move [.hit, .data2Req] .I]⟩
    | .EM_a => ⟨false, true, [stall, stall, stall, fault, move [.hit] .M, fault,
        move [.data2Req] .SM_ad, move [.data2Req] .IM_ad, stall, fault, goto .IM_ad, fault]⟩
    | .IM_dOI => ⟨false, true, [stall, stall, stall, fault, fault, fault, stay, stay, stay,
        move [.hit, .data2Req] .I, stay, fault]⟩
    | .SM_dOI => ⟨false, true, [act [.hit], stall, stall, fault, fault, fault, stay, stay, stay,
        move [.hit, .data2Req] .I, stay, fault]⟩

end Octopus
