import Octopus.Snoop.Phases

/-!
# What a table does in each phase

The laws of a token protocol, event by event: the phase after a cell and the actions of the
cell. They are stated for a pair of tables, a classification of their states and the request
that a state of a private cache has on the bus; each is decided by going through the states.
-/

namespace Octopus.Snoop

/-- A classification of the states of two tables. -/
structure Phases (σ τ : Type) where
  core : σ → Phase
  /-- The type of the request that waits for the bus. -/
  pending : σ → Option Nat
  home : τ → HomePhase
  /-- Whether the last-level cache may grant the token to a reader. -/
  grantsExclusive : Bool

/-- The view of a line that no private cache has. -/
def Phases.base {σ τ : Type} (ph : Phases σ τ) : View := .resident ph.grantsExclusive

/-- Another cache reads. -/
def otherGetSLaw : Phase → Phase → List ActionId → Bool
  | .reading .keep, p, a => p = .reading .downgrade ∧ a = [.saveReq]
  | .filling r .keep, p, a => p = .filling r .downgrade ∧ a = [.saveReq]
  | .holding, p, a => (p = .shared ∨ p = .idle) ∧ a = [.data2Both]
  | .unreachable, _, _ => true
  | q, p, a => p = q ∧ a = []

/-- Another cache writes. -/
def otherGetMLaw : Phase → Phase → List ActionId → Bool
  | .shared, p, a => p = .idle ∧ a = []
  | .reader _, p, a => p = .reader false ∧ a = []
  | .reading .keep, p, a => p = .reading .pass ∧ a = [.saveReq]
  | .reading .downgrade, p, a => p = .reading .passShared ∧ a = []
  | .filling r .keep, p, a => p = .filling r .pass ∧ a = [.saveReq]
  | .filling r .downgrade, p, a => p = .filling r .passShared ∧ a = []
  | .holding, p, a => p = .idle ∧ a = [.data2Req]
  | .unreachable, _, _ => true
  | q, p, a => p = q ∧ a = []

/-- The last-level cache takes the line back. -/
def invalidationLaw : Phase → Phase → List ActionId → Bool
  | .shared, p, a => p = .idle ∧ a = []
  | .reader _, p, a => p = .reader false ∧ a = []
  | .reading _, p, a => p = .reading .pass ∧ a = []
  | .filling r .keep, p, a => (p = .filling r .pass ∨ p = .filling false .pass) ∧ a = [.saveReq]
  | .filling r .downgrade, p, a => p = .filling r .passShared ∧ a = []
  | .holding, p, a => p = .idle ∧ a = [.data2Req] ∨ p = .recalled ∧ a = []
  | .unreachable, _, _ => true
  | q, p, a => p = q ∧ a = []

/-- A cache's own write-back is granted. -/
def ownPutMLaw : Phase → Phase → List ActionId → Bool
  | .idle, p, a => p = .idle ∧ a = []
  | .holding, p, a => p = .idle ∧ a = [.data2Req]
  | .recalled, p, a => p = .idle ∧ a = [.data2Req]
  | _, _, _ => false

/-- A cache gets the token: its phase then, and the actions of the cell. -/
def Plan.arrived : Plan → Phase × List ActionId
  | .keep => (.holding, [.hit])
  | .downgrade => (.shared, [.hit, .data2Both])
  | .passShared => (.idle, [.hit, .data2Both])
  | .pass => (.idle, [.hit, .data2Req])

/-- Data arrives that does not grant the token to a reader. -/
def plainDataLaw : Phase → Phase → List ActionId → Bool
  | .reader current, p, a => p = (if current then .shared else .idle) ∧ a = [.hit]
  | .reading .keep, p, a => p = .shared ∧ a = [.hit]
  | .reading .downgrade, p, a => p = .shared ∧ a = [.hit, .removeSavedReq]
  | .reading .pass, p, a => p = .idle ∧ a = [.hit, .removeSavedReq]
  | .filling _ plan, p, a => (p, a) = plan.arrived
  -- a reader whose copy is stale on arrival: nothing is asked of the row
  | .reading .passShared, _, _ => true
  | _, _, _ => true

/-- Data arrives that grants the token to a reader. -/
def exclusiveDataLaw : Phase → Phase → List ActionId → Bool
  | .reading plan, p, a => (p, a) = plan.arrived
  | _, _, _ => true

/-- The request type a cell puts on the bus. -/
def sentType : List ActionId → Option Nat
  | [.getS] => some requestTypeGetS
  | [.getM] => some requestTypeGetM
  | [.putM] => some requestTypePutM
  | _ => none

/-- A processor request or a replacement that does not stall. -/
def requestLaw (pending pending' : Option Nat) : Phase → Phase → List ActionId → Bool
  | .unreachable, _, _ => true
  | q, p, a =>
    (p = q ∨ q = .shared ∧ p = .idle) ∧
      ((a = [] ∨ a = [.hit]) ∧ pending' = pending ∨
        (a = [.getS] ∨ a = [.getM] ∨ a = [.putM]) ∧ pending = none ∧ pending' = sentType a)

/-- A read reaches the last-level cache. -/
def homeGetSLaw : HomePhase → HomePhase → List LLCActionId → Bool
  | .resident true false, p, a => p = .fetchOwned true ∧ a = [.getData, .setOwner]
  | .resident true true, p, a => p = .owned ∧ a = [.sendExeclusiveData, .setOwner]
  | .resident false false, p, a => p = .fetchShared ∧ a = [.getData]
  | .resident false true, p, a => p = .resident false true ∧ a = [.sendData]
  | .owned, p, a => p = .awaiting false false ∧ a = [.clearOwner]
  | .unreachable, _, _ => true
  | _, _, a => a = [.stall]

/-- A write reaches the last-level cache. -/
def homeGetMLaw : HomePhase → HomePhase → List LLCActionId → Bool
  | .resident _ false, p, a => p = .fetchOwned false ∧ a = [.getData, .setOwner]
  | .resident _ true, p, a => p = .owned ∧ a = [.sendData, .setOwner]
  | .owned, p, a => p = .owned ∧ a = [.setOwner]
  | .unreachable, _, _ => true
  | _, _, a => a = [.stall]

/-- The last-level cache is to evict the line. -/
def homeReplacementLaw : HomePhase → HomePhase → List LLCActionId → Bool
  | .resident _ false, _, _ => true
  | .resident isFree true, p, a => p = .resident isFree true ∧ a = [.issueInv]
  | .owned, p, a => p = .owned ∧ a = [.issueInv]
  | .unreachable, _, _ => true
  | _, _, a => a = [.stall]

/-- The last-level cache's own invalidation comes back. -/
def homeInvalidationLaw (isFree : Bool) : HomePhase → HomePhase → List LLCActionId → Bool
  | .resident _ true, p, a => p = .resident isFree false ∧ a = [.writeBack]
  | .owned, p, a => p = .awaiting isFree true ∧ a = [.clearOwner]
  | .awaiting _ false, p, a => p = .awaiting isFree true ∧ a = []
  | _, _, _ => true

/-- The token comes home. -/
def homeDataLaw : HomePhase → HomePhase → List LLCActionId → Bool
  | .awaiting isFree dropped, p, a => p = .resident isFree !dropped ∧ (a = [.saveData] ∨ a = [.writeBack])
  | _, _, _ => true

/-- Main memory answers. -/
def homeFillLaw : HomePhase → HomePhase → List LLCActionId → Bool
  | .fetchShared, p, a => p = .resident false true ∧ a = [.sendData]
  | .fetchOwned exclusive, p, a => p = .owned ∧ a = [if exclusive then .sendExeclusiveData else .sendData]
  | _, _, _ => true

/-- Whether a line in this phase is valid. -/
def HomePhase.isValid : HomePhase → Bool
  | .resident _ valid => valid
  | _ => true

/-- A phase in which the last-level cache waits for main memory. -/
def HomePhase.isFetching : HomePhase → Bool
  | .fetchShared | .fetchOwned _ => true
  | _ => false

/-- A phase in which a private cache waits for data. -/
def Phase.isWaiting : Phase → Bool
  | .reader _ | .reading _ | .filling _ _ => true
  | _ => false

/-- The laws of a token protocol. -/
structure TokenLaws {σ τ : Type} (T : Tables σ τ) (ph : Phases σ τ) : Prop where
  core_initial : ph.core T.l1Initial = .idle ∧ ph.pending T.l1Initial = none
  otherGetS : ∀ s, otherGetSLaw (ph.core s) (ph.core (T.l1.getNextState s .otherGetS))
    (T.l1.getActions s .otherGetS)
  otherGetM : ∀ s, otherGetMLaw (ph.core s) (ph.core (T.l1.getNextState s .otherGetM))
    (T.l1.getActions s .otherGetM)
  invalidation : ∀ s, invalidationLaw (ph.core s) (ph.core (T.l1.getNextState s .invalidation))
    (T.l1.getActions s .invalidation)
  otherPutM : ∀ s, ph.core s ≠ .unreachable →
    T.l1.getNextState s .otherPutM = s ∧ T.l1.getActions s .otherPutM = []
  ownGetS : ∀ s, ph.pending s = some requestTypeGetS → ph.core s = .idle ∧
    ph.core (T.l1.getNextState s .ownGetS) =
      (if ph.grantsExclusive then .reading .keep else .reader true) ∧
    ph.pending (T.l1.getNextState s .ownGetS) = none ∧ T.l1.getActions s .ownGetS = []
  ownGetM : ∀ s, ph.pending s = some requestTypeGetM → (ph.core s = .idle ∨ ph.core s = .shared) ∧
    ph.core (T.l1.getNextState s .ownGetM) = .filling (ph.core s = .shared) .keep ∧
    ph.pending (T.l1.getNextState s .ownGetM) = none ∧ T.l1.getActions s .ownGetM = []
  ownPutM : ∀ s, ph.pending s = some requestTypePutM →
    ownPutMLaw (ph.core s) (ph.core (T.l1.getNextState s .ownPutM)) (T.l1.getActions s .ownPutM) ∧
    ph.pending (T.l1.getNextState s .ownPutM) = none
  plainData : ∀ s, plainDataLaw (ph.core s) (ph.core (T.l1.getNextState s (T.dataEvent false).1))
    (T.l1.getActions s (T.dataEvent false).1)
  exclusiveData : ∀ s, exclusiveDataLaw (ph.core s)
    (ph.core (T.l1.getNextState s (T.dataEvent true).1)) (T.l1.getActions s (T.dataEvent true).1)
  plain_mark : (T.dataEvent false).2 = false
  exclusive_mark : ph.grantsExclusive → (T.dataEvent true).2 = false
  reading_exclusive : ∀ s plan, ph.core s = .reading plan → ph.grantsExclusive
  pending_type : ∀ s, ph.pending s ∈
    [none, some requestTypeGetS, some requestTypeGetM, some requestTypePutM]
  /-- A foreign request leaves the own request on the bus. -/
  pending_kept : ∀ s e, e ∈ [EventId.otherGetS, .otherGetM, .invalidation] → ph.core s ≠ .unreachable →
    ph.pending (T.l1.getNextState s e) = ph.pending s
  /-- A cache that waits for data has no request on the bus, before and after. -/
  pending_data : ∀ s x, (ph.core s).isWaiting →
    ph.pending s = none ∧ ph.pending (T.l1.getNextState s (T.dataEvent x).1) = none
  request : ∀ s e, e ∈ requestEvents → T.l1.getActions s e ≠ [.stall] →
    requestLaw (ph.pending s) (ph.pending (T.l1.getNextState s e)) (ph.core s)
      (ph.core (T.l1.getNextState s e)) (T.l1.getActions s e)
  request_stall : ∀ s e, ActionId.stall ∈ T.l1.getActions s e → T.l1.getActions s e = [.stall]
  home_initial : ph.home T.llcInitial = .resident ph.grantsExclusive false
  homeGetS : ∀ s, homeGetSLaw (ph.home s) (ph.home (T.llc.getNextState s .getS)) (T.llc.getActions s .getS)
  homeGetM : ∀ s, homeGetMLaw (ph.home s) (ph.home (T.llc.getNextState s .getM)) (T.llc.getActions s .getM)
  homeReplacement : ∀ s, homeReplacementLaw (ph.home s) (ph.home (T.llc.getNextState s .replacement))
    (T.llc.getActions s .replacement)
  homeInvalidation : ∀ s, homeInvalidationLaw ph.grantsExclusive (ph.home s)
    (ph.home (T.llc.getNextState s .ownInvalidation)) (T.llc.getActions s .ownInvalidation)
  homePutMFromOwner : ∀ s, ph.home s = .owned →
    ph.home (T.llc.getNextState s .putMFromOwner) = .awaiting ph.grantsExclusive false ∧
      T.llc.getActions s .putMFromOwner = [.clearOwner]
  homePutMFromNonOwner : ∀ s, (ph.home s).isFetching = false → ph.home s ≠ .unreachable →
    T.llc.getNextState s .putMFromNonOwner = s ∧ T.llc.getActions s .putMFromNonOwner = []
  homePutMFromNonOwner_fetching : ∀ s, (ph.home s).isFetching →
    T.llc.getActions s .putMFromNonOwner = [.fault]
  homeData : ∀ s, homeDataLaw (ph.home s) (ph.home (T.llc.getNextState s .dataFromLowerInterface))
    (T.llc.getActions s .dataFromLowerInterface)
  homeFill : ∀ s, homeFillLaw (ph.home s) (ph.home (T.llc.getNextState s .dataFromUpperInterface))
    (T.llc.getActions s .dataFromUpperInterface)
  home_valid : ∀ s, ph.home s ≠ .unreachable → T.llc.isValidState s = (ph.home s).isValid

/-- The classification of the MSI tables. -/
def msiPhases : Phases MSIState LLCMSIState where
  core
    | .I | .IS_ad | .IM_ad | .II_a => .idle
    | .S | .SM_ad => .shared
    | .IS_d => .reader true
    | .IS_dI => .reader false
    | .IM_d => .filling false .keep
    | .IM_dS => .filling false .downgrade
    | .IM_dSI => .filling false .passShared
    | .IM_dI => .filling false .pass
    | .SM_d => .filling true .keep
    | .SM_dS => .filling true .downgrade
    | .SM_dSI => .filling true .passShared
    | .SM_dI => .filling true .pass
    | .M | .MI_a => .holding
    | .MII_a => .recalled
    | .IS_a | .IM_a | .SM_a => .unreachable
  pending
    | .IS_ad => some requestTypeGetS
    | .IM_ad | .SM_ad => some requestTypeGetM
    | .MI_a | .MII_a | .II_a => some requestTypePutM
    | _ => none
  home
    | .N => .resident false false
    | .NIorS_d => .fetchShared
    | .NM_d => .fetchOwned false
    | .IorS => .resident false true
    | .M => .owned
    | .IorS_d => .awaiting false false
    | .N_d => .awaiting false true
    | .IorS_a | .N_a => .unreachable
  grantsExclusive := false

/-- The classification of the MESI tables. -/
def mesiPhases : Phases MESIState LLCMESIState where
  core
    | .I | .IS_ad | .IM_ad | .II_a => .idle
    | .S | .SM_ad => .shared
    | .IS_d => .reading .keep
    | .IES_d => .reading .downgrade
    | .IES_dI => .reading .passShared
    | .IS_dI => .reading .pass
    | .IM_d => .filling false .keep
    | .IM_dS => .filling false .downgrade
    | .IM_dSI => .filling false .passShared
    | .IM_dI => .filling false .pass
    | .SM_d => .filling true .keep
    | .SM_dS => .filling true .downgrade
    | .SM_dSI => .filling true .passShared
    | .SM_dI => .filling true .pass
    | .M | .E | .MI_a => .holding
    | .IS_a | .IM_a | .SM_a => .unreachable
  pending
    | .IS_ad => some requestTypeGetS
    | .IM_ad | .SM_ad => some requestTypeGetM
    | .MI_a | .II_a => some requestTypePutM
    | _ => none
  home
    | .N => .resident true false
    | .NE_d => .fetchOwned true
    | .NM_d => .fetchOwned false
    | .I => .resident true true
    | .S => .resident false true
    | .EorM => .owned
    | .S_d => .awaiting false false
    | .I_d => .awaiting true false
    | .MN_d => .awaiting true true
    | .IorS_a | .N_a => .unreachable
  grantsExclusive := true

end Octopus.Snoop
