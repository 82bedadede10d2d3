import Mathlib.Data.List.Infix
import Mathlib.Data.List.Lex
import Octopus.Lib.Pairing
import Octopus.Trace.Reader

/-!
# Occupancy from a trace

A trace is turned into the intervals in which buses, queues and the memory are busy, piece by piece. An
interval whose end stands in a later piece waits for it, so where the pieces are cut does not show.
-/

namespace Octopus.Trace

open Lib Logger

/-- The numbers of the kinds of messages that the converter asks for. -/
def memReadKind : UInt8 := 6

/-- The number of a fill. -/
def fillKind : UInt8 := 13

/-- The number of a write to memory. -/
def memWriteKind : UInt8 := 15

/-- A row of the occupancy table. -/
structure Row where
  resource : Role
  comp : Nat
  start : Int64
  stop : Int64
  kind : UInt8
  core : UInt8
  msg_id : Int64
  flags : UInt16
  cutin : Bool
  addr : Int64
  reg : UInt16
  deriving DecidableEq

/-- A row of the table of transitions. -/
structure FsmRow where
  cycle : Int64
  comp : Nat
  addr : Int64
  line : Int64
  msg_id : Int64
  kind : UInt8
  core : UInt8
  event : String
  old : String
  new : String
  deriving DecidableEq

/-- The names of a controller's states and events. -/
structure Names where
  states : List String
  events : List String

/-- What a `Streamer` is made with. -/
structure Config where
  names : Nat → Names
  a_req : Int64 := 2
  a_res : Int64 := 5
  a_llc : Int64 := 10
  a_l1 : Int64 := 0
  a_svc : Int64 := 1
  logger_base : Bool := true

/-- The settings for a run without names. -/
def plain : Config where
  names _ := ⟨[], []⟩

/-- Whether a record is of a resource and a phase. -/
def isAt (role : Role) (phase : Logger.Phase) (r : TraceRec) : Bool := r.resource == role.num && r.phase == phase.num

/-- `Streamer.GROUPS`. -/
inductive Group
  | reqBus
  | respBus
  | dram
  | llcQueue
  deriving DecidableEq, Repr

/-- The groups in the order in which they are fed. -/
def Group.all : List Group := [.reqBus, .respBus, .dram, .llcQueue]

/-- The resource of a group's rows. -/
def Group.role : Group → Role
  | .reqBus => .reqBus
  | .respBus => .respBus
  | .dram => .dram
  | .llcQueue => .llcQueue

/-- The records that start an interval. -/
def Group.starts : Group → TraceRec → Bool
  | .reqBus => isAt .reqBus .enter
  | .respBus => isAt .respBus .enter
  | .dram => fun r => isAt .dram .enter r && r.kind == memReadKind
  | .llcQueue => isAt .llcQueue .enter

/-- The records that end an interval. -/
def Group.ends : Group → TraceRec → Bool
  | .reqBus => isAt .reqBus .exit
  | .respBus => isAt .respBus .exit
  | .dram => isAt .dram .exit
  | .llcQueue => fun r => isAt .l1 .enter r || isAt .llc .enter r

/-- The columns that a start and its end have in common. -/
def Group.key : Group → TraceRec → List Int
  | .reqBus, r => [r.msg_id.toInt64.toInt, r.kind.toNat]
  | .respBus, r => [r.msg_id.toInt64.toInt, r.kind.toNat]
  | .dram, r => [r.msg_id.toInt64.toInt]
  | .llcQueue, r => [r.comp.toNat, r.msg_id.toInt64.toInt, r.kind.toNat]

/-- Records of two phases of a resource differ. -/
theorem isAt_phase (role : Role) (phase phase' : Logger.Phase) (hne : phase.num ≠ phase'.num) (r : TraceRec)
    (h : isAt role phase r = true) : isAt role phase' r = false := by
  simp only [isAt, Bool.and_eq_true, beq_iff_eq] at h
  simp [isAt, h.2, hne]

/-- Records of two resources differ. -/
theorem isAt_role (role role' : Role) (phase phase' : Logger.Phase) (hne : role.num ≠ role'.num) (r : TraceRec)
    (h : isAt role phase r = true) : isAt role' phase' r = false := by
  simp only [isAt, Bool.and_eq_true, beq_iff_eq] at h
  simp [isAt, h.1, hne]

/-- No record of a group both starts and ends. -/
theorem Group.exclusive (g : Group) (r : TraceRec) (h : g.starts r = true) : g.ends r = false := by
  cases g with
  | reqBus => exact isAt_phase .reqBus .enter .exit (by decide) r h
  | respBus => exact isAt_phase .respBus .enter .exit (by decide) r h
  | dram =>
    simp only [Group.starts, Bool.and_eq_true] at h
    exact isAt_phase .dram .enter .exit (by decide) r h.1
  | llcQueue =>
    have hl1 := isAt_role .llcQueue .l1 .enter .enter (by decide) r h
    have hllc := isAt_role .llcQueue .llc .enter .enter (by decide) r h
    simp [Group.ends, hl1, hllc]

/-- How a group's starts and ends belong together. -/
def Group.matching (g : Group) : Matching TraceRec (List Int) where
  isStart := g.starts
  isEnd := g.ends
  key := g.key
  exclusive := g.exclusive

variable (cfg : Config)

/-- `_emit`: the row of an interval; the rows of the buses are shifted to the clock of the report. -/
def emit (role : Role) (r : TraceRec) (start stop : Int64) (comp : Nat) : Row :=
  let shift : Int64 :=
    if cfg.logger_base ∧ (role = .reqBus ∨ role = .respBus ∨ role = .svcBus ∨ role = .memBus) then -1 else 0
  { resource := role, comp := comp, start := start + shift, stop := stop + shift, kind := r.kind, core := r.core,
    msg_id := r.msg_id.toInt64, flags := r.flags &&& 0xff, cutin := (r.flags >>> 8) &&& 1 == 1,
    addr := r.addr.toInt64, reg := (r.flags >>> 9) &&& 3 }

/-- The row of a start and its end. -/
def pairRow (g : Group) (p : TraceRec × TraceRec) : Row :=
  emit cfg g.role p.1 p.1.cycle.toInt64 p.2.cycle.toInt64 p.1.comp.toNat

/-- The rows of the service channel, of which only the end is recorded. -/
def svcRows (a : List TraceRec) : List Row :=
  (a.filter (isAt .svcBus .exit)).map fun r =>
    emit cfg .svcBus r (r.cycle.toInt64 - cfg.a_svc) r.cycle.toInt64 r.comp.toNat

/-- The rows of the memory bus; its component is the direction. -/
def memRows (a : List TraceRec) : List Row :=
  (a.filter (isAt .memBus .exit)).map fun r =>
    let is_fill := r.kind == fillKind
    emit cfg .memBus r (r.cycle.toInt64 - if is_fill then cfg.a_res else cfg.a_req) r.cycle.toInt64
      (if is_fill then 1 else 0)

/-- The rows of the array port; a merge into a pending write back takes no time. -/
def arrayRows (a : List TraceRec) : List Row :=
  (a.filter (isAt .array .service)).map fun r =>
    let pwb_merge := r.flags &&& 0x400 != 0 && r.flags &&& 0xff == 6
    emit cfg .array r r.cycle.toInt64
      (r.cycle.toInt64 + if pwb_merge then 0 else if r.comp = 10 then cfg.a_llc else cfg.a_l1) r.comp.toNat

/-- The rows of writes to memory. -/
def writeRows (a : List TraceRec) : List Row :=
  (a.filter fun r => isAt .dram .enter r && r.kind == memWriteKind).map fun r =>
    emit cfg .dram r r.cycle.toInt64 (r.cycle.toInt64 + 1) r.comp.toNat

/-- The rows that need no second record. -/
def directRows (a : List TraceRec) : List Row := svcRows cfg a ++ memRows cfg a ++ arrayRows cfg a ++ writeRows cfg a

/-- A name, or the number where there is none. -/
def resolve (table : List String) (i : Nat) : String := (table[i]?).getD (toString i)

/-- `_fsm`: the rows of transitions. -/
def fsmRows (a : List TraceRec) : List FsmRow :=
  (a.filter fun r => r.resource == Role.fsm.num).map fun r =>
    let names := cfg.names r.comp.toNat
    { cycle := r.cycle.toInt64, comp := r.comp.toNat, addr := r.addr.toInt64,
      line := (r.addr &&& ~~~63).toInt64, msg_id := r.msg_id.toInt64, kind := r.kind, core := r.core,
      event := resolve names.events r.phase.toNat, old := resolve names.states (r.flags >>> (8 : UInt16)).toNat,
      new := resolve names.states (r.flags &&& 0xff).toNat }

/-- What a `Streamer` has made, and what it carries to the next piece. -/
structure Streamer where
  carry : Group → List TraceRec := fun _ => []
  orphans : Group → Nat := fun _ => 0
  occ : List Row := []
  fsm : List FsmRow := []

/-- A group's part of a piece; without records of it, and without carried ones, nothing is done. -/
def Streamer.feedGroup (a : List TraceRec) (s : Streamer) (g : Group) : Streamer :=
  let m := a.filter fun r => g.starts r || g.ends r
  if m = [] ∧ s.carry g = [] then s
  else
    let batch := s.carry g ++ m
    { s with
      carry := Function.update s.carry g (g.matching.unmatched batch)
      orphans := Function.update s.orphans g (s.orphans g + g.matching.orphans batch)
      occ := s.occ ++ (g.matching.pairs batch).map (pairRow cfg g) }

/-- `Streamer.feed`. -/
def Streamer.feed (s : Streamer) (a : List TraceRec) : Streamer :=
  let s' := Group.all.foldl (Streamer.feedGroup cfg a) s
  { s' with
    occ := s'.occ ++ directRows cfg a
    fsm := s'.fsm ++ fsmRows cfg a }

/-- `stream`: a trace fed piece by piece. -/
def streamed (pieces : List (List TraceRec)) : Streamer := pieces.foldl (Streamer.feed cfg) {}

section Pieces

/-- Feeding a group leaves the others alone, and appends its rows. -/
theorem Streamer.feedGroup_eq (s : Streamer) (a : List TraceRec) (g : Group) (t : Matching.Stream TraceRec)
    (hcarry : s.carry g = t.carry) (horphans : s.orphans g = t.orphans) :
    (s.feedGroup cfg a g).carry = Function.update s.carry g (g.matching.feed t a).carry ∧
      (s.feedGroup cfg a g).orphans = Function.update s.orphans g (g.matching.feed t a).orphans ∧
      (s.feedGroup cfg a g).occ = s.occ ++ (g.matching.pairs (g.matching.batch t a)).map (pairRow cfg g) ∧
      (s.feedGroup cfg a g).fsm = s.fsm := by
  have hbatch : s.carry g ++ (a.filter fun r => g.starts r || g.ends r) = g.matching.batch t a := by
    rw [hcarry]
    rfl
  by_cases hnone : (a.filter fun r => g.starts r || g.ends r) = [] ∧ s.carry g = []
  · have hempty : g.matching.batch t a = [] := by
      rw [← hbatch, hnone.1, hnone.2, List.append_nil]
    have hcarry' : (g.matching.feed t a).carry = s.carry g := by
      rw [Matching.feed, hempty, hnone.2]
      rfl
    have horphans' : (g.matching.feed t a).orphans = s.orphans g := by
      simp [Matching.feed, hempty, horphans]
    have hpairs : (g.matching.pairs (g.matching.batch t a)).map (pairRow cfg g) = [] := by
      simp [hempty]
    rw [Streamer.feedGroup, if_pos hnone, hcarry', horphans', hpairs, List.append_nil, Function.update_eq_self,
      Function.update_eq_self]
    exact ⟨rfl, rfl, rfl, rfl⟩
  · rw [Streamer.feedGroup, if_neg hnone, hbatch, horphans]
    exact ⟨rfl, rfl, rfl, rfl⟩

/-- A piece that is fed group by group: each group's stream gets it, and the rows come in the groups' order. -/
theorem Streamer.foldl_feedGroup (a : List TraceRec) (t : Group → Matching.Stream TraceRec) (groups : List Group)
    (hnodup : groups.Nodup) (s : Streamer) (hcarry : ∀ g ∈ groups, s.carry g = (t g).carry)
    (horphans : ∀ g ∈ groups, s.orphans g = (t g).orphans) :
    (∀ g, (groups.foldl (Streamer.feedGroup cfg a) s).carry g =
        if g ∈ groups then (g.matching.feed (t g) a).carry else s.carry g) ∧
      (∀ g, (groups.foldl (Streamer.feedGroup cfg a) s).orphans g =
        if g ∈ groups then (g.matching.feed (t g) a).orphans else s.orphans g) ∧
      (groups.foldl (Streamer.feedGroup cfg a) s).occ =
        s.occ ++ (groups.flatMap fun g => (g.matching.pairs (g.matching.batch (t g) a)).map (pairRow cfg g)) ∧
      (groups.foldl (Streamer.feedGroup cfg a) s).fsm = s.fsm := by
  induction groups generalizing s with
  | nil => simp
  | cons g groups ih =>
    rw [List.nodup_cons] at hnodup
    have hstep := s.feedGroup_eq cfg a g (t g) (hcarry g List.mem_cons_self) (horphans g List.mem_cons_self)
    have hother (g' : Group) (hg' : g' ∈ groups) : g' ≠ g := by
      intro heq
      exact hnodup.1 (heq ▸ hg')
    have htail := ih hnodup.2 (s.feedGroup cfg a g)
      (fun g' hg' => by
        rw [hstep.1, Function.update_of_ne (hother g' hg')]
        exact hcarry g' (List.mem_cons_of_mem _ hg'))
      (fun g' hg' => by
        rw [hstep.2.1, Function.update_of_ne (hother g' hg')]
        exact horphans g' (List.mem_cons_of_mem _ hg'))
    refine ⟨?_, ?_, ?_, ?_⟩
    · intro g'
      rw [List.foldl_cons, htail.1, hstep.1]
      by_cases heq : g' = g
      · subst heq
        simp [hnodup.1]
      · simp [heq]
    · intro g'
      rw [List.foldl_cons, htail.2.1, hstep.2.1]
      by_cases heq : g' = g
      · subst heq
        simp [hnodup.1]
      · simp [heq]
    · rw [List.foldl_cons, htail.2.2.1, hstep.2.2.1, List.flatMap_cons, List.append_assoc]
    · rw [List.foldl_cons, htail.2.2.2, hstep.2.2.2]

/-- All groups are fed. -/
theorem Group.mem_all (g : Group) : g ∈ Group.all := by
  cases g <;> decide

/-- The rows of all groups' streams. -/
def pairRows (pieces : List (List TraceRec)) : List Row :=
  Group.all.flatMap fun g => (g.matching.stream pieces).matched.map (pairRow cfg g)

/-- Some groups' rows, of what was matched before and what the next piece adds. -/
theorem flatMap_append_perm (groups : List Group) (f f' : Group → List Row) :
    (groups.flatMap fun g => f g ++ f' g).Perm (groups.flatMap f ++ groups.flatMap f') := by
  rw [List.perm_iff_count]
  intro row
  induction groups with
  | nil => rfl
  | cons g groups ih =>
    simp only [List.flatMap_cons, List.count_append] at ih ⊢
    omega

/-- The rows that need no second record, of two lists. -/
theorem directRows_append (a b : List TraceRec) :
    (directRows cfg (a ++ b)).Perm (directRows cfg a ++ directRows cfg b) := by
  rw [List.perm_iff_count]
  intro row
  simp only [directRows, svcRows, memRows, arrayRows, writeRows, List.filter_append, List.map_append,
    List.count_append]
  omega

/-- A streamer after some pieces, in terms of its groups' streams. -/
structure Follows (s : Streamer) (pieces : List (List TraceRec)) : Prop where
  carry : ∀ g, s.carry g = (g.matching.stream pieces).carry
  orphans : ∀ g, s.orphans g = (g.matching.stream pieces).orphans
  occ : s.occ.Perm (pairRows cfg pieces ++ directRows cfg pieces.flatten)
  fsm : s.fsm = fsmRows cfg pieces.flatten

/-- A streamer runs a stream for each group beside the rows that need no second record. -/
theorem follows_streamed (pieces : List (List TraceRec)) : Follows cfg (streamed cfg pieces) pieces := by
  induction pieces using List.reverseRecOn with
  | nil =>
    constructor
    case carry => exact fun _ => rfl
    case orphans => exact fun _ => rfl
    case occ => exact List.Perm.refl _
    case fsm => rfl
  | append_singleton pieces a ih =>
    have hnodup : Group.all.Nodup := by decide
    have hfold := Streamer.foldl_feedGroup cfg a (fun g => g.matching.stream pieces) Group.all hnodup
      (streamed cfg pieces) (fun g _ => ih.carry g) (fun g _ => ih.orphans g)
    have hstep : streamed cfg (pieces ++ [a]) = Streamer.feed cfg (streamed cfg pieces) a := by
      rw [streamed, List.foldl_append, List.foldl_cons, List.foldl_nil, streamed]
    constructor
    case carry =>
      intro g
      rw [hstep, Streamer.feed, hfold.1, if_pos g.mem_all, Matching.stream_concat]
    case orphans =>
      intro g
      rw [hstep, Streamer.feed, hfold.2.1, if_pos g.mem_all, Matching.stream_concat]
    case occ =>
      have hpairs : (pairRows cfg (pieces ++ [a])).Perm (pairRows cfg pieces ++ Group.all.flatMap fun g =>
          (g.matching.pairs (g.matching.batch (g.matching.stream pieces) a)).map (pairRow cfg g)) := by
        simp only [pairRows, Matching.stream_concat, Matching.feed, List.map_append]
        exact flatMap_append_perm Group.all _ _
      have hdirect := directRows_append cfg pieces.flatten a
      rw [hstep, Streamer.feed]
      simp only [hfold.2.2.1, List.flatten_append, List.flatten_singleton]
      rw [List.perm_iff_count] at hpairs hdirect ⊢
      intro row
      have hbefore := ih.occ.count_eq row
      have hpairs := hpairs row
      have hdirect := hdirect row
      simp only [List.count_append] at hbefore hpairs hdirect ⊢
      omega
    case fsm =>
      rw [hstep, Streamer.feed]
      simp only [hfold.2.2.2, ih.fsm, fsmRows, List.flatten_append, List.flatten_singleton, List.filter_append,
        List.map_append]

/-- No key of a group has had more ends than starts at the end of a piece. -/
def StartsFirst (pieces : List (List TraceRec)) : Prop :=
  ∀ (g : Group) front, front <+: pieces → ∀ k,
    (g.matching.ends k front.flatten).length ≤ (g.matching.starts k front.flatten).length

/-- The streamer counts no orphan exactly when every end finds its start. -/
theorem streamed_orphans_iff (pieces : List (List TraceRec)) :
    (∀ g, (streamed cfg pieces).orphans g = 0) ↔ StartsFirst pieces := by
  have h := follows_streamed cfg pieces
  constructor
  · intro hzero g
    rw [← Matching.stream_orphans_eq_zero_iff, ← h.orphans]
    exact hzero g
  · intro hfirst g
    rw [h.orphans, Matching.stream_orphans_eq_zero_iff]
    exact hfirst g

/-- What is true at the end of every piece is true of the whole. -/
theorem StartsFirst.whole {pieces : List (List TraceRec)} (hfirst : StartsFirst pieces) :
    StartsFirst [pieces.flatten] := by
  intro g front hfront k
  rw [List.prefix_cons_iff] at hfront
  cases hfront with
  | inl hnil =>
    rw [hnil]
    exact Nat.le_refl _
  | inr hrest =>
    have hall : front = [pieces.flatten] := by
      cases hrest with
      | intro rest hrest => rw [hrest.1, List.prefix_nil.1 hrest.2]
    rw [hall, List.flatten_singleton]
    exact hfirst g pieces (List.prefix_refl _) k

/-- A group's stream pairs and keeps what it would in one piece. -/
theorem StartsFirst.stream_perm {pieces : List (List TraceRec)} (hfirst : StartsFirst pieces) (g : Group) :
    ((g.matching.stream pieces).matched.Perm (g.matching.stream [pieces.flatten]).matched) ∧
      ((g.matching.stream pieces).carry.Perm (g.matching.stream [pieces.flatten]).carry) := by
  have hpieces := g.matching.stream_perm pieces ((g.matching.stream_orphans_eq_zero_iff pieces).2 (hfirst g))
  have hwhole := g.matching.stream_perm [pieces.flatten]
    ((g.matching.stream_orphans_eq_zero_iff [pieces.flatten]).2 (hfirst.whole g))
  rw [List.flatten_singleton] at hwhole
  exact ⟨hpieces.1.trans hwhole.1.symm, hpieces.2.1.trans hwhole.2.1.symm⟩

/-- The rows are those of the trace in one piece. -/
theorem StartsFirst.occ_perm {pieces : List (List TraceRec)} (hfirst : StartsFirst pieces) :
    (streamed cfg pieces).occ.Perm (streamed cfg [pieces.flatten]).occ := by
  have hrows : (pairRows cfg pieces).Perm (pairRows cfg [pieces.flatten]) := by
    apply List.Perm.flatMap_left
    intro g _
    exact (hfirst.stream_perm g).1.map _
  have hocc := (follows_streamed cfg [pieces.flatten]).occ.symm
  rw [List.flatten_singleton] at hocc
  apply (follows_streamed cfg pieces).occ.trans
  exact (hrows.append_right _).trans hocc

/-- The starts that are left are those of the trace in one piece. -/
theorem StartsFirst.carry_perm {pieces : List (List TraceRec)} (hfirst : StartsFirst pieces) (g : Group) :
    ((streamed cfg pieces).carry g).Perm ((streamed cfg [pieces.flatten]).carry g) := by
  rw [(follows_streamed cfg pieces).carry, (follows_streamed cfg [pieces.flatten]).carry]
  exact (hfirst.stream_perm g).2

/-- The rows of the state machines are those of the trace in one piece, in its order. -/
theorem streamed_fsm (pieces : List (List TraceRec)) :
    (streamed cfg pieces).fsm = (streamed cfg [pieces.flatten]).fsm := by
  rw [(follows_streamed cfg pieces).fsm, (follows_streamed cfg [pieces.flatten]).fsm, List.flatten_singleton]

/-- Where the pieces of a trace are cut does not show: without orphans, the rows are those of the trace in one
piece, in another order at most, and so are the starts that are left. -/
theorem streamed_perm (pieces : List (List TraceRec)) (hzero : ∀ g, (streamed cfg pieces).orphans g = 0) :
    (streamed cfg pieces).occ.Perm (streamed cfg [pieces.flatten]).occ ∧
      (streamed cfg pieces).fsm = (streamed cfg [pieces.flatten]).fsm ∧
      ∀ g, ((streamed cfg pieces).carry g).Perm ((streamed cfg [pieces.flatten]).carry g) ∧
        (streamed cfg [pieces.flatten]).orphans g = 0 := by
  have hfirst := (streamed_orphans_iff cfg pieces).1 hzero
  have hzero' := (streamed_orphans_iff cfg [pieces.flatten]).2 hfirst.whole
  exact ⟨hfirst.occ_perm cfg, streamed_fsm cfg pieces, fun g => ⟨hfirst.carry_perm cfg g, hzero' g⟩⟩

/-- A request that is granted in one piece and transmitted in the next. -/
theorem streamed_perm_two :
    (streamed plain [[⟨10, 7, 64, 2, 0, 2, 1, 0, 0⟩], [⟨12, 7, 64, 2, 2, 2, 1, 0, 0⟩]]).occ.Perm
      (streamed plain [[⟨10, 7, 64, 2, 0, 2, 1, 0, 0⟩, ⟨12, 7, 64, 2, 2, 2, 1, 0, 0⟩]]).occ :=
  (streamed_perm plain [[⟨10, 7, 64, 2, 0, 2, 1, 0, 0⟩], [⟨12, 7, 64, 2, 2, 2, 1, 0, 0⟩]]
    fun g => by cases g <;> decide).1

end Pieces

section Trace

/-- In every part of a trace, no key of a group has more ends than starts. -/
def EndsFollow (records : List TraceRec) : Prop :=
  ∀ (g : Group) front, front <+: records → ∀ k, (g.matching.ends k front).length ≤ (g.matching.starts k front).length

/-- What is true of every part of a trace is true where its pieces end. -/
theorem EndsFollow.startsFirst {pieces : List (List TraceRec)} (h : EndsFollow pieces.flatten) :
    StartsFirst pieces := by
  intro g front hfront
  apply h g
  cases hfront with
  | intro rest heq =>
    rw [← heq, List.flatten_append]
    exact List.prefix_append _ _

/-- The comparison of the ends and the starts in every part, for the keys of the part's records. -/
def endsFollow (records : List TraceRec) : Bool :=
  Group.all.all fun g => records.inits.all fun front => front.all fun r =>
    (g.matching.ends (g.key r) front).length ≤ (g.matching.starts (g.key r) front).length

/-- Only the keys of a trace's records matter. -/
theorem endsFollow_iff (records : List TraceRec) : endsFollow records = true ↔ EndsFollow records := by
  simp only [endsFollow, List.all_eq_true, decide_eq_true_eq]
  constructor
  · intro hcheck g front hfront k
    by_cases hk : ∃ r ∈ front, g.key r = k
    · cases hk with
      | intro r hr =>
        rw [← hr.2]
        exact hcheck g g.mem_all front ((List.mem_inits _ _).2 hfront) r hr.1
    · have hnone : g.matching.ends k front = [] := by
        rw [Matching.ends, List.filter_eq_nil_iff]
        intro r hr hend
        simp only [Bool.and_eq_true, decide_eq_true_eq] at hend
        exact hk ⟨r, hr, hend.2⟩
      rw [hnone]
      exact Nat.zero_le _
  · intro hfollow g _ front hfront r _
    exact hfollow g front ((List.mem_inits _ _).1 hfront) (g.key r)

instance (records : List TraceRec) : Decidable (EndsFollow records) := decidable_of_iff _ (endsFollow_iff records)

/-- `stream`: the pieces that the reader yields, fed one after the other. -/
def convert (file : List UInt8) (window : Option (UInt64 × UInt64)) : Option Streamer :=
  (iterChunks file window).map (streamed cfg)

/-- A closed trace is converted to the rows of the records that it kept, as if they came at once. -/
theorem convert_closed (window : Option (UInt64 × UInt64)) (calls : List Call)
    (hlt : (traced window calls).traceClose.file.length < 2 ^ 64) (hfollow : EndsFollow (kept window calls)) :
    ∃ s, convert cfg (traced window calls).traceClose.file none = some s ∧
      s.occ.Perm (streamed cfg [kept window calls]).occ ∧ s.fsm = (streamed cfg [kept window calls]).fsm ∧
      ∀ g, s.orphans g = 0 ∧ (s.carry g).Perm ((streamed cfg [kept window calls]).carry g) := by
  have hclosed := closed_traced window calls
  cases hclosed with
  | intro chunks h =>
    have hread := h.1.iterChunks_eq hlt none
    cases hread with
    | intro pieces hpieces =>
      have hflatten : pieces.flatten = kept window calls := hpieces.2.flatten.trans h.2
      rw [← hflatten] at hfollow ⊢
      have hfirst := hfollow.startsFirst
      have hzero := (streamed_orphans_iff cfg pieces).2 hfirst
      exists streamed cfg pieces
      constructor
      · rw [convert, hpieces.1, Option.map_some]
      · exact ⟨hfirst.occ_perm cfg, streamed_fsm cfg pieces, fun g => ⟨hzero g, hfirst.carry_perm cfg g⟩⟩

/-- A request that is granted and transmitted, in a trace that is closed. -/
theorem convert_closed_two :
    ∃ s, convert plain (traced none
        [.trace 900 ⟨7, 64, 2, 1⟩ .reqBus 0 .enter 0, .trace 1100 ⟨7, 64, 2, 1⟩ .reqBus 0 .exit 0]).traceClose.file
          none = some s ∧
      s.occ.Perm [⟨.reqBus, 0, 9, 11, 2, 1, 7, 0, false, 64, 0⟩] := by
  have hlength := closed_length_le none
    [.trace 900 ⟨7, 64, 2, 1⟩ .reqBus 0 .enter 0, .trace 1100 ⟨7, 64, 2, 1⟩ .reqBus 0 .exit 0]
  have hconvert := convert_closed plain none
    [.trace 900 ⟨7, 64, 2, 1⟩ .reqBus 0 .enter 0, .trace 1100 ⟨7, 64, 2, 1⟩ .reqBus 0 .exit 0]
    (Nat.lt_of_le_of_lt hlength (by decide)) (by decide)
  cases hconvert with
  | intro s h =>
    have hrows : (streamed plain [kept none
        [.trace 900 ⟨7, 64, 2, 1⟩ .reqBus 0 .enter 0, .trace 1100 ⟨7, 64, 2, 1⟩ .reqBus 0 .exit 0]]).occ =
          [⟨.reqBus, 0, 9, 11, 2, 1, 7, 0, false, 64, 0⟩] := by
      decide
    rw [hrows] at h
    exact ⟨s, h.1, h.2.1⟩

end Trace

end Octopus.Trace
