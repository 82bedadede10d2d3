import Octopus.MCsim.DRAM

/-!
# DDR4

The tables of `DDR4`: organizations, speeds and timing rules. `scope` is read from an array by the value of a command.
The array was written before `ACT_R` and `ACT_W` came to stand in front of the commands, so every command has the
scope of the one two places before it; the array is too short for the last two. An activation is therefore checked
down to its rank only, where the rules of its bank group and its bank stand below.
-/

namespace Octopus.MCsim

/-- `Level`. -/
inductive Level
  | channel | rank | bankGroup | bank | row | column
  deriving DecidableEq, Repr

/-- `Command`, in the order of the source. -/
inductive Command
  | actR | actW | act | pre | prea | rd | wr | rda | wra | ref | pde | pdx | sre | srx
  deriving DecidableEq, Repr

/-- `Org`. -/
inductive Org
  | gb2x4 | gb2x8 | gb2x16 | gb4x4 | gb4x8 | gb4x16 | gb8x4 | gb8x8 | gb8x16
  deriving DecidableEq, Repr

/-- `Speed`. -/
inductive Speed
  | s1600K | s1600L | s1866M | s1866N | s2133P | s2133R | s2400R | s2400U
  deriving DecidableEq, Repr

/-- An organization: its size in megabits, its pins, and how many there are at each level from the bank group on. -/
structure OrgEntry where
  size : Nat
  dq : Nat
  bankGroups : Nat
  banks : Nat
  rows : Nat
  columns : Nat

/-- `org_table`. -/
def orgTable : Org → OrgEntry
  | .gb2x4 => ⟨2 <<< 10, 4, 4, 4, 1 <<< 15, 1 <<< 10⟩
  | .gb2x8 => ⟨2 <<< 10, 8, 4, 16, 1 <<< 14, 1 <<< 14⟩
  | .gb2x16 => ⟨2 <<< 10, 16, 2, 4, 1 <<< 14, 1 <<< 10⟩
  | .gb4x4 => ⟨4 <<< 10, 4, 4, 4, 1 <<< 16, 1 <<< 10⟩
  | .gb4x8 => ⟨4 <<< 10, 8, 4, 4, 1 <<< 15, 1 <<< 10⟩
  | .gb4x16 => ⟨4 <<< 10, 16, 2, 4, 1 <<< 15, 1 <<< 10⟩
  | .gb8x4 => ⟨8 <<< 10, 4, 4, 4, 1 <<< 17, 1 <<< 10⟩
  | .gb8x8 => ⟨8 <<< 10, 8, 4, 4, 1 <<< 16, 1 <<< 10⟩
  | .gb8x16 => ⟨8 <<< 10, 16, 2, 4, 1 <<< 16, 1 <<< 10⟩

/-- A speed: its rate and its distances, in cycles. -/
structure SpeedEntry where
  rate : Nat
  nBL : Nat
  nCCDS : Nat
  nCCDL : Nat
  nRTRS : Nat
  nCL : Nat
  nRCD : Nat
  nRP : Nat
  nCWL : Nat
  nRAS : Nat
  nRC : Nat
  nRTP : Nat
  nWTRS : Nat
  nWTRL : Nat
  nWR : Nat
  nPD : Nat
  nXP : Nat
  nCKESR : Nat
  nRRDS : Nat := 0
  nRRDL : Nat := 0
  nFAW : Nat := 0
  nRFC : Nat := 0
  nXS : Nat := 0

/-- `speed_table`; the rest is left to `init_speed`. -/
def speedTable : Speed → SpeedEntry
  | .s1600K => .mk 1600 4 4 5 2 11 11 11 9 28 39 6 2 6 12 4 5 5 0 0 0 0 0
  | .s1600L => .mk 1600 4 4 5 2 12 12 12 9 28 40 6 2 6 12 4 5 5 0 0 0 0 0
  | .s1866M => .mk 1866 4 4 5 2 13 13 13 10 32 45 7 3 7 14 5 6 6 0 0 0 0 0
  | .s1866N => .mk 1866 4 4 5 2 14 14 14 10 32 46 7 3 7 14 5 6 6 0 0 0 0 0
  | .s2133P => .mk 2133 4 4 6 2 15 15 15 11 36 51 8 3 8 16 6 7 7 0 0 0 0 0
  | .s2133R => .mk 2133 4 4 6 2 16 16 16 11 36 52 8 3 8 16 6 7 7 0 0 0 0 0
  | .s2400R => .mk 2400 4 4 6 2 16 16 16 12 39 55 9 3 9 18 6 8 7 0 0 0 0 0
  | .s2400U => .mk 2400 4 4 6 2 18 18 18 12 39 57 9 3 9 18 6 8 7 0 0 0 0 0

/-- The column of the tables of `init_speed` that belongs to a rate. -/
def rateIndex (rate : Nat) : Nat := if rate = 1600 then 0 else if rate = 1866 then 1 else if rate = 2133 then 2 else 3

/-- The row that belongs to a size. -/
def densityIndex (size : Nat) : Nat := if size >>> 10 = 2 then 0 else if size >>> 10 = 4 then 1 else 2

/-- The place of a table. -/
def tableAt (table : List (List Nat)) (row column : Nat) : Nat := (table.getD row []).getD column 0

/-- `init_speed`, in the refresh mode 1X. -/
def initSpeed (org : OrgEntry) (s : SpeedEntry) : SpeedEntry :=
  let speed := rateIndex s.rate
  let density := densityIndex org.size
  { s with
    nRRDS := tableAt [[4, 4, 4, 4], [5, 5, 6, 7]] (if org.dq = 16 then 1 else 0) speed
    nRRDL := tableAt [[5, 5, 6, 6], [6, 6, 7, 8]] (if org.dq = 16 then 1 else 0) speed
    nFAW := tableAt [[16, 16, 16, 16], [20, 22, 23, 26], [28, 28, 32, 36]]
      (if org.dq = 4 then 0 else if org.dq = 8 then 1 else 2) speed
    nRFC := tableAt [[128, 150, 171, 192], [208, 243, 278, 312], [280, 327, 374, 420]] density speed
    nXS := tableAt [[136, 159, 182, 204], [216, 252, 288, 324], [288, 336, 384, 432]] density speed }

/-- The command after which a rule holds, and the rule. -/
abbrev TimingRow := Command × TimingEntry Command

/-- A row of the timing tables: `to` stays `val` cycles behind the `dist` last `from`. -/
def row (earlier later : Command) (dist : Nat) (val : Int) (sibling : Bool := false) : TimingRow :=
  (earlier, ⟨later, dist, val, sibling⟩)

/-- The rules of a channel. -/
def channelTiming (s : SpeedEntry) : List TimingRow :=
  [row .rd .rd 1 s.nBL, row .rd .rda 1 s.nBL, row .rda .rd 1 s.nBL, row .rda .rda 1 s.nBL,
    row .wr .wr 1 s.nBL, row .wr .wra 1 s.nBL, row .wra .wr 1 s.nBL, row .wra .wra 1 s.nBL]

/-- The rules of a rank. -/
def rankTiming (s : SpeedEntry) : List TimingRow :=
  -- CAS <-> CAS
  [row .rd .rd 1 s.nCCDS, row .rd .rda 1 s.nCCDS, row .rda .rd 1 s.nCCDS, row .rda .rda 1 s.nCCDS,
    row .wr .wr 1 s.nCCDS, row .wr .wra 1 s.nCCDS, row .wra .wr 1 s.nCCDS, row .wra .wra 1 s.nCCDS,
    row .rd .wr 1 (s.nCL + s.nCCDS + 2 - s.nCWL), row .rd .wra 1 (s.nCL + s.nCCDS + 2 - s.nCWL),
    row .rda .wr 1 (s.nCL + s.nCCDS + 2 - s.nCWL), row .rda .wra 1 (s.nCL + s.nCCDS + 2 - s.nCWL),
    row .wr .rd 1 (s.nCWL + s.nBL + s.nWTRS), row .wr .rda 1 (s.nCWL + s.nBL + s.nWTRS),
    row .wra .rd 1 (s.nCWL + s.nBL + s.nWTRS), row .wra .rda 1 (s.nCWL + s.nBL + s.nWTRS),
    -- between sibling ranks
    row .rd .rd 1 (s.nBL + s.nRTRS) true, row .rd .rda 1 (s.nBL + s.nRTRS) true,
    row .rda .rd 1 (s.nBL + s.nRTRS) true, row .rda .rda 1 (s.nBL + s.nRTRS) true,
    row .rd .wr 1 (s.nBL + s.nRTRS) true, row .rd .wra 1 (s.nBL + s.nRTRS) true,
    row .rda .wr 1 (s.nBL + s.nRTRS) true, row .rda .wra 1 (s.nBL + s.nRTRS) true,
    row .rd .wr 1 (s.nCL + s.nBL + s.nRTRS - s.nCWL) true, row .rd .wra 1 (s.nCL + s.nBL + s.nRTRS - s.nCWL) true,
    row .rda .wr 1 (s.nCL + s.nBL + s.nRTRS - s.nCWL) true, row .rda .wra 1 (s.nCL + s.nBL + s.nRTRS - s.nCWL) true,
    row .wr .rd 1 (s.nCWL + s.nBL + s.nRTRS - s.nCL) true, row .wr .rda 1 (s.nCWL + s.nBL + s.nRTRS - s.nCL) true,
    row .wra .rd 1 (s.nCWL + s.nBL + s.nRTRS - s.nCL) true, row .wra .rda 1 (s.nCWL + s.nBL + s.nRTRS - s.nCL) true,
    row .rd .prea 1 s.nRTP, row .wr .prea 1 (s.nCWL + s.nBL + s.nWR),
    -- CAS <-> PD
    row .rd .pde 1 (s.nCL + s.nBL + 1), row .rda .pde 1 (s.nCL + s.nBL + 1), row .wr .pde 1 (s.nCWL + s.nBL + s.nWR),
    row .wra .pde 1 (s.nCWL + s.nBL + s.nWR + 1),
    row .pdx .rd 1 s.nXP, row .pdx .rda 1 s.nXP, row .pdx .wr 1 s.nXP, row .pdx .wra 1 s.nXP,
    -- RAS <-> RAS
    row .act .act 1 s.nRRDS, row .act .act 4 s.nFAW, row .act .prea 1 s.nRAS, row .prea .act 1 s.nRP,
    row .actR .actR 1 s.nRRDS, row .actW .actW 1 s.nRRDS, row .actR .actW 1 s.nRRDS, row .actW .actR 1 s.nRRDS,
    row .actR .actW 4 s.nFAW, row .actR .actR 4 s.nFAW, row .actW .actW 4 s.nFAW, row .actW .actR 4 s.nFAW,
    row .actR .prea 1 s.nRAS, row .actW .prea 1 s.nRAS, row .prea .actR 1 s.nRP, row .prea .actW 1 s.nRP,
    -- RAS <-> REF
    row .pre .ref 1 s.nRP, row .prea .ref 1 s.nRP, row .ref .act 1 s.nRFC, row .ref .actR 1 s.nRFC,
    row .ref .actW 1 s.nRFC,
    -- RAS <-> PD
    row .actR .pde 1 1, row .actW .pde 1 1, row .pdx .actR 1 s.nXP, row .pdx .actW 1 s.nXP,
    row .act .pde 1 1, row .pdx .act 1 s.nXP, row .pdx .pre 1 s.nXP, row .pdx .prea 1 s.nXP,
    -- RAS <-> SR
    row .pre .sre 1 s.nRP, row .prea .sre 1 s.nRP, row .srx .act 1 s.nXS, row .srx .actR 1 s.nXS,
    row .srx .actW 1 s.nXS,
    -- REF, PD and SR
    row .ref .ref 1 s.nRFC, row .ref .pde 1 1, row .pdx .ref 1 s.nXP, row .srx .ref 1 s.nXS,
    row .pde .pdx 1 s.nPD, row .pdx .pde 1 s.nXP, row .pdx .sre 1 s.nXP, row .srx .pde 1 s.nXS,
    row .sre .srx 1 s.nCKESR, row .srx .sre 1 s.nXS]

/-- The rules of a bank group. -/
def bankGroupTiming (s : SpeedEntry) : List TimingRow :=
  -- CAS <-> CAS
  [row .rd .rd 1 s.nCCDL, row .rd .rda 1 s.nCCDL, row .rda .rd 1 s.nCCDL, row .rda .rda 1 s.nCCDL,
    row .wr .wr 1 s.nCCDL, row .wr .wra 1 s.nCCDL, row .wra .wr 1 s.nCCDL, row .wra .wra 1 s.nCCDL,
    row .wr .wr 1 s.nCCDL, row .wr .wra 1 s.nCCDL, row .wra .wr 1 s.nCCDL, row .wra .wra 1 s.nCCDL,
    row .wr .rd 1 (s.nCWL + s.nBL + s.nWTRL), row .wr .rda 1 (s.nCWL + s.nBL + s.nWTRL),
    row .wra .rd 1 (s.nCWL + s.nBL + s.nWTRL), row .wra .rda 1 (s.nCWL + s.nBL + s.nWTRL),
    -- RAS <-> RAS
    row .act .act 1 s.nRRDL, row .actR .actR 1 s.nRRDL, row .actW .actW 1 s.nRRDL, row .actW .actR 1 s.nRRDL,
    row .actR .actW 1 s.nRRDL]

/-- The rules of a bank. -/
def bankTiming (s : SpeedEntry) : List TimingRow :=
  -- CAS <-> RAS
  [row .act .rd 1 s.nRCD, row .act .rda 1 s.nRCD, row .act .wr 1 s.nRCD, row .act .wra 1 s.nRCD,
    row .actR .rd 1 s.nRCD, row .actW .rd 1 s.nRCD, row .actR .rda 1 s.nRCD, row .actW .rda 1 s.nRCD,
    row .actR .wr 1 s.nRCD, row .actW .wr 1 s.nRCD, row .actR .wra 1 s.nRCD, row .actW .wra 1 s.nRCD,
    row .rd .pre 1 s.nRTP, row .wr .pre 1 (s.nCWL + s.nBL + s.nWR),
    row .rda .act 1 (s.nRTP + s.nRP), row .rda .actR 1 (s.nRTP + s.nRP), row .rda .actW 1 (s.nRTP + s.nRP),
    row .wra .act 1 (s.nCWL + s.nBL + s.nWR + s.nRP), row .wra .actR 1 (s.nCWL + s.nBL + s.nWR + s.nRP),
    row .wra .actW 1 (s.nCWL + s.nBL + s.nWR + s.nRP),
    -- RAS <-> RAS
    row .act .act 1 s.nRC, row .act .pre 1 s.nRAS, row .pre .act 1 s.nRP,
    row .actR .actR 1 s.nRC, row .actR .actW 1 s.nRC, row .actW .actW 1 s.nRC, row .actW .actR 1 s.nRC,
    row .actR .pre 1 s.nRAS, row .actW .pre 1 s.nRAS, row .pre .actR 1 s.nRP, row .pre .actW 1 s.nRP]

namespace DDR4

/-- `init_timing`: the rules of the levels. -/
def timingTable (s : SpeedEntry) : Nat → List TimingRow
  | 0 => channelTiming s
  | 1 => rankTiming s
  | 2 => bankGroupTiming s
  | 3 => bankTiming s
  | _ => []

/-- The array `scope`. -/
def scopeTable : List Level :=
  [.row, .bank, .rank, .column, .column, .column, .column, .rank, .rank, .rank, .rank, .rank]

/-- The scope of a command; what the array leaves out is zero. -/
def scope (cmd : Command) : Level := scopeTable.getD cmd.ctorIdx .channel

/-- The rules look back on one command or on four. -/
theorem timingTable_dist (s : SpeedEntry) (level : Nat) : ∀ r ∈ timingTable s level, 0 < r.2.dist := by
  have hall : (timingTable s level).all (fun r => Nat.ble 1 r.2.dist) = true := by
    match level with
    | 0 => rfl
    | 1 => rfl
    | 2 => rfl
    | 3 => rfl
    | _ + 4 => rfl
  intro r hr
  exact Nat.le_of_ble_eq_true (List.all_eq_true.1 hall r hr)

/-- The specification, with its speed. -/
def spec (s : SpeedEntry) : Spec Command where
  depth := 3
  scope cmd := (scope cmd).ctorIdx
  timing level cmd := ((timingTable s level).filter fun r => r.1 = cmd).map Prod.snd
  dist_pos level cmd e he := by
    cases List.mem_map.1 he with
    | intro r hr =>
      rw [← hr.2]
      exact timingTable_dist s level r (List.mem_filter.1 hr.1).1

/-- The speed of a device. -/
def speedEntry (org : Org) (speed : Speed) : SpeedEntry := initSpeed (orgTable org) (speedTable speed)

/-- A row of a table is a rule after its command. -/
theorem mem_timing {s : SpeedEntry} {level : Nat} {cmd : Command} {e : TimingEntry Command} :
    e ∈ (spec s).timing level cmd ↔ (cmd, e) ∈ timingTable s level := by
  simp only [spec, List.mem_map, List.mem_filter, decide_eq_true_eq]
  constructor
  · intro h
    cases h with
    | intro r hr =>
      rw [← hr.1.2, ← hr.2]
      exact hr.1.1
  · exact fun h => ⟨(cmd, e), ⟨h, rfl⟩, rfl⟩

end DDR4

end Octopus.MCsim
