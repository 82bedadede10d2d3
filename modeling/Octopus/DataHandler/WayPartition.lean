import Mathlib.Data.BitVec
import Mathlib.Data.List.Basic
import Mathlib.Data.List.Induction

/-!
# The ways of a core

The parameter `way_partition` gives cores their ways of the cache: entries `<cores>:<ways>`, with
ranges `a-b`, between semicolons. The constructor of the data handler reads it into one mask for
each listed core and one for the cores that are not listed. What C++ leaves undefined is `none`.
-/

namespace Octopus

namespace WayPartition

/-- `isspace`. -/
def isspace (c : Char) : Bool := c.toNat = 32 || (9 ≤ c.toNat && c.toNat ≤ 13)

/-- The number that a text begins with, behind the digits read so far. -/
def readDigits : Nat → List Char → Nat
  | n, [] => n
  | n, c :: rest => if c.isDigit then readDigits (10 * n + (c.toNat - 48)) rest else n

/-- The largest `int`. -/
def intMax : Int := 2 ^ 31 - 1

/-- `atoi`, which is undefined for a number that is no `int`. -/
def atoi (s : List Char) : Option Int :=
  let value : Int :=
    match s.dropWhile isspace with
    | [] => 0
    | c :: rest =>
      if c = '-' then -(readDigits 0 rest : Int)
      else if c = '+' then (readDigits 0 rest : Int)
      else (readDigits 0 (c :: rest) : Int)
  if -intMax - 1 ≤ value ∧ value ≤ intMax then some value else none

/-- The ends of a range: the text before the first dash and the text behind it, if there is one. -/
def range (s : List Char) : Option (Int × Int) :=
  (atoi s).bind fun lo =>
    match s.dropWhile (· != '-') with
    | [] => some (lo, lo)
    | _ :: rest => (atoi rest).map fun hi => (lo, hi)

end WayPartition

open WayPartition

/-- An entry: the cores `c0` to `c1` own the ways `w0` to `w1`. -/
structure PartitionEntry where
  c0 : Int
  c1 : Int
  w0 : Int
  w1 : Int
  deriving DecidableEq, Repr

namespace PartitionEntry

/-- The cores of an entry. -/
def lists (e : PartitionEntry) (core : Int) : Bool := e.c0 ≤ core && core ≤ e.c1

/-- The ways of an entry, inside the cache or not. -/
def names (e : PartitionEntry) (way : Nat) : Bool := e.w0 ≤ way && way ≤ e.w1

/--
The two loops over an entry are defined: no way is negative, where `1u << w` is undefined, and the
loop over the cores does not count past the largest `int`.
-/
def defined (e : PartitionEntry) : Bool := (e.w1 < e.w0 || 0 ≤ e.w0) && (e.c1 < e.c0 || e.c1 < intMax)

/-- Read an entry; a text without a colon is none. -/
def read (s : List Char) : Option (List PartitionEntry) :=
  match s.dropWhile (· != ':') with
  | [] => some []
  | _ :: ways =>
    (range (s.takeWhile (· != ':'))).bind fun c => (range ways).map fun w => [⟨c.1, c.2, w.1, w.2⟩]

end PartitionEntry

/-- The entries of a specification, in their order. -/
def readEntries (spec : List Char) : Option (List PartitionEntry) :=
  ((spec.splitOn ';').mapM PartitionEntry.read).map List.flatten

/-- The masks of a data handler: bit `w` of a mask is way `w`. -/
structure WayMasks where
  /-- The masks of the listed cores, the last assignment first. -/
  m_way_mask : List (Int × BitVec 32) := []
  m_shared_mask : BitVec 32
  m_all_mask : BitVec 32
  deriving DecidableEq, Repr

namespace WayMasks

/-- The masks without a specification. -/
def unpartitioned (ways : Nat) : WayMasks :=
  let all : BitVec 32 := if 32 ≤ ways then 0xffffffff else (1#32 <<< ways) - 1
  { m_shared_mask := all, m_all_mask := all }

/-- The mask of an entry: its ways that are ways of the cache. -/
def maskOf (ways : Nat) (e : PartitionEntry) : BitVec 32 :=
  (List.range ways).foldl (fun mask w => if e.names w then mask ||| (1#32 <<< w) else mask) 0

/-- The effect of an entry. -/
def addEntry (ways : Nat) (m : WayMasks) (e : PartitionEntry) : Option WayMasks :=
  if e.defined then
    some { m with
      m_way_mask := (List.range (e.c1 + 1 - e.c0).toNat).foldl
        (fun map (i : Nat) => (e.c0 + i, maskOf ways e) :: map) m.m_way_mask
      m_shared_mask := m.m_shared_mask &&& ~~~maskOf ways e }
  else none

/-- The masks of a list of entries; if every way is claimed, the other cores share all of them. -/
def ofEntries (ways : Nat) (entries : List PartitionEntry) : Option WayMasks :=
  (entries.foldlM (addEntry ways) (unpartitioned ways)).map fun m =>
    if !m.m_way_mask.isEmpty && m.m_shared_mask = 0 then { m with m_shared_mask := m.m_all_mask } else m

/-- `allowedWays`: the mask of the requester of a fill. -/
def allowedWays (m : WayMasks) (requester : Int) : BitVec 32 :=
  if requester < 0 || m.m_way_mask.isEmpty then m.m_all_mask
  else (m.m_way_mask.lookup requester).getD m.m_shared_mask

end WayMasks

/-- The last entry of a specification that lists a core. -/
def entryOf (entries : List PartitionEntry) (core : Int) : Option PartitionEntry :=
  entries.reverse.find? (·.lists core)

/--
The ways of the cache that a specification gives a core: those of the last entry that lists it.
Cores that are not listed share the ways that no entry names, or all ways if every way is named. A
specification that lists no core at all takes no way from anyone.
-/
def Given (ways : Nat) (entries : List PartitionEntry) (core : Int) (w : Nat) : Prop :=
  match entryOf entries core with
  | some e => e.names w
  | none =>
    (∀ e ∈ entries, e.c1 < e.c0) ∨ (∀ e ∈ entries, ¬ e.names w) ∨ ∀ w' < ways, ∃ e ∈ entries, e.names w'

example : readEntries "0:0;1-3:1".toList = some [⟨0, 0, 0, 0⟩, ⟨1, 3, 1, 1⟩] := by decide
example : readEntries ";x; 2 : 1-;0:-1".toList = some [⟨2, 2, 1, 0⟩, ⟨0, 0, -1, 1⟩] := by decide

namespace WayMasks

variable {ways w : Nat} {core : Int} {e : PartitionEntry} {entries : List PartitionEntry} {m m' : WayMasks}

/-- The mask of all ways. -/
theorem getLsbD_all (hways : ways ≤ 32) : (unpartitioned ways).m_all_mask.getLsbD w = decide (w < ways) := by
  rw [unpartitioned]
  dsimp only
  split_ifs with h
  · obtain rfl : ways = 32 := le_antisymm hways h
    have hall : (0xffffffff : BitVec 32) = BitVec.allOnes 32 := rfl
    rw [hall, BitVec.getLsbD_allOnes]
  · have hlt : 2 ^ ways < 2 ^ 32 := Nat.pow_lt_pow_right (by decide) (Nat.lt_of_not_le h)
    have hpos := Nat.two_pow_pos ways
    have hval : ((1#32 <<< ways) - 1).toNat = 2 ^ ways - 1 := by
      have hone : (1 : BitVec 32).toNat = 1 := rfl
      have hbit : (1#32).toNat = 1 := rfl
      rw [BitVec.toNat_sub, BitVec.toNat_shiftLeft, hone, hbit, Nat.shiftLeft_eq, one_mul, Nat.mod_eq_of_lt hlt]
      omega
    rw [BitVec.getLsbD, hval, Nat.testBit_two_pow_sub_one]

/-- The mask of an entry has the ways that the entry names. -/
theorem getLsbD_maskOf (hways : ways ≤ 32) : (maskOf ways e).getLsbD w = (decide (w < ways) && e.names w) := by
  have hfold : ∀ (l : List Nat) (mask : BitVec 32), (∀ i ∈ l, i < 32) →
      (l.foldl (fun mask w => if e.names w then mask ||| (1#32 <<< w) else mask) mask).getLsbD w =
        (mask.getLsbD w || (decide (w ∈ l) && e.names w)) := by
    intro l
    induction l with
    | nil => simp
    | cons i l ih =>
      intro mask hl
      have hi := hl i List.mem_cons_self
      rw [List.foldl_cons, ih _ fun j hj => hl j (List.mem_cons_of_mem i hj)]
      have hone : (1#32 <<< i).getLsbD w = decide (w = i) := by
        rw [BitVec.getLsbD_shiftLeft]
        by_cases hw : w = i
        · simp [hw, hi]
        · by_cases hlt : w < i
          · simp [hlt, hw]
          · have hsub : w - i ≠ 0 := by omega
            simp [hw, hsub]
      by_cases hname : e.names i
      · rw [if_pos hname, BitVec.getLsbD_or, hone]
        by_cases hw : w = i
        · simp [hw, hname]
        · simp [hw]
      · rw [if_neg hname]
        by_cases hw : w = i
        · simp [hw, hname]
        · simp [hw]
  rw [maskOf, hfold _ _ fun i hi => (List.mem_range.1 hi).trans_le hways]
  simp

/-- The loop over the cores of an entry gives each of them the mask of the entry. -/
theorem lookup_addCores (lo : Int) (mask : BitVec 32) (map : List (Int × BitVec 32)) (n : Nat) :
    ((List.range n).foldl (fun map (i : Nat) => (lo + i, mask) :: map) map).lookup core =
      if lo ≤ core ∧ core < lo + n then some mask else map.lookup core := by
  induction n with
  | zero =>
    rw [if_neg (by simp)]
    rfl
  | succ n ih =>
    rw [List.range_succ, List.foldl_append, List.foldl_cons, List.foldl_nil, List.lookup_cons, ih]
    by_cases hcore : core = lo + n
    · simp [hcore]
    · have hbeq : (core == lo + n) = false := by simpa using hcore
      have hiff : (lo ≤ core ∧ core < lo + n) ↔ (lo ≤ core ∧ core < lo + (n + 1 : Nat)) := by omega
      rw [hbeq]
      simp only [hiff]

/-- The loop over the cores of an entry leaves no mask if there was none and it lists no core. -/
theorem addCores_eq_nil (lo : Int) (mask : BitVec 32) (map : List (Int × BitVec 32)) (n : Nat) :
    (List.range n).foldl (fun map (i : Nat) => (lo + i, mask) :: map) map = [] ↔ n = 0 ∧ map = [] := by
  induction n with
  | zero => simp
  | succ n ih => simp [List.range_succ]

/-- What the masks are after the entries of a list, before the cores that are not listed get theirs. -/
structure Holds (ways : Nat) (entries : List PartitionEntry) (m : WayMasks) : Prop where
  lookup : ∀ core, m.m_way_mask.lookup core = (entryOf entries core).map (maskOf ways)
  nil : m.m_way_mask = [] ↔ ∀ e ∈ entries, e.c1 < e.c0
  shared : ∀ w, m.m_shared_mask.getLsbD w = (decide (w < ways) && entries.all fun e => !e.names w)
  all : m.m_all_mask = (unpartitioned ways).m_all_mask

/-- One more entry. -/
theorem Holds.addEntry (hways : ways ≤ 32) (h : Holds ways entries m) (hm : m.addEntry ways e = some m') :
    Holds ways (entries ++ [e]) m' := by
  rw [WayMasks.addEntry] at hm
  split_ifs at hm
  obtain rfl := Option.some.inj hm
  have hcount : ((e.c1 + 1 - e.c0).toNat : Int) = max (e.c1 + 1 - e.c0) 0 := Int.toNat_eq_max _
  constructor
  · intro core
    rw [lookup_addCores, h.lookup core, entryOf, entryOf, List.reverse_append]
    by_cases hlists : e.lists core = true
    · have hcores : e.c0 ≤ core ∧ core ≤ e.c1 := by simpa [PartitionEntry.lists] using hlists
      rw [if_pos (by omega)]
      simp [hlists]
    · have hcores : ¬ (e.c0 ≤ core ∧ core ≤ e.c1) := by simpa [PartitionEntry.lists] using hlists
      rw [if_neg (by omega)]
      simp [hlists]
  · rw [addCores_eq_nil, h.nil]
    constructor
    · rintro ⟨hnone, hbefore⟩ x hx
      rcases List.mem_append.1 hx with hx | hx
      · exact hbefore x hx
      · obtain rfl := List.mem_singleton.1 hx
        omega
    · intro hall
      have he := hall e (by simp)
      exact ⟨by omega, fun x hx => hall x (List.mem_append_left _ hx)⟩
  · intro w
    simp only [BitVec.getLsbD_and, BitVec.getLsbD_not, h.shared w, getLsbD_maskOf hways, List.all_append]
    by_cases hw : w < ways
    · simp [hw, hw.trans_le hways]
    · simp [hw]
  · exact h.all

/-- The masks after all entries. -/
theorem Holds.of_foldlM (hways : ways ≤ 32)
    (hm : entries.foldlM (WayMasks.addEntry ways) (unpartitioned ways) = some m) : Holds ways entries m := by
  induction entries using List.reverseRecOn generalizing m with
  | nil =>
    obtain rfl := Option.some.inj hm
    refine ⟨fun core => rfl, by simp [unpartitioned], fun w => ?_, rfl⟩
    have hshared : (unpartitioned ways).m_shared_mask = (unpartitioned ways).m_all_mask := rfl
    rw [hshared, getLsbD_all hways]
    simp
  | append_singleton entries e ih =>
    rw [List.foldlM_append] at hm
    obtain ⟨m₁, hm₁, hlast⟩ := Option.bind_eq_some_iff.1 hm
    rw [List.foldlM_cons] at hlast
    obtain ⟨m₂, hm₂, hlast⟩ := Option.bind_eq_some_iff.1 hlast
    obtain rfl := Option.some.inj hlast
    exact (ih hm₁).addEntry hways hm₂

/-- The masks of a specification exist if its loops are defined. -/
theorem isSome_ofEntries : (ofEntries ways entries).isSome = entries.all (·.defined) := by
  have hfold : ∀ m : WayMasks, (entries.foldlM (WayMasks.addEntry ways) m).isSome = entries.all (·.defined) := by
    induction entries with
    | nil => exact fun m => rfl
    | cons e entries ih =>
      intro m
      rw [List.foldlM_cons, List.all_cons, WayMasks.addEntry]
      by_cases hdefined : e.defined = true
      · rw [if_pos hdefined, hdefined, Bool.true_and]
        exact ih _
      · simp [hdefined]
  rw [ofEntries, Option.isSome_map, hfold]

/-- The mask of a requester has the ways that the specification gives it. -/
theorem getLsbD_allowedWays (hways : ways ≤ 32) (hm : ofEntries ways entries = some m) (core : Nat) (hw : w < ways) :
    (m.allowedWays core).getLsbD w = true ↔ Given ways entries core w := by
  obtain ⟨m₀, hfold, rfl⟩ := Option.map_eq_some_iff.1 hm
  have h := Holds.of_foldlM hways hfold
  have hall : m₀.m_all_mask.getLsbD w = true := by
    rw [h.all, getLsbD_all hways]
    simpa using hw
  have hnonneg : ¬ (core : Int) < 0 := by omega
  rw [Given]
  by_cases hnil : m₀.m_way_mask = []
  · have hnone : entryOf entries core = none := by
      have hlookup := h.lookup core
      rw [hnil] at hlookup
      simpa using hlookup.symm
    simp only [hnil, List.isEmpty_nil, Bool.not_true, Bool.false_and, Bool.false_eq_true, if_false, allowedWays,
      Bool.or_true, if_true, hall, hnone, true_iff]
    exact .inl (h.nil.1 hnil)
  · have hsome : ¬ ∀ e ∈ entries, e.c1 < e.c0 := fun hnone => hnil (h.nil.2 hnone)
    have hempty : m₀.m_way_mask.isEmpty = false := by simpa using hnil
    have hshared : m₀.m_shared_mask.getLsbD w = true ↔ ∀ e ∈ entries, ¬ e.names w := by
      rw [h.shared w]
      simp [hw]
    simp only [hempty, Bool.not_false, Bool.true_and, decide_eq_true_eq]
    cases hentry : entryOf entries core with
    | some e =>
      have hmask : (maskOf ways e).getLsbD w = true ↔ e.names w = true := by
        rw [getLsbD_maskOf hways]
        simp [hw]
      split_ifs with hzero
      · simpa [allowedWays, hempty, h.lookup, hentry, hnonneg] using hmask
      · simpa [allowedWays, hempty, h.lookup, hentry, hnonneg] using hmask
    | none =>
      simp only [hsome, false_or]
      split_ifs with hzero
      · have hclaimed : ∀ w' < ways, ∃ e ∈ entries, e.names w' = true := by
          intro w' hw'
          have hbit := h.shared w'
          rw [hzero] at hbit
          simpa [hw'] using hbit.symm
        simpa [allowedWays, hempty, h.lookup, hentry, hall, hnonneg] using .inr hclaimed
      · rw [← hshared]
        have hnot : ¬ ∀ w' < ways, ∃ e ∈ entries, e.names w' = true := by
          intro hclaimed
          refine hzero (BitVec.eq_of_getLsbD_eq fun i _ => ?_)
          rw [h.shared i]
          by_cases hi : i < ways
          · simpa [hi] using hclaimed i hi
          · simp [hi]
        simp [allowedWays, hempty, h.lookup, hentry, hnot, hnonneg]

end WayMasks

end Octopus
