import Octopus.Lib.Spacing
import Mathlib.Data.List.Basic
import Mathlib.Logic.Function.Basic

/-!
# The timing of a DRAM device

`DRAM<T>`: a tree of nodes, one for each channel, rank, bank group and bank. Every node keeps the earliest cycle for
each command and the cycles of the newest commands. A command that is issued raises the earliest cycles of the nodes
on its way and of their siblings, as the tables of the specification `T` say; `check` compares a cycle with the
earliest ones on the way down to the scope of a command. The result is stated over the history of the commands:
`check` is exact for the rules of the tables that stand at a level down to the scope.

The states of the nodes, which only `decode` and the row queries read, and the statistics are left out. Children are
found by their id, so a node has as many as there are ids. Cycles and distances are unbounded.
-/

namespace Octopus.MCsim

open Lib

variable {κ : Type}

/-- A rule of the tables: how far `cmd` stays behind the `dist` last of the commands that the table is about. -/
structure TimingEntry (κ : Type) where
  cmd : κ
  dist : Nat
  val : Int
  sibling : Bool

/-- The tables of a specification. The nodes of a device stand at the levels 0 to `depth`. -/
structure Spec (κ : Type) where
  depth : Nat
  scope : κ → Nat
  timing : Nat → κ → List (TimingEntry κ)
  dist_pos : ∀ level cmd, ∀ e ∈ timing level cmd, 0 < e.dist

/-- What a node keeps: the earliest cycle of each command, and the cycles of the newest ones. -/
structure Timing (κ : Type) where
  next : κ → Int
  prev : κ → List Int

/-- A node and the nodes below it, down to a number of levels. -/
inductive DRAM (κ : Type) : Nat → Type
  | leaf (timing : Timing κ) : DRAM κ 0
  | node {n : Nat} (timing : Timing κ) (children : Nat → DRAM κ n) : DRAM κ (n + 1)

/-- How many of the newest commands a table looks back on. -/
def historySize (entries : List (TimingEntry κ)) : Nat := entries.foldl (fun dist e => max dist e.dist) 0

/-- A node that no command has passed. -/
def Timing.start (spec : Spec κ) (level : Nat) : Timing κ where
  next _ := -1
  prev cmd := List.replicate (historySize (spec.timing level cmd)) (-1)

/-- The constructor of a device. -/
def DRAM.create (spec : Spec κ) : (n : Nat) → Nat → DRAM κ n
  | 0, level => .leaf (.start spec level)
  | n + 1, level => .node (.start spec level) fun _ => create spec n (level + 1)

variable [DecidableEq κ]

/-- Raise the earliest cycles that the entries of a table bound. -/
def raise (bound : TimingEntry κ → Option Int) (entries : List (TimingEntry κ)) (next : κ → Int) : κ → Int :=
  entries.foldl (fun next e =>
    match bound e with
    | none => next
    | some future => Function.update next e.cmd (max (next e.cmd) future)) next

/-- A command is issued to a sibling of a node. -/
def Timing.siblingIssued (entries : List (TimingEntry κ)) (clk : Int) (t : Timing κ) : Timing κ :=
  { t with next := raise (fun e => if e.sibling then some (clk + e.val) else none) entries t.next }

/-- A command is issued to a node or below it. -/
def Timing.issued (entries : List (TimingEntry κ)) (cmd : κ) (clk : Int) (t : Timing κ) : Timing κ :=
  let prev := if (t.prev cmd).isEmpty then t.prev else Function.update t.prev cmd (clk :: (t.prev cmd).dropLast)
  { prev
    next := raise (fun e =>
      if e.sibling then none
      else
        let past := (prev cmd).getD (e.dist - 1) (-1)
        -- not enough history
        if past < 0 then none else some (past + e.val)) entries t.next }

/-- `update_timing`, at a node with an id. -/
def DRAM.updateTiming (spec : Spec κ) (cmd : κ) (addr : Nat → Nat) (clk : Int) :
    {n : Nat} → (level id : Nat) → DRAM κ n → DRAM κ n
  | _, level, id, .leaf t =>
    if id = addr level then .leaf (t.issued (spec.timing level cmd) cmd clk)
    else .leaf (t.siblingIssued (spec.timing level cmd) clk)
  | _, level, id, .node t children =>
    if id = addr level then
      .node (t.issued (spec.timing level cmd) cmd clk) fun i =>
        (children i).updateTiming spec cmd addr clk (level + 1) i
    else .node (t.siblingIssued (spec.timing level cmd) clk) children

/-- Whether a node lets a command pass. -/
def Timing.allows (t : Timing κ) (cmd : κ) (clk : Int) : Bool := !(t.next cmd != -1 && decide (clk < t.next cmd))

/-- `check`, at a node of a level. -/
def DRAM.check (spec : Spec κ) (cmd : κ) (addr : Nat → Nat) (clk : Int) : {n : Nat} → Nat → DRAM κ n → Bool
  | _, _, .leaf t => t.allows cmd clk
  | _, level, .node t children =>
    t.allows cmd clk &&
      (level == spec.scope cmd || (children (addr (level + 1))).check spec cmd addr clk (level + 1))

/-- `get_next`, at a node of a level: the earliest cycle on the way down to the scope, from `clk` on. -/
def DRAM.getNext (spec : Spec κ) (cmd : κ) (addr : Nat → Nat) : {n : Nat} → Nat → Int → DRAM κ n → Int
  | _, _, clk, .leaf t => max clk (t.next cmd)
  | _, level, clk, .node t children =>
    if level < spec.scope cmd then
      (children (addr (level + 1))).getNext spec cmd addr (level + 1) (max clk (t.next cmd))
    else max clk (t.next cmd)

/-- A command on its way to an address, in a cycle. -/
structure Issue (κ : Type) where
  cmd : κ
  addr : Nat → Nat
  clk : Nat

/-- The device after a history of commands, the newest first. -/
def DRAM.after (spec : Spec κ) : List (Issue κ) → DRAM κ spec.depth
  | [] => .create spec spec.depth 0
  | i :: history => (after spec history).updateTiming spec i.cmd i.addr i.clk 0 0

/-- `cur_clk`: the cycle of the last command. -/
def curClk : List (Issue κ) → Nat
  | [] => 0
  | i :: _ => i.clk

/-! ## Rules over the history -/

/-- Whether a command went to the parent of the node on an address at a level. -/
def Issue.reaches (i : Issue κ) (level : Nat) (addr : Nat → Nat) : Bool :=
  (List.range level).all fun k => i.addr k == addr k

/-- The cycles of the commands of a kind that passed the node on an address at a level. -/
def targets (history : List (Issue κ)) (level : Nat) (addr : Nat → Nat) (cmd : κ) : List Int :=
  (history.filter fun i => decide (i.cmd = cmd) && i.reaches (level + 1) addr).map fun i => (i.clk : Int)

/-- The cycles of the commands of a kind that passed a sibling of that node. -/
def siblings (history : List (Issue κ)) (level : Nat) (addr : Nat → Nat) (cmd : κ) : List Int :=
  (history.filter fun i => decide (i.cmd = cmd) && i.reaches level addr && i.addr level != addr level).map
    fun i => (i.clk : Int)

/-- A cycle keeps a rule of a table, behind the commands that the table is about. -/
def TimingEntry.Kept (e : TimingEntry κ) (targets siblings : List Int) (clk : Int) : Prop :=
  if e.sibling then Spaced 1 e.val siblings clk else Spaced e.dist e.val targets clk

/-- A command to an address keeps every rule of the tables of a level in a cycle. -/
def Spec.Allows (spec : Spec κ) (history : List (Issue κ)) (level : Nat) (cmd : κ) (addr : Nat → Nat) (clk : Int) :
    Prop :=
  ∀ earlier, ∀ e ∈ spec.timing level earlier, e.cmd = cmd →
    e.Kept (targets history level addr earlier) (siblings history level addr earlier) clk

/-! ## One node -/

/-- The earliest cycles after a table has raised them. -/
theorem raise_le_iff (bound : TimingEntry κ → Option Int) (entries : List (TimingEntry κ)) (next : κ → Int) (cmd : κ)
    (clk : Int) :
    raise bound entries next cmd ≤ clk ↔
      next cmd ≤ clk ∧ ∀ e ∈ entries, e.cmd = cmd → ∀ future, bound e = some future → future ≤ clk := by
  induction entries generalizing next with
  | nil => simp [raise]
  | cons e entries ih =>
    rw [raise, List.foldl_cons]
    change raise bound entries _ cmd ≤ clk ↔ _
    rw [ih, List.forall_mem_cons]
    cases hbound : bound e with
    | none => simp
    | some future =>
      by_cases hcmd : e.cmd = cmd
      · subst hcmd
        simp [and_assoc]
      · simp [hcmd, Function.update_of_ne (Ne.symm hcmd)]

omit [DecidableEq κ] in
/-- No earliest cycle is after every cycle. -/
theorem Timing.allows_iff {t : Timing κ} {cmd : κ} {clk : Int} (hclk : 0 ≤ clk) :
    t.allows cmd clk = true ↔ t.next cmd ≤ clk := by
  by_cases hnext : t.next cmd = -1
  · simp only [allows, hnext, bne_self_eq_false, Bool.false_and, Bool.not_false, true_iff]
    omega
  · simp [allows, hnext]

omit [DecidableEq κ] in
/-- A table looks back as far as each of its entries. -/
theorem le_historySize {entries : List (TimingEntry κ)} {e : TimingEntry κ} (he : e ∈ entries) :
    e.dist ≤ historySize entries := by
  have hfold : ∀ (rest : List (TimingEntry κ)) (size : Nat),
      size ≤ rest.foldl (fun dist e => max dist e.dist) size ∧
        ∀ e ∈ rest, e.dist ≤ rest.foldl (fun dist e => max dist e.dist) size := by
    intro rest
    induction rest with
    | nil => simp
    | cons e rest ih =>
      intro size
      rw [List.foldl_cons, List.forall_mem_cons]
      have hrest := ih (max size e.dist)
      have hmax := le_max_left size e.dist
      have hdist := le_max_right size e.dist
      exact ⟨hmax.trans hrest.1, hdist.trans hrest.1, hrest.2⟩
  exact (hfold entries 0).2 e he

/-- A node follows a history: its earliest cycles are the ones of the rules, and its windows show the newest
commands. -/
structure Timing.Follows (spec : Spec κ) (history : List (Issue κ)) (level : Nat) (addr : Nat → Nat) (t : Timing κ) :
    Prop where
  next : ∀ cmd (clk : Int), 0 ≤ clk → (t.next cmd ≤ clk ↔ spec.Allows history level cmd addr clk)
  prev : ∀ cmd, t.prev cmd = window (historySize (spec.timing level cmd)) (-1) (targets history level addr cmd)

variable {spec : Spec κ} {history : List (Issue κ)} {level : Nat} {addr : Nat → Nat} {t : Timing κ} {i : Issue κ}

/-- A node that no command has passed follows the empty history. -/
theorem Timing.start_follows (spec : Spec κ) (level : Nat) (addr : Nat → Nat) :
    (Timing.start spec level).Follows spec [] level addr where
  next cmd clk hclk := by
    have hnext : (-1 : Int) ≤ clk := by omega
    simp [Timing.start, Spec.Allows, TimingEntry.Kept, targets, siblings, hnext]
  prev cmd := by simp [Timing.start, targets]

/-- The commands to a node, with one more. -/
theorem targets_cons (i : Issue κ) (history : List (Issue κ)) (level : Nat) (addr : Nat → Nat) (cmd : κ) :
    targets (i :: history) level addr cmd =
      if i.cmd = cmd ∧ i.reaches (level + 1) addr = true then (i.clk : Int) :: targets history level addr cmd
      else targets history level addr cmd := by
  rw [targets, List.filter_cons, targets]
  by_cases h : i.cmd = cmd ∧ i.reaches (level + 1) addr = true <;> simp [h]

/-- The commands to the siblings of a node, with one more. -/
theorem siblings_cons (i : Issue κ) (history : List (Issue κ)) (level : Nat) (addr : Nat → Nat) (cmd : κ) :
    siblings (i :: history) level addr cmd =
      if i.cmd = cmd ∧ i.reaches level addr = true ∧ i.addr level ≠ addr level then
        (i.clk : Int) :: siblings history level addr cmd
      else siblings history level addr cmd := by
  rw [siblings, List.filter_cons, siblings]
  by_cases h : i.cmd = cmd ∧ i.reaches level addr = true ∧ i.addr level ≠ addr level
  · simp [h]
  · rw [if_neg h, if_neg]
    simp only [Bool.and_eq_true, decide_eq_true_eq, bne_iff_ne, ne_eq]
    rwa [and_assoc]

omit [DecidableEq κ] in
/-- A command that goes to a node goes to its parent. -/
theorem Issue.reaches_succ (i : Issue κ) (level : Nat) (addr : Nat → Nat) :
    i.reaches (level + 1) addr = true ↔ i.reaches level addr = true ∧ i.addr level = addr level := by
  simp [Issue.reaches, List.range_succ]

/-- A command that goes elsewhere leaves a node as it is. -/
theorem Timing.Follows.skip (h : t.Follows spec history level addr) (hi : i.reaches level addr = false) :
    t.Follows spec (i :: history) level addr := by
  have htargets : ∀ cmd, targets (i :: history) level addr cmd = targets history level addr cmd := by
    intro cmd
    rw [targets_cons, if_neg]
    rw [Issue.reaches_succ, hi]
    simp
  have hsiblings : ∀ cmd, siblings (i :: history) level addr cmd = siblings history level addr cmd := by
    intro cmd
    rw [siblings_cons, if_neg]
    rw [hi]
    simp
  constructor
  · intro cmd clk hclk
    rw [h.next cmd clk hclk]
    simp only [Spec.Allows, htargets, hsiblings]
  · intro cmd
    rw [h.prev, htargets]

/-- What the rules of a level ask of a command after one more command. -/
theorem Spec.allows_cons {cmd : κ} {clk : Int} (bounded : TimingEntry κ → Prop)
    (hkept : ∀ e : TimingEntry κ,
      e.Kept (targets (i :: history) level addr i.cmd) (siblings (i :: history) level addr i.cmd) clk ↔
        bounded e ∧ e.Kept (targets history level addr i.cmd) (siblings history level addr i.cmd) clk) :
    spec.Allows (i :: history) level cmd addr clk ↔
      spec.Allows history level cmd addr clk ∧ ∀ e ∈ spec.timing level i.cmd, e.cmd = cmd → bounded e := by
  have hother : ∀ earlier, earlier ≠ i.cmd →
      targets (i :: history) level addr earlier = targets history level addr earlier ∧
        siblings (i :: history) level addr earlier = siblings history level addr earlier := by
    intro earlier hne
    rw [targets_cons, siblings_cons, if_neg fun h => hne h.1.symm, if_neg fun h => hne h.1.symm]
    exact ⟨rfl, rfl⟩
  constructor
  · intro h
    refine ⟨fun earlier e he hcmd => ?_, fun e he hcmd => ((hkept e).1 (h i.cmd e he hcmd)).1⟩
    have hnow := h earlier e he hcmd
    by_cases hearlier : earlier = i.cmd
    · rw [hearlier] at hnow ⊢
      exact ((hkept e).1 hnow).2
    · rwa [(hother earlier hearlier).1, (hother earlier hearlier).2] at hnow
  · intro h earlier e he hcmd
    have hbefore := h.1 earlier e he hcmd
    by_cases hearlier : earlier = i.cmd
    · rw [hearlier] at he hbefore ⊢
      exact (hkept e).2 ⟨h.2 e he hcmd, hbefore⟩
    · rwa [(hother earlier hearlier).1, (hother earlier hearlier).2]

/-- A command to a sibling sets the bounds of the sibling rules. -/
theorem Timing.Follows.siblingIssued (h : t.Follows spec history level addr) (hparent : i.reaches level addr = true)
    (hi : i.addr level ≠ addr level) :
    (t.siblingIssued (spec.timing level i.cmd) i.clk).Follows spec (i :: history) level addr := by
  have htargets : ∀ cmd, targets (i :: history) level addr cmd = targets history level addr cmd := by
    intro cmd
    rw [targets_cons, if_neg]
    rw [Issue.reaches_succ]
    exact fun hall => hi hall.2.2
  have hsiblings : siblings (i :: history) level addr i.cmd = (i.clk : Int) :: siblings history level addr i.cmd := by
    rw [siblings_cons, if_pos ⟨rfl, hparent, hi⟩]
  constructor
  · intro cmd clk hclk
    rw [Timing.siblingIssued, raise_le_iff, h.next cmd clk hclk]
    rw [Spec.allows_cons (fun e => ∀ future,
      (if e.sibling then some ((i.clk : Int) + e.val) else none) = some future → future ≤ clk)]
    intro e
    rw [htargets, hsiblings, TimingEntry.Kept, TimingEntry.Kept]
    by_cases hsibling : e.sibling = true
    · simp [hsibling, spaced_cons]
    · simp [hsibling]
  · intro cmd
    rw [htargets]
    exact h.prev cmd

/-- A command to a node sets the bounds of the other rules. -/
theorem Timing.Follows.issued (h : t.Follows spec history level addr) (hi : i.reaches (level + 1) addr = true) :
    (t.issued (spec.timing level i.cmd) i.cmd i.clk).Follows spec (i :: history) level addr := by
  have htargets : targets (i :: history) level addr i.cmd = (i.clk : Int) :: targets history level addr i.cmd := by
    rw [targets_cons, if_pos ⟨rfl, hi⟩]
  have hsiblings : ∀ cmd, siblings (i :: history) level addr cmd = siblings history level addr cmd := by
    intro cmd
    rw [siblings_cons, if_neg]
    exact fun hall => hall.2.2 ((i.reaches_succ level addr).1 hi).2
  have hprev : ∀ cmd, (t.issued (spec.timing level i.cmd) i.cmd i.clk).prev cmd =
      window (historySize (spec.timing level cmd)) (-1) (targets (i :: history) level addr cmd) := by
    intro cmd
    rw [Timing.issued]
    by_cases hcmd : cmd = i.cmd
    · rw [hcmd, htargets]
      dsimp only
      rw [h.prev]
      cases hsize : historySize (spec.timing level i.cmd) with
      | zero => simp [window, h.prev, hsize]
      | succ size =>
        rw [window_cons (Nat.succ_pos size), if_neg (by simp [List.isEmpty_iff, ← List.length_eq_zero_iff]),
          Function.update_self]
    · have hsame : targets (i :: history) level addr cmd = targets history level addr cmd := by
        rw [targets_cons, if_neg fun hall => hcmd hall.1.symm]
      rw [hsame, ← h.prev cmd]
      dsimp only
      split_ifs
      · rfl
      · rw [Function.update_of_ne hcmd]
  refine ⟨?_, hprev⟩
  intro cmd clk hclk
  -- the bound of a rule is the one that the `dist` last command sets, if there are as many
  rw [show (t.issued (spec.timing level i.cmd) i.cmd i.clk).next = raise (fun e =>
      if e.sibling then none
      else if ((t.issued (spec.timing level i.cmd) i.cmd i.clk).prev i.cmd).getD (e.dist - 1) (-1) < 0 then none
      else some (((t.issued (spec.timing level i.cmd) i.cmd i.clk).prev i.cmd).getD (e.dist - 1) (-1) + e.val))
      (spec.timing level i.cmd) t.next from rfl, raise_le_iff, h.next cmd clk hclk]
  rw [Spec.allows_cons (fun e => e.sibling = true ∨ ∀ p,
    (targets (i :: history) level addr i.cmd)[e.dist - 1]? = some p → p + e.val ≤ clk)]
  · have hpast : ∀ p ∈ targets (i :: history) level addr i.cmd, 0 ≤ p := by
      intro p hp
      rw [targets, List.mem_map] at hp
      cases hp with
      | intro j hj =>
        rw [← hj.2]
        exact Int.natCast_nonneg j.clk
    refine and_congr_right fun _ => forall₃_congr fun e he hcmd => ?_
    have hdist := spec.dist_pos level i.cmd e he
    have hsize := le_historySize he
    rw [hprev, List.getD_eq_getElem?_getD, window_getElem? (by omega), Option.getD_some]
    cases hget : (targets (i :: history) level addr i.cmd)[e.dist - 1]? with
    | none => simp
    | some p =>
      have hp := hpast p (List.mem_of_getElem? hget)
      by_cases hsibling : e.sibling = true
      · simp [hsibling]
      · simp [hsibling, Int.not_lt.2 hp]
  · intro e
    rw [hsiblings, TimingEntry.Kept, TimingEntry.Kept]
    by_cases hsibling : e.sibling = true
    · simp [hsibling]
    · simp [hsibling, htargets, spaced_cons]

/-! ## The tree -/

namespace DRAM

/-- Every node of a tree follows a history; the address tells the way to its root. -/
def Follows (spec : Spec κ) (history : List (Issue κ)) : {n : Nat} → Nat → (Nat → Nat) → DRAM κ n → Prop
  | _, level, addr, .leaf t => t.Follows spec history level addr
  | _, level, addr, .node t children =>
    t.Follows spec history level addr ∧
      ∀ id, (children id).Follows spec history (level + 1) (Function.update addr (level + 1) id)

/-- A new device follows the empty history. -/
theorem create_follows (spec : Spec κ) (n level : Nat) (addr : Nat → Nat) :
    (create spec n level).Follows spec [] level addr := by
  induction n generalizing level addr with
  | zero => exact Timing.start_follows spec level addr
  | succ n ih => exact ⟨Timing.start_follows spec level addr, fun id => ih (level + 1) _⟩

omit [DecidableEq κ] in
/-- The way to a node is the same for a command to the node and to its child. -/
theorem reaches_update (i : Issue κ) (level id : Nat) (addr : Nat → Nat) :
    i.reaches (level + 1) (Function.update addr (level + 1) id) = i.reaches (level + 1) addr := by
  rw [Bool.eq_iff_iff]
  simp only [Issue.reaches, List.all_eq_true, List.mem_range, beq_iff_eq]
  refine forall₂_congr fun k hk => ?_
  rw [Function.update_of_ne (Nat.ne_of_lt hk)]

/-- A command that goes elsewhere leaves a tree as it is. -/
theorem Follows.skip {n : Nat} {tree : DRAM κ n} (h : tree.Follows spec history level addr)
    (hi : i.reaches level addr = false) : tree.Follows spec (i :: history) level addr := by
  induction tree generalizing level addr with
  | leaf t => exact Timing.Follows.skip h hi
  | node t children ih =>
    refine ⟨h.1.skip hi, fun id => ih id (h.2 id) ?_⟩
    rw [reaches_update, Bool.eq_false_iff, ne_eq, Issue.reaches_succ, hi]
    simp

/-- `update_timing` keeps every node in step with the history. -/
theorem Follows.updateTiming {n : Nat} {tree : DRAM κ n} (h : tree.Follows spec history level addr)
    (hparent : i.reaches level addr = true) :
    (tree.updateTiming spec i.cmd i.addr i.clk level (addr level)).Follows spec (i :: history) level addr := by
  induction tree generalizing level addr with
  | leaf t =>
    rw [DRAM.updateTiming]
    split_ifs with hi
    · exact Timing.Follows.issued h ((i.reaches_succ level addr).2 ⟨hparent, hi.symm⟩)
    · exact Timing.Follows.siblingIssued h hparent (Ne.symm hi)
  | node t children ih =>
    rw [DRAM.updateTiming]
    split_ifs with hi
    · have hreaches := (i.reaches_succ level addr).2 ⟨hparent, hi.symm⟩
      refine ⟨h.1.issued hreaches, fun id => ?_⟩
      have hchild := ih id (h.2 id) ((reaches_update i level id addr).trans hreaches)
      rwa [Function.update_self] at hchild
    · refine ⟨h.1.siblingIssued hparent (Ne.symm hi), fun id => (h.2 id).skip ?_⟩
      rw [reaches_update, Bool.eq_false_iff, ne_eq, Issue.reaches_succ]
      exact fun hall => hi hall.2.symm

/-- A device follows the history of its commands. -/
theorem after_follows (spec : Spec κ) (history : List (Issue κ)) :
    (after spec history).Follows spec history 0 fun _ => 0 := by
  induction history with
  | nil => exact create_follows spec spec.depth 0 _
  | cons i history ih => exact Follows.updateTiming ih (by simp [Issue.reaches])

/-- What a node follows reads no more of an address than the way to the node. -/
theorem timing_follows_congr {addr' : Nat → Nat} (haddr : ∀ k ≤ level, addr k = addr' k) :
    t.Follows spec history level addr ↔ t.Follows spec history level addr' := by
  have hreaches : ∀ i : Issue κ, ∀ n ≤ level + 1, i.reaches n addr = i.reaches n addr' := by
    intro i n hn
    rw [Bool.eq_iff_iff]
    simp only [Issue.reaches, List.all_eq_true, List.mem_range, beq_iff_eq]
    exact forall₂_congr fun k hk => by rw [haddr k (by omega)]
  have htargets : ∀ cmd, targets history level addr cmd = targets history level addr' cmd := by
    intro cmd
    simp only [targets, hreaches _ (level + 1) (Nat.le_refl _)]
  have hsiblings : ∀ cmd, siblings history level addr cmd = siblings history level addr' cmd := by
    intro cmd
    simp only [siblings, hreaches _ level (Nat.le_succ level), haddr level (Nat.le_refl level)]
  constructor
  · exact fun h => ⟨fun cmd clk hclk => by simpa only [Spec.Allows, htargets, hsiblings] using h.next cmd clk hclk,
      fun cmd => by simpa only [htargets] using h.prev cmd⟩
  · exact fun h => ⟨fun cmd clk hclk => by simpa only [Spec.Allows, htargets, hsiblings] using h.next cmd clk hclk,
      fun cmd => by simpa only [htargets] using h.prev cmd⟩

/-- Nor does a tree. -/
theorem Follows.congr {n : Nat} {tree : DRAM κ n} {addr' : Nat → Nat} (h : tree.Follows spec history level addr)
    (haddr : ∀ k ≤ level, addr k = addr' k) : tree.Follows spec history level addr' := by
  induction tree generalizing level addr addr' with
  | leaf t => exact (timing_follows_congr haddr).1 h
  | node t children ih =>
    refine ⟨(timing_follows_congr haddr).1 h.1, fun id => ih id (h.2 id) ?_⟩
    intro k hk
    cases Nat.lt_or_eq_of_le hk with
    | inl hless =>
      rw [Function.update_of_ne (Nat.ne_of_lt hless), Function.update_of_ne (Nat.ne_of_lt hless)]
      exact haddr k (Nat.le_of_lt_succ hless)
    | inr heq => rw [heq, Function.update_self, Function.update_self]

/-- `check`, at a node on the way to an address, is exact for the rules from there down to the scope. -/
theorem Follows.check_iff {n : Nat} {tree : DRAM κ n} {cmd : κ} {clk : Int}
    (h : tree.Follows spec history level addr) (hlevel : level ≤ spec.scope cmd) (hclk : 0 ≤ clk) :
    tree.check spec cmd addr clk level = true ↔
      ∀ l, level ≤ l → l ≤ level + n → l ≤ spec.scope cmd → spec.Allows history l cmd addr clk := by
  induction tree generalizing level with
  | leaf t =>
    rw [DRAM.check, Timing.allows_iff hclk, Timing.Follows.next h cmd clk hclk]
    constructor
    · intro hallows l hlo hhi _
      rwa [Nat.le_antisymm hhi hlo]
    · exact fun hall => hall level (Nat.le_refl _) (Nat.le_refl _) hlevel
  | @node n t children ih =>
    rw [DRAM.check, Bool.and_eq_true, Timing.allows_iff hclk, Timing.Follows.next h.1 cmd clk hclk, Bool.or_eq_true,
      beq_iff_eq]
    by_cases hscope : level = spec.scope cmd
    · constructor
      · intro hallows l hlo _ hhi
        rw [Nat.le_antisymm (hscope ▸ hhi) hlo]
        exact hallows.1
      · exact fun hall => ⟨hall level (Nat.le_refl _) (Nat.le_add_right _ _) hlevel, .inl hscope⟩
    · have hchild : (children (addr (level + 1))).Follows spec history (level + 1) addr := by
        have hfollows := h.2 (addr (level + 1))
        rwa [Function.update_eq_self] at hfollows
      rw [ih (addr (level + 1)) hchild (by omega)]
      constructor
      · intro hallows l hlo hhi hl
        cases Nat.lt_or_eq_of_le hlo with
        | inl hless => exact hallows.2.resolve_left hscope l hless (by omega) hl
        | inr heq =>
          rw [← heq]
          exact hallows.1
      · intro hall
        refine ⟨hall level (Nat.le_refl _) (Nat.le_add_right _ _) hlevel, .inr fun l hlo hhi hl => ?_⟩
        exact hall l (by omega) (by omega) hl

/-- `check` is exact for the rules of the levels down to the scope. -/
theorem check_after_iff (spec : Spec κ) (history : List (Issue κ)) (cmd : κ) {addr : Nat → Nat} (haddr : addr 0 = 0)
    (clk : Nat) :
    (after spec history).check spec cmd addr clk 0 = true ↔
      ∀ level ≤ spec.depth, level ≤ spec.scope cmd → spec.Allows history level cmd addr clk := by
  have hfollows : (after spec history).Follows spec history 0 addr := by
    apply (after_follows spec history).congr
    intro k hk
    rw [Nat.le_zero.1 hk, haddr]
  rw [hfollows.check_iff (Nat.zero_le _) (Int.natCast_nonneg clk)]
  simp

omit [DecidableEq κ] in
/-- The earliest cycle is the first one in which `check` succeeds. -/
theorem getNext_le_iff {n : Nat} (tree : DRAM κ n) (cmd : κ) (hlevel : level ≤ spec.scope cmd) (start : Int) {clk : Int}
    (hclk : 0 ≤ clk) :
    tree.getNext spec cmd addr level start ≤ clk ↔ start ≤ clk ∧ tree.check spec cmd addr clk level = true := by
  induction tree generalizing level start with
  | leaf t => rw [getNext, DRAM.check, max_le_iff, Timing.allows_iff hclk]
  | node t children ih =>
    rw [getNext, DRAM.check, Bool.and_eq_true, Timing.allows_iff hclk, Bool.or_eq_true, beq_iff_eq]
    by_cases hless : level < spec.scope cmd
    · rw [if_pos hless, ih _ hless, max_le_iff, and_assoc, or_iff_right (Nat.ne_of_lt hless)]
    · rw [if_neg hless, max_le_iff, or_iff_left_of_imp fun _ => Nat.le_antisymm hlevel (Nat.le_of_not_lt hless)]
      simp [Nat.le_antisymm hlevel (Nat.le_of_not_lt hless)]

/-- The incremental tables are exact. After any commands, a device lets a command pass in a cycle if and only if that
keeps all rules that stand at a level down to the scope of the command, over the whole history; and `get_next` is the
first cycle, from the last command on, in which it does. -/
theorem check_exact (spec : Spec κ) (history : List (Issue κ)) (cmd : κ) (addr : Nat → Nat) (haddr : addr 0 = 0)
    (clk : Nat) :
    ((after spec history).check spec cmd addr clk 0 = true ↔
        ∀ level ≤ spec.depth, level ≤ spec.scope cmd → spec.Allows history level cmd addr clk) ∧
      ((after spec history).getNext spec cmd addr 0 (curClk history) ≤ clk ↔
        curClk history ≤ clk ∧ (after spec history).check spec cmd addr clk 0 = true) := by
  refine ⟨check_after_iff spec history cmd haddr clk, ?_⟩
  rw [getNext_le_iff _ _ (Nat.zero_le _) _ (Int.natCast_nonneg clk), Int.ofNat_le]

/-- Two banks of one channel: a command keeps two cycles behind any other and five behind one of its bank. -/
def twoBanks : Spec Unit where
  depth := 1
  scope _ := 1
  timing level _ := if level = 0 then [⟨(), 1, 2, false⟩] else [⟨(), 1, 5, false⟩]
  dist_pos level _ e he := by
    split at he <;> rw [List.mem_singleton.1 he] <;> exact Nat.one_pos

/-- After a command to a bank in cycle 3, its bank is open again in cycle 8, the other one in cycle 5. -/
theorem check_exact_twoBanks :
    (after twoBanks [⟨(), fun _ => 0, 3⟩]).check twoBanks () (fun _ => 0) 7 0 = false ∧
      ¬ (∀ level ≤ 1, level ≤ 1 → twoBanks.Allows [⟨(), fun _ => 0, 3⟩] level () (fun _ => 0) 7) ∧
      ∀ level ≤ 1, level ≤ 1 → twoBanks.Allows [⟨(), fun _ => 0, 3⟩] level () (fun level => level) 5 := by
  have hbank := (check_exact twoBanks [⟨(), fun _ => 0, 3⟩] () (fun _ => 0) rfl 7).1
  have hother := (check_exact twoBanks [⟨(), fun _ => 0, 3⟩] () (fun level => level) rfl 5).1
  refine ⟨by decide, fun h => ?_, hother.1 (by decide)⟩
  exact absurd (hbank.2 h) (by decide)

end DRAM

end Octopus.MCsim
