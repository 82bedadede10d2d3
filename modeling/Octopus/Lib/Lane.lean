import Mathlib.Data.List.Forall2
import Mathlib.Data.List.Basic

/-!
# A lane that carries one item at a time

A lane takes an item, carries it for a fixed number of steps and then sends it; a step may also
be held, in which case the item makes no progress. The history of a lane is what it took, what
it sent and which steps were held, each with the step it happened in. `Lane.Conserves` says what
is expected of such a history, and `Lane.Carrying` is the invariant that a device with a
countdown keeps: one lemma for each thing a device can do in a step.
-/

namespace Octopus.Lib

/-- An item with the step something happened to it in. -/
structure Stamped (α : Type*) where
  time : Nat
  item : α
  deriving DecidableEq

/-- The history of a lane up to the step `now`. -/
structure Lane (α : Type*) where
  /-- The number of steps so far. -/
  now : Nat := 0
  /-- The items taken, in the order taken. -/
  taken : List (Stamped α) := []
  /-- The items sent, in the order sent. -/
  sent : List (Stamped α) := []
  /-- The steps that were held. -/
  held : List Nat := []
  deriving DecidableEq

namespace Lane

variable {α : Type*}

/-- The lane takes an item in this step. -/
def take (l : Lane α) (x : α) : Lane α :=
  { l with taken := l.taken ++ [⟨l.now, x⟩] }

/-- The lane sends an item in this step. -/
def send (l : Lane α) (x : α) : Lane α :=
  { l with sent := l.sent ++ [⟨l.now, x⟩] }

/-- This step is held. -/
def hold (l : Lane α) : Lane α :=
  { l with held := l.held ++ [l.now] }

/-- The step is over. -/
def tick (l : Lane α) : Lane α :=
  { l with now := l.now + 1 }

/-- How many of the steps from `a` on and before `b` were held. -/
def heldBetween (l : Lane α) (a b : Nat) : Nat :=
  l.held.countP fun h => a ≤ h && h < b

@[simp] theorem now_take (l : Lane α) (x : α) : (l.take x).now = l.now := rfl

@[simp] theorem now_send (l : Lane α) (x : α) : (l.send x).now = l.now := rfl

@[simp] theorem now_hold (l : Lane α) : l.hold.now = l.now := rfl

@[simp] theorem now_tick (l : Lane α) : l.tick.now = l.now + 1 := rfl

@[simp] theorem taken_take (l : Lane α) (x : α) : (l.take x).taken = l.taken ++ [⟨l.now, x⟩] := rfl

@[simp] theorem taken_send (l : Lane α) (x : α) : (l.send x).taken = l.taken := rfl

@[simp] theorem taken_hold (l : Lane α) : l.hold.taken = l.taken := rfl

@[simp] theorem taken_tick (l : Lane α) : l.tick.taken = l.taken := rfl

@[simp] theorem sent_take (l : Lane α) (x : α) : (l.take x).sent = l.sent := rfl

@[simp] theorem sent_send (l : Lane α) (x : α) : (l.send x).sent = l.sent ++ [⟨l.now, x⟩] := rfl

@[simp] theorem sent_hold (l : Lane α) : l.hold.sent = l.sent := rfl

@[simp] theorem sent_tick (l : Lane α) : l.tick.sent = l.sent := rfl

@[simp] theorem held_take (l : Lane α) (x : α) : (l.take x).held = l.held := rfl

@[simp] theorem held_send (l : Lane α) (x : α) : (l.send x).held = l.held := rfl

@[simp] theorem held_tick (l : Lane α) : l.tick.held = l.held := rfl

@[simp] theorem heldBetween_take (l : Lane α) (x : α) (a b : Nat) :
    (l.take x).heldBetween a b = l.heldBetween a b := rfl

@[simp] theorem heldBetween_send (l : Lane α) (x : α) (a b : Nat) :
    (l.send x).heldBetween a b = l.heldBetween a b := rfl

@[simp] theorem heldBetween_tick (l : Lane α) (a b : Nat) :
    l.tick.heldBetween a b = l.heldBetween a b := rfl

/-- Holding this step changes no count that ends before it. -/
theorem heldBetween_hold_of_le (l : Lane α) (a : Nat) {b : Nat} (h : b ≤ l.now) :
    l.hold.heldBetween a b = l.heldBetween a b := by
  simp [heldBetween, hold, List.countP_append]
  omega

/-- Holding this step counts once from any earlier step on. -/
theorem heldBetween_hold_succ (l : Lane α) {a : Nat} (h : a ≤ l.now) :
    l.hold.heldBetween a (l.now + 1) = l.heldBetween a (l.now + 1) + 1 := by
  simp [heldBetween, hold, List.countP_append, h]

/-- A sent item is the one taken, `d` steps after it was taken and the held ones. -/
def OnTime (l : Lane α) (d : Nat) (t s : Stamped α) : Prop :=
  s.item = t.item ∧ s.time = t.time + d + l.heldBetween t.time s.time

/-- What a lane with `d` steps of delay owes its users: the items sent are those taken, one for
one, in the order taken and on time, except for at most one that is still under way and not
overdue; and none was taken before the one taken last was sent. -/
def Conserves (l : Lane α) (d : Nat) : Prop :=
  (∃ finished underway, l.taken = finished ++ underway ∧ underway.length ≤ 1 ∧
    List.Forall₂ (l.OnTime d) finished l.sent ∧
    ∀ t ∈ underway, l.now ≤ t.time + d + l.heldBetween t.time l.now) ∧
  l.taken.Pairwise fun a b => a.time + d < b.time

/-- The passages of a lane that carries `o`: the item under way with the number of steps it
has made. -/
def Passages (l : Lane α) (d : Nat) : Option (α × Nat) → Prop
  | none => List.Forall₂ (l.OnTime d) l.taken l.sent
  | some (x, clk) => ∃ finished since, l.taken = finished ++ [⟨since, x⟩] ∧
      List.Forall₂ (l.OnTime d) finished l.sent ∧ clk ≤ d ∧ since ≤ l.now ∧
      l.now = since + clk + l.heldBetween since l.now

/-- The invariant of a device that keeps at most one item and counts its steps. -/
structure Carrying (l : Lane α) (d : Nat) (o : Option (α × Nat)) : Prop where
  /-- Finished passages were on time, and the item under way is the last one taken. -/
  passages : l.Passages d o
  /-- Nothing was sent in a step to come. -/
  past : ∀ s ∈ l.sent, s.time < l.now
  /-- No item was taken while another was under way. -/
  spaced : l.taken.Pairwise fun a b => a.time + d < b.time
  /-- No step to come was held. -/
  heldPast : ∀ h ∈ l.held, h < l.now

variable {l : Lane α} {d : Nat} {o : Option (α × Nat)}

/-- A lane without a history carries nothing. -/
theorem carrying_init (now d : Nat) : ({ now := now } : Lane α).Carrying d none where
  passages := List.Forall₂.nil
  past := by simp
  spaced := .nil
  heldPast := by simp

/-- What is finished was sent, at the earliest `d` steps after it was taken. -/
theorem exists_sent_of_finished {finished sent : List (Stamped α)}
    (h : List.Forall₂ (l.OnTime d) finished sent) {t : Stamped α} (ht : t ∈ finished) :
    ∃ s ∈ sent, t.time + d ≤ s.time := by
  induction h with
  | nil => simp at ht
  | cons hts _ ih =>
    rcases List.mem_cons.1 ht with rfl | ht
    · exact ⟨_, List.mem_cons_self, by rw [hts.2]; omega⟩
    · obtain ⟨s, hs, hle⟩ := ih ht
      exact ⟨s, by simp [hs], hle⟩

/-- Holding a step changes nothing for what was sent before. -/
theorem forall₂_hold {finished : List (Stamped α)} (hpast : ∀ s ∈ l.sent, s.time < l.now)
    (h : List.Forall₂ (l.OnTime d) finished l.sent) :
    List.Forall₂ (l.hold.OnTime d) finished l.hold.sent := by
  rw [sent_hold]
  have hmem : ∀ s ∈ l.sent, ∀ t, l.OnTime d t s → l.hold.OnTime d t s := by
    intro s hs t hts
    unfold OnTime
    rw [heldBetween_hold_of_le l t.time (Nat.le_of_lt (hpast s hs))]
    exact hts
  generalize l.sent = sent at h hmem
  induction h with
  | nil => exact .nil
  | cons hts _ ih => exact .cons (hmem _ (by simp) _ hts) (ih fun s hs => hmem s (by simp [hs]))

/-- A count up to the current step also counts up to the next, until that step is held. -/
theorem Carrying.heldBetween_succ (h : l.Carrying d o) (a : Nat) :
    l.heldBetween a (l.now + 1) = l.heldBetween a l.now := by
  unfold heldBetween
  apply List.countP_congr
  intro x hx
  have := h.heldPast x hx
  simp
  omega

/-- A step without an item. -/
theorem Carrying.idle (h : l.Carrying d none) : l.tick.Carrying d none where
  passages := h.passages
  past s hs := Nat.lt_succ_of_lt (h.past s hs)
  spaced := h.spaced
  heldPast x hx := Nat.lt_succ_of_lt (h.heldPast x hx)

/-- Taking an item. -/
theorem Carrying.take (h : l.Carrying d none) (x : α) : (l.take x).Carrying d (some (x, 0)) where
  passages := by
    have hnone : l.heldBetween l.now l.now = 0 := by
      simp only [heldBetween, List.countP_eq_zero]
      simp
    exact ⟨l.taken, l.now, rfl, h.passages, by omega, Nat.le_refl _, by simp [hnone]⟩
  past := h.past
  spaced := by
    rw [taken_take, List.pairwise_append]
    refine ⟨h.spaced, by simp, ?_⟩
    intro a ha b hb
    obtain ⟨s, hs, hle⟩ := exists_sent_of_finished h.passages ha
    have hlt := h.past s hs
    simp only [List.mem_singleton] at hb
    subst hb
    exact Nat.lt_of_le_of_lt hle hlt
  heldPast := h.heldPast

/-- A step in which the item makes progress. -/
theorem Carrying.advance {x : α} {clk : Nat} (h : l.Carrying d (some (x, clk))) (hclk : clk < d) :
    l.tick.Carrying d (some (x, clk + 1)) where
  passages := by
    obtain ⟨finished, since, htaken, hsent, -, hsince, hnow⟩ := h.passages
    refine ⟨finished, since, htaken, hsent, hclk, Nat.le_succ_of_le hsince, ?_⟩
    simp only [now_tick, heldBetween_tick, h.heldBetween_succ]
    omega
  past s hs := Nat.lt_succ_of_lt (h.past s hs)
  spaced := h.spaced
  heldPast x hx := Nat.lt_succ_of_lt (h.heldPast x hx)

/-- A held step. -/
theorem Carrying.hold (h : l.Carrying d o) : l.hold.tick.Carrying d o where
  passages := by
    cases o with
    | none => exact forall₂_hold h.past h.passages
    | some p =>
      obtain ⟨finished, since, htaken, hsent, hclk, hsince, hnow⟩ := h.passages
      refine ⟨finished, since, htaken, forall₂_hold h.past hsent, hclk, Nat.le_succ_of_le hsince, ?_⟩
      have hheld := heldBetween_hold_succ l hsince
      rw [h.heldBetween_succ] at hheld
      simp only [now_tick, now_hold, heldBetween_tick, hheld]
      omega
  past s hs := Nat.lt_succ_of_lt (h.past s hs)
  spaced := h.spaced
  heldPast x hx := by
    rcases List.mem_append.1 hx with hx | hx
    · exact Nat.lt_succ_of_lt (h.heldPast x hx)
    · simp only [List.mem_singleton] at hx
      exact hx ▸ Nat.lt_succ_self _

/-- A step in which the item, having made all its steps, is sent. -/
theorem Carrying.send {x : α} (h : l.Carrying d (some (x, d))) :
    (l.send x).tick.Carrying d none where
  passages := by
    obtain ⟨finished, since, htaken, hsent, -, -, hnow⟩ := h.passages
    show List.Forall₂ (l.OnTime d) l.taken (l.sent ++ [⟨l.now, x⟩])
    rw [htaken]
    exact List.rel_append hsent (.cons ⟨rfl, hnow⟩ .nil)
  past s hs := by
    rcases List.mem_append.1 hs with hs | hs
    · exact Nat.lt_succ_of_lt (h.past s hs)
    · simp only [List.mem_singleton] at hs
      exact hs ▸ Nat.lt_succ_self _
  spaced := h.spaced
  heldPast x hx := Nat.lt_succ_of_lt (h.heldPast x hx)

/-- A device that counts its item's steps conserves what it takes. -/
theorem Carrying.conserves (h : l.Carrying d o) : l.Conserves d := by
  cases o with
  | none => exact ⟨⟨l.taken, [], by simp, by simp, h.passages, by simp⟩, h.spaced⟩
  | some p =>
    obtain ⟨finished, since, htaken, hsent, hclk, -, hnow⟩ := h.passages
    refine ⟨⟨finished, [⟨since, p.1⟩], htaken, by simp, hsent, ?_⟩, h.spaced⟩
    intro t ht
    simp only [List.mem_singleton] at ht
    subst ht
    show l.now ≤ since + d + l.heldBetween since l.now
    omega

/-- A lane without delay that has sent nothing conserves what it takes only if it took nothing. -/
theorem conserves_zero_iff (hsent : l.sent = []) (htaken : ∀ t ∈ l.taken, t.time < l.now)
    (hheld : l.held = []) : l.Conserves 0 ↔ l.taken = [] := by
  constructor
  · rintro ⟨⟨finished, underway, happend, -, hall, hdue⟩, -⟩
    rw [hsent, List.forall₂_nil_right_iff] at hall
    subst hall
    have hnil : underway = [] := by
      apply List.eq_nil_iff_forall_not_mem.2
      intro t ht
      have hlate := hdue t ht
      have hearly := htaken t (by simp [happend, ht])
      simp only [heldBetween, hheld, List.countP_nil] at hlate
      omega
    simpa [hnil] using happend
  · intro h
    exact ⟨⟨[], [], by simp [h], by simp, by simp [hsent], by simp⟩, by simp [h]⟩

end Lane

end Octopus.Lib
