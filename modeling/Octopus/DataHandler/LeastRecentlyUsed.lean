import Octopus.DataHandler.PartitionedFill

/-!
# The victim of the least-recently-used policy

The stamps of a set grow by one with each way that has none yet, and a stamp is found under the number
of its way. The two agree as long as the ways of a set are first touched in the order of their numbers.
-/

namespace Octopus

/-- A call `update(set, way, cycle)`. -/
structure LRUUpdate where
  set : BitVec 64
  way : Int
  cycle : Nat
  deriving DecidableEq, Repr

namespace LeastRecentlyUsed

open ReplacementPolicy

variable (ways : Nat)

/-- `LeastRecentlyUsed::update`: a negative way is no way. -/
def update (stamps : BitVec 64 → List Nat) (u : LRUUpdate) : BitVec 64 → List Nat :=
  if u.way < 0 then stamps else (leastRecentlyUsed ways).update stamps u.set u.way.toNat u.cycle

/-- `last_access_cycle` after a sequence of calls. -/
def last_access_cycle (us : List LRUUpdate) : BitVec 64 → List Nat := us.foldl (update ways) fun _ => []

/--
`LeastRecentlyUsed::getReplacementCandidate` under a mask. It tests `1u << i` for every way, which is
undefined from the way 32 on.
-/
def getReplacementCandidate (stamps : BitVec 64 → List Nat) (set : BitVec 64) (allowed : BitVec 32) : Option Nat :=
  if ways ≤ 32 then some ((leastRecentlyUsed ways).getReplacementCandidate stamps set allowed.getLsbD).1 else none

/-- The stamp that a set has for a way, 0 without one. -/
def stampOf (stamps : BitVec 64 → List Nat) (set : BitVec 64) (w : Nat) : Nat := (stamps set)[w]?.getD 0

/-- The cycle of the last call for a way, 0 without one: such a way counts as oldest. -/
def lastUpdate (us : List LRUUpdate) (set : BitVec 64) (w : Nat) : Nat :=
  ((us.reverse.find? fun u => u.set = set && u.way = (w : Int)).map (·.cycle)).getD 0

/-- Under every nonempty mask the victim is an allowed way that no other allowed way was updated before. -/
def ChoosesOldest (us : List LRUUpdate) : Prop :=
  ∀ set (allowed : BitVec 32), (∃ w, allowed.getLsbD w = true) → (∀ w, allowed.getLsbD w = true → w < ways) →
    ∃ w, getReplacementCandidate ways (last_access_cycle ways us) set allowed = some w ∧
      allowed.getLsbD w = true ∧ ∀ w', allowed.getLsbD w' = true → lastUpdate us set w ≤ lastUpdate us set w'

/-- A call that finds the stamp of its way, or adds it where it is looked for, or has nothing to tell. -/
def InPlace (stamps : BitVec 64 → List Nat) (u : LRUUpdate) : Prop :=
  u.way ≤ (stamps u.set).length ∨ u.cycle = 0

instance (stamps : BitVec 64 → List Nat) (u : LRUUpdate) : Decidable (InPlace stamps u) :=
  inferInstanceAs (Decidable (_ ∨ _))

variable {ways}
variable {us : List LRUUpdate} {u : LRUUpdate} {stamps : BitVec 64 → List Nat} {set : BitVec 64} {w : Nat}

/-- One more call. -/
theorem last_access_cycle_concat :
    last_access_cycle ways (us ++ [u]) = update ways (last_access_cycle ways us) u := by
  rw [last_access_cycle, last_access_cycle, List.foldl_concat]

/-- The last update after one more call. -/
theorem lastUpdate_concat :
    lastUpdate (us ++ [u]) set w = if u.set = set ∧ u.way = (w : Int) then u.cycle else lastUpdate us set w := by
  rw [lastUpdate, List.reverse_concat, List.find?_cons]
  by_cases h : u.set = set ∧ u.way = (w : Int)
  · have htrue : (decide (u.set = set) && decide (u.way = (w : Int))) = true := by simpa using h
    rw [if_pos h, htrue]
    rfl
  · have hfalse : (decide (u.set = set) && decide (u.way = (w : Int))) = false := by
      rw [← Bool.not_eq_true]
      simpa using h
    rw [if_neg h, hfalse, lastUpdate]

/-- The stamps after a call for a way. -/
theorem stampOf_update (h : 0 ≤ u.way) :
    stampOf (update ways stamps u) set w =
      if set = u.set ∧ w = min u.way.toNat (stamps u.set).length then u.cycle else stampOf stamps set w := by
  have hneg : ¬ u.way < 0 := by omega
  rw [update, if_neg hneg, stampOf, leastRecentlyUsed]
  dsimp only
  by_cases hset : set = u.set
  · subst hset
    rw [if_pos rfl]
    by_cases hlt : u.way.toNat < (stamps u.set).length
    · rw [if_pos hlt, min_eq_left hlt.le, List.getElem?_set, stampOf]
      by_cases hw : u.way.toNat = w
      · subst hw
        simp [hlt]
      · rw [if_neg hw, if_neg fun hand => hw hand.2.symm]
    · have hle := Nat.le_of_not_lt hlt
      rw [if_neg hlt, min_eq_right hle, stampOf]
      rcases Nat.lt_trichotomy w (stamps u.set).length with hw | hw | hw
      · rw [List.getElem?_append_left hw, if_neg fun hand => hw.ne hand.2]
      · subst hw
        simp
      · have hlen : (stamps u.set ++ [u.cycle]).length ≤ w := by
          rw [List.length_append, List.length_singleton]
          omega
        rw [List.getElem?_eq_none hlen, if_neg fun hand => hw.ne' hand.2, List.getElem?_eq_none hw.le]
  · rw [if_neg hset, if_neg fun hand => hset hand.1, stampOf]

/-- The stamps tell the last updates. -/
def Exact (ways : Nat) (us : List LRUUpdate) : Prop :=
  ∀ set w, stampOf (last_access_cycle ways us) set w = lastUpdate us set w

/-- Without a call there is nothing to tell. -/
theorem exact_nil : Exact ways [] := fun _ _ => rfl

/-- A way without a stamp has the stamp 0. -/
theorem stampOf_eq_zero (h : (stamps set).length ≤ w) : stampOf stamps set w = 0 := by
  rw [stampOf, List.getElem?_eq_none h, Option.getD_none]

/-- A call in its place keeps the stamps exact. -/
theorem Exact.concat (h : Exact ways us) (hplace : InPlace (last_access_cycle ways us) u) :
    Exact ways (us ++ [u]) := by
  intro set w
  rw [last_access_cycle_concat, lastUpdate_concat]
  by_cases hneg : u.way < 0
  · have hne : ¬ (u.set = set ∧ u.way = (w : Int)) := by omega
    rw [update, if_pos hneg, if_neg hne]
    exact h set w
  · rw [stampOf_update (by omega)]
    rw [InPlace] at hplace
    generalize hlen : (last_access_cycle ways us u.set).length = n at hplace
    by_cases hle : u.way ≤ n
    · have hiff : (set = u.set ∧ w = min u.way.toNat n) ↔ (u.set = set ∧ u.way = (w : Int)) := by
        rw [eq_comm]
        exact and_congr_right fun _ => by omega
      simp only [hiff, h set w]
    · -- the call has cycle 0: neither the place it writes nor its way has a stamp
      have hzero : u.cycle = 0 := hplace.resolve_left hle
      have hplaceZero : set = u.set ∧ w = min u.way.toNat n → lastUpdate us set w = 0 := by
        rintro ⟨rfl, rfl⟩
        rw [← h]
        exact stampOf_eq_zero (by omega)
      have hwayZero : u.set = set ∧ u.way = (w : Int) → lastUpdate us set w = 0 := by
        rintro ⟨rfl, hw⟩
        rw [← h]
        exact stampOf_eq_zero (by omega)
      rw [h set w, hzero]
      split_ifs with h₁ h₂ h₂
      · rfl
      · exact (hplaceZero h₁).symm
      · exact hwayZero h₂
      · rfl

/-- The search for the oldest way ends at the oldest way that it meets. -/
theorem foldl_olderAllowed_least {stamps : List Nat} {allowed : Nat → Bool} {l : List Nat} {best : Option Nat} {b : Nat}
    (h : l.foldl (olderAllowed stamps allowed) best = some b) :
    (∀ i ∈ l, allowed i = true → stamps[b]?.getD 0 ≤ stamps[i]?.getD 0) ∧
      ∀ i ∈ best, stamps[b]?.getD 0 ≤ stamps[i]?.getD 0 := by
  induction l generalizing best with
  | nil =>
    obtain rfl : best = some b := h
    simp
  | cons i l ih =>
    obtain ⟨hrest, hnext⟩ := ih h
    rw [List.forall_mem_cons]
    by_cases hi : allowed i = true
    · cases best with
      | none =>
        rw [olderAllowed, if_pos hi] at hnext
        exact ⟨⟨fun _ => hnext i rfl, hrest⟩, by simp⟩
      | some j =>
        rw [olderAllowed, if_pos hi] at hnext
        by_cases hlt : stamps[i]?.getD 0 < stamps[j]?.getD 0
        · rw [if_pos hlt] at hnext
          have hle := hnext i rfl
          exact ⟨⟨fun _ => hle, hrest⟩, by simpa using hle.trans hlt.le⟩
        · rw [if_neg hlt] at hnext
          have hle := hnext j rfl
          exact ⟨⟨fun _ => hle.trans (Nat.le_of_not_lt hlt), hrest⟩, by simpa using hle⟩
    · rw [olderAllowed.eq_def, if_neg hi] at hnext
      exact ⟨⟨fun hallowed => absurd hallowed hi, hrest⟩, hnext⟩

/-- The victim is an allowed way with the least stamp. -/
theorem getReplacementCandidate_least {allowed : BitVec 32} (hle : ways ≤ 32) (hsome : ∃ w, allowed.getLsbD w = true)
    (hin : ∀ w, allowed.getLsbD w = true → w < ways) :
    ∃ w, getReplacementCandidate ways stamps set allowed = some w ∧ allowed.getLsbD w = true ∧
      ∀ w', allowed.getLsbD w' = true → stampOf stamps set w ≤ stampOf stamps set w' := by
  obtain ⟨w, hw⟩ := hsome
  obtain ⟨b, hfold, hb, -⟩ := @foldl_olderAllowed (stamps set) allowed.getLsbD (List.range ways) none (by simp)
    (.inr ⟨w, List.mem_range.2 (hin w hw), hw⟩)
  refine ⟨b, ?_, hb, fun w' hw' => (foldl_olderAllowed_least hfold).1 w' (List.mem_range.2 (hin w' hw')) hw'⟩
  rw [getReplacementCandidate, if_pos hle, leastRecentlyUsed]
  dsimp only
  rw [oldestAllowed, hfold, Option.getD_some]

/-- Exact stamps show the oldest way. -/
theorem Exact.choosesOldest (h : Exact ways us) (hle : ways ≤ 32) : ChoosesOldest ways us := by
  intro set allowed hsome hin
  obtain ⟨w, hw, hallowed, hleast⟩ :=
    @getReplacementCandidate_least ways (last_access_cycle ways us) set allowed hle hsome hin
  refine ⟨w, hw, hallowed, fun w' hw' => ?_⟩
  rw [← h set w, ← h set w']
  exact hleast w' hw'

/-- Without exact stamps for a way and a place below it, the mask of these two ways hides the older one. -/
theorem not_choosesOldest {p : Nat} (hle : ways ≤ 32) (hpw : p < w) (hw : w < ways)
    (hstamp : stampOf (last_access_cycle ways us) set w < stampOf (last_access_cycle ways us) set p)
    (hlast : lastUpdate us set p < lastUpdate us set w) : ¬ ChoosesOldest ways us := by
  intro hchooses
  have hbit : ∀ i, (1#32 <<< p ||| 1#32 <<< w).getLsbD i = true ↔ i = p ∨ i = w := by
    intro i
    have hone : ∀ j < 32, (1#32 <<< j).getLsbD i = decide (i = j) := by
      intro j hj
      rw [← BitVec.twoPow_eq, BitVec.getLsbD_twoPow]
      by_cases hij : i = j
      · simp [hij, hj]
      · simp [hij, Ne.symm hij]
    rw [BitVec.getLsbD_or, hone p (by omega), hone w (by omega)]
    simp
  have hin : ∀ i, (1#32 <<< p ||| 1#32 <<< w).getLsbD i = true → i < ways := by
    intro i hi
    rcases (hbit i).1 hi with rfl | rfl <;> omega
  obtain ⟨v, hv, hallowed, holdest⟩ := hchooses set _ ⟨p, (hbit p).2 (.inl rfl)⟩ hin
  obtain ⟨v', hv', -, hleast⟩ :=
    @getReplacementCandidate_least ways (last_access_cycle ways us) set _ hle ⟨p, (hbit p).2 (.inl rfl)⟩ hin
  obtain rfl : v = v' := Option.some.inj (hv.symm.trans hv')
  rcases (hbit v).1 hallowed with rfl | rfl
  · exact absurd (hleast w ((hbit w).2 (.inr rfl))) (Nat.not_le_of_lt hstamp)
  · exact absurd (holdest p ((hbit p).2 (.inl rfl))) (Nat.not_le_of_lt hlast)

/-- A call out of its place hides the oldest way. -/
theorem Exact.inPlace (h : Exact ways us) (hle : ways ≤ 32) (hu : u.way < ways)
    (hchooses : ChoosesOldest ways (us ++ [u])) : InPlace (last_access_cycle ways us) u := by
  by_contra hnot
  obtain ⟨hway, hcycle⟩ := not_or.1 hnot
  generalize hlen : (last_access_cycle ways us u.set).length = n at hway
  have hmin : min u.way.toNat n = n := by omega
  have hnonneg : 0 ≤ u.way := by omega
  have hstamp := fun w => @stampOf_update ways u (last_access_cycle ways us) u.set w hnonneg
  simp only [hlen, hmin, true_and, ← last_access_cycle_concat] at hstamp
  have hlast := fun w => @lastUpdate_concat us u u.set w
  simp only [true_and] at hlast
  have hzero : lastUpdate us u.set n = 0 := by
    rw [← h]
    exact stampOf_eq_zero hlen.le
  have hzero' : lastUpdate us u.set u.way.toNat = 0 := by
    rw [← h]
    exact stampOf_eq_zero (by omega)
  refine @not_choosesOldest ways _ u.set u.way.toNat n hle (by omega) (by omega) ?_ ?_ hchooses
  · rw [hstamp, hstamp, if_neg (by omega), if_pos rfl, h, hzero']
    omega
  · rw [hlast, hlast, if_neg (by omega), if_pos (by omega), hzero]
    omega

/-- From the way 32 on no victim is computed. -/
theorem ChoosesOldest.ways_le (h : ChoosesOldest ways us) : ways ≤ 32 := by
  by_contra hnot
  have hbit : ∀ i, (1#32).getLsbD i = true → i = 0 := by
    intro i hi
    simpa [BitVec.getLsbD_one] using hi
  obtain ⟨w, hw, -⟩ := h 0 1#32 ⟨0, rfl⟩ fun i hi => by
    rw [hbit i hi]
    omega
  rw [getReplacementCandidate, if_neg hnot] at hw
  simp at hw

/--
The victim is the oldest allowed way throughout a sequence of calls, if and only if the ways are 32 at
most and each call with a cycle finds the stamp of its way or adds it where it is looked for.
-/
theorem choosesOldest_iff (hcalls : ∀ u ∈ us, u.way < ways) :
    (∀ done, done <+: us → ChoosesOldest ways done) ↔
      ways ≤ 32 ∧ ∀ done u, done ++ [u] <+: us → InPlace (last_access_cycle ways done) u := by
  constructor
  · intro hchooses
    have hle := (hchooses [] List.nil_prefix).ways_le
    have hexact : ∀ done, done <+: us → Exact ways done ∧
        ∀ before u, before ++ [u] <+: done → InPlace (last_access_cycle ways before) u := by
      intro done
      induction done using List.reverseRecOn with
      | nil =>
        refine fun _ => ⟨exact_nil, fun before u hprefix => ?_⟩
        simp at hprefix
      | append_singleton done u ih =>
        intro hdone
        obtain ⟨hbefore, hplaces⟩ := ih ((List.prefix_append done [u]).trans hdone)
        have hmem : u ∈ us := hdone.subset (by simp)
        have hplace := hbefore.inPlace hle (hcalls u hmem) (hchooses _ hdone)
        refine ⟨hbefore.concat hplace, fun before v hprefix => ?_⟩
        rcases List.prefix_concat_iff.1 hprefix with heq | hearlier
        · obtain ⟨rfl, hv⟩ := List.append_inj' heq rfl
          obtain rfl : v = u := by simpa using hv
          exact hplace
        · exact hplaces before v hearlier
    exact ⟨hle, fun done u hprefix => (hexact _ hprefix).2 done u List.prefix_rfl⟩
  · rintro ⟨hle, hplaces⟩ done hdone
    have hexact : Exact ways done := by
      induction done using List.reverseRecOn with
      | nil => exact exact_nil
      | append_singleton done u ih => exact (ih ((List.prefix_append done [u]).trans hdone)).concat (hplaces done u hdone)
    exact hexact.choosesOldest hle

/-- Three ways of four are touched in their order; in between the way 0 is used again. -/
def inOrder : List LRUUpdate := [⟨0, 0, 10⟩, ⟨0, 1, 11⟩, ⟨0, 0, 12⟩, ⟨0, 2, 13⟩]

/-- The victim is right after these calls; of the ways 0 to 2 it is the way 1. -/
theorem choosesOldest_iff_inOrder : ChoosesOldest 4 inOrder ∧
    getReplacementCandidate 4 (last_access_cycle 4 inOrder) 0 0b0111 = some 1 := by
  have hplaces : ∀ l ∈ inOrder.inits, ∀ u ∈ l.getLast?, InPlace (last_access_cycle 4 l.dropLast) u := by decide
  refine ⟨(@choosesOldest_iff 4 inOrder (by decide)).2 ⟨by decide, fun done u hprefix => ?_⟩ _ List.prefix_rfl, by decide⟩
  have hmem : done ++ [u] ∈ inOrder.inits := (List.mem_inits _ _).2 hprefix
  simpa using hplaces _ hmem u (by simp)

/-- A core that owns the ways 0 and 2 fills the way 2 first: the next victim is the way 2, which is the only one in use. -/
theorem newest_chosen : ¬ ∀ ways : Nat, 0 < ways → ∀ us : List LRUUpdate,
    us.Pairwise (fun u v => u.cycle ≤ v.cycle) → (∀ u ∈ us, 0 ≤ u.way ∧ u.way < ways) → ChoosesOldest ways us := by
  intro hall
  have hchooses := hall 4 (by decide) [⟨0, 2, 10⟩] (by simp) (by decide)
  exact @not_choosesOldest 4 [⟨0, 2, 10⟩] 0 2 0 (by decide) (by decide) (by decide) (by decide) (by decide) hchooses

end LeastRecentlyUsed

end Octopus
