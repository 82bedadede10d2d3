import Mathlib.Data.List.Nodup
import Octopus.Lib.Lane

/-!
# Delay lines

A queue that takes at most one item in a step, and gives away at most one that has waited for a fixed number of
steps. As no two items enter in one step, no two ripen in one step either, so no item ever waits for another and
the queue is a pure delay: its length is bounded by the delay, and who leaves when is a function of who entered
when.
-/

namespace Octopus.Lib

variable {α : Type*}

/-- An item with a stamp some steps later. -/
def Stamped.later (delay : Nat) (a : Stamped α) : Stamped α := ⟨a.time + delay, a.item⟩

/-- What a queue has made of the items that entered it before step `now`: those that were ripe have left, each in
the step in which it ripened, and the others wait in the order in which they entered. -/
structure Delays (delay now : Nat) (entered queue left : List (Stamped α)) : Prop where
  split : ∃ front, entered = front ++ queue ∧ left = front.map (Stamped.later delay) ∧
    ∀ a ∈ front, a.time + delay < now
  waiting : ∀ a ∈ queue, now ≤ a.time + delay
  ordered : entered.Pairwise fun a b => a.time < b.time
  past : ∀ a ∈ entered, a.time < now

namespace Delays

variable {delay now : Nat} {entered queue left new : List (Stamped α)}

/-- A queue that nothing has entered. -/
theorem nil (delay now : Nat) : Delays delay now ([] : List (Stamped α)) [] [] where
  split := ⟨[], rfl, rfl, fun _ ha => absurd ha List.not_mem_nil⟩
  waiting _ ha := absurd ha List.not_mem_nil
  ordered := List.Pairwise.nil
  past _ ha := absurd ha List.not_mem_nil

/-- The order in which items entered, with one more. -/
theorem ordered_append (h : Delays delay now entered queue left) (hnew : new = [] ∨ ∃ x, new = [⟨now, x⟩]) :
    (entered ++ new).Pairwise fun a b => a.time < b.time := by
  cases hnew with
  | inl hnil =>
    rw [hnil, List.append_nil]
    exact h.ordered
  | inr hnew =>
    cases hnew with
    | intro x hx =>
      rw [hx, List.pairwise_append]
      refine ⟨h.ordered, List.pairwise_singleton _ _, ?_⟩
      intro a ha b hb
      rw [List.mem_singleton.1 hb]
      exact h.past a ha

/-- An item that enters in this step has its step as its stamp. -/
theorem time_of_mem_new (hnew : new = [] ∨ ∃ x, new = [⟨now, x⟩]) {a : Stamped α} (ha : a ∈ new) : a.time = now := by
  cases hnew with
  | inl hnil =>
    rw [hnil] at ha
    exact absurd ha List.not_mem_nil
  | inr hnew =>
    cases hnew with
    | intro x hx =>
      rw [hx] at ha
      rw [List.mem_singleton.1 ha]

/-- One step: an item may enter, and then the one that ripens in this step leaves, if there is one; it stands at the
front. -/
theorem step (h : Delays delay now entered queue left) (hnew : new = [] ∨ ∃ x, new = [⟨now, x⟩]) :
    (∃ a rest, queue ++ new = a :: rest ∧ a.time + delay = now ∧
        Delays delay (now + 1) (entered ++ new) rest (left ++ [⟨now, a.item⟩])) ∨
      (∀ a ∈ queue ++ new, now < a.time + delay) ∧ Delays delay (now + 1) (entered ++ new) (queue ++ new) left := by
  have hordered := h.ordered_append hnew
  have hpast : ∀ a ∈ entered ++ new, a.time < now + 1 := by
    intro a ha
    cases List.mem_append.1 ha with
    | inl ha => exact Nat.lt_succ_of_lt (h.past a ha)
    | inr ha => exact Nat.lt_succ_of_le (Nat.le_of_eq (time_of_mem_new hnew ha))
  have hwaiting : ∀ a ∈ queue ++ new, now ≤ a.time + delay := by
    intro a ha
    cases List.mem_append.1 ha with
    | inl ha => exact h.waiting a ha
    | inr ha => exact Nat.le_add_right_of_le (Nat.le_of_eq (time_of_mem_new hnew ha).symm)
  cases h.split with
  | intro front hsplit =>
    have happend : entered ++ new = front ++ (queue ++ new) := by rw [hsplit.1, List.append_assoc]
    have hfront : ∀ a ∈ front, a.time + delay < now + 1 := fun a ha => Nat.lt_succ_of_lt (hsplit.2.2 a ha)
    rw [happend] at hordered
    have hqueue := (List.pairwise_append.1 hordered).2.1
    rw [← happend] at hordered
    cases hcons : queue ++ new with
    | nil =>
      refine .inr ⟨fun a ha => absurd ha List.not_mem_nil, ?_⟩
      exact ⟨⟨front, by rw [happend, hcons], hsplit.2.1, hfront⟩, fun a ha => absurd ha List.not_mem_nil, hordered,
        hpast⟩
    | cons a rest =>
      rw [hcons] at happend hwaiting hqueue
      rw [List.pairwise_cons] at hqueue
      have hfirst := hwaiting a List.mem_cons_self
      by_cases hripe : a.time + delay = now
      · refine .inl ⟨a, rest, rfl, hripe, ⟨front ++ [a], ?_, ?_, ?_⟩, ?_, hordered, hpast⟩
        · rw [happend, List.append_assoc, List.singleton_append]
        · rw [hsplit.2.1, List.map_append, List.map_singleton, Stamped.later, hripe]
        · intro b hb
          cases List.mem_append.1 hb with
          | inl hb => exact hfront b hb
          | inr hb =>
            rw [List.mem_singleton.1 hb]
            omega
        · intro b hb
          have hlater := hqueue.1 b hb
          omega
      · have hall : ∀ b ∈ a :: rest, now < b.time + delay := by
          intro b hb
          cases List.mem_cons.1 hb with
          | inl hb =>
            rw [hb]
            omega
          | inr hb =>
            have hlater := hqueue.1 b hb
            omega
        exact .inr ⟨hall, ⟨front, happend, hsplit.2.1, hfront⟩, hall, hordered, hpast⟩

/-- No two items enter in one step. -/
theorem eq_of_time_eq (h : Delays delay now entered queue left) (hnew : new = [] ∨ ∃ x, new = [⟨now, x⟩])
    {a b : Stamped α} (ha : a ∈ entered ++ new) (hb : b ∈ entered ++ new) (htime : a.time = b.time) : a = b := by
  have hnodup : ((entered ++ new).map Stamped.time).Nodup :=
    List.pairwise_map.2 ((h.ordered_append hnew).imp Nat.ne_of_lt)
  exact List.inj_on_of_nodup_map hnodup ha hb htime

/-- An item that ripens in this step has not left. -/
theorem mem_of_ripe (h : Delays delay now entered queue left) {a : Stamped α} (ha : a ∈ entered ++ new)
    (hripe : a.time + delay = now) : a ∈ queue ++ new := by
  cases List.mem_append.1 ha with
  | inl ha =>
    cases h.split with
    | intro front hsplit =>
      rw [hsplit.1] at ha
      cases List.mem_append.1 ha with
      | inl ha =>
        have hless := hsplit.2.2 a ha
        omega
      | inr ha => exact List.mem_append_left new ha
  | inr ha => exact List.mem_append_right queue ha

/-- What waits has entered. -/
theorem mem_entered (h : Delays delay now entered queue left) {a : Stamped α} (ha : a ∈ queue ++ new) :
    a ∈ entered ++ new := by
  cases h.split with
  | intro front hsplit =>
    rw [hsplit.1, List.append_assoc]
    exact List.mem_append_right front ha

/-- Who waits is a function of who entered when. -/
theorem queue_eq (h : Delays delay now entered queue left) :
    queue = entered.filter fun a => now ≤ a.time + delay := by
  cases h.split with
  | intro front hsplit =>
    have hfront : front.filter (fun a => now ≤ a.time + delay) = [] := by
      rw [List.filter_eq_nil_iff]
      intro a ha
      have hless := hsplit.2.2 a ha
      simp only [decide_eq_true_eq]
      omega
    have hqueue : queue.filter (fun a => now ≤ a.time + delay) = queue :=
      List.filter_eq_self.2 fun a ha => by simpa using h.waiting a ha
    rw [hsplit.1, List.filter_append, hfront, hqueue, List.nil_append]

/-- Who has left, and when, is a function of who entered when. -/
theorem left_eq (h : Delays delay now entered queue left) :
    left = (entered.filter fun a => a.time + delay < now).map (Stamped.later delay) := by
  cases h.split with
  | intro front hsplit =>
    have hfront : front.filter (fun a => a.time + delay < now) = front :=
      List.filter_eq_self.2 fun a ha => by simpa using hsplit.2.2 a ha
    have hqueue : queue.filter (fun a => a.time + delay < now) = [] := by
      rw [List.filter_eq_nil_iff]
      intro a ha
      have hle := h.waiting a ha
      simp only [decide_eq_true_eq]
      omega
    rw [hsplit.1, List.filter_append, hfront, hqueue, List.append_nil, hsplit.2.1]

/-- Items with different stamps in an interval are no more than its steps. -/
theorem length_le_of_pairwise {lo hi : Nat} {items : List (Stamped α)}
    (hordered : items.Pairwise fun a b => a.time < b.time) (hlo : ∀ a ∈ items, lo ≤ a.time)
    (hhi : ∀ a ∈ items, a.time < hi) : items.length ≤ hi - lo := by
  induction items generalizing lo with
  | nil => exact Nat.zero_le _
  | cons a items ih =>
    rw [List.pairwise_cons] at hordered
    have hrest := ih hordered.2 hordered.1 fun b hb => hhi b (List.mem_cons_of_mem a hb)
    have hfirst := hlo a List.mem_cons_self
    have hlast := hhi a List.mem_cons_self
    rw [List.length_cons]
    omega

/-- No more items wait than the delay has steps. -/
theorem length_le (h : Delays delay now entered queue left) : queue.length ≤ delay := by
  have hqueue : queue.Pairwise fun a b => a.time < b.time := by
    rw [h.queue_eq]
    exact h.ordered.filter _
  have hmem : ∀ a ∈ queue, a ∈ entered := by
    intro a ha
    rw [h.queue_eq] at ha
    exact List.mem_of_mem_filter ha
  have hlength := length_le_of_pairwise hqueue
    (fun a ha => Nat.sub_le_of_le_add (h.waiting a ha)) (fun a ha => h.past a (hmem a ha))
  omega

end Delays

end Octopus.Lib
