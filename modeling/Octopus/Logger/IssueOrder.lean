import Octopus.Lib.Occupancy
import Octopus.Logger.Report
import Mathlib.Algebra.BigOperators.Group.List.Basic
import Mathlib.Algebra.GroupWithZero.Nat
import Mathlib.Data.List.Forall2

/-!
# The oldest request of a core

The issue order of a core holds its outstanding requests in the order they were added, and between them
requests that retired behind an older one. The account of a core says that the cycles its rows report as
oldest, with those since the present oldest one became it, are the cycles in which a request was
outstanding. Each change of the clock, each addition and each row keeps the account.
-/

namespace Octopus.Logger

/-- A request, with the cycle it was added in. -/
structure Request where
  msgId : Nat
  added : Nat
  deriving DecidableEq

/-- A request that retired, with the cycle it did so in and the older requests outstanding then. -/
structure Settled where
  request : Request
  retired : Nat
  older : List Request
  deriving DecidableEq

/-- The cycles a request was outstanding in. -/
def Settled.stay (s : Settled) : Nat × Nat := (s.request.added, s.retired)

/-- The row of a request bounds its time as the oldest one. -/
structure RowOf (s : Settled) (row : Row) : Prop where
  reqId : row.reqId = s.request.msgId
  total : row.total = s.retired - s.request.added
  oldest_le : row.oldest ≤ row.total
  oldest_eq_zero : s.older ≠ [] → row.oldest = 0

/-- The outstanding requests in an issue order. -/
def pendingIds (q : List (Nat × Bool)) : List Nat := (q.filter fun e => !e.2).map Prod.fst

/-- The account of a core with its outstanding requests, the oldest one first, and those that retired. -/
structure CoreLog.Accounts (c : CoreLog) (outstanding : List Request) (settled : List Settled) : Prop where
  queue : pendingIds c.issueOrder = outstanding.map Request.msgId
  nodup : (c.issueOrder.map Prod.fst).Nodup
  front : ∀ e ∈ c.issueOrder.head?, e.2 = false
  arrived : ∀ req ∈ outstanding, req.added ≤ c.clkCount
  left : ∀ s ∈ settled, s.retired ≤ c.clkCount
  start : ∀ req ∈ outstanding.head?, req.added ≤ c.oldestStart ∧ c.oldestStart ≤ c.clkCount
  busy : (Lib.busy (settled.map Settled.stay) (outstanding.map Request.added) c.clkCount).card =
    (c.rows.map Row.oldest).sum + if outstanding = [] then 0 else c.clkCount - c.oldestStart
  rows : List.Forall₂ RowOf settled c.rows

@[simp] theorem pendingIds_append (l r : List (Nat × Bool)) : pendingIds (l ++ r) = pendingIds l ++ pendingIds r := by
  rw [pendingIds, List.filter_append, List.map_append]
  rfl

@[simp] theorem pendingIds_cons_true (msgId : Nat) (q : List (Nat × Bool)) :
    pendingIds ((msgId, true) :: q) = pendingIds q := rfl

@[simp] theorem pendingIds_cons_false (msgId : Nat) (q : List (Nat × Bool)) :
    pendingIds ((msgId, false) :: q) = msgId :: pendingIds q := rfl

variable {c : CoreLog} {outstanding older younger : List Request} {settled : List Settled} {req : Request}
  {q l r : List (Nat × Bool)} {xs ys : List Nat} {msgId : Nat}

/-- The account of a core before its first request. -/
theorem accounts_nil : CoreLog.Accounts {} [] [] where
  queue := rfl
  nodup := List.nodup_nil
  front := by simp
  arrived := by simp
  left := by simp
  start := by simp
  busy := rfl
  rows := .nil

/-- Time that passes is counted for the oldest request, if there is one. -/
theorem CoreLog.Accounts.setClkCount (h : c.Accounts outstanding settled) {clk : Nat} (hclk : c.clkCount ≤ clk) :
    CoreLog.Accounts { c with clkCount := clk } outstanding settled where
  queue := h.queue
  nodup := h.nodup
  front := h.front
  arrived req hreq := Nat.le_trans (h.arrived req hreq) hclk
  left s hs := Nat.le_trans (h.left s hs) hclk
  start req hreq := ⟨(h.start req hreq).1, Nat.le_trans (h.start req hreq).2 hclk⟩
  busy := by
    dsimp only
    cases outstanding with
    | nil => simpa [Lib.busy_nil] using h.busy
    | cons req outstanding =>
      have hbusy := h.busy
      have hstart := (h.start req rfl).2
      rw [if_neg (List.cons_ne_nil _ _)] at hbusy ⊢
      have hleft : ∀ stay ∈ settled.map Settled.stay, stay.2 ≤ c.clkCount := List.forall_mem_map.2 h.left
      have hadvance := Lib.card_busy_advance (List.cons_ne_nil req.added (outstanding.map Request.added))
        (by simpa using h.arrived) hleft hclk
      exact hadvance.trans (by rw [← List.map_cons, hbusy]; omega)
  rows := h.rows

/-- An issue order whose front is outstanding is empty just when nothing is outstanding. -/
theorem pendingIds_eq_nil (hfront : ∀ e ∈ q.head?, e.2 = false) : pendingIds q = [] ↔ q = [] := by
  cases q with
  | nil => exact ⟨fun _ => rfl, fun _ => rfl⟩
  | cons e q =>
    have he := hfront e rfl
    rw [pendingIds, List.filter_cons_of_pos (by simp [he]), List.map_cons]
    exact ⟨fun h => absurd h (List.cons_ne_nil _ _), fun h => absurd h (List.cons_ne_nil _ _)⟩

/-- Nothing is outstanding just when the issue order is empty. -/
theorem CoreLog.Accounts.issueOrder_eq_nil (h : c.Accounts outstanding settled) :
    c.issueOrder = [] ↔ outstanding = [] := by
  rw [← pendingIds_eq_nil h.front, h.queue, List.map_eq_nil_iff]

/-- A request that is added now is the oldest one from now on, if none is outstanding. -/
theorem CoreLog.Accounts.add (h : c.Accounts outstanding settled) (hfresh : msgId ∉ c.issueOrder.map Prod.fst) :
    CoreLog.Accounts
      { c with
        issueOrder := c.issueOrder ++ [(msgId, false)]
        oldestStart := if (c.issueOrder ++ [(msgId, false)]).length = 1 then c.clkCount else c.oldestStart }
      (outstanding ++ [Request.mk msgId c.clkCount]) settled := by
  have hqueue : pendingIds (c.issueOrder ++ [(msgId, false)]) =
      (outstanding ++ [Request.mk msgId c.clkCount]).map Request.msgId := by
    rw [pendingIds_append, h.queue, List.map_append]
    rfl
  have hnodup : ((c.issueOrder ++ [(msgId, false)]).map Prod.fst).Nodup := by
    rw [List.map_append]
    exact List.nodup_append_comm.1 (List.nodup_cons.2 ⟨hfresh, h.nodup⟩)
  have harrived : ∀ req ∈ outstanding ++ [Request.mk msgId c.clkCount], req.added ≤ c.clkCount := by
    intro req hreq
    rcases List.mem_append.1 hreq with hold | hnew
    · exact h.arrived req hold
    · cases List.mem_singleton.1 hnew
      exact Nat.le_refl _
  have hbusy : (Lib.busy (settled.map Settled.stay) ((outstanding ++ [Request.mk msgId c.clkCount]).map Request.added)
      c.clkCount).card = (c.rows.map Row.oldest).sum + if outstanding = [] then 0 else c.clkCount - c.oldestStart := by
    rw [List.map_append]
    exact (congrArg Finset.card (Lib.busy_arrive ..)).trans h.busy
  have hfront : ∀ e ∈ (c.issueOrder ++ [(msgId, false)]).head?, e.2 = false := by
    intro e he
    cases hq : c.issueOrder with
    | nil =>
      rw [hq] at he
      cases he
      rfl
    | cons e' q =>
      rw [hq] at he
      exact h.front e (by rw [hq]; exact he)
  have hempty := h.issueOrder_eq_nil
  cases outstanding with
  | nil =>
    have hone : (c.issueOrder ++ [(msgId, false)]).length = 1 := by rw [hempty.2 rfl]; rfl
    rw [if_pos hone]
    refine ⟨hqueue, hnodup, hfront, harrived, h.left, ?_, ?_, h.rows⟩
    · rintro req ⟨⟩
      exact ⟨Nat.le_refl _, Nat.le_refl _⟩
    · exact hbusy.trans (by simp)
  | cons req outstanding =>
    have hlong : (c.issueOrder ++ [(msgId, false)]).length ≠ 1 := by
      rw [List.length_append, List.length_singleton]
      exact fun hone => mt hempty.1 (List.cons_ne_nil _ _) (List.length_eq_zero_iff.1 (Nat.succ.inj hone))
    rw [if_neg hlong]
    exact ⟨hqueue, hnodup, hfront, harrived, h.left, h.start, hbusy, h.rows⟩

/-- The entries around an outstanding request in an issue order. -/
theorem exists_split_of_pendingIds (h : pendingIds q = xs ++ msgId :: ys) :
    ∃ l r, q = l ++ (msgId, false) :: r ∧ pendingIds l = xs ∧ pendingIds r = ys := by
  obtain ⟨fl, fr, hfilter, hl, hr⟩ := List.map_eq_append_iff.1 h
  obtain ⟨e, fr, rfl, he, htail⟩ := List.map_eq_cons_iff.1 hr
  obtain ⟨l, rest, rfl, hfl, hrest⟩ := List.filter_eq_append_iff.1 hfilter
  obtain ⟨skipped, r, rfl, hskipped, hpending, hfr⟩ := List.filter_eq_cons_iff.1 hrest
  obtain ⟨id, retired⟩ := e
  obtain rfl : retired = false := by simpa using hpending
  obtain rfl : id = msgId := he
  refine ⟨l ++ skipped, r, (List.append_assoc ..).symm, ?_, ?_⟩
  · rw [pendingIds, List.filter_append, hfl, List.filter_eq_nil_iff.2 hskipped, List.append_nil, hl]
  · rw [pendingIds, hfr, htail]

/-- Marking a request that stands behind others marks its own entry. -/
theorem markRetired_append (h : msgId ∉ l.map Prod.fst) (retired : Bool) :
    markRetired msgId (l ++ (msgId, retired) :: r) = l ++ (msgId, true) :: r := by
  induction l with
  | nil => simp [markRetired]
  | cons e l ih =>
    rw [List.map_cons, List.mem_cons, not_or] at h
    rw [List.cons_append, markRetired, if_neg (Ne.symm h.1), ih h.2, List.cons_append]

/-- Marking a request keeps the ids of an issue order. -/
theorem map_fst_markRetired (msgId : Nat) (q : List (Nat × Bool)) :
    (markRetired msgId q).map Prod.fst = q.map Prod.fst := by
  induction q with
  | nil => rfl
  | cons e q ih =>
    rw [markRetired]
    split_ifs
    · rfl
    · rw [List.map_cons, List.map_cons, ih]

/-- A row puts no new id into the issue order. -/
theorem CoreLog.map_fst_report_subset (c : CoreLog) (msgId : Nat) (m : Milestones) (info : EventMeta) :
    (c.report msgId m info).issueOrder.map Prod.fst ⊆ c.issueOrder.map Prod.fst := by
  change (c.retire msgId m.rx).2.issueOrder.map Prod.fst ⊆ _
  rw [CoreLog.retire]
  cases hq : c.issueOrder with
  | nil => rw [hq]; exact List.Subset.refl _
  | cons front q =>
    dsimp only
    by_cases hfront : front.1 = msgId
    · rw [if_pos hfront]
      exact (((List.dropWhile_sublist _).trans (List.sublist_cons_self front q)).map Prod.fst).subset
    · rw [if_neg hfront]
      exact fun id hid => map_fst_markRetired msgId (front :: q) ▸ hid

/-- The entries of retired requests at the front hide none that is outstanding. -/
theorem pendingIds_dropWhile (q : List (Nat × Bool)) : pendingIds (q.dropWhile fun e => e.2) = pendingIds q := by
  induction q with
  | nil => rfl
  | cons e q ih =>
    cases he : e.2 with
    | true =>
      rw [List.dropWhile_cons_of_pos he, ih, ← Prod.mk.eta (p := e), he, pendingIds_cons_true]
    | false => rw [List.dropWhile_cons_of_neg (by simp [he])]

/-- The entry at the front of an issue order without the retired ones at its front is outstanding. -/
theorem front_dropWhile (q : List (Nat × Bool)) : ∀ e ∈ (q.dropWhile fun e => e.2).head?, e.2 = false := by
  intro e he
  have hhead := List.head?_dropWhile_not (fun e : Nat × Bool => e.2) q
  rw [Option.mem_def.1 he] at hhead
  exact hhead

/-- What taking a request off the issue order of a core makes of the core: it was the oldest one since
`oldestStart`, or it retires behind older ones. -/
theorem CoreLog.Accounts.retire_eq (h : c.Accounts (older ++ req :: younger) settled) (rx : Nat) :
    ∃ q, pendingIds q = (older ++ younger).map Request.msgId ∧ (q.map Prod.fst).Nodup ∧
      (∀ e ∈ q.head?, e.2 = false) ∧
      c.retire req.msgId rx =
        if older = [] then
          (rx - c.oldestStart, { c with issueOrder := q, oldestStart := if younger = [] then c.oldestStart else rx })
        else (0, { c with issueOrder := q }) := by
  have hqueue := h.queue
  rw [List.map_append, List.map_cons] at hqueue
  obtain ⟨l, r, hq, hl, hr⟩ := exists_split_of_pendingIds hqueue
  have hfront := h.front
  have hnodup := h.nodup
  rw [hq] at hfront hnodup
  cases l with
  | nil =>
    -- the request is the front of the queue
    obtain rfl : older = [] := List.map_eq_nil_iff.1 hl.symm
    have hpending : pendingIds (r.dropWhile fun e => e.2) = younger.map Request.msgId :=
      (pendingIds_dropWhile r).trans hr
    have hempty : (r.dropWhile fun e => e.2).isEmpty = true ↔ younger = [] := by
      rw [List.isEmpty_iff, ← pendingIds_eq_nil (front_dropWhile r), hpending, List.map_eq_nil_iff]
    refine ⟨r.dropWhile fun e => e.2, hpending, ?_, front_dropWhile r, ?_⟩
    · exact ((List.dropWhile_sublist _).map Prod.fst).nodup (List.nodup_cons.1 hnodup).2
    · rw [CoreLog.retire, hq]
      dsimp only [List.nil_append]
      rw [if_pos rfl, if_pos rfl, Int.toNat_sub, Int.toNat_natCast]
      simp only [hempty]
  | cons e l =>
    -- an older request is there, and the entry of this one is marked
    have he : e.2 = false := hfront e rfl
    have hids : req.msgId ∉ (e :: l).map Prod.fst := by
      rw [List.map_append] at hnodup
      exact fun hmem => (List.nodup_append.1 hnodup).2.2 _ hmem _ (List.mem_cons_self ..) rfl
    have holder : older ≠ [] := by
      rintro rfl
      have hfront' : ∀ e' ∈ (e :: l).head?, e'.2 = false := hfront
      exact absurd ((pendingIds_eq_nil hfront').1 hl) (List.cons_ne_nil _ _)
    refine ⟨(e :: l) ++ (req.msgId, true) :: r, ?_, ?_, hfront, ?_⟩
    · rw [pendingIds_append, pendingIds_cons_true, hl, hr, List.map_append]
    · rwa [List.map_append, List.map_cons] at hnodup ⊢
    · have hne : e.1 ≠ req.msgId := fun heq => hids (heq ▸ List.mem_cons_self ..)
      rw [CoreLog.retire, hq, List.cons_append]
      dsimp only
      rw [if_neg hne, if_neg holder, ← List.cons_append, markRetired_append hids]

/-- A row keeps the account: the request was there up to now, and the next oldest one is the oldest from
now on. -/
theorem CoreLog.Accounts.report (h : c.Accounts (older ++ req :: younger) settled) {m : Milestones}
    {info : EventMeta} (hissue : m.issue = req.added) (hrx : m.rx = c.clkCount) (hinfo : info.reqId = req.msgId) :
    (c.report req.msgId m info).Accounts (older ++ younger) (settled ++ [Settled.mk req c.clkCount older]) := by
  obtain ⟨q, hqueue, hnodup, hfront, hretire⟩ := h.retire_eq c.clkCount
  have harrived : ∀ req' ∈ older ++ younger, req'.added ≤ c.clkCount := fun req' hreq' =>
    h.arrived req' (by simp at hreq' ⊢; tauto)
  have hleft : ∀ s ∈ settled ++ [Settled.mk req c.clkCount older], s.retired ≤ c.clkCount := by
    intro s hs
    rcases List.mem_append.1 hs with hold | hnew
    · exact h.left s hold
    · cases List.mem_singleton.1 hnew
      exact Nat.le_refl _
  have htotal : m.total.toNat = c.clkCount - req.added := by
    rw [Milestones.total, hissue, hrx, Int.toNat_sub]
  have hbusy : (Lib.busy ((settled ++ [Settled.mk req c.clkCount older]).map Settled.stay)
      ((older ++ younger).map Request.added) c.clkCount).card =
      (c.rows.map Row.oldest).sum + (c.clkCount - c.oldestStart) := by
    rw [List.map_append, List.map_append]
    refine (congrArg Finset.card (Lib.busy_leave _ _ _ req.added c.clkCount)).trans ?_
    rw [← List.map_cons, ← List.map_append]
    exact h.busy.trans (by rw [if_neg (by simp)])
  rw [CoreLog.report, hrx, hretire]
  by_cases holder : older = []
  · subst holder
    rw [if_pos rfl]
    have hstart := h.start req rfl
    dsimp only
    refine ⟨hqueue, hnodup, hfront, harrived, hleft, ?_, ?_, ?_⟩
    · intro req' hreq'
      have hne : younger ≠ [] := by
        rintro rfl
        cases hreq'
      rw [if_neg hne]
      exact ⟨harrived req' (List.mem_of_mem_head? hreq'), Nat.le_refl _⟩
    · dsimp only
      rw [hbusy, List.map_append, List.sum_append, List.map_singleton, List.sum_singleton, List.nil_append]
      split_ifs with hyounger
      · exact (Nat.add_zero _).symm
      · rw [Nat.sub_self, Nat.add_zero]
    · refine List.rel_append h.rows (.cons ⟨hinfo, htotal, ?_, fun hne => absurd rfl hne⟩ .nil)
      dsimp only
      rw [htotal]
      exact Nat.sub_le_sub_left hstart.1 _
  · rw [if_neg holder]
    dsimp only
    refine ⟨hqueue, hnodup, hfront, harrived, hleft, ?_, ?_, ?_⟩
    · obtain ⟨first, older, rfl⟩ := List.exists_cons_of_ne_nil holder
      exact h.start
    · dsimp only
      rw [hbusy, List.map_append, List.sum_append, List.map_singleton, List.sum_singleton, Nat.add_zero,
        if_neg (by simp [holder])]
    · exact List.rel_append h.rows (.cons ⟨hinfo, htotal, Nat.zero_le _, fun _ => rfl⟩ .nil)

end Octopus.Logger
