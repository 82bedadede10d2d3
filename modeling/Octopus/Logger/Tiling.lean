import Octopus.Lib.Tiling
import Octopus.Logger.Oldest

/-!
# When the stage columns add up

The self check adds the steps between consecutive milestones, a sum that telescopes: it checks that the
milestones are in order and nothing about the columns. Each column is the length of a span between two
milestones. In a row that is counted as tiled the columns add up to the total latency just when these
spans tile the timeline, unless the request went to memory and nobody stamped a response: there the
column of the LLC covers the excursion to memory a second time.
-/

namespace Octopus.Logger

/-- The milestones, in the order of the stages. -/
inductive Mark
  | issue
  | l1a
  | reqb
  | llca
  | memout
  | dre
  | drx
  | memin
  | llcs
  | llce
  | respb
  | rx
  deriving DecidableEq, Repr

/-- The milestones between the issue and the delivery, in the order of the stages. -/
def Mark.inner : List Mark := [.l1a, .reqb, .llca, .memout, .dre, .drx, .memin, .llcs, .llce, .respb]

/-- All milestones, in the order of the stages. -/
def Mark.all : List Mark := .issue :: (Mark.inner ++ [.rx])

/-- The place of a milestone in the order of the stages. -/
def Mark.pos : Mark → Nat
  | .issue => 0
  | .l1a => 1
  | .reqb => 2
  | .llca => 3
  | .memout => 4
  | .dre => 5
  | .drx => 6
  | .memin => 7
  | .llcs => 8
  | .llce => 9
  | .respb => 10
  | .rx => 11

namespace Milestones

/-- The cycle of a milestone, negative if it is absent. -/
def cycle (m : Milestones) : Mark → Int
  | .issue => m.issue
  | .l1a => m.l1a
  | .reqb => m.reqb
  | .llca => m.llca
  | .memout => m.memout
  | .dre => m.dre
  | .drx => m.drx
  | .memin => m.memin
  | .llcs => m.llcs
  | .llce => m.llce
  | .respb => m.respb
  | .rx => m.rx

/-- The part of a request's way to memory that the columns show: the legs between the LLC, the memory bus
and the memory. -/
def memorySpans (m : Milestones) : List (Mark × Mark) :=
  if m.miss then
    if 0 ≤ m.dre ∧ 0 ≤ m.drx then [(.llca, .dre), (.dre, .drx), (.drx, .memin)] else [(.llca, .memout), (.memout, .memin)]
  else []

/-- The part of the way back that starts at the LLC: the access and the response bus, or both in one. -/
def responseSpans (m : Milestones) : List (Mark × Mark) :=
  if m.noresp then [(.llca, .respb)] else [(if m.miss then .memin else .llca, .llcs), (.llce, .respb)]

/-- The pairs of milestones whose differences the columns up to the grant of the response bus show. -/
def forwardSpans (m : Milestones) : List (Mark × Mark) :=
  [(.issue, .l1a), (.l1a, .reqb), (.reqb, .llca)] ++ m.memorySpans ++ m.responseSpans

/-- The pairs of milestones whose differences the columns show. -/
def spans (m : Milestones) : List (Mark × Mark) :=
  m.forwardSpans ++ [(if 0 ≤ m.respb then .respb else .l1a, .rx)]

/-- The spans of the columns on the timeline; a column with an absent milestone has none. -/
def spanCycles (m : Milestones) : List (Int × Int) :=
  (m.spans.filter fun p => decide (0 ≤ m.cycle p.1 ∧ 0 ≤ m.cycle p.2)).map fun p => (m.cycle p.1, m.cycle p.2)

/-- The time before the admission of a request at the LLC that no column shows. -/
def unadmitted (m : Milestones) : Int :=
  if 0 ≤ m.l1a then if 0 ≤ m.reqb then 0 else m.llca - m.l1a
  else if 0 ≤ m.reqb then m.reqb - m.issue else m.llca - m.issue

/-- The time from the admission at the LLC to the last milestone of the way to memory. -/
def excursion (m : Milestones) : Int :=
  (if 0 ≤ m.memin then m.memin else if 0 ≤ m.dre ∧ 0 ≤ m.drx then m.drx else m.memout) - m.llca

/-- When the columns add up: the spans tile the timeline, or what is covered twice makes up for what is
left out. -/
def ColumnsTile (m : Milestones) : Prop :=
  if m.noresp ∧ m.miss then m.unadmitted = m.excursion else Lib.Tiled m.mil m.spanCycles

instance (m : Milestones) : Decidable m.ColumnsTile :=
  inferInstanceAs (Decidable (if m.noresp ∧ m.miss then m.unadmitted = m.excursion else Lib.Tiled m.mil m.spanCycles))

end Milestones

/-- Each milestone stands at its place. -/
theorem Mark.pos_lt (a : Mark) : a.pos < Mark.all.length := by
  cases a <;> decide

@[simp] theorem Mark.get_pos (a : Mark) : Mark.all.get ⟨a.pos, a.pos_lt⟩ = a := by
  cases a <;> rfl

namespace Milestones

variable {m : Milestones} {a b : Mark}

/-- The milestones of a timeline from its entry to its exit are those that are present. -/
theorem mil_eq (hissue : 0 ≤ m.issue) (hrx : 0 ≤ m.rx) :
    m.mil = (Mark.all.filter fun a => decide (0 ≤ m.cycle a)).map m.cycle := by
  have hinner : m.inner = Mark.inner.map m.cycle := rfl
  have hfirst : decide (0 ≤ m.cycle .issue) = true := decide_eq_true hissue
  have hlast : decide (0 ≤ m.cycle .rx) = true := decide_eq_true hrx
  rw [mil, hinner, List.filter_map, Mark.all, List.filter_cons, if_pos hfirst, List.filter_append, List.filter_cons,
    if_pos hlast, List.map_cons, List.map_append]
  rfl

/-- The self check says that the milestones are in order, and nothing more. -/
theorem tiled_iff : m.tiled = true ↔ m.mil.Pairwise (· ≤ ·) := by
  have hsum : m.steps.sum = m.total := by
    have htelescope := Lib.sum_stretches (fun t => t) m.issue ((m.inner.filter fun x => decide (0 ≤ x)) ++ [m.rx])
    rw [List.getLast_cons (by simp), List.getLast_append_singleton] at htelescope
    exact htelescope
  rw [tiled, hsum, beq_self_eq_true, Bool.and_true, Lib.pairwise_le_iff, List.all_eq_true, steps, List.forall_mem_map]
  exact forall₂_congr fun s _ => by rw [decide_eq_true_iff, Int.sub_nonneg]

/-- The milestones that are present are in order. -/
theorem cycle_le (h : m.mil.Pairwise (· ≤ ·)) (hissue : 0 ≤ m.issue) (hrx : 0 ≤ m.rx) (hpos : a.pos < b.pos)
    (ha : 0 ≤ m.cycle a) (hb : 0 ≤ m.cycle b) : m.cycle a ≤ m.cycle b := by
  rw [mil_eq hissue hrx, List.pairwise_map, List.pairwise_filter, List.pairwise_iff_get] at h
  have hle := h ⟨a.pos, a.pos_lt⟩ ⟨b.pos, b.pos_lt⟩ hpos
  rw [Mark.get_pos, Mark.get_pos, decide_eq_true_iff, decide_eq_true_iff] at hle
  exact hle ha hb

/-- The length of the span between two milestones, `0` if one is absent. -/
def length (m : Milestones) (p : Mark × Mark) : Int :=
  if 0 ≤ m.cycle p.1 ∧ 0 ≤ m.cycle p.2 then m.cycle p.2 - m.cycle p.1 else 0

/-- The clamped difference of two milestones that are in order is the length of their span. -/
theorem cd_eq (h : m.mil.Pairwise (· ≤ ·)) (hissue : 0 ≤ m.issue) (hrx : 0 ≤ m.rx) (hpos : a.pos < b.pos) :
    (cd (m.cycle b) (m.cycle a) : Int) = m.length (a, b) := by
  rw [cd, length]
  dsimp only
  have hle := cycle_le h hissue hrx hpos
  split_ifs <;> omega

/-- The spans of the columns are together as long as the columns that have one. -/
theorem sum_spanCycles (m : Milestones) :
    (m.spanCycles.map fun p => p.2 - p.1).sum = (m.spans.map m.length).sum := by
  rw [spanCycles, List.map_map]
  induction m.spans with
  | nil => rfl
  | cons p spans ih =>
    rw [List.map_cons, List.sum_cons, ← ih, length, List.filter_cons]
    split_ifs <;> simp_all

/-- The column of the return path starts at the grant of the response bus, or at the L1. -/
theorem cd_rx_eq (h : m.mil.Pairwise (· ≤ ·)) (hissue : 0 ≤ m.issue) (hrx : 0 ≤ m.rx) :
    (cd m.rx (max m.l1a m.respb) : Int) = m.length (if 0 ≤ m.respb then .respb else .l1a, .rx) := by
  split_ifs with hrespb
  · have hmax : max m.l1a m.respb = m.respb := by
      rcases lt_or_ge m.l1a 0 with hl1a | hl1a
      · omega
      · exact max_eq_right (cycle_le (a := .l1a) (b := .respb) h hissue hrx (by decide) hl1a hrespb)
    rw [hmax]
    exact cd_eq (a := .respb) (b := .rx) h hissue hrx (by decide)
  · rcases lt_or_ge m.l1a 0 with hl1a | hl1a
    · rw [cd, length, if_neg (by omega), if_neg fun hboth => absurd hboth.1 (Int.not_le.2 hl1a)]
      rfl
    · rw [max_eq_left (by omega)]
      exact cd_eq (a := .l1a) (b := .rx) h hissue hrx (by decide)

/-- The columns of the bus to memory and of the memory. -/
theorem memory_columns (h : m.mil.Pairwise (· ≤ ·)) (hissue : 0 ≤ m.issue) (hrx : 0 ≤ m.rx) :
    (m.stages.l2DramBus + m.stages.dram : Int) = (m.memorySpans.map m.length).sum := by
  have hcd : ∀ a b, a.pos < b.pos → (cd (m.cycle b) (m.cycle a) : Int) = m.length (a, b) := fun a b =>
    cd_eq h hissue hrx
  have hhandoff : (cd m.dre m.llca : Int) = _ := hcd .llca .dre (by decide)
  have hdata : (cd m.memin m.drx : Int) = _ := hcd .drx .memin (by decide)
  have hservice : (cd m.drx m.dre : Int) = _ := hcd .dre .drx (by decide)
  have hout : (cd m.memout m.llca : Int) = _ := hcd .llca .memout (by decide)
  have hback : (cd m.memin m.memout : Int) = _ := hcd .memout .memin (by decide)
  rw [stages, memorySpans]
  dsimp only
  split_ifs
  · simp only [List.map_cons, List.map_nil, List.sum_cons, List.sum_nil, Int.natCast_add]
    omega
  · simp only [List.map_cons, List.map_nil, List.sum_cons, List.sum_nil]
    omega
  · rfl

/-- The columns of the access at the LLC and of the response bus. -/
theorem response_columns (h : m.mil.Pairwise (· ≤ ·)) (hissue : 0 ≤ m.issue) (hrx : 0 ≤ m.rx) :
    (m.stages.l2Access + m.stages.respBus : Int) = (m.responseSpans.map m.length).sum := by
  have hcd : ∀ a b, a.pos < b.pos → (cd (m.cycle b) (m.cycle a) : Int) = m.length (a, b) := fun a b =>
    cd_eq h hissue hrx
  have hfolded : (cd m.respb m.llca : Int) = _ := hcd .llca .respb (by decide)
  have hrefill : (cd m.llcs m.memin : Int) = _ := hcd .memin .llcs (by decide)
  have haccess : (cd m.llcs m.llca : Int) = _ := hcd .llca .llcs (by decide)
  have hrespBus : (cd m.respb m.llce : Int) = _ := hcd .llce .respb (by decide)
  rw [stages, responseSpans]
  dsimp only
  split_ifs <;>
  · simp only [List.map_cons, List.map_nil, List.sum_cons, List.sum_nil]
    omega

/-- The columns are the lengths of the spans. -/
theorem sum_columns (h : m.mil.Pairwise (· ≤ ·)) (hissue : 0 ≤ m.issue) (hrx : 0 ≤ m.rx) :
    (m.stages.columns.sum : Int) = (m.spans.map m.length).sum := by
  have hl1Stall : (m.stages.l1Stall : Int) = m.length (.issue, .l1a) :=
    cd_eq (a := .issue) (b := .l1a) h hissue hrx (by decide)
  have hreqBus : (m.stages.reqBus : Int) = m.length (.l1a, .reqb) :=
    cd_eq (a := .l1a) (b := .reqb) h hissue hrx (by decide)
  have hl2Stall : (m.stages.l2Stall : Int) = m.length (.reqb, .llca) :=
    cd_eq (a := .reqb) (b := .llca) h hissue hrx (by decide)
  have hl1Access : (m.stages.l1Access : Int) = _ := cd_rx_eq h hissue hrx
  have hmemory := memory_columns h hissue hrx
  have hresponse := response_columns h hissue hrx
  rw [Stages.columns, spans, forwardSpans]
  simp only [List.map_append, List.map_cons, List.map_nil, List.sum_append, List.sum_cons, List.sum_nil,
    Int.natCast_add, Int.natCast_zero]
  omega

/-- The spans lead forwards in the order of the stages. -/
theorem pos_lt_of_mem_spans (m : Milestones) : ∀ p ∈ m.spans, p.1.pos < p.2.pos := by
  rw [spans, forwardSpans, memorySpans, responseSpans]
  split_ifs <;> decide

/-- The spans of the columns lead from milestone to milestone. -/
theorem mem_spanCycles (h : m.mil.Pairwise (· ≤ ·)) (hissue : 0 ≤ m.issue) (hrx : 0 ≤ m.rx) :
    ∀ p ∈ m.spanCycles, p.1 ∈ m.mil ∧ p.2 ∈ m.mil ∧ p.1 ≤ p.2 := by
  have hmem : ∀ a, 0 ≤ m.cycle a → m.cycle a ∈ m.mil := fun a ha => by
    rw [mil_eq hissue hrx]
    exact List.mem_map_of_mem (List.mem_filter.2 ⟨Mark.get_pos a ▸ List.get_mem .., decide_eq_true ha⟩)
  intro p hp
  obtain ⟨q, hq, rfl⟩ := List.mem_map.1 hp
  obtain ⟨hspan, hpresent⟩ := List.mem_filter.1 hq
  have hpresent := of_decide_eq_true hpresent
  exact ⟨hmem q.1 hpresent.1, hmem q.2 hpresent.2,
    cycle_le h hissue hrx (m.pos_lt_of_mem_spans q hspan) hpresent.1 hpresent.2⟩

/-- Milestones at the places of their order are in order, a milestone and itself included. -/
theorem cycle_le_of_pos_le (h : m.mil.Pairwise (· ≤ ·)) (hissue : 0 ≤ m.issue) (hrx : 0 ≤ m.rx)
    (hpos : a.pos ≤ b.pos) (ha : 0 ≤ m.cycle a) (hb : 0 ≤ m.cycle b) : m.cycle a ≤ m.cycle b := by
  rcases Nat.lt_or_eq_of_le hpos with hlt | heq
  · exact cycle_le h hissue hrx hlt ha hb
  · have hab : a = b := by
      rw [← Mark.get_pos a, ← Mark.get_pos b]
      congr 1
      exact Fin.ext heq
    rw [hab]

/-- The spans before the return path lie one behind the other, up to the grant of the response bus. -/
theorem pairwise_forwardSpans (hcolumn : ¬ (m.noresp = true ∧ m.miss = true)) :
    m.forwardSpans.Pairwise (fun p q => p.2.pos ≤ q.1.pos) ∧ ∀ p ∈ m.forwardSpans, p.2.pos ≤ Mark.respb.pos := by
  rw [forwardSpans, memorySpans, responseSpans]
  split_ifs with hmiss hdram hnoresp hnoresp hnoresp
  · exact absurd ⟨hnoresp, hmiss⟩ hcolumn
  · decide
  · exact absurd ⟨hnoresp, hmiss⟩ hcolumn
  · decide
  · decide
  · decide

/-- Unless the request went to memory without a response, or its response was never granted, the spans of
the columns lie one behind the other. -/
theorem pairwise_spanCycles (h : m.mil.Pairwise (· ≤ ·)) (hissue : 0 ≤ m.issue) (hrx : 0 ≤ m.rx)
    (hcolumn : ¬ (m.noresp = true ∧ m.miss = true)) (hgrant : 0 ≤ m.respb ∨ m.l1a < 0) :
    m.spanCycles.Pairwise fun p q => p.2 ≤ q.1 := by
  obtain ⟨hfront, hlast⟩ := pairwise_forwardSpans hcolumn
  have hpos : m.spans.Pairwise fun p q => 0 ≤ m.cycle q.1 → p.2.pos ≤ q.1.pos := by
    rw [spans, List.pairwise_append]
    refine ⟨?_, List.pairwise_singleton .., fun p hp q hq hpresent => ?_⟩
    · refine hfront.imp ?_
      exact fun hle _ => hle
    cases List.mem_singleton.1 hq
    dsimp only at hpresent ⊢
    split_ifs at hpresent ⊢ with hrespb
    · exact hlast p hp
    · exact absurd hpresent (Int.not_le.2 (hgrant.resolve_left hrespb))
  rw [spanCycles, List.pairwise_map, List.pairwise_filter]
  refine hpos.imp fun hle hp hq => ?_
  have hp := of_decide_eq_true hp
  have hq := of_decide_eq_true hq
  exact cycle_le_of_pos_le h hissue hrx (hle hq.1) hp.2 hq.1

/-- A response that was never granted: the column of the L1 shows everything behind its admission. -/
theorem one_le_cover (h : m.mil.Pairwise (· ≤ ·)) (hissue : 0 ≤ m.issue) (hrx : 0 ≤ m.rx) (hl1a : 0 ≤ m.l1a)
    (hrespb : ¬ 0 ≤ m.respb) : ∀ s ∈ Lib.stretches m.mil, 1 ≤ Lib.cover m.spanCycles s := by
  have hmem : ∀ p ∈ m.spans, 0 ≤ m.cycle p.1 → 0 ≤ m.cycle p.2 → (m.cycle p.1, m.cycle p.2) ∈ m.spanCycles :=
    fun p hp h₁ h₂ => List.mem_map_of_mem (List.mem_filter.2 ⟨hp, decide_eq_true ⟨h₁, h₂⟩⟩)
  have hin : (m.issue, m.l1a) ∈ m.spanCycles := hmem (.issue, .l1a) (by simp [spans, forwardSpans]) hissue hl1a
  have hout : (m.l1a, m.rx) ∈ m.spanCycles := hmem (.l1a, .rx) (by simp [spans, hrespb]) hl1a hrx
  have hfirst : ∀ x ∈ m.mil, m.issue ≤ x := List.forall_mem_cons.2 ⟨Int.le_refl _, (List.pairwise_cons.1 h).1⟩
  have hlast : ∀ x ∈ m.mil, x ≤ m.rx := fun x hx => by
    have hle := h.rel_getLast hx
    rwa [show m.mil.getLast _ = m.rx from List.getLast_append_singleton _] at hle
  intro s hs
  refine List.countP_pos_iff.2 ?_
  rcases Lib.le_or_le_of_mem h (mem_spanCycles h hissue hrx _ hin).2.1 hs with hle | hle
  · exact ⟨_, hin, decide_eq_true ⟨hfirst _ (List.of_mem_zip hs).1, hle⟩⟩
  · exact ⟨_, hout, decide_eq_true ⟨hle, hlast _ (List.mem_of_mem_tail (List.of_mem_zip hs).2)⟩⟩

/-- Without a response the columns show the excursion to memory twice, and leave out what precedes the
admission at the LLC. -/
theorem sum_columns_of_noresp (h : m.mil.Pairwise (· ≤ ·)) (hissue : 0 ≤ m.issue) (hrx : 0 ≤ m.rx)
    (hresp : m.noresp = true) (hmiss : m.miss = true) :
    (m.stages.columns.sum : Int) = m.total - m.unadmitted + m.excursion := by
  have hnoresp := hresp
  rw [noresp, Bool.and_eq_true, Bool.and_eq_true, decide_eq_true_iff, decide_eq_true_iff, decide_eq_true_iff]
    at hnoresp
  have hmiss' : 0 ≤ m.memout := of_decide_eq_true hmiss
  have hadmitted : m.length (.issue, .l1a) + (m.length (.l1a, .reqb) + m.length (.reqb, .llca)) =
      m.llca - m.issue - m.unadmitted := by
    simp only [length, cycle, unadmitted, hissue, hnoresp.1.2, true_and, and_true]
    split_ifs <;> omega
  have hmemory : (m.memorySpans.map m.length).sum = m.excursion := by
    have hadmission := hnoresp.1.2
    rw [memorySpans, if_pos hmiss, excursion]
    by_cases hdram : 0 ≤ m.dre ∧ 0 ≤ m.drx
    · rw [if_pos hdram, if_pos hdram]
      simp only [List.map_cons, List.map_nil, List.sum_cons, List.sum_nil, length, cycle]
      split_ifs <;> omega
    · rw [if_neg hdram, if_neg hdram]
      simp only [List.map_cons, List.map_nil, List.sum_cons, List.sum_nil, length, cycle]
      split_ifs <;> omega
  have hfolded : m.length (.llca, .respb) = m.respb - m.llca := if_pos ⟨hnoresp.1.2, hnoresp.2⟩
  have hreturn : m.length (.respb, .rx) = m.rx - m.respb := if_pos ⟨hnoresp.2, hrx⟩
  rw [sum_columns h hissue hrx, spans, forwardSpans, responseSpans, if_pos hresp, if_pos hnoresp.2]
  simp only [List.map_append, List.map_cons, List.map_nil, List.sum_append, List.sum_cons, List.sum_nil, total]
  omega

/-- In a row that is counted as tiled the columns add up to the total latency just when they tile the
timeline, or what they show twice makes up for what they leave out. -/
theorem sum_columns_eq_total_iff (h : m.tiled = true) (hissue : 0 ≤ m.issue) (hrx : 0 ≤ m.rx) :
    (m.stages.columns.sum : Int) = m.total ↔ m.ColumnsTile := by
  have hsorted := tiled_iff.1 h
  rw [ColumnsTile]
  split_ifs with hcolumn
  · rw [sum_columns_of_noresp hsorted hissue hrx hcolumn.1 hcolumn.2]
    omega
  · rw [sum_columns hsorted hissue hrx, ← sum_spanCycles]
    have hlast : m.mil.getLast (List.cons_ne_nil _ _) = m.rx := List.getLast_append_singleton _
    have hspans := mem_spanCycles hsorted hissue hrx
    rw [total, ← hlast]
    refine Lib.sum_spans_eq_iff hsorted hspans ?_
    by_cases hgrant : 0 ≤ m.respb ∨ m.l1a < 0
    · have hpairwise := pairwise_spanCycles hsorted hissue hrx hcolumn hgrant
      exact .inl fun s _ hlt => Lib.cover_le_one hpairwise hlt
    · rw [not_or, Int.not_lt] at hgrant
      exact .inr fun s hs _ => one_le_cover hsorted hissue hrx hgrant.2 hgrant.1 s hs

/-- The total latency of a tiled timeline is not negative. -/
theorem total_nonneg (h : m.tiled = true) (hissue : 0 ≤ m.issue) (hrx : 0 ≤ m.rx) : 0 ≤ m.total :=
  Int.sub_nonneg.2 (cycle_le (a := .issue) (b := .rx) (tiled_iff.1 h) hissue hrx (by decide) hissue hrx)

end Milestones

variable {l : Logger} {msgId coreId : Nat} {info : EventMeta}

/-- The self check counts a request as tiled only if its timeline has an entry and an exit and is in order. -/
theorem tiled_of_evtOk (h : (l.finalizeEvents msgId).evtOk = l.evtOk + 1) :
    0 ≤ (milestones (l.eventLog msgId)).issue ∧ 0 ≤ (milestones (l.eventLog msgId)).rx ∧
      (milestones (l.eventLog msgId)).tiled = true := by
  rw [finalizeEvents] at h
  dsimp only at h
  split at h
  · exact absurd h (Nat.ne_of_lt (Nat.lt_succ_self _))
  next hgo =>
    rw [not_or, not_or, Int.not_lt, Int.not_lt] at hgo
    refine ⟨hgo.2.1, hgo.2.2, ?_⟩
    by_contra htiled
    rw [if_neg htiled] at h
    dsimp only at h
    split at h
    · exact absurd h (Nat.ne_of_lt (Nat.lt_succ_self _))
    · exact absurd h (Nat.ne_of_lt (Nat.lt_succ_self _))

/-- When the self check counts a request as tiled, the columns of its row add up to the total latency just
when their spans tile the timeline, or what they show twice makes up for what they leave out. -/
theorem printed_columns_iff (hcore : l.eventCore msgId = some coreId) (hinfo : l.eventMeta msgId = some info)
    (htiled : (l.finalizeEvents msgId).evtOk = l.evtOk + 1) :
    ∃ row, ((l.finalizeEvents msgId).core coreId).rows = (l.core coreId).rows ++ [row] ∧
      (row.stages.columns.sum = row.total ↔ (milestones (l.eventLog msgId)).ColumnsTile) := by
  obtain ⟨hissue, hrx, hcheck⟩ := tiled_of_evtOk htiled
  have htotal := Milestones.total_nonneg hcheck hissue hrx
  obtain ⟨row, hrows, hstages, hprinted⟩ := (l.core coreId).report_rows msgId (milestones (l.eventLog msgId)) info
  refine ⟨row, ?_, ?_⟩
  · rw [finalizeEvents_eq hcore hinfo rfl hissue hrx]
    dsimp only
    rw [Function.update_self]
    exact hrows
  · rw [← Milestones.sum_columns_eq_total_iff hcheck hissue hrx, hstages, hprinted]
    omega

/-- A miss that is fetched from memory and that the LLC serves in a number of cycles. -/
def missLogger (served : Nat) : Logger where
  eventLog _ := [⟨0, .cpu, .enter, 0⟩, ⟨1, .l1, .enter, 1⟩, ⟨0, .reqBus, .exit, 2⟩, ⟨9, .llc, .enter, 4⟩,
    ⟨0, .memBus, .exit, 5⟩, ⟨0, .dram, .enter, 7⟩, ⟨0, .dram, .exit, 20⟩, ⟨0, .memBus, .exit, 21⟩,
    ⟨9, .llc, .service, 23⟩, ⟨9, .llc, .exit, 23 + served⟩, ⟨0, .respBus, .exit, 26⟩, ⟨0, .cpu, .exit, 28⟩]
  eventCore _ := some 0
  eventMeta _ := some { reqId := 1, addr := 64, trace := 0 }

/-- Its columns add up to the total if the LLC serves it at once, and not if the LLC takes two cycles. -/
theorem printed_columns_iff_miss :
    (∃ row, (((missLogger 0).finalizeEvents 1).core 0).rows = ((missLogger 0).core 0).rows ++ [row] ∧
      row.stages.columns.sum = row.total) ∧
    ∃ row, (((missLogger 2).finalizeEvents 1).core 0).rows = ((missLogger 2).core 0).rows ++ [row] ∧
      row.stages.columns.sum ≠ row.total := by
  constructor
  · obtain ⟨row, hrows, hsum⟩ := @printed_columns_iff (missLogger 0) 1 0 _ rfl rfl (by decide)
    exact ⟨row, hrows, hsum.2 (by decide)⟩
  · obtain ⟨row, hrows, hsum⟩ := @printed_columns_iff (missLogger 2) 1 0 _ rfl rfl (by decide)
    exact ⟨row, hrows, fun heq => absurd (hsum.1 heq) (by decide)⟩

/-- The calls for a request that the LLC serves in two cycles: its columns leave the service out. -/
def servedCalls : List Call :=
  [.addRequest 0 1 64 0, .event 1 .l1 1 .enter, .setClkCount 0 1, .event 1 .reqBus 0 .exit, .setClkCount 0 2,
    .event 1 .llc 9 .enter, .setClkCount 0 3, .event 1 .llc 9 .service, .setClkCount 0 5, .event 1 .llc 9 .exit,
    .setClkCount 0 6, .event 1 .respBus 0 .exit, .setClkCount 0 8, .retire 0 1]

/-- The self check counts the request as tiled, and the columns add up to two cycles less than the total. -/
theorem servedCalls_columns : (servedCalls.foldlM Recorded.callIfAllowed {}).any (fun r =>
    r.logger.evtOk == 1 && r.logger.evtFail == 0 &&
      (r.logger.core 0).rows.map (fun row => (row.stages.columns.sum, row.total)) == [(6, 8)]) = true := by
  decide

end Octopus.Logger
