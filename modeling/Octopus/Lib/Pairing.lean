import Mathlib.Data.List.Dedup
import Mathlib.Data.List.Perm.Subperm
import Mathlib.Data.List.Sort
import Mathlib.Data.List.Induction

/-!
# Starts and ends

The k-th start of a key belongs to the k-th end of it. Starts whose end did not come yet are kept for the
next piece of a stream; an end without a start is an orphan. A stream without orphans is matched as if it
came in one piece.
-/

namespace Octopus.Lib

variable {α β κ : Type*}

/-- What starts and what ends an interval, and which of them belong together. -/
structure Matching (α κ : Type*) where
  isStart : α → Bool
  isEnd : α → Bool
  key : α → κ
  exclusive : ∀ a, isStart a = true → isEnd a = false

section Keys

variable [DecidableEq κ]

/-- Lists that agree key by key are the same up to order. -/
theorem perm_of_filter_key (key : α → κ) (l l' : List α)
    (h : ∀ k, (l.filter fun a => decide (key a = k)) = l'.filter fun a => decide (key a = k)) : l.Perm l' := by
  classical
  rw [List.perm_iff_count]
  intro a
  have hl := List.count_filter (l := l) (p := fun b => decide (key b = key a)) (a := a) (by simp)
  have hl' := List.count_filter (l := l') (p := fun b => decide (key b = key a)) (a := a) (by simp)
  rw [← hl, ← hl', h]

/-- What a list made key by key has for one key. -/
theorem filter_flatMap_key (key : β → κ) (f : κ → List β) (hf : ∀ k, ∀ b ∈ f k, key b = k) (keys : List κ)
    (hnodup : keys.Nodup) (k : κ) :
    ((keys.flatMap f).filter fun b => decide (key b = k)) = if k ∈ keys then f k else [] := by
  induction keys with
  | nil => rfl
  | cons k' keys ih =>
    rw [List.nodup_cons] at hnodup
    rw [List.flatMap_cons, List.filter_append, ih hnodup.2]
    by_cases heq : k' = k
    · subst heq
      have hall : (f k').filter (fun b => decide (key b = k')) = f k' := by
        rw [List.filter_eq_self]
        intro b hb
        simpa using hf k' b hb
      rw [hall, if_neg hnodup.1, if_pos List.mem_cons_self, List.append_nil]
    · have hnone : (f k').filter (fun b => decide (key b = k)) = [] := by
        rw [List.filter_eq_nil_iff]
        intro b hb hkey
        have hb' := hf k' b hb
        simp only [decide_eq_true_eq] at hkey
        exact heq (hb'.symm.trans hkey)
      simp only [hnone, List.nil_append, List.mem_cons, Ne.symm heq, false_or]

end Keys

/-- The second list of a zip, as far as the first one reaches. -/
theorem map_snd_zip_take (starts ends : List α) : (starts.zip ends).map Prod.snd = ends.take starts.length := by
  induction starts generalizing ends with
  | nil => simp
  | cons s starts ih =>
    cases ends with
    | nil => simp
    | cons e ends => simp [ih]

/-- Pairs of a stream's next part come behind those of its first part. -/
theorem zip_append_drop (starts starts' ends ends' : List α) (hle : ends.length ≤ starts.length) :
    starts.zip ends ++ (starts.drop ends.length ++ starts').zip ends' = (starts ++ starts').zip (ends ++ ends') := by
  induction ends generalizing starts with
  | nil => simp
  | cons e ends ih =>
    cases starts with
    | nil => simp at hle
    | cons s starts =>
      have htail := ih starts (Nat.le_of_succ_le_succ hle)
      simpa using htail

namespace Matching

variable [LinearOrder κ] (m : Matching α κ)

/-- The starts of a key, in order. -/
def starts (k : κ) (records : List α) : List α := records.filter fun r => m.isStart r && decide (m.key r = k)

/-- The ends of a key, in order. -/
def ends (k : κ) (records : List α) : List α := records.filter fun r => m.isEnd r && decide (m.key r = k)

/-- The keys of the starts, in their order. -/
def keys (records : List α) : List κ := ((records.filter m.isStart).map m.key).dedup.insertionSort (· ≤ ·)

/-- Starts with the ends that belong to them, key by key. -/
def pairs (records : List α) : List (α × α) :=
  (m.keys records).flatMap fun k => (m.starts k records).zip (m.ends k records)

/-- The starts that no end belongs to: in their own order where there are no ends, else key by key. -/
def unmatched (records : List α) : List α :=
  if records.filter m.isEnd = [] then records.filter m.isStart
  else (m.keys records).flatMap fun k => (m.starts k records).drop (m.ends k records).length

/-- The number of ends that no start belongs to. -/
def orphans (records : List α) : Nat := (records.filter m.isEnd).length - (m.pairs records).length

/-- Without records nothing is matched. -/
@[simp] theorem pairs_nil : m.pairs [] = [] := by
  simp [pairs, keys]

/-- Without records nothing is left. -/
@[simp] theorem unmatched_nil : m.unmatched [] = [] := rfl

/-- Without records there is no orphan. -/
@[simp] theorem orphans_nil : m.orphans [] = 0 := by
  simp [orphans]

/-- The starts of one list and the next. -/
@[simp] theorem starts_append (k : κ) (records records' : List α) :
    m.starts k (records ++ records') = m.starts k records ++ m.starts k records' := List.filter_append ..

/-- The ends of one list and the next. -/
@[simp] theorem ends_append (k : κ) (records records' : List α) :
    m.ends k (records ++ records') = m.ends k records ++ m.ends k records' := List.filter_append ..

/-- The keys are listed once. -/
theorem keys_nodup (records : List α) : (m.keys records).Nodup := by
  have hperm := List.perm_insertionSort (· ≤ ·) ((records.filter m.isStart).map m.key).dedup
  rw [keys, hperm.nodup_iff]
  exact List.nodup_dedup _

/-- A key that has no start has none. -/
theorem starts_eq_nil (k : κ) (records : List α) (hk : k ∉ m.keys records) : m.starts k records = [] := by
  rw [starts, List.filter_eq_nil_iff]
  intro r hr hstart
  simp only [Bool.and_eq_true, decide_eq_true_eq] at hstart
  apply hk
  simp only [keys, List.mem_insertionSort, List.mem_dedup, List.mem_map, List.mem_filter]
  exact ⟨r, ⟨hr, hstart.1⟩, hstart.2⟩

/-- The starts of a key have it. -/
theorem key_of_mem_starts {k : κ} {records : List α} {r : α} (hr : r ∈ m.starts k records) : m.key r = k := by
  have hsel := (List.mem_filter.1 hr).2
  simp only [Bool.and_eq_true, decide_eq_true_eq] at hsel
  exact hsel.2

/-- The ends of a key have it. -/
theorem key_of_mem_ends {k : κ} {records : List α} {r : α} (hr : r ∈ m.ends k records) : m.key r = k := by
  have hsel := (List.mem_filter.1 hr).2
  simp only [Bool.and_eq_true, decide_eq_true_eq] at hsel
  exact hsel.2

/-- The pairs of a key: its first start with its first end, and so on. -/
theorem pairs_filter (k : κ) (records : List α) :
    ((m.pairs records).filter fun p => decide (m.key p.1 = k)) = (m.starts k records).zip (m.ends k records) := by
  rw [pairs, filter_flatMap_key (fun p : α × α => m.key p.1) _ _ _ (m.keys_nodup records)]
  · by_cases hk : k ∈ m.keys records
    · rw [if_pos hk]
    · rw [if_neg hk, m.starts_eq_nil k records hk, List.zip_nil_left]
  · intro k' p hp
    exact m.key_of_mem_starts (List.of_mem_zip hp).1

/-- The unmatched starts of a key: those behind as many as it has ends. -/
theorem unmatched_filter (k : κ) (records : List α) :
    ((m.unmatched records).filter fun r => decide (m.key r = k)) =
      (m.starts k records).drop (m.ends k records).length := by
  by_cases hends : records.filter m.isEnd = []
  · have hnone : m.ends k records = [] := by
      have hsplit : m.ends k records = (records.filter m.isEnd).filter fun r => decide (m.key r = k) := by
        rw [List.filter_filter, ends]
        congr 1
        funext r
        exact Bool.and_comm _ _
      rw [hsplit, hends, List.filter_nil]
    rw [unmatched, if_pos hends, hnone, List.length_nil, List.drop_zero, List.filter_filter, starts]
    congr 1
    funext r
    exact Bool.and_comm _ _
  · rw [unmatched, if_neg hends, filter_flatMap_key m.key _ _ _ (m.keys_nodup records)]
    · by_cases hk : k ∈ m.keys records
      · rw [if_pos hk]
      · rw [if_neg hk, m.starts_eq_nil k records hk, List.drop_nil]
    · intro k' r hr
      exact m.key_of_mem_starts (List.mem_of_mem_drop hr)

/-- Only starts stay unmatched. -/
theorem isStart_of_mem_unmatched {records : List α} {r : α} (hr : r ∈ m.unmatched records) : m.isStart r = true := by
  have hkey : r ∈ (m.unmatched records).filter fun r' => decide (m.key r' = m.key r) := by
    rw [List.mem_filter]
    exact ⟨hr, by simp⟩
  rw [unmatched_filter] at hkey
  have hsel := (List.mem_filter.1 (List.mem_of_mem_drop hkey)).2
  simp only [Bool.and_eq_true] at hsel
  exact hsel.1

/-- Pairs have one key. -/
theorem key_snd_eq {records : List α} {p : α × α} (hp : p ∈ m.pairs records) : m.key p.2 = m.key p.1 := by
  rw [pairs, List.mem_flatMap] at hp
  cases hp with
  | intro k h =>
    have hboth := List.of_mem_zip h.2
    rw [m.key_of_mem_ends hboth.2, m.key_of_mem_starts hboth.1]

/-- The matched ends of a key are its first ones. -/
theorem matched_ends_filter (k : κ) (records : List α) :
    (((m.pairs records).map Prod.snd).filter fun r => decide (m.key r = k)) =
      (m.ends k records).take (m.starts k records).length := by
  have hsame : ((m.pairs records).filter fun p => decide (m.key p.2 = k)) =
      (m.pairs records).filter fun p => decide (m.key p.1 = k) := by
    apply List.filter_congr
    intro p hp
    rw [m.key_snd_eq hp]
  rw [List.filter_map]
  simp only [Function.comp_def]
  rw [hsame, pairs_filter, map_snd_zip_take]

/-- The ends of a key among all ends. -/
theorem ends_filter (k : κ) (records : List α) :
    ((records.filter m.isEnd).filter fun r => decide (m.key r = k)) = m.ends k records := by
  rw [List.filter_filter, ends]
  congr 1
  funext r
  exact Bool.and_comm _ _

/-- There is no orphan exactly when no key has more ends than starts. -/
theorem orphans_eq_zero_iff (records : List α) :
    m.orphans records = 0 ↔ ∀ k, (m.ends k records).length ≤ (m.starts k records).length := by
  classical
  constructor
  · intro hzero k
    have hsubperm : ((m.pairs records).map Prod.snd).Subperm (records.filter m.isEnd) := by
      rw [List.subperm_ext_iff]
      intro r _
      have hpair := List.count_filter (l := (m.pairs records).map Prod.snd)
        (p := fun r' => decide (m.key r' = m.key r)) (a := r) (by simp)
      have hend := List.count_filter (l := records.filter m.isEnd)
        (p := fun r' => decide (m.key r' = m.key r)) (a := r) (by simp)
      rw [← hpair, ← hend, matched_ends_filter, ends_filter]
      exact (List.take_sublist _ _).count_le r
    have hlength : (records.filter m.isEnd).length ≤ ((m.pairs records).map Prod.snd).length := by
      rw [List.length_map]
      simp only [orphans] at hzero
      omega
    have hperm := hsubperm.perm_of_length_le hlength
    have hkey := (hperm.filter fun r => decide (m.key r = k)).length_eq
    rw [matched_ends_filter, ends_filter, List.length_take] at hkey
    omega
  · intro hle
    have hperm : ((m.pairs records).map Prod.snd).Perm (records.filter m.isEnd) := by
      apply perm_of_filter_key m.key
      intro k
      rw [matched_ends_filter, ends_filter, List.take_of_length_le (hle k)]
    have hlength := hperm.length_eq
    rw [List.length_map] at hlength
    rw [orphans, hlength, Nat.sub_self]

/-- What a stream has matched so far, and the starts it still carries. -/
structure Stream (α : Type*) where
  carry : List α := []
  matched : List (α × α) := []
  orphans : Nat := 0
  deriving Repr

/-- The records of the next piece that matter, behind the carried starts. -/
def batch (s : Stream α) (piece : List α) : List α := s.carry ++ piece.filter fun r => m.isStart r || m.isEnd r

/-- The next piece of a stream. -/
def feed (s : Stream α) (piece : List α) : Stream α where
  carry := m.unmatched (m.batch s piece)
  matched := s.matched ++ m.pairs (m.batch s piece)
  orphans := s.orphans + m.orphans (m.batch s piece)

/-- A stream that comes in pieces. -/
def stream (pieces : List (List α)) : Stream α := pieces.foldl m.feed {}

/-- One piece more. -/
theorem stream_concat (pieces : List (List α)) (piece : List α) :
    m.stream (pieces ++ [piece]) = m.feed (m.stream pieces) piece := by
  rw [stream, List.foldl_append, List.foldl_cons, List.foldl_nil, stream]

/-- The starts among the records that matter are all starts. -/
theorem starts_filter (k : κ) (records : List α) :
    m.starts k (records.filter fun r => m.isStart r || m.isEnd r) = m.starts k records := by
  rw [starts, starts, List.filter_filter]
  congr 1
  funext r
  cases m.isStart r <;> simp

/-- The ends among the records that matter are all ends. -/
theorem ends_filter_either (k : κ) (records : List α) :
    m.ends k (records.filter fun r => m.isStart r || m.isEnd r) = m.ends k records := by
  rw [ends, ends, List.filter_filter]
  congr 1
  funext r
  cases m.isEnd r <;> simp

/-- What a stream carries, key by key, agrees with what its records leave unmatched. -/
structure Agrees (s : Stream α) (records : List α) : Prop where
  carry : ∀ k, m.starts k s.carry = (m.starts k records).drop (m.ends k records).length
  carry_key : ∀ k, (s.carry.filter fun r => decide (m.key r = k)) = m.starts k s.carry
  no_end : ∀ k, m.ends k s.carry = []
  matched : ∀ k, (s.matched.filter fun p => decide (m.key p.1 = k)) = (m.starts k records).zip (m.ends k records)
  enough : ∀ k, (m.ends k records).length ≤ (m.starts k records).length

/-- A stream that has not started. -/
theorem Agrees.nil : m.Agrees {} [] where
  carry _ := rfl
  carry_key _ := rfl
  no_end _ := rfl
  matched _ := rfl
  enough _ := Nat.le_refl _

/-- Among starts alone, the records of a key are its starts. -/
theorem filter_key_of_starts (records : List α) (hstarts : ∀ r ∈ records, m.isStart r = true) (k : κ) :
    (records.filter fun r => decide (m.key r = k)) = m.starts k records := by
  apply List.filter_congr
  intro r hr
  simp [hstarts r hr]

/-- Among starts alone there is no end. -/
theorem ends_of_starts (records : List α) (hstarts : ∀ r ∈ records, m.isStart r = true) (k : κ) :
    m.ends k records = [] := by
  rw [ends, List.filter_eq_nil_iff]
  intro r hr
  simp [m.exclusive r (hstarts r hr)]

variable {m} in
/-- A piece whose batch has no orphan keeps the agreement. -/
theorem Agrees.feed {s : Stream α} {records : List α} (h : m.Agrees s records) (piece : List α)
    (hzero : m.orphans (m.batch s piece) = 0) : m.Agrees (m.feed s piece) (records ++ piece) := by
  have hstarts (k : κ) : m.starts k (m.batch s piece) =
      (m.starts k records).drop (m.ends k records).length ++ m.starts k piece := by
    rw [batch, starts_append, h.carry, starts_filter]
  have hends (k : κ) : m.ends k (m.batch s piece) = m.ends k piece := by
    rw [batch, ends_append, h.no_end, ends_filter_either, List.nil_append]
  have hle (k : κ) : (m.ends k piece).length ≤
      (m.starts k records).length - (m.ends k records).length + (m.starts k piece).length := by
    have hkey := (m.orphans_eq_zero_iff _).1 hzero k
    rwa [hstarts, hends, List.length_append, List.length_drop] at hkey
  have honly : ∀ r ∈ m.unmatched (m.batch s piece), m.isStart r = true := fun r hr => m.isStart_of_mem_unmatched hr
  have hkey (k : κ) := m.filter_key_of_starts _ honly k
  constructor
  case carry =>
    intro k
    have henough := h.enough k
    have hsplit : (m.ends k records).length - (m.starts k records).length = 0 := by omega
    rw [Matching.feed, ← hkey, unmatched_filter, hstarts, hends, starts_append, ends_append, List.length_append,
      ← List.drop_drop, List.drop_append (i := (m.ends k records).length), hsplit, List.drop_zero]
  case carry_key => exact hkey
  case no_end => exact m.ends_of_starts _ honly
  case matched =>
    intro k
    rw [Matching.feed, List.filter_append, h.matched, pairs_filter, hstarts, hends, starts_append, ends_append,
      zip_append_drop _ _ _ _ (h.enough k)]
  case enough =>
    intro k
    have henough := h.enough k
    have hnext := hle k
    rw [starts_append, ends_append, List.length_append, List.length_append]
    omega

/-- A stream without orphans agrees with its records. -/
theorem agrees_stream (pieces : List (List α)) (hzero : (m.stream pieces).orphans = 0) :
    m.Agrees (m.stream pieces) pieces.flatten := by
  induction pieces using List.reverseRecOn with
  | nil => exact Agrees.nil m
  | append_singleton pieces piece ih =>
    rw [stream_concat] at hzero ⊢
    simp only [feed] at hzero
    have hbefore : (m.stream pieces).orphans = 0 := by omega
    have hlast : m.orphans (m.batch (m.stream pieces) piece) = 0 := by omega
    have hnext := (ih hbefore).feed piece hlast
    simpa using hnext

/-- A stream without orphans matches what would be matched in one piece, and carries what would be left. -/
theorem stream_perm (pieces : List (List α)) (hzero : (m.stream pieces).orphans = 0) :
    (m.stream pieces).matched.Perm (m.pairs pieces.flatten) ∧
      (m.stream pieces).carry.Perm (m.unmatched pieces.flatten) ∧ m.orphans pieces.flatten = 0 := by
  have h := m.agrees_stream pieces hzero
  refine ⟨?_, ?_, ?_⟩
  · apply perm_of_filter_key fun p : α × α => m.key p.1
    intro k
    rw [h.matched, pairs_filter]
  · apply perm_of_filter_key m.key
    intro k
    rw [h.carry_key, h.carry, unmatched_filter]
  · rw [orphans_eq_zero_iff]
    exact h.enough

/-- A stream has no orphan exactly when no key has had more ends than starts at the end of a piece. -/
theorem stream_orphans_eq_zero_iff (pieces : List (List α)) :
    (m.stream pieces).orphans = 0 ↔
      ∀ front, front <+: pieces → ∀ k, (m.ends k front.flatten).length ≤ (m.starts k front.flatten).length := by
  induction pieces using List.reverseRecOn with
  | nil =>
    constructor
    · intro _ front hfront k
      rw [List.prefix_nil.1 hfront]
      exact Nat.le_refl _
    · intro _
      rfl
  | append_singleton pieces piece ih =>
    constructor
    · intro hzero front hfront
      rw [List.prefix_concat_iff] at hfront
      cases hfront with
      | inl heq =>
        rw [heq]
        exact (m.agrees_stream _ hzero).enough
      | inr hbefore =>
        rw [stream_concat] at hzero
        simp only [feed] at hzero
        exact ih.1 (by omega) front hbefore
    · intro hle
      have hbefore : (m.stream pieces).orphans = 0 := by
        apply ih.2
        intro front hfront
        exact hle front (hfront.trans (List.prefix_append _ _))
      have h := m.agrees_stream pieces hbefore
      have hlast : m.orphans (m.batch (m.stream pieces) piece) = 0 := by
        rw [orphans_eq_zero_iff]
        intro k
        have hall := hle _ (List.prefix_refl _) k
        have henough := h.enough k
        rw [List.flatten_append, starts_append, ends_append, List.length_append, List.length_append,
          List.flatten_singleton] at hall
        rw [batch, starts_append, ends_append, h.carry, h.no_end, starts_filter, ends_filter_either,
          List.nil_append, List.length_append, List.length_drop]
        omega
      rw [stream_concat]
      simp only [feed]
      omega

end Matching

end Octopus.Lib
