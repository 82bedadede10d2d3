import Octopus.Interconnect.Arbiter
import Mathlib.Data.List.Basic
import Mathlib.Data.List.GetD

/-!
# Round robin is fair and loses nothing

The round robin arbiter over a run of arrivals and elections. An election removes one message, the oldest
that the elected candidate has in front of a buffer, and moves the pointer to this candidate; it fails only
if no candidate has a message. The pointer never steps over a candidate that has one, so such a candidate
waits for fewer elections than there are candidates.
-/

namespace Octopus

namespace Arbiter

variable {find : List BusMessage → Option (BusMessage × Nat)} {buffers : List (List BusMessage)}
  {buffer : List BusMessage} {msg : BusMessage} {owner : Nat}

/-- The scan of the buffers ends with the first of the oldest candidates, if one is older than the bound. -/
theorem scan_cases (find : List BusMessage → Option (BusMessage × Nat)) (buffers : List (List BusMessage))
    (i bestCycle : Nat) (best : Option BufferPlace) :
    (scan find buffers i bestCycle best = best ∧
      ∀ buffer ∈ buffers, ∀ msg index, find buffer = some (msg, index) → bestCycle ≤ msg.cycle) ∨
    ∃ k buffer msg index, buffers[k]? = some buffer ∧ find buffer = some (msg, index) ∧ msg.cycle < bestCycle ∧
      scan find buffers i bestCycle best = some ⟨i + k, index⟩ ∧
      ∀ buffer' ∈ buffers, ∀ msg' index', find buffer' = some (msg', index') → msg.cycle ≤ msg'.cycle := by
  induction buffers generalizing i bestCycle best with
  | nil => exact .inl ⟨rfl, by simp⟩
  | cons buffer buffers ih =>
    rw [scan]
    cases hfind : find buffer with
    | none =>
      dsimp only
      rcases ih (i + 1) bestCycle best with ⟨hscan, hall⟩ | ⟨k, buffer', msg, index, hk, hmsg, hlt, hscan, hall⟩
      · refine .inl ⟨hscan, List.forall_mem_cons.2 ⟨fun msg index h => ?_, hall⟩⟩
        cases hfind.symm.trans h
      · refine .inr ⟨k + 1, buffer', msg, index, hk, hmsg, hlt, by rw [hscan, Nat.add_right_comm]; rfl,
          List.forall_mem_cons.2 ⟨fun msg' index' h => ?_, hall⟩⟩
        cases hfind.symm.trans h
    | some found =>
      obtain ⟨msg, index⟩ := found
      dsimp only
      split_ifs with hlt
      · refine .inr ?_
        rcases ih (i + 1) msg.cycle (some ⟨i, index⟩) with
          ⟨hscan, hall⟩ | ⟨k, buffer', msg', index', hk, hmsg, hlt', hscan, hall⟩
        · refine ⟨0, buffer, msg, index, rfl, hfind, hlt, hscan,
            List.forall_mem_cons.2 ⟨fun msg' index' h => ?_, hall⟩⟩
          cases hfind.symm.trans h
          exact Nat.le_refl _
        · refine ⟨k + 1, buffer', msg', index', hk, hmsg, Nat.lt_trans hlt' hlt, by rw [hscan, Nat.add_right_comm]; rfl,
            List.forall_mem_cons.2 ⟨fun msg'' index'' h => ?_, hall⟩⟩
          cases hfind.symm.trans h
          exact Nat.le_of_lt hlt'
      · rcases ih (i + 1) bestCycle best with ⟨hscan, hall⟩ | ⟨k, buffer', msg', index', hk, hmsg, hlt', hscan, hall⟩
        · refine .inl ⟨hscan, List.forall_mem_cons.2 ⟨fun msg' index' h => ?_, hall⟩⟩
          cases hfind.symm.trans h
          exact Nat.le_of_not_lt hlt
        · refine .inr ⟨k + 1, buffer', msg', index', hk, hmsg, hlt', by rw [hscan, Nat.add_right_comm]; rfl,
            List.forall_mem_cons.2 ⟨fun msg'' index'' h => ?_, hall⟩⟩
          cases hfind.symm.trans h
          exact Nat.le_trans (Nat.le_of_lt hlt') (Nat.le_of_not_lt hlt)

/-- The first message of an owner in a buffer, behind messages of others. -/
def FirstOf (owner : Nat) (buffer : List BusMessage) (msg : BusMessage) (index : Nat) : Prop :=
  ∃ pre post, buffer = pre ++ msg :: post ∧ index = pre.length ∧ msg.owner = owner ∧ ∀ x ∈ pre, x.owner ≠ owner

/-- A buffer holds a first message of an owner, or none at all. -/
theorem exists_firstOf (owner : Nat) (buffer : List BusMessage) :
    (∀ x ∈ buffer, x.owner ≠ owner) ∨ ∃ msg index, FirstOf owner buffer msg index := by
  induction buffer with
  | nil => exact .inl (by simp)
  | cons x buffer ih =>
    by_cases hx : x.owner = owner
    · exact .inr ⟨x, 0, [], buffer, rfl, rfl, hx, by simp⟩
    · rcases ih with hall | ⟨msg, index, pre, post, rfl, rfl, howner, hpre⟩
      · exact .inl (List.forall_mem_cons.2 ⟨hx, hall⟩)
      · exact .inr ⟨msg, pre.length + 1, x :: pre, post, rfl, rfl, howner, List.forall_mem_cons.2 ⟨hx, hpre⟩⟩

/-- The search of a buffer finds the first message of the owner. -/
theorem FirstOf.findMessage {index : Nat} (h : FirstOf owner buffer msg index) :
    findMessage owner buffer = some (msg, index) := by
  obtain ⟨pre, post, rfl, rfl, howner, hpre⟩ := h
  have hnumbered : ∀ k, ((pre ++ msg :: post).zipIdx k).find? (fun entry => entry.1.owner == owner) =
      some (msg, k + pre.length) := by
    induction pre with
    | nil =>
      intro k
      rw [List.nil_append, List.zipIdx_cons, List.find?_cons]
      dsimp only
      rw [beq_iff_eq.2 howner]
      rfl
    | cons x pre ih =>
      intro k
      rw [List.forall_mem_cons] at hpre
      rw [List.cons_append, List.zipIdx_cons, List.find?_cons]
      dsimp only
      rw [beq_eq_false_iff_ne.2 hpre.1, List.length_cons, Nat.add_comm pre.length, ← Nat.add_assoc]
      exact ih hpre.2 (k + 1)
  rw [Arbiter.findMessage, hnumbered 0, Nat.zero_add]

/-- The search finds nothing if the owner has no message. -/
theorem findMessage_eq_none (h : ∀ x ∈ buffer, x.owner ≠ owner) : findMessage owner buffer = none := by
  rw [findMessage, List.find?_eq_none]
  rintro ⟨x, i⟩ hx
  have hmem : x ∈ buffer := List.fst_mem_of_mem_zipIdx hx
  exact fun heq => h x hmem (beq_iff_eq.1 heq)

/-- What is found is the first message of the owner. -/
theorem firstOf_of_findMessage {index : Nat} (h : findMessage owner buffer = some (msg, index)) :
    FirstOf owner buffer msg index := by
  rcases exists_firstOf owner buffer with hall | ⟨msg', index', hfirst⟩
  · cases (findMessage_eq_none hall).symm.trans h
  · cases hfirst.findMessage.symm.trans h
    exact hfirst

/-- The oldest of the first messages that an owner has in the buffers, at its place. -/
structure OldestOwned (buffers : List (List BusMessage)) (owner : Nat) (place : BufferPlace) (msg : BusMessage) :
    Prop where
  first : ∃ buffer, buffers[place.buffer]? = some buffer ∧ FirstOf owner buffer msg place.index
  oldest : ∀ buffer ∈ buffers, ∀ msg' index, FirstOf owner buffer msg' index → msg.cycle ≤ msg'.cycle

/-- An owner has no message in any buffer. -/
def Idle (buffers : List (List BusMessage)) (owner : Nat) : Prop :=
  ∀ buffer ∈ buffers, ∀ msg ∈ buffer, msg.owner ≠ owner

instance (buffers : List (List BusMessage)) (owner : Nat) : Decidable (Idle buffers owner) :=
  inferInstanceAs (Decidable (∀ buffer ∈ buffers, ∀ msg ∈ buffer, msg.owner ≠ owner))

/-- An owner is elected with its oldest message, unless it has none. -/
theorem electOldestOwned_cases (hcycles : ∀ buffer ∈ buffers, ∀ msg ∈ buffer, msg.cycle < maxCycle) (owner : Nat) :
    (electOldestOwned buffers owner = none ∧ Idle buffers owner) ∨
    ∃ place msg, electOldestOwned buffers owner = some place ∧ OldestOwned buffers owner place msg := by
  rw [electOldestOwned]
  rcases scan_cases (findMessage owner) buffers 0 maxCycle none with
    ⟨hscan, hall⟩ | ⟨k, buffer, msg, index, hk, hmsg, -, hscan, hall⟩
  · refine .inl ⟨hscan, fun buffer hbuffer => ?_⟩
    rcases exists_firstOf owner buffer with hnone | ⟨msg, index, hfirst⟩
    · exact hnone
    · have hle := hall buffer hbuffer msg index hfirst.findMessage
      obtain ⟨pre, post, rfl, -, -, -⟩ := hfirst
      exact absurd (hcycles _ hbuffer msg (by simp)) (Nat.not_lt_of_le hle)
  · rw [Nat.zero_add] at hscan
    exact .inr ⟨_, msg, hscan, ⟨buffer, hk, firstOf_of_findMessage hmsg⟩,
      fun buffer' hbuffer' msg' index' hfirst => hall buffer' hbuffer' msg' index' hfirst.findMessage⟩

end Arbiter

open Arbiter

namespace RRState

variable {candidates : List Nat} {buffers : List (List BusMessage)} {st : RRState}

/-- The candidate `k` steps ahead of the pointer. -/
def ahead (candidates : List Nat) (st : RRState) (k : Nat) : Nat :=
  candidates.getD ((st.candidateIndex + k) % candidates.length) 0

/-- One step ahead, what is `k` steps ahead was one step further. -/
theorem ahead_selectCandidate (candidates : List Nat) (st : RRState) (k : Nat) :
    (st.selectCandidate candidates).ahead candidates k = st.ahead candidates (k + 1) := by
  rw [ahead, ahead, selectCandidate]
  dsimp only
  rw [Nat.mod_add_mod, Nat.add_assoc, Nat.add_comm 1]

/-- What is ahead is a candidate, if there is any. -/
theorem ahead_mem (h : 0 < candidates.length) (k : Nat) : st.ahead candidates k ∈ candidates := by
  rw [ahead, List.getD_eq_getElem _ _ (Nat.mod_lt _ h)]
  exact List.getElem_mem _

/-- Every candidate is ahead, by at most one round. -/
theorem exists_ahead {c : Nat} (hc : c ∈ candidates) (st : RRState) :
    ∃ k, 0 < k ∧ k ≤ candidates.length ∧ st.ahead candidates k = c := by
  obtain ⟨p, hp, rfl⟩ := List.mem_iff_getElem.1 hc
  have hpos : 0 < candidates.length := Nat.zero_lt_of_lt hp
  have hlt := Nat.mod_lt st.candidateIndex hpos
  -- the position is in front of the pointer or behind it
  obtain ⟨k, hk, hkn, hmod⟩ : ∃ k, 0 < k ∧ k ≤ candidates.length ∧
      (st.candidateIndex % candidates.length + k) % candidates.length = p := by
    by_cases hafter : st.candidateIndex % candidates.length < p
    · refine ⟨p - st.candidateIndex % candidates.length, by omega, by omega, ?_⟩
      rw [Nat.add_sub_of_le (Nat.le_of_lt hafter), Nat.mod_eq_of_lt hp]
    · refine ⟨p + candidates.length - st.candidateIndex % candidates.length, by omega, by omega, ?_⟩
      rw [Nat.add_sub_of_le (by omega), Nat.add_mod_right, Nat.mod_eq_of_lt hp]
  refine ⟨k, hk, hkn, ?_⟩
  rw [Nat.mod_add_mod] at hmod
  rw [ahead, hmod, List.getD_eq_getElem _ _ hp]

/-- The loop of an election stops at the first candidate ahead that has a message. -/
theorem elect_cases (hcycles : ∀ buffer ∈ buffers, ∀ msg ∈ buffer, msg.cycle < maxCycle) (n : Nat) (st : RRState) :
    ((st.elect candidates buffers n).2 = none ∧ ∀ k, 0 < k → k ≤ n → Idle buffers (st.ahead candidates k)) ∨
    ∃ k place msg, 0 < k ∧ k ≤ n ∧
      (st.elect candidates buffers n).1.candidateIndex = (st.candidateIndex + k) % candidates.length ∧
      (st.elect candidates buffers n).2 = some place ∧ OldestOwned buffers (st.ahead candidates k) place msg ∧
      ∀ j, 0 < j → j < k → Idle buffers (st.ahead candidates j) := by
  induction n generalizing st with
  | zero => exact .inl ⟨rfl, fun k hk hle => absurd hle (Nat.not_le_of_lt hk)⟩
  | succ n ih =>
    have hnext : (st.selectCandidate candidates).candidateId = st.ahead candidates 1 := rfl
    rw [elect, hnext]
    rcases electOldestOwned_cases hcycles (st.ahead candidates 1) with ⟨hnone, hidle⟩ | ⟨place, msg, hsome, hold⟩
    · rw [hnone]
      dsimp only
      have hstep : ∀ k, 0 < k → (∀ j, 0 < j → j < k → Idle buffers ((st.selectCandidate candidates).ahead candidates j)) →
          ∀ j, 0 < j → j < k + 1 → Idle buffers (st.ahead candidates j) := by
        intro k _ hall j hj hlt
        cases j with
        | zero => exact absurd hj (Nat.lt_irrefl 0)
        | succ j =>
          cases j with
          | zero => exact hidle
          | succ j =>
            rw [← ahead_selectCandidate]
            exact hall (j + 1) (Nat.succ_pos j) (by omega)
      rcases ih (st.selectCandidate candidates) with
        ⟨hfail, hall⟩ | ⟨k, place, msg, hk, hkn, hindex, hsome, hold, hall⟩
      · refine .inl ⟨hfail, fun k hk hle => hstep (n + 1) (Nat.succ_pos n) (fun j hj hlt => ?_) k hk (by omega)⟩
        exact hall j hj (by omega)
      · rw [ahead_selectCandidate] at hold
        refine .inr ⟨k + 1, place, msg, Nat.succ_pos k, Nat.succ_le_succ hkn, ?_, hsome, hold, hstep k hk hall⟩
        rw [hindex, selectCandidate]
        dsimp only
        rw [Nat.mod_add_mod, Nat.add_assoc, Nat.add_comm 1]
    · rw [hsome]
      refine .inr ⟨1, place, msg, Nat.one_pos, by omega, rfl, rfl, hold, fun j hj hlt => ?_⟩
      omega

end RRState

/-- The round robin arbiter and the transmit buffers that it elects from. -/
structure RRSystem where
  st : RRState := {}
  buffers : List (List BusMessage)
  deriving DecidableEq, Repr

/-- What happens to the buffers: a message arrives behind the others, or the arbiter elects one. -/
inductive RRCall
  | arrive (buffer : Nat) (msg : BusMessage)
  | elect (cycle_number : Nat)
  deriving DecidableEq, Repr

/-- An election: the buffers in front of it, its message and the buffers behind it. -/
structure Election where
  before : List (List BusMessage)
  out_msg : Option BusMessage
  after : List (List BusMessage)
  deriving DecidableEq, Repr

namespace RRSystem

variable (candidates : List Nat)

/-- `elect`: the message at the elected place is copied out and erased from its buffer. -/
def elect (s : RRSystem) (cycle_number : Nat) : Option BusMessage × RRSystem :=
  match (RRArbiter candidates).elect s.st cycle_number s.buffers with
  | (st, some place) =>
    (s.buffers[place.buffer]?.bind (·[place.index]?),
      { st := st, buffers := s.buffers.modify place.buffer (·.eraseIdx place.index) })
  | (st, none) => (none, { s with st := st })

/-- Run: the elections that were made and the system afterwards. -/
def run : RRSystem → List RRCall → List Election × RRSystem
  | s, [] => ([], s)
  | s, .arrive i msg :: calls => run { s with buffers := s.buffers.modify i (· ++ [msg]) } calls
  | s, .elect cycle_number :: calls =>
    let r := s.elect candidates cycle_number
    let rest := run r.2 calls
    (⟨s.buffers, r.1, r.2.buffers⟩ :: rest.1, rest.2)

end RRSystem

namespace Election

/--
An election succeeds if and only if a candidate has a message. It takes the message out of its buffer and
leaves all others as they are; the message is the first of its owner there, and no buffer has an older first
message of this owner.
-/
structure Lawful (candidates : List Nat) (e : Election) : Prop where
  isSome_iff : e.out_msg.isSome ↔ ∃ buffer ∈ e.before, ∃ msg ∈ buffer, msg.owner ∈ candidates
  removes : ∀ msg ∈ e.out_msg, msg.owner ∈ candidates ∧ ∃ i pre post,
    e.before[i]? = some (pre ++ msg :: post) ∧ e.after = e.before.set i (pre ++ post) ∧
    (∀ x ∈ pre, x.owner ≠ msg.owner) ∧
    ∀ buffer ∈ e.before, ∀ msg' index, FirstOf msg.owner buffer msg' index → msg.cycle ≤ msg'.cycle
  fails : e.out_msg = none → e.after = e.before

end Election

namespace RRSystem

variable {candidates : List Nat} {s : RRSystem} {calls : List RRCall}

/-- Every message was sent before the clock ran out. -/
def Timely (buffers : List (List BusMessage)) : Prop := ∀ buffer ∈ buffers, ∀ msg ∈ buffer, msg.cycle < maxCycle

instance (buffers : List (List BusMessage)) : Decidable (Timely buffers) :=
  inferInstanceAs (Decidable (∀ buffer ∈ buffers, ∀ msg ∈ buffer, msg.cycle < maxCycle))

/-- Every arriving message was sent before the clock ran out. -/
def TimelyCalls (calls : List RRCall) : Prop := ∀ i msg, .arrive i msg ∈ calls → msg.cycle < maxCycle

/-- An election that finds nobody leaves the buffers. -/
theorem elect_of_none (h : (s.st.elect candidates s.buffers candidates.length).2 = none) (cycle_number : Nat) :
    s.elect candidates cycle_number =
      (none, { s with st := (s.st.elect candidates s.buffers candidates.length).1 }) := by
  have helect : (RRArbiter candidates).elect s.st cycle_number s.buffers =
      ((s.st.elect candidates s.buffers candidates.length).1, none) := Prod.ext rfl h
  rw [elect, helect]

/-- An election that finds a place takes its message. -/
theorem elect_of_some {place : BufferPlace}
    (h : (s.st.elect candidates s.buffers candidates.length).2 = some place) (cycle_number : Nat) :
    s.elect candidates cycle_number = (s.buffers[place.buffer]?.bind (·[place.index]?), {
      st := (s.st.elect candidates s.buffers candidates.length).1
      buffers := s.buffers.modify place.buffer (·.eraseIdx place.index) }) := by
  have helect : (RRArbiter candidates).elect s.st cycle_number s.buffers =
      ((s.st.elect candidates s.buffers candidates.length).1, some place) := Prod.ext rfl h
  rw [elect, helect]

/-- What an election does, and how far it moves the pointer: never past a candidate that has a message. -/
theorem elect_spec (h : Timely s.buffers) (cycle_number : Nat) :
    Election.Lawful candidates ⟨s.buffers, (s.elect candidates cycle_number).1,
      (s.elect candidates cycle_number).2.buffers⟩ ∧ Timely (s.elect candidates cycle_number).2.buffers ∧
    ∀ j, 0 < j → j ≤ candidates.length → ¬ Idle s.buffers (s.st.ahead candidates j) →
      ∃ k msg, (s.elect candidates cycle_number).1 = some msg ∧ 0 < k ∧ k ≤ j ∧
        (s.elect candidates cycle_number).2.st.candidateIndex = (s.st.candidateIndex + k) % candidates.length ∧
        msg.owner = s.st.ahead candidates k := by
  rcases @RRState.elect_cases candidates _ h candidates.length s.st with
    ⟨hnone, hidle⟩ | ⟨k, place, msg, hk, hkn, hindex, hsome, hold, hbefore⟩
  · rw [elect_of_none hnone]
    refine ⟨⟨?_, by simp, fun _ => rfl⟩, h, fun j hj hle hpending => absurd (hidle j hj hle) hpending⟩
    dsimp only
    refine ⟨by simp, ?_⟩
    rintro ⟨buffer, hbuffer, msg, hmsg, howner⟩
    obtain ⟨j, hj, hle, hahead⟩ := RRState.exists_ahead howner s.st
    exact absurd hahead.symm (hidle j hj hle buffer hbuffer msg hmsg)
  · obtain ⟨⟨buffer, hbuffer, pre, post, rfl, hplace, howner, hpre⟩, holdest⟩ := hold
    have hmsg : s.buffers[place.buffer]?.bind (·[place.index]?) = some msg := by
      rw [hbuffer, hplace, Option.bind_some, List.getElem?_append_right (Nat.le_refl _), Nat.sub_self]
      rfl
    have herase : (pre ++ msg :: post).eraseIdx place.index = pre ++ post := by
      rw [hplace, List.eraseIdx_append_of_length_le (Nat.le_refl _), Nat.sub_self]
      rfl
    have hafter : s.buffers.modify place.buffer (·.eraseIdx place.index) =
        s.buffers.set place.buffer (pre ++ post) := by
      refine List.ext_getElem? fun j => ?_
      obtain ⟨hlt, -⟩ := List.getElem?_eq_some_iff.1 hbuffer
      rw [List.getElem?_modify, List.getElem?_set]
      split_ifs with hj
      · rw [← hj, hbuffer, ← herase]
        rfl
      · simp
    have hmem : pre ++ msg :: post ∈ s.buffers := List.mem_of_getElem? hbuffer
    have hcandidate : msg.owner ∈ candidates := howner ▸ RRState.ahead_mem (by omega) k
    rw [elect_of_some hsome, hmsg, hafter]
    refine ⟨⟨?_, ?_, by simp⟩, ?_, fun j hj _ hpending => ⟨k, msg, rfl, hk, ?_, hindex, howner⟩⟩
    · dsimp only
      exact ⟨fun _ => ⟨_, hmem, msg, by simp, hcandidate⟩, fun _ => rfl⟩
    · rintro msg' ⟨⟩
      refine ⟨hcandidate, place.buffer, pre, post, hbuffer, rfl, howner ▸ hpre, ?_⟩
      rw [howner]
      exact holdest
    · intro buffer' hbuffer' x hx
      rcases List.mem_or_eq_of_mem_set hbuffer' with hin | rfl
      · exact h buffer' hin x hx
      · refine h _ hmem x ?_
        rw [List.mem_append] at hx ⊢
        exact hx.imp_right (List.mem_cons_of_mem _)
    · by_contra hlt
      exact hpending (hbefore j hj (Nat.lt_of_not_le hlt))

/-- An arrival that was sent before the clock ran out keeps the buffers so. -/
theorem timely_arrive {buffers : List (List BusMessage)} {msg : BusMessage} (h : Timely buffers)
    (hmsg : msg.cycle < maxCycle) (i : Nat) : Timely (buffers.modify i (· ++ [msg])) := by
  intro buffer hbuffer x hx
  obtain ⟨j, hj⟩ := List.mem_iff_getElem?.1 hbuffer
  rw [List.getElem?_modify, Option.map_eq_map, Option.map_eq_some_iff] at hj
  obtain ⟨old, hold, hnew⟩ := hj
  have hin := h old (List.mem_of_getElem? hold)
  split_ifs at hnew with hij
  · rw [← hnew, List.mem_append, List.mem_singleton] at hx
    rcases hx with hx | rfl
    · exact hin x hx
    · exact hmsg
  · rw [← hnew] at hx
    exact hin x hx

/-- All elections of a run are lawful, and the buffers stay in range. -/
theorem lawful_run (h : Timely s.buffers) (hcalls : TimelyCalls calls) :
    (∀ e ∈ (s.run candidates calls).1, e.Lawful candidates) ∧ Timely (s.run candidates calls).2.buffers := by
  induction calls generalizing s with
  | nil => exact ⟨by simp [run], h⟩
  | cons call calls ih =>
    have hlater : TimelyCalls calls := fun i msg hmem => hcalls i msg (List.mem_cons_of_mem _ hmem)
    cases call with
    | arrive i msg =>
      rw [run]
      exact ih (timely_arrive h (hcalls i msg (List.mem_cons_self ..)) i) hlater
    | elect cycle_number =>
      obtain ⟨hlawful, htimely, -⟩ := @elect_spec candidates _ h cycle_number
      obtain ⟨hall, hend⟩ := ih htimely hlater
      rw [run]
      exact ⟨List.forall_mem_cons.2 ⟨hlawful, hall⟩, hend⟩

/-- The messages that the elections of a run elected, in their order. -/
def served (elections : List Election) : List BusMessage := elections.filterMap (·.out_msg)

/--
A candidate that is `k` steps ahead and always has a message is served by the `k`-th successful election at the
latest: each of them moves the pointer on, and none moves it past the candidate.
-/
theorem exists_served (h : Timely s.buffers) (hcalls : TimelyCalls calls) {c k : Nat} (hk : 0 < k)
    (hkn : k ≤ candidates.length) (hc : s.st.ahead candidates k = c)
    (hpending : ∀ e ∈ (s.run candidates calls).1, ¬ Idle e.before c)
    (hserved : k ≤ (served (s.run candidates calls).1).length) :
    ∃ msg ∈ (served (s.run candidates calls).1).take k, msg.owner = c := by
  induction calls generalizing s k with
  | nil =>
    rw [run] at hserved
    exact absurd hserved (Nat.not_le_of_lt hk)
  | cons call calls ih =>
    have hlater : TimelyCalls calls := fun i msg hmem => hcalls i msg (List.mem_cons_of_mem _ hmem)
    cases call with
    | arrive i msg =>
      rw [run] at hpending hserved ⊢
      exact ih (timely_arrive h (hcalls i msg (List.mem_cons_self ..)) i) hlater hk hkn hc hpending hserved
    | elect cycle_number =>
      obtain ⟨-, htimely, hpointer⟩ := @elect_spec candidates _ h cycle_number
      rw [run] at hpending hserved ⊢
      rw [List.forall_mem_cons] at hpending
      obtain ⟨j, msg, hsome, hj, hjk, hindex, howner⟩ := hpointer k hk hkn (hc.symm ▸ hpending.1)
      have hcons : served (⟨s.buffers, (s.elect candidates cycle_number).1,
          (s.elect candidates cycle_number).2.buffers⟩ :: ((s.elect candidates cycle_number).2.run candidates calls).1) =
          msg :: served ((s.elect candidates cycle_number).2.run candidates calls).1 :=
        List.filterMap_cons_some hsome
      rw [hcons] at hserved ⊢
      obtain ⟨k, rfl⟩ : ∃ n, k = n + 1 := ⟨k - 1, by omega⟩
      rw [List.take_succ_cons]
      by_cases hhere : j = k + 1
      · exact ⟨msg, List.mem_cons_self .., by rw [howner, hhere, hc]⟩
      · have hahead : (s.elect candidates cycle_number).2.st.ahead candidates (k + 1 - j) = c := by
          rw [← hc, RRState.ahead, RRState.ahead, hindex, Nat.mod_add_mod, Nat.add_assoc, Nat.add_sub_cancel' hjk]
        rw [List.length_cons] at hserved
        obtain ⟨msg', hmem, howner'⟩ := ih htimely hlater (by omega) (by omega) hahead hpending.2 (by omega)
        have hsub := (List.take_prefix_take_left (l := served ((s.elect candidates cycle_number).2.run candidates
          calls).1) (show k + 1 - j ≤ k by omega)).subset
        exact ⟨msg', List.mem_cons_of_mem _ (hsub hmem), howner'⟩

/--
Round robin over any run from any start: every election is lawful, and from any point of the run on, a candidate
that has a message in front of every election is among the owners of the next messages, as many as there are
candidates.
-/
theorem lawful_and_fair (candidates : List Nat) (start : RRSystem) (earlier calls : List RRCall)
    (hstart : Timely start.buffers) (hcalls : TimelyCalls (earlier ++ calls)) :
    (∀ e ∈ (start.run candidates (earlier ++ calls)).1, e.Lawful candidates) ∧
    ∀ c ∈ candidates, (∀ e ∈ ((start.run candidates earlier).2.run candidates calls).1, ¬ Idle e.before c) →
      candidates.length ≤ (served ((start.run candidates earlier).2.run candidates calls).1).length →
      ∃ msg ∈ (served ((start.run candidates earlier).2.run candidates calls).1).take candidates.length,
        msg.owner = c := by
  refine ⟨(lawful_run hstart hcalls).1, fun c hc hpending hserved => ?_⟩
  have hearlier : TimelyCalls earlier := fun i msg hmem => hcalls i msg (List.mem_append_left _ hmem)
  have hlater : TimelyCalls calls := fun i msg hmem => hcalls i msg (List.mem_append_right _ hmem)
  obtain ⟨k, hk, hkn, hahead⟩ := RRState.exists_ahead hc (start.run candidates earlier).2.st
  have htimely := (@lawful_run candidates _ _ hstart hearlier).2
  obtain ⟨msg, hmem, howner⟩ := exists_served htimely hlater hk hkn hahead hpending (by omega)
  exact ⟨msg, (List.take_prefix_take_left hkn).subset hmem, howner⟩

/-- Two candidates: the one that has a message left is served again, after the one that has come. -/
theorem lawful_and_fair_two :
    (∀ e ∈ (RRSystem.run [0, 1] { buffers := [[{ owner := 0 }, { owner := 0, cycle := 1 }], []] }
      ([.elect 1] ++ [.arrive 1 { owner := 1, cycle := 2 }, .elect 2, .elect 3])).1, e.Lawful [0, 1]) ∧
    ∃ msg ∈ (served ((RRSystem.run [0, 1] { buffers := [[{ owner := 0 }, { owner := 0, cycle := 1 }], []] }
      [.elect 1]).2.run [0, 1] [.arrive 1 { owner := 1, cycle := 2 }, .elect 2, .elect 3]).1).take 2,
      msg.owner = 0 := by
  have hcalls : TimelyCalls ([.elect 1] ++ [.arrive 1 { owner := 1, cycle := 2 }, .elect 2, .elect 3]) := by
    intro i msg hmem
    simp only [List.cons_append, List.nil_append, List.mem_cons, List.not_mem_nil, or_false, reduceCtorEq, false_or,
      RRCall.arrive.injEq] at hmem
    rw [hmem.2]
    decide
  obtain ⟨hlawful, hfair⟩ := lawful_and_fair [0, 1] { buffers := [[{ owner := 0 }, { owner := 0, cycle := 1 }], []] }
    [.elect 1] [.arrive 1 { owner := 1, cycle := 2 }, .elect 2, .elect 3] (by decide) hcalls
  exact ⟨hlawful, hfair 0 (by decide) (by decide) (by decide)⟩

end RRSystem

end Octopus
