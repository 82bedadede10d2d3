import Mathlib.Data.List.ReduceOption
import Octopus.FRFCFSBuffer

/-!
# Sequences of calls on a processing queue

The queue is used by any sequence of its calls. A readiness callback answers for a message and does not
edit it here. What a scan does is said once: it takes the first eligible element and leaves the items of
the others alone.
-/

namespace Octopus

namespace FRFCFSBuffer

/-- The messages of a queue, in queue order. -/
def queued (q : FRFCFSBuffer) : List Message := q.buffer.map (·.item)

/-- Whether two addresses are on one line under `m_line_mask`; a mask of zero disables the gate. -/
def sameLineUnder (m_line_mask a b : Nat) : Bool := m_line_mask != 0 && ((a ^^^ b) &&& m_line_mask) == 0

/-- What a call of `getFirstReady` consults: the hold and the readiness callback. -/
structure Consulted where
  m_hold : Message → Bool
  m_check_state_callback : Message → FRFCFSState → FRFCFSState

/-- The scan under a line mask. -/
def Consulted.scan (m_line_mask : Nat) (c : Consulted) : Scan where
  sameLine := sameLineUnder m_line_mask
  hold := c.m_hold
  checkState item state := (c.m_check_state_callback item state, item)

/-- A call on a queue; `γ` tells what `getFirstReady` consults. -/
inductive Call (γ : Type)
  | pushBack (item : Message) (state : FRFCFSState) (force : Bool)
  | pushFrontOrdered (item : Message)
  | pushFront (item : Message)
  | getFirstReady (c : γ)
  | markDirty

variable {γ : Type} (scanOf : γ → Scan)

/-- The queue after a call, with what `getFirstReady` answers. -/
def call (q : FRFCFSBuffer) : Call γ → Option Message × FRFCFSBuffer
  | .pushBack item state force => (none, (q.pushBack item state force).getD q)
  | .pushFrontOrdered item => (none, q.pushFrontOrdered item)
  | .pushFront item => (none, q.pushFront item)
  | .getFirstReady c => q.getFirstReady (scanOf c)
  | .markDirty => (none, q.markDirty)

/-- The message that a call adds, if it is accepted. -/
def accepted (q : FRFCFSBuffer) : Call γ → Option Message
  | .pushBack item state force => (q.pushBack item state force).map fun _ => item
  | .pushFrontOrdered item => some item
  | .pushFront item => some item
  | .getFirstReady _ => none
  | .markDirty => none

/-- The answers of a sequence of calls, one for each, and the queue after it. -/
def run (q : FRFCFSBuffer) : List (Call γ) → List (Option Message) × FRFCFSBuffer
  | [] => ([], q)
  | c :: calls => ((q.call scanOf c).1 :: (run (q.call scanOf c).2 calls).1, (run (q.call scanOf c).2 calls).2)

/-- The messages that a sequence of calls adds. -/
def allAccepted (q : FRFCFSBuffer) : List (Call γ) → List Message
  | [] => []
  | c :: calls => (q.accepted c).toList ++ allAccepted (q.call scanOf c).2 calls

/-- The messages that a sequence of calls takes. -/
def allReturned (q : FRFCFSBuffer) (calls : List (Call γ)) : List Message := (q.run scanOf calls).1.reduceOption

/-- An element that may run: not held, not gated by an older one, and ready. -/
def Eligible (scan : Scan) (older : List Element) (e : Element) : Prop :=
  scan.hold e.item = false ∧ gated scan older e.item = false ∧
    (e.state = .ready ∨ (scan.checkState e.item e.state).1 = .ready)

/-- A callback that edits no message. -/
def Scan.Plain (scan : Scan) : Prop := ∀ item state, (scan.checkState item state).2 = item

/-- A callback that never asks for an action. -/
def Scan.ActionFree (scan : Scan) : Prop := ∀ item state, (scan.checkState item state).1 ≠ .needsAction

variable {scanOf} {scan : Scan} {q q' : FRFCFSBuffer} {older older' buf buf' : List Element} {e : Element} {m : Message}

/-- The gate looks at the items of the older elements only. -/
theorem gated_congr (h : older.map (·.item) = older'.map (·.item)) : gated scan older m = gated scan older' m := by
  have hany : ∀ l : List Element, (l.any fun o => o.item.isOrdered && scan.sameLine o.item.addr m.addr) =
      (l.map (·.item)).any fun o => o.isOrdered && scan.sameLine o.addr m.addr := fun l => by
    rw [List.any_map]
    rfl
  rw [gated, gated, hany, hany, h]

/-- Eligibility depends on the items of the older elements only. -/
theorem eligible_congr (h : older.map (·.item) = older'.map (·.item)) : Eligible scan older e ↔ Eligible scan older' e := by
  rw [Eligible, Eligible, gated_congr h]

/-- No element of a queue is eligible, behind the older ones. -/
def NoneEligible (scan : Scan) (older buf : List Element) : Prop :=
  ∀ pre e post, buf = pre ++ e :: post → ¬ Eligible scan (older ++ pre) e

/-- An element that is not eligible, with none behind it. -/
theorem NoneEligible.cons (he : ¬ Eligible scan older e) {e' : Element} (hitem : e'.item = e.item)
    (h : NoneEligible scan (older ++ [e']) buf) : NoneEligible scan older (e :: buf) := by
  rintro (_ | ⟨x, pre⟩) y post heq
  · obtain ⟨rfl, -⟩ := List.cons.inj heq
    rwa [List.append_nil]
  · obtain ⟨rfl, hrest⟩ := List.cons.inj heq
    rw [@eligible_congr _ _ ((older ++ [e']) ++ pre) _ (by simp [hitem])]
    exact h pre y post hrest

/-- What a scan does: it takes the first eligible element, or finds none, and keeps the items of the others. -/
inductive Scanned (scan : Scan) (older buf : List Element) : Option Message × List Element → Prop
  | found (pre : List Element) {post out : List Element} {e : Element} (hbuf : buf = pre ++ e :: post)
    (hnone : NoneEligible scan older pre) (he : Eligible scan (older ++ pre) e)
    (hitems : out.map (·.item) = (older ++ pre ++ post).map (·.item)) : Scanned scan older buf (some e.item, out)
  | nothing {out : List Element} (hnone : NoneEligible scan older buf)
    (hitems : out.map (·.item) = (older ++ buf).map (·.item)) : Scanned scan older buf (none, out)

/-- An element that a scan passes over, in whatever state it leaves it. -/
theorem Scanned.cons {r : Option Message × List Element} {e' : Element} (he : ¬ Eligible scan older e)
    (hitem : e'.item = e.item) (h : Scanned scan (older ++ [e']) buf r) : Scanned scan older (e :: buf) r := by
  cases h with
  | @found pre _ _ x hbuf hnone hx hitems =>
    subst hbuf
    refine .found (e :: pre) rfl (hnone.cons he hitem) ?_ (by simpa [hitem] using hitems)
    rwa [@eligible_congr _ _ ((older ++ [e']) ++ pre) _ (by simp [hitem])]
  | nothing hnone hitems => exact .nothing (hnone.cons he hitem) (by simpa [hitem] using hitems)

/-- A scan takes the first eligible element. -/
theorem scanned_firstReady (hplain : scan.Plain) (hfree : scan.ActionFree) (older buf : List Element) :
    Scanned scan older buf (firstReady scan older buf) := by
  induction buf generalizing older with
  | nil => exact .nothing (fun pre e post h => by simp at h) (by simp)
  | cons e rest ih =>
    rw [firstReady]
    split_ifs with hblocked hstate
    · refine (ih (older ++ [e])).cons (fun he => ?_) rfl
      rw [he.1, he.2.1] at hblocked
      simp at hblocked
    · have hopen : scan.hold e.item = false ∧ gated scan older e.item = false := by simpa using hblocked
      exact .found [] rfl (fun pre x post h => by simp at h) ⟨hopen.1, by simpa using hopen.2, .inl hstate⟩ (by simp)
    · have hopen : scan.hold e.item = false ∧ gated scan older e.item = false := by simpa using hblocked
      have hitem := hplain e.item e.state
      have hanswer := hfree e.item e.state
      generalize hchecked : scan.checkState e.item e.state = checked at hitem hanswer
      obtain ⟨state, item⟩ := checked
      dsimp only at hitem hanswer
      subst hitem
      have hpass : state ≠ .ready → ¬ Eligible scan older e := by
        rintro hne ⟨-, -, hready | hready⟩
        · exact hstate hready
        · rw [hchecked] at hready
          exact hne hready
      cases state with
      | ready =>
        exact .found [] rfl (fun pre x post h => by simp at h)
          ⟨hopen.1, by simpa using hopen.2, .inr (by rw [hchecked])⟩ (by simp)
      | needsAction => exact absurd rfl hanswer
      | nonReady => exact @Scanned.cons scan older rest e _ ⟨e.item, .nonReady⟩ (hpass (by decide)) rfl (ih _)
      | waiting => exact @Scanned.cons scan older rest e _ ⟨e.item, .waiting⟩ (hpass (by decide)) rfl (ih _)

/-- A call of `getFirstReady` that scans leaves a mark only if it finds something. -/
theorem getFirstReady_of_scan {answer : Option Message} {out : List Element}
    (hmarked : q.readinessStateOnly = true → q.dirty = true) (h : firstReady scan [] q.buffer = (answer, out)) :
    q.getFirstReady scan = (answer, { q with buffer := out, dirty := answer.isSome && q.dirty }) := by
  rw [getFirstReady.eq_def, if_neg, h]
  · cases answer <;> rfl
  · intro hskip
    simp only [Bool.and_eq_true, Bool.not_eq_true'] at hskip
    rw [hmarked hskip.1] at hskip
    simp at hskip

/-- A call of `getFirstReady` scans the queue, or skips the scan. -/
theorem getFirstReady_cases (hplain : scan.Plain) (hfree : scan.ActionFree) (q : FRFCFSBuffer) :
    (q.readinessStateOnly = true ∧ q.dirty = false ∧ q.getFirstReady scan = (none, q)) ∨
      Scanned scan [] q.buffer ((q.getFirstReady scan).1, (q.getFirstReady scan).2.buffer) := by
  have hscan := scanned_firstReady hplain hfree [] q.buffer
  rw [getFirstReady.eq_def]
  split_ifs with hskip
  · simp only [Bool.and_eq_true, Bool.not_eq_true'] at hskip
    exact .inl ⟨hskip.1, hskip.2, rfl⟩
  · right
    generalize firstReady scan [] q.buffer = r at hscan
    obtain ⟨answer, out⟩ := r
    cases answer <;> exact hscan

/-- A call keeps the parameters of the queue. -/
theorem call_config (q : FRFCFSBuffer) (c : Call γ) : (q.call scanOf c).2.maxSize = q.maxSize ∧
    (q.call scanOf c).2.readinessStateOnly = q.readinessStateOnly := by
  cases c with
  | pushBack item state force =>
    rw [call, pushBack]
    split_ifs <;> exact ⟨rfl, rfl⟩
  | pushFrontOrdered item => exact ⟨rfl, rfl⟩
  | pushFront item => exact ⟨rfl, rfl⟩
  | getFirstReady c =>
    rw [call, getFirstReady.eq_def]
    split_ifs
    · exact ⟨rfl, rfl⟩
    · split <;> exact ⟨rfl, rfl⟩
  | markDirty => exact ⟨rfl, rfl⟩

/-- A sequence of calls keeps the parameters of the queue. -/
theorem run_config (q : FRFCFSBuffer) (calls : List (Call γ)) : (q.run scanOf calls).2.maxSize = q.maxSize ∧
    (q.run scanOf calls).2.readinessStateOnly = q.readinessStateOnly := by
  induction calls generalizing q with
  | nil => exact ⟨rfl, rfl⟩
  | cons c calls ih =>
    obtain ⟨hmax, honly⟩ := ih (q.call scanOf c).2
    exact ⟨hmax.trans (call_config q c).1, honly.trans (call_config q c).2⟩

/-- What a sequence of calls takes, call by call. -/
theorem allReturned_cons {c : Call γ} {calls : List (Call γ)} :
    allReturned scanOf q (c :: calls) = (q.call scanOf c).1.toList ++ allReturned scanOf (q.call scanOf c).2 calls := by
  rw [allReturned, run, allReturned]
  cases (q.call scanOf c).1 with
  | none => rw [List.reduceOption_cons_of_none, Option.toList_none, List.nil_append]
  | some m => rw [List.reduceOption_cons_of_some, Option.toList_some, List.singleton_append]

end FRFCFSBuffer

end Octopus
