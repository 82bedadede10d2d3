import Mathlib.Data.List.Basic
import Octopus.Message

/-!
# The processing queue of a controller

`FRFCFS_Buffer` with `Message` items: first ready, first come first served, with a gate that
keeps the demand requests and invalidations of one line in order. The line mask enters as the
relation it decides between two addresses. The readiness callback may edit the message it is
given, as the `const` cast in the protocols lets it.
-/

namespace Octopus

/-- The readiness of a queued message. -/
inductive FRFCFSState
  | ready
  | nonReady
  | needsAction
  | waiting
  deriving DecidableEq, Repr

namespace FRFCFSBuffer

/-- A queued message with its last known readiness. -/
structure Element where
  item : Message
  state : FRFCFSState
  deriving DecidableEq, Repr

/-- What a scan of the queue consults. -/
structure Scan where
  /-- Whether two addresses agree under the line mask. -/
  sameLine : Nat → Nat → Bool
  /-- Whether a message is held back, whatever its state. -/
  hold : Message → Bool
  /-- The readiness callback, with the message as the callback leaves it. -/
  checkState : Message → FRFCFSState → FRFCFSState × Message

end FRFCFSBuffer

open FRFCFSBuffer

/-- The queue; `maxSize` is `none` when it is unbounded. -/
structure FRFCFSBuffer where
  buffer : List Element := []
  maxSize : Option Nat := none
  readinessStateOnly : Bool := true
  dirty : Bool := true
  deriving DecidableEq, Repr

namespace FRFCFSBuffer

/-- `pushBack`: append an item; only an unforced item that is not ready respects the bound. -/
def pushBack (q : FRFCFSBuffer) (item : Message) (state : FRFCFSState) (force : Bool) :
    Option FRFCFSBuffer :=
  if !force && state != .ready && q.maxSize.any (fun bound => bound ≤ q.buffer.length) then none
  else some { q with buffer := q.buffer ++ [⟨item, state⟩], dirty := true }

/-- The position behind the last queued message from the given source. -/
def behindSource (source : Source) : List Element → Nat
  | [] => 0
  | e :: rest =>
    match behindSource source rest with
    | 0 => if e.item.source = source then 1 else 0
    | k + 1 => k + 2

/-- `pushFrontOrdered`: insert a ready item behind every queued message from its own source. -/
def pushFrontOrdered (q : FRFCFSBuffer) (item : Message) : FRFCFSBuffer :=
  let pos := behindSource item.source q.buffer
  { q with buffer := q.buffer.take pos ++ ⟨item, .ready⟩ :: q.buffer.drop pos, dirty := true }

/-- `pushFront`: insert a ready item at the front. -/
def pushFront (q : FRFCFSBuffer) (item : Message) : FRFCFSBuffer :=
  { q with buffer := ⟨item, .ready⟩ :: q.buffer, dirty := true }

/-- Whether an older ordered message of the same line blocks an item. -/
def gated (scan : Scan) (older : List Element) (item : Message) : Bool :=
  item.isOrdered &&
    older.any fun o => o.item.isOrdered && scan.sameLine o.item.addr item.addr

/-- Scan the queue from the front, the elements already passed over in `older`. -/
def firstReady (scan : Scan) (older : List Element) : List Element → Option Message × List Element
  | [] => (none, older)
  | e :: rest =>
    if scan.hold e.item || gated scan older e.item then firstReady scan (older ++ [e]) rest
    else
      let checked := if e.state = .ready then (FRFCFSState.ready, e.item) else scan.checkState e.item e.state
      match checked.1 with
      | .ready => (some checked.2, older ++ rest)
      | .needsAction => (some checked.2, older ++ ⟨checked.2, .waiting⟩ :: rest)
      | state => firstReady scan (older ++ [⟨checked.2, state⟩]) rest

/-- `getFirstReady`: take the first message that may run; a fruitless scan is not repeated. -/
def getFirstReady (scan : Scan) (q : FRFCFSBuffer) : Option Message × FRFCFSBuffer :=
  if q.readinessStateOnly && !q.dirty then (none, q)
  else
    match firstReady scan [] q.buffer with
    | (some msg, buffer) => (some msg, { q with buffer := buffer })
    | (none, buffer) => (none, { q with buffer := buffer, dirty := false })

/-- What a scan makes of an element that it passes over. -/
inductive PassedOver (scan : Scan) (e : Element) : Element → Prop
  | same : PassedOver scan e e
  | checked (hstate : e.state ≠ .ready) (hcheck : (scan.checkState e.item e.state).1 ≠ .ready) :
    PassedOver scan e ⟨(scan.checkState e.item e.state).2, (scan.checkState e.item e.state).1⟩

/-- The element a scan takes and the message it hands out for it. -/
inductive Taken (scan : Scan) (e : Element) : Message → Prop
  | ready (hstate : e.state = .ready) : Taken scan e e.item
  | checked (hstate : e.state ≠ .ready) (hcheck : (scan.checkState e.item e.state).1 = .ready) :
    Taken scan e (scan.checkState e.item e.state).2

/-- A scan that takes nothing passes over every element. -/
theorem firstReady_none {scan : Scan} {older q buf : List Element}
    (hcheck : ∀ m state, (scan.checkState m state).1 = .ready ∨ (scan.checkState m state).1 = .nonReady)
    (h : firstReady scan older q = (none, buf)) :
    ∃ q', buf = older ++ q' ∧ List.Forall₂ (PassedOver scan) q q' := by
  induction q generalizing older with
  | nil => exact ⟨[], by simpa [firstReady] using h.symm, .nil⟩
  | cons e rest ih =>
    have hpass : ∀ {e'}, PassedOver scan e e' → firstReady scan (older ++ [e']) rest = (none, buf) →
        ∃ q', buf = older ++ q' ∧ List.Forall₂ (PassedOver scan) (e :: rest) q' := by
      intro e' he' hrest
      obtain ⟨q', rfl, hq'⟩ := ih hrest
      exact ⟨e' :: q', by simp, .cons he' hq'⟩
    rw [firstReady] at h
    split_ifs at h with hblocked hstate
    · exact hpass .same h
    · simp at h
    · rcases hcheck e.item e.state with hc | hc
      · simp [hc] at h
      · simp only [hc] at h
        refine hpass (.checked hstate (by simp [hc])) ?_
        simpa only [hc] using h

/-- A scan that takes an element passes over those before it and leaves those behind it alone. -/
theorem firstReady_some {scan : Scan} {older q buf : List Element} {m : Message}
    (hcheck : ∀ m state, (scan.checkState m state).1 = .ready ∨ (scan.checkState m state).1 = .nonReady)
    (h : firstReady scan older q = (some m, buf)) :
    ∃ pre e post pre', q = pre ++ e :: post ∧ buf = older ++ pre' ++ post ∧
      List.Forall₂ (PassedOver scan) pre pre' ∧ scan.hold e.item = false ∧
      gated scan (older ++ pre') e.item = false ∧ Taken scan e m := by
  induction q generalizing older with
  | nil => simp [firstReady] at h
  | cons e rest ih =>
    have hpass : ∀ {e'}, PassedOver scan e e' → firstReady scan (older ++ [e']) rest = (some m, buf) →
        ∃ pre x post pre', e :: rest = pre ++ x :: post ∧ buf = older ++ pre' ++ post ∧
          List.Forall₂ (PassedOver scan) pre pre' ∧ scan.hold x.item = false ∧
          gated scan (older ++ pre') x.item = false ∧ Taken scan x m := by
      intro e' he' hrest
      obtain ⟨pre, x, post, pre', rfl, rfl, hpre, hhold, hgate, htaken⟩ := ih hrest
      exact ⟨e :: pre, x, post, e' :: pre', rfl, by simp, .cons he' hpre, hhold, by simpa using hgate, htaken⟩
    rw [firstReady] at h
    split_ifs at h with hblocked hstate
    · exact hpass .same h
    · simp only [Bool.or_eq_true, not_or, Bool.not_eq_true] at hblocked
      obtain ⟨hm, rfl⟩ := Prod.mk.inj h
      obtain rfl := Option.some.inj hm
      exact ⟨[], e, rest, [], rfl, by simp, .nil, hblocked.1, by simpa using hblocked.2, .ready hstate⟩
    · simp only [Bool.or_eq_true, not_or, Bool.not_eq_true] at hblocked
      rcases hcheck e.item e.state with hc | hc
      · simp only [hc] at h
        obtain ⟨hm, rfl⟩ := Prod.mk.inj h
        obtain rfl := Option.some.inj hm
        exact ⟨[], e, rest, [], rfl, by simp, .nil, hblocked.1, by simpa using hblocked.2, .checked hstate hc⟩
      · simp only [hc] at h
        refine hpass (.checked hstate (by simp [hc])) ?_
        simpa only [hc] using h

/-- `markDirty`: readiness may have changed without a push or a pop. -/
def markDirty (q : FRFCFSBuffer) : FRFCFSBuffer := { q with dirty := true }

end FRFCFSBuffer

end Octopus
