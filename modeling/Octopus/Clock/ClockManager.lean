import Octopus.Lib.Agenda
import Octopus.Lib.TransitionSystem
import Mathlib.Algebra.Group.Nat.Defs

/-!
# The clock manager

The events of the clocked objects lie in a map, ordered by their time and by the number of their object.
A step of the clock processes the objects that are due, puts each of them back one period later, and ends
with the advance of the time to the next event. Times are 64-bit numbers.
-/

namespace Octopus

/-- `ClockManager::EventKey`. -/
@[ext] structure EventKey where
  time_stamp : Nat
  obj_id : Nat
  deriving DecidableEq, Repr

/-- The order of `EventKey::operator<`. -/
instance : LinearOrder EventKey where
  le a b := a.time_stamp < b.time_stamp ∨ a.time_stamp = b.time_stamp ∧ a.obj_id ≤ b.obj_id
  lt a b := a.time_stamp < b.time_stamp ∨ a.time_stamp = b.time_stamp ∧ a.obj_id < b.obj_id
  le_refl a := .inr ⟨rfl, Nat.le_refl _⟩
  le_trans a b c h h' := by omega
  lt_iff_le_not_ge a b := by omega
  le_antisymm a b h h' := by
    ext
    · omega
    · omega
  le_total a b := by omega
  toDecidableLE a b := inferInstanceAs (Decidable (_ ∨ _))
  toDecidableLT a b := inferInstanceAs (Decidable (_ ∨ _))

namespace EventKey

/-- The order of two keys. -/
theorem lt_iff {a b : EventKey} :
    a < b ↔ a.time_stamp < b.time_stamp ∨ a.time_stamp = b.time_stamp ∧ a.obj_id < b.obj_id := Iff.rfl

end EventKey

/-- The ways a call of the clock manager does not return: its two exits, an empty map, a loop that goes on. -/
inductive ClockExit
  | zeroPeriod
  | missedEvent
  | noEvent
  | unfinished
  deriving DecidableEq, Repr

/-- The clock manager; `ω` are the clocked objects. -/
structure ClockManager (ω : Type) where
  current_time : Nat := 0
  obj_id : Nat := 0
  events : List (EventKey × ω) := []
  /-- The calls of `cycleProcess`, in their order: the time and the number of the object. -/
  processed : List EventKey := []
  deriving Repr

/-- A call while the simulator is set up. -/
inductive ClockSetup (ω : Type)
  | registerCLKObj (clk_period : Nat) (obj : ω)
  | deregisterCLKObj (obj : ω)
  deriving Repr

namespace ClockManager

variable {ω : Type} (getClkPeriod : ω → Nat)

/-- `registerCLKObj`: the first event of an object, under the next number. -/
def registerCLKObj (s : ClockManager ω) (clk_period : Nat) (obj : ω) : ClockManager ω :=
  { s with events := Lib.insertEntry ⟨clk_period, s.obj_id⟩ obj s.events, obj_id := s.obj_id + 1 }

/-- `deregisterCLKObj`: drop the first event of an object. -/
def deregisterCLKObj [DecidableEq ω] (s : ClockManager ω) (obj : ω) : ClockManager ω :=
  { s with events := s.events.eraseP fun e => e.2 = obj }

/-- The manager after the calls that set the simulator up. -/
def setUp [DecidableEq ω] (calls : List (ClockSetup ω)) : ClockManager ω :=
  calls.foldl (fun s call =>
    match call with
    | .registerCLKObj clk_period obj => s.registerCLKObj clk_period obj
    | .deregisterCLKObj obj => s.deregisterCLKObj obj) {}

/-- `init`: exit if an object has the period 0. -/
def init (s : ClockManager ω) : Except ClockExit (ClockManager ω) :=
  if s.events.any fun e => getClkPeriod e.2 = 0 then .error .zeroPeriod else .ok s

/-- A round of the loop of `clkStep`; the flag tells that the call returns. -/
def round (s : ClockManager ω) : Except ClockExit (ClockManager ω × Bool) :=
  match s.events with
  | [] => .error .noEvent
  | (key, obj) :: events =>
    if s.current_time < key.time_stamp then .ok ({ s with current_time := key.time_stamp }, true)
    else if key.time_stamp < s.current_time then .error .missedEvent
    else
      .ok ({ s with
        events := Lib.insertEntry ⟨(s.current_time + getClkPeriod obj) % 2 ^ 64, key.obj_id⟩ obj events
        processed := s.processed ++ [⟨s.current_time, key.obj_id⟩] }, false)

/-- `clkStep`, for a number of rounds at most. -/
def clkStep : Nat → ClockManager ω → Except ClockExit (ClockManager ω)
  | 0, _ => .error .unfinished
  | rounds + 1, s =>
    match round getClkPeriod s with
    | .error e => .error e
    | .ok (s', true) => .ok s'
    | .ok (s', false) => clkStep rounds s'

/-- The runs of a clock manager that is set up: a label is a call of `clkStep`. -/
def system [DecidableEq ω] (calls : List (ClockSetup ω)) : Lib.TransitionSystem (ClockManager ω) Unit where
  init s := init getClkPeriod (setUp calls) = .ok s
  step s _ s' := ∃ rounds, clkStep getClkPeriod rounds s = .ok s'

/-- The events that the step puts back stay within 64 bits. -/
def Fits (s : ClockManager ω) : Prop :=
  ∀ e ∈ s.events, e.1.time_stamp = s.current_time → s.current_time + getClkPeriod e.2 < 2 ^ 64

/-- An object is due at its first time stamp and from then on after each period. -/
def Due (start : ClockManager ω) (t i : Nat) : Prop :=
  ∃ first obj k, (⟨first, i⟩, obj) ∈ start.events ∧ t = first + k * getClkPeriod obj

end ClockManager

end Octopus
