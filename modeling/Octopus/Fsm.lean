import Mathlib.Data.List.Basic

/-!
# Protocol tables

A protocol is a table with one row per line state and one column per event. A cell lists the
actions of the transition and its next state; a cell without a next state stays in the row's
state, and an event past the last column of a row is such a cell with no action.
-/

namespace Octopus

/-- One cell of a protocol table. -/
structure Cell (σ α : Type) where
  actions : List α := []
  next : Option σ := none
  deriving DecidableEq, Repr

namespace Cell

variable {σ α : Type}

/-- The empty cell: no action, same state. -/
def stay : Cell σ α := {}

/-- A cell that only moves to a state. -/
def goto (s : σ) : Cell σ α := { next := some s }

/-- A cell with actions that stays in the row's state. -/
def act (as : List α) : Cell σ α := { actions := as }

/-- A cell with actions and a next state. -/
def move (as : List α) (s : σ) : Cell σ α := { actions := as, next := some s }

end Cell

/-- A row: the two flags of a state and its cells in event order. -/
structure Row (σ α : Type) where
  stable : Bool
  isDataValid : Bool
  cells : List (Cell σ α)

/-- A protocol table over line states `σ`, events `ε` and actions `α`. -/
structure Fsm (σ ε α : Type) where
  /-- The number of an event, which is its column. -/
  eventId : ε → Nat
  row : σ → Row σ α

namespace Fsm

variable {σ ε α : Type} (fsm : Fsm σ ε α)

/-- The cell of a state and an event. -/
def cell (s : σ) (e : ε) : Cell σ α := ((fsm.row s).cells[fsm.eventId e]?).getD Cell.stay

/-- The actions of a transition. -/
def getActions (s : σ) (e : ε) : List α := (fsm.cell s e).actions

/-- The next state of a transition. -/
def getNextState (s : σ) (e : ε) : σ := (fsm.cell s e).next.getD s

/-- The next state and the actions of a transition. -/
def getTransition (s : σ) (e : ε) : σ × List α := (fsm.getNextState s e, fsm.getActions s e)

/-- Whether a line in this state holds a block. -/
def isValidState (s : σ) : Bool := (fsm.row s).isDataValid

/-- Whether a state is stable. -/
def isStable (s : σ) : Bool := (fsm.row s).stable

/-- Whether the actions of a transition contain a given one. -/
def hasAction [DecidableEq α] (s : σ) (e : ε) (a : α) : Bool := a ∈ fsm.getActions s e

end Fsm

end Octopus
