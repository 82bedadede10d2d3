import Octopus.DataHandler.WayPartition
import Octopus.Lib.Text

/-!
# The reader of protocol tables

A protocol is a CSV file: sections that number the names of events, actions and states, and the table,
with one row per state and one cell per event. `FSMReader` reads the file once; the protocol handlers
then ask it for transitions. What C++ leaves undefined is `none`, and so is the exception that `at`
throws for a name that no section lists.
-/

namespace Octopus

open Lib WayPartition

/-- A name or a line of the file. -/
abbrev Text := List Char

/-- The characters that `_trim` strips. -/
def isBlank (c : Char) : Bool := c = ' ' || c = '\t' || c = '\r' || c = '\n'

/-- `_trim`. -/
def _trim (s : Text) : Text := trim isBlank s

/-- A `map<string, int>`: the last assignment to a name is the first entry. -/
abbrev IdMap := List (Text × Int)

namespace IdMap

/-- `ids[name]`, which enters a name that is not there with 0. -/
def index (ids : IdMap) (name : Text) : Int × IdMap :=
  match ids.lookup name with
  | some id => (id, ids)
  | none => (0, (name, 0) :: ids)

end IdMap

/-- What the reader keeps of a row. -/
structure FSMState where
  m_own_state : Int
  stable : Bool
  is_data_valid : Bool
  transitions : List (Nat × Int) := []
  actions : List (Nat × List Int) := []
  deriving DecidableEq, Repr

namespace FSMState

/-- `find_last_of`: the place of the last such character. -/
def findLastOf (c : Char) : Text → Option Nat
  | [] => none
  | c' :: s => ((findLastOf c s).map (· + 1)).or (if c' = c then some 0 else none)

/--
The loop over the actions of a field: it reads up to a slash until the stream, whose place is what it has
read of the `length` characters, is not in front of the last slash. At the end of the stream `tellg` is
-1 and the loop never ends.
-/
def readActions (actionIds : IdMap) (last_delim_pos length : Nat) (field_stream : Text) : Option (List Int) :=
  match _h : getline '/' (some field_stream) [] with
  | (action_name, some rest, _) =>
    (actionIds.lookup (_trim action_name)).bind fun id =>
      if length - rest.length < last_delim_pos then
        (readActions actionIds last_delim_pos length rest).map (id :: ·)
      else some [id]
  | (_, none, _) => none
termination_by field_stream.length
decreasing_by exact length_lt_of_getline _h

/-- The effect of a field behind the flags of a row: the cell of an event. -/
def addCell (actionIds stateIds : IdMap) (state_name : Text) (s : FSMState) (event_index : Nat) (field : Text) :
    Option FSMState :=
  let field := _trim field
  if field.length ≠ 0 then
    match findLastOf '/' field with
    | some last_delim_pos =>
      let next_state := _trim (field.drop (last_delim_pos + 1))
      (stateIds.lookup (if next_state.length = 0 then state_name else next_state)).bind fun next =>
        (readActions actionIds last_delim_pos field.length field).map fun ids =>
          { s with
            transitions := (event_index, next) :: s.transitions
            actions := (event_index, ids) :: s.actions }
    | none => (stateIds.lookup field).map fun next => { s with transitions := (event_index, next) :: s.transitions }
  else (stateIds.lookup state_name).map fun next => { s with transitions := (event_index, next) :: s.transitions }

/-- The loop over the fields behind the flags. -/
def addCells (actionIds stateIds : IdMap) (state_name : Text) : FSMState → Nat → List Text → Option FSMState
  | s, _, [] => some s
  | s, event_index, field :: later =>
    (addCell actionIds stateIds state_name s event_index field).bind fun s =>
      addCells actionIds stateIds state_name s (event_index + 1) later

/-- The constructor: read a row of the table. -/
def ofLine (actionIds stateIds : IdMap) (line : Text) : Option FSMState :=
  let name := getline ',' (some line) []
  let state_name := _trim name.1
  (stateIds.lookup state_name).bind fun own =>
    let stable := getline ',' name.2.1 []
    (atoi stable.1).bind fun isStable =>
      let valid := getline ',' stable.2.1 stable.1
      (atoi valid.1).bind fun isValid =>
        let s : FSMState := { m_own_state := own, stable := isStable = 1, is_data_valid := isValid = 1 }
        addCells actionIds stateIds state_name s 0 (valid.2.1.elim [] (fields ','))

/-- `getNextState`: an event without a transition stays in the row's own state. -/
def getNextState (s : FSMState) (event : Nat) : Int := (s.transitions.lookup event).getD s.m_own_state

/-- `getActions`, which enters an event that is not there with no action. -/
def getActions (s : FSMState) (event : Nat) : List Int × FSMState :=
  match s.actions.lookup event with
  | some ids => (ids, s)
  | none => ([], { s with actions := (event, []) :: s.actions })

end FSMState

/-- The parts of a file that its headings announce. -/
inductive Heading
  | events
  | actions
  | states
  | table
  deriving DecidableEq, Repr

namespace Heading

/-- The keyword of a heading: `EVENT_CSV_ID`, `ACTION_CSV_ID`, `STATE_CSV_ID` and `STATE_CSV_TABLE`. -/
def keyword : Heading → Text
  | events => "EventNum".toList
  | actions => "ActionNum".toList
  | states => "StateNum".toList
  | table => "State".toList

/-- What a line between two parts announces, if anything. -/
def ofLine (line : Text) : Option Heading :=
  if events.keyword <:+: line then some events
  else if actions.keyword <:+: line then some actions
  else if states.keyword <:+: line then some states
  else if table.keyword <:+: line then some table
  else none

end Heading

structure FSMReader where
  m_eventIds : IdMap := []
  m_actionIds : IdMap := []
  m_stateIds : IdMap := []
  m_states : List FSMState := []
  deriving DecidableEq, Repr

namespace FSMReader

/-- `parseFile` for the names of a section: the map afterwards and the lines that are left. -/
def parseIds (ids : IdMap) : List Text → Option (IdMap × List Text)
  | [] => some (ids, [])
  | line :: rest =>
    let first := getline ',' (some line) []
    let second := getline ',' first.2.1 []
    let value := _trim first.1
    let index := _trim second.1
    if index.length = 0 then some (ids, rest)
    else (atoi value).bind fun id => parseIds ((index, id) :: ids) rest

/-- A section takes lines off the file. -/
theorem length_le_of_parseIds {ids ids' : IdMap} {lines rest : List Text}
    (h : parseIds ids lines = some (ids', rest)) : rest.length ≤ lines.length := by
  induction lines generalizing ids with
  | nil =>
    cases h
    rfl
  | cons line lines ih =>
    rw [parseIds] at h
    split at h
    · cases h
      exact Nat.le_succ _
    · obtain ⟨id, -, h⟩ := Option.bind_eq_some_iff.1 h
      exact (ih h).trans (Nat.le_succ _)

/-- `parseFile` for the rows of the table. -/
def parseStates (r : FSMReader) (lines : List Text) : Option FSMReader :=
  (lines.mapM (FSMState.ofLine r.m_actionIds r.m_stateIds)).map fun states =>
    { r with m_states := r.m_states ++ states }

/-- The loop of the constructor over the lines of the file. -/
def parse (r : FSMReader) (lines : List Text) : Option FSMReader :=
  match lines with
  | [] => some r
  | line :: rest =>
    match Heading.ofLine line with
    | some .events =>
      match _h : parseIds r.m_eventIds rest with
      | some (ids, rest) => parse { r with m_eventIds := ids } rest
      | none => none
    | some .actions =>
      match _h : parseIds r.m_actionIds rest with
      | some (ids, rest) => parse { r with m_actionIds := ids } rest
      | none => none
    | some .states =>
      match _h : parseIds r.m_stateIds rest with
      | some (ids, rest) => parse { r with m_stateIds := ids } rest
      | none => none
    | some .table => r.parseStates rest
    | none => parse r rest
termination_by lines.length
decreasing_by
  all_goals first | exact Nat.lt_succ_of_le (length_le_of_parseIds _h) | exact Nat.lt_succ_self _

/-- The constructor, on the content of the file. -/
def ofFile (text : Text) : Option FSMReader := parse {} (fields '\n' text)

/-- `m_states[state].getActions(event)`. -/
def getActions (r : FSMReader) (state event : Nat) : Option (List Int × FSMReader) :=
  r.m_states[state]?.map fun s =>
    ((s.getActions event).1, { r with m_states := r.m_states.set state (s.getActions event).2 })

/-- `getTransition`: the next state and the actions. -/
def getTransition (r : FSMReader) (current_state event : Nat) : Option ((Int × List Int) × FSMReader) :=
  r.m_states[current_state]?.bind fun s =>
    (r.getActions current_state event).map fun out => ((s.getNextState event, out.1), out.2)

/-- Whether the actions of a transition contain the one that the map numbers under a name. -/
def answersTo (name : Text) (r : FSMReader) (state event : Nat) : Option (Bool × FSMReader) :=
  (r.getActions state event).map fun out =>
    let id := out.2.m_actionIds.index name
    (out.1.any (· = id.1), { out.2 with m_actionIds := id.2 })

/-- `isHit`. -/
def isHit : FSMReader → Nat → Nat → Option (Bool × FSMReader) := answersTo "Hit".toList

/-- `isStall`. -/
def isStall : FSMReader → Nat → Nat → Option (Bool × FSMReader) := answersTo "Stall".toList

/-- `hasAction`, which looks the name up and does not enter it. -/
def hasAction (r : FSMReader) (state event : Nat) (action_name : Text) : Option (Bool × FSMReader) :=
  match r.m_actionIds.lookup action_name with
  | none => some (false, r)
  | some id => (r.getActions state event).map fun out => (out.1.any (· = id), out.2)

/-- `getState`. -/
def getState (r : FSMReader) (state_name : Text) : Int × FSMReader :=
  ((r.m_stateIds.index state_name).1, { r with m_stateIds := (r.m_stateIds.index state_name).2 })

/-- `isValidState`. -/
def isValidState (r : FSMReader) (state : Nat) : Option Bool := r.m_states[state]?.map (·.is_data_valid)

/-- `isStable`. -/
def isStable (r : FSMReader) (state : Nat) : Option Bool := r.m_states[state]?.map (·.stable)

end FSMReader

end Octopus
