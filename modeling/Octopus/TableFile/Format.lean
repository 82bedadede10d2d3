import Octopus.Fsm
import Octopus.TableFile.Reader
import Mathlib.Data.List.Forall2
import Mathlib.Data.List.Nodup

/-!
# The format of protocol files

What a protocol table is, what its transitions are, and every way of writing it as a file: names and
numbers with blanks around them, cells with actions, with a state, with both or with nothing, rows that
end early, further columns behind the ones that are read, and lines between the sections. This is what the
reader is compared with; nothing here is how it works.
-/

namespace Octopus

open Lib WayPartition

/-- A name of an event, an action or a state. -/
def IsName (name : Text) : Prop := name ≠ [] ∧ ∀ c ∈ name, c ≠ ',' ∧ c ≠ '/' ∧ ¬ isBlank c

instance (name : Text) : Decidable (IsName name) :=
  inferInstanceAs (Decidable (name ≠ [] ∧ ∀ c ∈ name, c ≠ ',' ∧ c ≠ '/' ∧ ¬ isBlank c))

/-- A protocol table with names for its events, actions and states. -/
structure ProtocolTable where
  /-- The events in the order of their columns. -/
  events : List Text
  /-- The actions and their numbers. -/
  actions : List (Text × Int)
  /-- The states in the order of their numbers, with their rows. -/
  states : List (Text × Row Text Text)
  isName : ∀ name ∈ events ++ actions.map Prod.fst ++ states.map Prod.fst, IsName name
  nodup_actions : (actions.map Prod.fst).Nodup
  nodup_states : (states.map Prod.fst).Nodup
  /-- The actions of a cell are actions of the protocol. -/
  actions_known : ∀ s ∈ states, ∀ c ∈ s.2.cells, ∀ a ∈ c.actions, a ∈ actions.map Prod.fst
  /-- The next state of a cell is a state of the protocol. -/
  next_known : ∀ s ∈ states, ∀ c ∈ s.2.cells, ∀ n ∈ c.next, n ∈ states.map Prod.fst

namespace ProtocolTable

variable (t : ProtocolTable)

/-- The number of an action, if the protocol has it. -/
def actionId (name : Text) : Option Int := t.actions.lookup name

/-- The number of a state. -/
def stateId (name : Text) : Nat := (t.states.map Prod.fst).idxOf name

/-- The cell of a state and an event: the empty one, if it is missing. -/
def cell (state event : Nat) : Cell Text Text := (t.states[state]?.bind (·.2.cells[event]?)).getD Cell.stay

/-- The numbers of the actions of a transition. -/
def actionIds (state event : Nat) : List Int := (t.cell state event).actions.filterMap t.actionId

/-- The number of the next state of a transition: the row's own, if the cell names none. -/
def nextId (state event : Nat) : Int := (((t.cell state event).next.map t.stateId).getD state : Nat)

/-- Whether a transition carries an action; it does not if the protocol has no such action. -/
def carries (name : Text) (state event : Nat) : Bool :=
  (t.actionId name).any fun id => (t.actionIds state event).any (· = id)

end ProtocolTable

/-- A number with blanks around it. -/
def Numeral (n : Int) (text : Text) : Prop :=
  ∃ number, Padded isBlank number text ∧ (∀ c ∈ number, c ≠ ',' ∧ ¬ isBlank c) ∧ atoi number = some n

/-- A flag: the number 1 if it is set, another number if it is not. -/
def Flag (b : Bool) (text : Text) : Prop := ∃ n, Numeral n text ∧ (b = true ↔ n = 1)

/-- Actions with a slash behind each, and a next state, with blanks around the names. -/
def PartsText : List Text → Option Text → Text → Prop
  | [], next, text => Padded isBlank (next.getD []) text
  | a :: as, next, text =>
    ∃ action rest, text = action ++ '/' :: rest ∧ Padded isBlank a action ∧ PartsText as next rest

/-- A cell: its actions and its next state. -/
def CellText (c : Cell Text Text) (text : Text) : Prop := PartsText c.actions c.next text

/--
A row: the name of the state, its flags and its cells, with a comma in front of each. Cells at the end may be
missing, and there may be further ones that are empty.
-/
def RowLine (s : Text × Row Text Text) (line : Text) : Prop :=
  ∃ (name stable valid : Text) (cells : List Text),
    line = name ++ ',' :: (stable ++ ',' :: (valid ++ cells.flatMap (',' :: ·))) ∧
    Padded isBlank s.1 name ∧ Flag s.2.stable stable ∧ Flag s.2.isDataValid valid ∧
    ∀ i : Nat, CellText (s.2.cells[i]?.getD Cell.stay) (cells[i]?.getD [])

/-- A line whose first two fields are these; whatever is behind them does not count. -/
def Columns (value index line : Text) : Prop :=
  ',' ∉ value ∧ ',' ∉ index ∧
    (line = value ++ ',' :: index ∨ ∃ rest, line = value ++ ',' :: (index ++ ',' :: rest))

/-- An entry of a section: a number and a name. -/
def EntryLine (entry : Text × Int) (line : Text) : Prop :=
  IsName entry.1 ∧ ∃ value index, Columns value index line ∧ Numeral entry.2 value ∧ Padded isBlank entry.1 index

/-- The line behind a section: its second field is blank or missing. -/
def EndLine (line : Text) : Prop :=
  ',' ∉ line ∨ ∃ value index, Columns value index line ∧ ∀ c ∈ index, isBlank c

/-- The heading of a part: a line with its keyword and with none of those that are looked for before it. -/
def Heading.Announced (k : Heading) (line : Text) : Prop :=
  k.keyword <:+: line ∧ ∀ k' : Heading, k'.ctorIdx < k.ctorIdx → ¬ k'.keyword <:+: line

/--
The sections of a file with all their entries, in any order, possibly in several pieces and with lines without
a keyword between them.
-/
inductive Sections : List (Heading × Text × Int) → List Text → Prop
  | nil : Sections [] []
  | other {line : Text} {es : List (Heading × Text × Int)} {lines : List Text}
      (hline : ∀ k : Heading, ¬ k.keyword <:+: line) (h : Sections es lines) : Sections es (line :: lines)
  | part {k : Heading} {heading last : Text} {entries : List (Text × Int)} {entryLines : List Text}
      {es : List (Heading × Text × Int)} {lines : List Text} (hk : k ≠ .table) (hheading : k.Announced heading)
      (hentries : List.Forall₂ EntryLine entries entryLines) (hlast : EndLine last) (h : Sections es lines) :
      Sections (entries.map (k, ·) ++ es) (heading :: (entryLines ++ last :: lines))

namespace ProtocolTable

variable (t : ProtocolTable)

/-- The entries number the events, actions and states as the table does. -/
structure Numbered (es : List (Heading × Text × Int)) : Prop where
  events : ∀ name id, (.events, name, id) ∈ es ↔ ∃ i : Nat, id = i ∧ t.events[i]? = some name
  actions : ∀ name id, (.actions, name, id) ∈ es ↔ (name, id) ∈ t.actions
  states : ∀ name id, (.states, name, id) ∈ es ↔ ∃ i : Nat, id = i ∧ t.states[i]?.map Prod.fst = some name

/-- The file is one that the table is written as: sections, the heading of the table and its rows. -/
def WrittenAs (text : Text) : Prop :=
  ∃ es sections heading rows, Sections es sections ∧ t.Numbered es ∧ Heading.table.Announced heading ∧
    List.Forall₂ RowLine t.states rows ∧ (∀ line ∈ sections ++ heading :: rows, '\n' ∉ line) ∧
    ((sections ++ heading :: rows).flatMap (· ++ ['\n']) = text ∨
      (sections ++ heading :: rows).flatMap (· ++ ['\n']) = text ++ ['\n'])

end ProtocolTable

end Octopus
