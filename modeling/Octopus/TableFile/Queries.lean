import Octopus.TableFile.RoundTrip

/-!
# What the handlers are answered

After the file is read, the protocol handlers ask for transitions, in any order and any number of times. The
reader answers as the table does, except that `isHit` and `isStall` of a table without such an action answer
for the action that is numbered 0.
-/

namespace Octopus

open Lib

/-- A question of a protocol handler. -/
inductive Query
  | getTransition (current_state event : Nat)
  | isHit (state event : Nat)
  | isStall (state event : Nat)
  | hasAction (state event : Nat) (action_name : Text)
  | getState (state_name : Text)
  | isValidState (state : Nat)
  | isStable (state : Nat)
  deriving DecidableEq, Repr

/-- What comes back. -/
inductive Answer
  | transition (next_state : Int) (actions : List Int)
  | verdict (b : Bool)
  | id (n : Int)
  deriving DecidableEq, Repr

namespace FSMReader

/-- Answer a question. -/
def ask (r : FSMReader) : Query → Option (Answer × FSMReader)
  | .getTransition state event => (r.getTransition state event).map fun out => (.transition out.1.1 out.1.2, out.2)
  | .isHit state event => (r.isHit state event).map fun out => (.verdict out.1, out.2)
  | .isStall state event => (r.isStall state event).map fun out => (.verdict out.1, out.2)
  | .hasAction state event action_name =>
    (r.hasAction state event action_name).map fun out => (.verdict out.1, out.2)
  | .getState state_name => some (.id (r.getState state_name).1, (r.getState state_name).2)
  | .isValidState state => (r.isValidState state).map fun b => (.verdict b, r)
  | .isStable state => (r.isStable state).map fun b => (.verdict b, r)

/-- Answer one question after another. -/
def askAll (r : FSMReader) : List Query → Option (List Answer)
  | [] => some []
  | q :: qs => (r.ask q).bind fun out => (out.2.askAll qs).map (out.1 :: ·)

end FSMReader

/-- The action that a question is about, if it is about one. -/
def Query.about : Query → Option Text
  | isHit _ _ => some "Hit".toList
  | isStall _ _ => some "Stall".toList
  | hasAction _ _ action_name => some action_name
  | _ => none

namespace ProtocolTable

/-- What the table answers. -/
def answer (t : ProtocolTable) : Query → Answer
  | .getTransition state event => .transition (t.nextId state event) (t.actionIds state event)
  | .isHit state event => .verdict (t.carries "Hit".toList state event)
  | .isStall state event => .verdict (t.carries "Stall".toList state event)
  | .hasAction state event action_name => .verdict (t.carries action_name state event)
  | .getState state_name => .id (t.stateId state_name)
  | .isValidState state => .verdict ((t.states[state]?.map (·.2.isDataValid)).getD false)
  | .isStable state => .verdict ((t.states[state]?.map (·.2.stable)).getD false)

/-- The question is about a state of the table. -/
def Allows (t : ProtocolTable) : Query → Prop
  | .getTransition state _ | .isHit state _ | .isStall state _ | .hasAction state _ _ | .isValidState state
  | .isStable state => state < t.states.length
  | .getState state_name => state_name ∈ t.states.map Prod.fst

/-- The table has an action of this name, or no cell has an action with the number 0. -/
def Unmistakable (t : ProtocolTable) (name : Text) : Prop :=
  name ∈ t.actions.map Prod.fst ∨ ∀ state event, 0 ∉ t.actionIds state event

end ProtocolTable

variable {t : ProtocolTable} {r : FSMReader} {s : FSMState} {i e : Nat} {name : Text}

/-- A row that has answered is still the row. -/
theorem RowOf.getActions (h : RowOf t i s) (e : Nat) : RowOf t i (s.getActions e).2 := by
  cases hlookup : s.actions.lookup e with
  | some ids =>
    rw [FSMState.getActions, hlookup]
    exact h
  | none =>
    have hsame : ∀ e', ((s.getActions e).2.getActions e').1 = (s.getActions e').1 := by
      intro e'
      rw [getActions_fst, getActions_fst, FSMState.getActions, hlookup]
      dsimp only
      by_cases he : e' = e
      · rw [he, hlookup, List.lookup_cons_self]
        rfl
      · rw [lookup_cons_of_ne _ _ he]
    rw [FSMState.getActions, hlookup] at hsame ⊢
    exact ⟨h.next, fun e' => (hsame e').trans (h.actions e'), h.stable, h.valid⟩

/-- The actions of a transition are answered, and the reader still represents the table. -/
theorem Represents.getActions (h : Represents t r) (hi : i < t.states.length) (e : Nat) :
    ∃ r', r.getActions i e = some (t.actionIds i e, r') ∧ Represents t r' ∧ r'.m_actionIds = r.m_actionIds := by
  have hlt : i < r.m_states.length := h.length ▸ hi
  have hs : r.m_states[i]? = some r.m_states[i] := List.getElem?_eq_getElem hlt
  have hrow := h.rows i _ hs
  refine ⟨{ r with m_states := r.m_states.set i (r.m_states[i].getActions e).2 }, ?_, ?_, rfl⟩
  · rw [FSMReader.getActions, hs, Option.map_some, hrow.actions e]
  · refine ⟨(List.length_set ..).trans h.length, fun j s hj => ?_, h.actions, h.states⟩
    rw [List.getElem?_set] at hj
    split_ifs at hj with hij
    · cases hj
      exact hij ▸ hrow.getActions e
    · exact h.rows j s hj

/-- A name that the table does not have is no action. -/
theorem ProtocolTable.actionId_eq_none_iff : t.actionId name = none ↔ name ∉ t.actions.map Prod.fst := by
  rw [ProtocolTable.actionId, List.lookup_eq_none_iff]
  constructor
  · intro h hmem
    obtain ⟨p, hp, rfl⟩ := List.mem_map.1 hmem
    exact absurd (h p hp) (by simp)
  · exact fun h p hp => bne_iff_ne.2 fun heq => h (List.mem_map.2 ⟨p, hp, heq.symm⟩)

/-- Looking a name up as `isHit` and `isStall` do enters it, if the table does not have it. -/
theorem Represents.index (h : Represents t r) (hname : name = "Hit".toList ∨ name = "Stall".toList) :
    (r.m_actionIds.index name).1 = (t.actionId name).getD 0 ∧
      Represents t { r with m_actionIds := (r.m_actionIds.index name).2 } := by
  cases hlookup : r.m_actionIds.lookup name with
  | some id =>
    rw [IdMap.index, hlookup]
    refine ⟨?_, h⟩
    rcases h.actions name with heq | ⟨hnone, -, hzero⟩
    · rw [← heq, hlookup]
      rfl
    · rw [hnone]
      exact Option.some_inj.1 (hlookup.symm.trans hzero)
  | none =>
    have hnone : t.actionId name = none := by
      rcases h.actions name with heq | ⟨hnone, -, -⟩
      · exact heq.symm.trans hlookup
      · exact hnone
    rw [IdMap.index, hlookup, hnone]
    refine ⟨rfl, h.length, h.rows, fun name' => ?_, h.states⟩
    by_cases heq : name' = name
    · subst heq
      exact .inr ⟨hnone, hname, List.lookup_cons_self⟩
    · have hskip : List.lookup name' ((name, 0) :: r.m_actionIds) = r.m_actionIds.lookup name' := by
        rw [List.lookup_cons, beq_eq_false_iff_ne.2 heq]
      exact (h.actions name').imp (hskip.trans ·) fun ⟨hn, ho, hz⟩ => ⟨hn, ho, hskip.trans hz⟩

/-- `isHit` and `isStall` answer for the number of their action, and for 0 if the table has no such action. -/
theorem Represents.answersTo (h : Represents t r) (hi : i < t.states.length) (e : Nat)
    (hname : name = "Hit".toList ∨ name = "Stall".toList) :
    ∃ r', r.answersTo name i e = some ((t.actionIds i e).any (· = (t.actionId name).getD 0), r') ∧
      Represents t r' := by
  obtain ⟨r', hactions, hr', -⟩ := h.getActions hi e
  obtain ⟨hid, hrep⟩ := hr'.index hname
  refine ⟨_, ?_, hrep⟩
  rw [FSMReader.answersTo, hactions, Option.map_some]
  dsimp only
  rw [hid]

/-- Where no action is mistaken, the answer for 0 is the right one: no. -/
theorem ProtocolTable.Unmistakable.carries_eq (h : t.Unmistakable name) :
    (t.actionIds i e).any (· = (t.actionId name).getD 0) = t.carries name i e := by
  rw [ProtocolTable.carries]
  cases hid : t.actionId name with
  | some id => rfl
  | none =>
    have hzero := h.resolve_left (ProtocolTable.actionId_eq_none_iff.1 hid) i e
    rw [Option.getD_none, Option.any_none, List.any_eq_false]
    intro id hmem
    rw [decide_eq_true_iff]
    rintro rfl
    exact hzero hmem

/-- A question about a state of the table is answered, and rightly if the action it is about is not mistaken. -/
theorem Represents.ask (h : Represents t r) {q : Query} (hq : t.Allows q) :
    ∃ a r', r.ask q = some (a, r') ∧ Represents t r' ∧
      ((∀ name ∈ q.about, name = "Hit".toList ∨ name = "Stall".toList → t.Unmistakable name) →
        a = t.answer q) := by
  cases q with
  | getTransition i e =>
    obtain ⟨r', hactions, hr', -⟩ := h.getActions hq e
    have hs : r.m_states[i]? = some (r.m_states.get ⟨i, h.length ▸ hq⟩) := List.getElem?_eq_getElem _
    refine ⟨_, r', ?_, hr', fun _ => rfl⟩
    rw [FSMReader.ask, FSMReader.getTransition, hs, Option.bind_some, hactions, Option.map_some, Option.map_some,
      (h.rows i _ hs).next]
    rfl
  | isHit i e =>
    obtain ⟨r', hverdict, hr'⟩ := h.answersTo hq e (.inl rfl)
    refine ⟨_, r', by rw [FSMReader.ask, FSMReader.isHit, hverdict]; rfl, hr',
      fun hname => congrArg Answer.verdict ?_⟩
    exact (hname _ rfl (.inl rfl)).carries_eq
  | isStall i e =>
    obtain ⟨r', hverdict, hr'⟩ := h.answersTo hq e (.inr rfl)
    refine ⟨_, r', by rw [FSMReader.ask, FSMReader.isStall, hverdict]; rfl, hr',
      fun hname => congrArg Answer.verdict ?_⟩
    exact (hname _ rfl (.inr rfl)).carries_eq
  | hasAction i e name =>
    obtain ⟨r', hactions, hr', -⟩ := h.getActions hq e
    cases hlookup : r.m_actionIds.lookup name with
    | none =>
      refine ⟨.verdict false, r, by rw [FSMReader.ask, FSMReader.hasAction, hlookup]; rfl, h, fun _ => ?_⟩
      have hnone : t.actionId name = none := by
        rcases h.actions name with heq | ⟨hnone, -, -⟩
        · exact heq.symm.trans hlookup
        · exact hnone
      rw [ProtocolTable.answer, ProtocolTable.carries, hnone]
      rfl
    | some id =>
      refine ⟨.verdict ((t.actionIds i e).any (· = id)), r', ?_, hr', fun hname => congrArg Answer.verdict ?_⟩
      · rw [FSMReader.ask, FSMReader.hasAction, hlookup]
        dsimp only
        rw [hactions, Option.map_some, Option.map_some]
      · rcases h.actions name with heq | ⟨hnone, hor, hzero⟩
        · rw [ProtocolTable.carries, ← heq, hlookup]
          rfl
        · rw [← (hname name rfl hor).carries_eq, hnone, Option.getD_none,
            Option.some_inj.1 (hlookup.symm.trans hzero)]
  | getState name =>
    have hlookup := h.states name hq
    refine ⟨.id (t.stateId name), r, ?_, h, fun _ => rfl⟩
    rw [FSMReader.ask, FSMReader.getState, IdMap.index, hlookup]
  | isValidState i =>
    have hs : r.m_states[i]? = some (r.m_states.get ⟨i, h.length ▸ hq⟩) := List.getElem?_eq_getElem _
    refine ⟨_, r, by rw [FSMReader.ask, FSMReader.isValidState, hs]; rfl, h, fun _ => ?_⟩
    rw [ProtocolTable.answer, (h.rows i _ hs).valid]
    rfl
  | isStable i =>
    have hs : r.m_states[i]? = some (r.m_states.get ⟨i, h.length ▸ hq⟩) := List.getElem?_eq_getElem _
    refine ⟨_, r, by rw [FSMReader.ask, FSMReader.isStable, hs]; rfl, h, fun _ => ?_⟩
    rw [ProtocolTable.answer, (h.rows i _ hs).stable]
    rfl

/-- Whatever is asked is answered; the transitions are those of the table. -/
theorem Represents.askAll (h : Represents t r) {qs : List Query} (hqs : ∀ q ∈ qs, t.Allows q) :
    ∃ as, r.askAll qs = some as ∧ List.Forall₂ (fun q a =>
      (∀ name ∈ q.about, name = "Hit".toList ∨ name = "Stall".toList → t.Unmistakable name) →
        a = t.answer q) qs as := by
  induction qs generalizing r with
  | nil => exact ⟨[], rfl, .nil⟩
  | cons q qs ih =>
    rw [List.forall_mem_cons] at hqs
    obtain ⟨a, r', hask, hr', ha⟩ := h.ask hqs.1
    obtain ⟨as, hall, hrest⟩ := ih hr' hqs.2
    refine ⟨a :: as, ?_, .cons ha hrest⟩
    rw [FSMReader.askAll, hask, Option.bind_some, hall, Option.map_some]

/-- A table without hits or stalls, but with an action that is numbered 0, is answered for wrongly. -/
theorem Represents.mistaken (h : Represents t r) (hname : name = "Hit".toList ∨ name = "Stall".toList)
    (hnot : ¬ t.Unmistakable name) :
    ∃ q, t.Allows q ∧ ∀ r', r.ask q ≠ some (t.answer q, r') := by
  rw [ProtocolTable.Unmistakable, not_or, not_forall] at hnot
  obtain ⟨hnone, i, hi⟩ := hnot
  rw [not_forall] at hi
  obtain ⟨e, hzero⟩ := hi
  rw [not_not] at hzero
  rw [← ProtocolTable.actionId_eq_none_iff] at hnone
  have hlt : i < t.states.length := by
    by_contra hge
    have hmissing : t.states[i]? = none := List.getElem?_eq_none (Nat.le_of_not_lt hge)
    simp [ProtocolTable.actionIds, ProtocolTable.cell, hmissing, Cell.stay] at hzero
  obtain ⟨r', hverdict, -⟩ := h.answersTo hlt e hname
  have htrue : (t.actionIds i e).any (· = (t.actionId name).getD 0) = true := by
    rw [hnone]
    exact List.any_eq_true.2 ⟨0, hzero, by simp⟩
  have hfalse : t.carries name i e = false := by
    rw [ProtocolTable.carries, hnone]
    rfl
  rw [htrue] at hverdict
  rcases hname with rfl | rfl
  · refine ⟨.isHit i e, hlt, fun r'' heq => ?_⟩
    rw [FSMReader.ask, FSMReader.isHit, hverdict, ProtocolTable.answer, hfalse] at heq
    cases heq
  · refine ⟨.isStall i e, hlt, fun r'' heq => ?_⟩
    rw [FSMReader.ask, FSMReader.isStall, hverdict, ProtocolTable.answer, hfalse] at heq
    cases heq

namespace ProtocolTable

/-- The reader of the file answers every sequence of questions as the table does. -/
def ReadBack (t : ProtocolTable) (text : Text) : Prop :=
  ∃ r, FSMReader.ofFile text = some r ∧
    ∀ qs : List Query, (∀ q ∈ qs, t.Allows q) → r.askAll qs = some (qs.map t.answer)

variable {text : Text}

/-- The transitions are read back from every file that the table is written as. -/
theorem WrittenAs.transitions (h : t.WrittenAs text) :
    ∃ r, FSMReader.ofFile text = some r ∧ ∀ qs : List Query, (∀ q ∈ qs, t.Allows q) →
      ∃ as, r.askAll qs = some as ∧ List.Forall₂ (fun q a => q.about = none → a = t.answer q) qs as := by
  obtain ⟨r, hread, hrep, -⟩ := h.exists_reader
  refine ⟨r, hread, fun qs hqs => ?_⟩
  obtain ⟨as, hall, has⟩ := hrep.askAll hqs
  exact ⟨as, hall, has.imp fun q a ha hnone => ha fun name hname => by rw [hnone] at hname; cases hname⟩

/-- A table with an action that is mistaken for a hit or a stall is not read back. -/
theorem WrittenAs.not_readBack (h : t.WrittenAs text) (hname : name = "Hit".toList ∨ name = "Stall".toList)
    (hnot : ¬ t.Unmistakable name) : ¬ t.ReadBack text := by
  rintro ⟨r, hread, hanswers⟩
  obtain ⟨r', hread', hrep, -⟩ := h.exists_reader
  obtain rfl : r = r' := Option.some_inj.1 (hread.symm.trans hread')
  obtain ⟨q, hq, hwrong⟩ := hrep.mistaken hname hnot
  have hright := hanswers [q] (by simpa using hq)
  rw [FSMReader.askAll] at hright
  cases hask : r.ask q with
  | none =>
    rw [hask] at hright
    cases hright
  | some out =>
    rw [hask, Option.bind_some, FSMReader.askAll, Option.map_some] at hright
    have hout : out.1 = t.answer q := (List.cons.inj (Option.some_inj.1 hright)).1
    exact hwrong out.2 (hask.trans (by rw [← hout]))

/--
The tables that are read back from their files: those with an action `Stall` and an action `Hit`, unless no
cell has an action with the number 0.
-/
theorem readBack_iff (t : ProtocolTable) (text : Text) (h : t.WrittenAs text) :
    t.ReadBack text ↔ t.Unmistakable "Stall".toList ∧ t.Unmistakable "Hit".toList := by
  constructor
  · intro hback
    by_contra hnot
    rcases not_and_or.1 hnot with hstall | hhit
    · exact h.not_readBack (.inr rfl) hstall hback
    · exact h.not_readBack (.inl rfl) hhit hback
  · rintro ⟨hstall, hhit⟩
    obtain ⟨r, hread, hrep, -⟩ := h.exists_reader
    refine ⟨r, hread, fun qs hqs => ?_⟩
    obtain ⟨as, hall, has⟩ := hrep.askAll hqs
    have hmap : as = qs.map t.answer := by
      clear hall hqs
      induction has with
      | nil => rfl
      | cons ha _ ih =>
        rw [List.map_cons, ← ih, ha fun name _ hor => hor.elim (fun heq => heq ▸ hhit) fun heq => heq ▸ hstall]
    rw [hall, hmap]

/-- A table whose only action, `Stall`, is numbered 0, as it is in the tables of the last-level caches, or 1. -/
def stallOnly (number : Fin 2) : ProtocolTable where
  events := ["GetS".toList]
  actions := [("Stall".toList, (number : Nat))]
  states := [("N".toList, { stable := true, isDataValid := false, cells := [Cell.act ["Stall".toList]] })]
  isName := by decide +revert
  nodup_actions := by decide +revert
  nodup_states := by decide
  actions_known := by decide +revert
  next_known := by decide

/-- A file of this table. -/
def stallOnlyFile (number : Fin 2) : Text :=
  "EventNum,Event\n0,GetS\n,\nActionNum,Action\n".toList ++ Nat.digitChar number ::
    ", Stall\n,\nStateNum,State\n0,N\n,\nState,stable,isDataValid,GetS\nN,1,0,Stall/\n".toList

/-- It is one. -/
theorem stallOnly_writtenAs (number : Fin 2) : (stallOnly number).WrittenAs (stallOnlyFile number) := by
  have hzero : Numeral 0 "0".toList := ⟨_, Padded.refl _ _, by decide, by decide⟩
  have hone : Numeral 1 "1".toList := ⟨_, Padded.refl _ _, by decide, by decide⟩
  have hnumber : Numeral (number : Nat) [Nat.digitChar number] :=
    ⟨_, Padded.refl _ _, by decide +revert, by decide +revert⟩
  have hdigit : ',' ∉ [Nat.digitChar number] := by
    clear hnumber
    decide +revert
  have hentry : ∀ name id value index, IsName name → Numeral id value → ',' ∉ value → Padded isBlank name index →
      ',' ∉ index → EntryLine (name, id) (value ++ ',' :: index) :=
    fun name id value index hname hid hvalue hpad hcomma => ⟨hname, _, _, ⟨hvalue, hcomma, .inl rfl⟩, hid, hpad⟩
  have hend : EndLine [','] := .inr ⟨[], [], ⟨by decide, by decide, .inl rfl⟩, by simp⟩
  have htitle : ∀ k' : Heading, k' ≠ .table → ¬ k'.keyword <:+: "Event".toList ∧ ¬ k'.keyword <:+: "Action".toList ∧
      ¬ k'.keyword <:+: "State".toList ∧ ¬ k'.keyword <:+: "stable".toList ∧
      ¬ k'.keyword <:+: "isDataValid".toList ∧ ¬ k'.keyword <:+: "GetS".toList := by
    intro k' hk'
    cases k' with
    | table => exact absurd rfl hk'
    | events | actions | states => decide
  have hevents : Heading.events.Announced ("EventNum".toList ++ ["Event".toList].flatMap (',' :: ·)) :=
    Heading.announced_titles (Padded.refl _ _) fun title h k' hk' => by
      obtain rfl := List.mem_singleton.1 h
      exact (htitle k' hk').1
  have hactions : Heading.actions.Announced ("ActionNum".toList ++ ["Action".toList].flatMap (',' :: ·)) :=
    Heading.announced_titles (Padded.refl _ _) fun title h k' hk' => by
      obtain rfl := List.mem_singleton.1 h
      exact (htitle k' hk').2.1
  have hstates : Heading.states.Announced ("StateNum".toList ++ ["State".toList].flatMap (',' :: ·)) :=
    Heading.announced_titles (Padded.refl _ _) fun title h k' hk' => by
      obtain rfl := List.mem_singleton.1 h
      exact (htitle k' hk').2.2.1
  have htable : Heading.table.Announced
      ("State".toList ++ ["stable".toList, "isDataValid".toList, "GetS".toList].flatMap (',' :: ·)) :=
    Heading.announced_titles (Padded.refl _ _) fun title h k' hk' => by
      simp only [List.mem_cons, List.not_mem_nil, or_false] at h
      rcases h with rfl | rfl | rfl
      · exact (htitle k' hk').2.2.2.1
      · exact (htitle k' hk').2.2.2.2.1
      · exact (htitle k' hk').2.2.2.2.2
  have hsections := Sections.part (by decide) hevents
    (.cons (hentry "GetS".toList _ _ _ (by decide) hzero (by decide) (Padded.refl _ _) (by decide)) .nil) hend
    (Sections.part (by decide) hactions
      (.cons (hentry "Stall".toList _ _ " Stall".toList (by decide) hnumber hdigit
        ⟨[' '], [], rfl, by decide, by decide⟩ (by decide)) .nil) hend
      (Sections.part (by decide) hstates
        (.cons (hentry "N".toList _ _ _ (by decide) hzero (by decide) (Padded.refl _ _) (by decide)) .nil) hend .nil))
  have hrow : RowLine ("N".toList, { stable := true, isDataValid := false, cells := [Cell.act ["Stall".toList]] })
      "N,1,0,Stall/".toList := by
    refine ⟨"N".toList, "1".toList, "0".toList, ["Stall/".toList], by decide, Padded.refl _ _, ⟨1, hone, by decide⟩,
      ⟨0, hzero, by decide⟩, fun i => ?_⟩
    cases i with
    | zero => exact ⟨"Stall".toList, [], by decide, Padded.refl _ _, Padded.refl _ _⟩
    | succ i => exact Padded.refl _ _
  refine ⟨_, _, _, _, hsections, ⟨?_, ?_, ?_⟩, htable, .cons hrow .nil, ?_, .inl ?_⟩
  · intro name id
    constructor
    · intro hmem
      obtain ⟨rfl, rfl⟩ : name = "GetS".toList ∧ id = 0 := by simpa using hmem
      exact ⟨0, rfl, rfl⟩
    · rintro ⟨i, rfl, hi⟩
      cases i with
      | zero =>
        cases hi
        simp
      | succ i => cases hi
  · intro name id
    simp [stallOnly]
  · intro name id
    constructor
    · intro hmem
      obtain ⟨rfl, rfl⟩ : name = "N".toList ∧ id = 0 := by simpa using hmem
      exact ⟨0, rfl, rfl⟩
    · rintro ⟨i, rfl, hi⟩
      cases i with
      | zero =>
        cases hi
        simp
      | succ i => cases hi
  · clear hsections hnumber hdigit
    decide +revert
  · clear hsections hnumber hdigit
    decide +revert

/-- Numbered 1 it is read back: it has no hit, and nothing is mistaken for one. Numbered 0 it is not. -/
theorem readBack_iff_stallOnly : (stallOnly 1).ReadBack (stallOnlyFile 1) ∧ ¬ (stallOnly 0).ReadBack (stallOnlyFile 0) := by
  have hnonzero : ∀ state event, 0 ∉ (stallOnly 1).actionIds state event := by
    intro state event
    cases state with
    | zero =>
      cases event with
      | zero => decide
      | succ event => simp [stallOnly, actionIds, cell, Cell.stay]
    | succ state => simp [stallOnly, actionIds, cell, Cell.stay]
  constructor
  · exact (readBack_iff _ _ (stallOnly_writtenAs 1)).2 ⟨.inl (by decide), .inr hnonzero⟩
  · intro hback
    rcases ((readBack_iff _ _ (stallOnly_writtenAs 0)).1 hback).2 with hmem | hzero
    · exact absurd hmem (by decide)
    · exact hzero 0 0 (by decide)

/-- A table without a hit whose stalls are taken for hits. -/
theorem stallOnly_mistaken :
    ¬ ∀ (t : ProtocolTable) (text : Text), t.WrittenAs text → t.ReadBack text := by
  intro hall
  have hnot : ¬ (stallOnly 0).Unmistakable "Hit".toList := by
    rintro (hmem | hzero)
    · exact absurd hmem (by decide)
    · exact hzero 0 0 (by decide)
  exact (stallOnly_writtenAs 0).not_readBack (.inl rfl) hnot (hall _ _ (stallOnly_writtenAs 0))

end ProtocolTable

end Octopus
