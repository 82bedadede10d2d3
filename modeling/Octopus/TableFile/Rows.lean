import Octopus.TableFile.Format

/-!
# Reading a row back

A cell that is written in any way is read as what it is: its actions up to the last slash, and behind it
the next state. A row is read cell by cell, so that the two maps of a row answer for every event with its
cell, whether the cell is there or not.
-/

namespace Octopus

open Lib WayPartition

variable {a n name text s : Text} {as : List Text} {next : Option Text} {c : Cell Text Text} {d : Char}
  {actionIds stateIds : IdMap} {x : Int}

theorem IsName.not_blank (h : IsName name) (hd : d ∈ name) : ¬ isBlank d := (h.2 d hd).2.2

theorem IsName.trim (h : IsName name) (hs : Padded isBlank name s) : _trim s = name :=
  trim_eq_of_padded hs fun _ => h.not_blank

/-- A name with blanks around it contains no separator. -/
theorem IsName.not_mem (h : IsName name) (hs : Padded isBlank name s) (hd : d = ',' ∨ d = '/') : d ∉ s := by
  refine hs.not_mem (fun hmem => ?_) ?_
  · rcases hd with rfl | rfl
    · exact (h.2 _ hmem).1 rfl
    · exact (h.2 _ hmem).2.1 rfl
  · rcases hd with rfl | rfl <;> decide

/-- A padded name is not empty. -/
theorem IsName.length_pos (h : IsName name) (hs : Padded isBlank name s) : 0 < s.length := by
  obtain ⟨l, r, rfl, -, -⟩ := hs
  have hpos := List.length_pos_iff.2 h.1
  rw [List.length_append, List.length_append]
  omega

/-- A next state is a name, if there is one. -/
def IsNext (next : Option Text) : Prop := ∀ n ∈ next, IsName n

theorem IsNext.not_blank (h : IsNext next) : ∀ d ∈ next.getD [], ¬ isBlank d := by
  cases next with
  | none => simp
  | some n => exact fun _ => (h n rfl).not_blank

/-- What follows the last slash contains no separator. -/
theorem IsNext.not_mem (h : IsNext next) (hs : Padded isBlank (next.getD []) s) (hd : d = ',' ∨ d = '/') :
    d ∉ s := by
  cases next with
  | some n => exact (h n rfl).not_mem hs hd
  | none =>
    refine hs.not_mem (by simp) ?_
    rcases hd with rfl | rfl <;> decide

/-- What follows the last slash is read as the next state, or as nothing. -/
theorem IsNext.trim (h : IsNext next) (hs : Padded isBlank (next.getD []) s) : _trim s = next.getD [] :=
  trim_eq_of_padded hs h.not_blank

/-! ### The parts of a cell -/

/-- A blank in front of a cell is padding. -/
theorem PartsText.of_cons (h : PartsText as next (d :: s)) (hd : isBlank d) (has : ∀ a ∈ as, IsName a)
    (hnext : IsNext next) : PartsText as next s := by
  cases as with
  | nil => exact Padded.of_cons h hd hnext.not_blank
  | cons a as =>
    obtain ⟨action, rest, heq, haction, hrest⟩ := h
    cases action with
    | nil =>
      cases heq
      exact absurd hd (by decide)
    | cons d' action =>
      cases heq
      exact ⟨action, rest, rfl, haction.of_cons hd fun _ => (has a (List.mem_cons_self ..)).not_blank, hrest⟩

/-- A blank behind a cell is padding. -/
theorem PartsText.of_concat (h : PartsText as next (s ++ [d])) (hd : isBlank d) (hnext : IsNext next) :
    PartsText as next s := by
  induction as generalizing s with
  | nil => exact Padded.of_concat h hd hnext.not_blank
  | cons a as ih =>
    obtain ⟨action, rest, heq, haction, hrest⟩ := h
    rcases List.eq_nil_or_concat rest with rfl | ⟨rest, d', rfl⟩
    · have hlast := (List.append_inj' heq rfl).2
      cases hlast
      exact absurd hd (by decide)
    · rw [List.concat_eq_append, ← List.cons_append, ← List.append_assoc] at heq
      obtain ⟨rfl, hlast⟩ := List.append_inj' heq rfl
      cases hlast
      rw [List.concat_eq_append] at hrest
      exact ⟨action, rest, rfl, haction, ih hrest⟩

/-- The blanks around a cell are stripped without harm. -/
theorem PartsText.trim (h : PartsText as next s) (has : ∀ a ∈ as, IsName a) (hnext : IsNext next) :
    PartsText as next (_trim s) := by
  obtain ⟨l, r, heq, hl, hr⟩ := padded_trim isBlank s
  rw [_trim]
  generalize Lib.trim isBlank s = mid at heq ⊢
  subst heq
  have hfront : PartsText as next (mid ++ r) := by
    clear hr
    induction l with
    | nil => exact h
    | cons d l ih =>
      rw [List.forall_mem_cons] at hl
      exact ih hl.2 (PartsText.of_cons h hl.1 has hnext)
  clear h hl
  induction r using List.reverseRecOn with
  | nil => rwa [List.append_nil] at hfront
  | append_singleton r d ih =>
    rw [← List.append_assoc] at hfront
    exact ih (fun c hc => hr c (List.mem_append_left _ hc)) (hfront.of_concat (hr d (by simp)) hnext)

/-- The last slash of a text. -/
theorem findLastOf_append {pre post : Text} (h : d ∉ post) :
    FSMState.findLastOf d (pre ++ d :: post) = some pre.length := by
  have hnone : FSMState.findLastOf d post = none := by
    induction post with
    | nil => rfl
    | cons d' post ih =>
      rw [List.mem_cons, not_or] at h
      rw [FSMState.findLastOf, ih h.2, if_neg (Ne.symm h.1)]
      rfl
  induction pre with
  | nil =>
    rw [List.nil_append, FSMState.findLastOf, hnone, if_pos rfl]
    rfl
  | cons d' pre ih =>
    rw [List.cons_append, FSMState.findLastOf, ih]
    rfl

/-- A text without slash has no last slash. -/
theorem findLastOf_eq_none (h : d ∉ s) : FSMState.findLastOf d s = none := by
  induction s with
  | nil => rfl
  | cons d' s ih =>
    rw [List.mem_cons, not_or] at h
    rw [FSMState.findLastOf, ih h.2, if_neg (Ne.symm h.1)]
    rfl

/-- One pass of the loop over the actions. -/
theorem readActions_append {action rest : Text} {last length : Nat} (h : '/' ∉ action) :
    FSMState.readActions actionIds last length (action ++ '/' :: rest) =
      (actionIds.lookup (_trim action)).bind fun id =>
        if length - rest.length < last then
          (FSMState.readActions actionIds last length rest).map (id :: ·)
        else some [id] := by
  rw [FSMState.readActions]
  split <;> rename_i hline <;> rw [getline_append h] at hline <;> cases hline
  rfl

/--
The loop over the actions of a cell reads all of them and stops: the part behind the last slash is the next
state, and after each action but the last the stream is still in front of the slash, since a name is not empty.
-/
theorem PartsText.readActions (h : PartsText (a :: as) next s) (has : ∀ b ∈ a :: as, IsName b)
    (hnext : IsNext next) (hids : ∀ b ∈ a :: as, (actionIds.lookup b).isSome) :
    ∃ pre post, s = pre ++ '/' :: post ∧ 0 < pre.length ∧ '/' ∉ post ∧
      Padded isBlank (next.getD []) post ∧ ∀ k, FSMState.readActions actionIds (k + pre.length) (k + s.length) s =
        some ((a :: as).filterMap fun b => actionIds.lookup b) := by
  induction as generalizing a s with
  | nil =>
    obtain ⟨action, rest, rfl, haction, hrest⟩ := h
    have ha := has a (List.mem_cons_self ..)
    obtain ⟨id, hid⟩ := Option.isSome_iff_exists.1 (hids a (List.mem_cons_self ..))
    refine ⟨action, rest, rfl, ha.length_pos haction, hnext.not_mem hrest (.inr rfl), hrest, fun k => ?_⟩
    have hstop : ¬ k + (action ++ '/' :: rest).length - rest.length < k + action.length := by
      rw [List.length_append, List.length_cons]
      omega
    rw [readActions_append (ha.not_mem haction (.inr rfl)), ha.trim haction, hid, Option.bind_some, if_neg hstop]
    simp [hid]
  | cons b as ih =>
    obtain ⟨action, rest, rfl, haction, hrest⟩ := h
    have ha := has a (List.mem_cons_self ..)
    obtain ⟨id, hid⟩ := Option.isSome_iff_exists.1 (hids a (List.mem_cons_self ..))
    obtain ⟨pre, post, rfl, hpre, hpost, hpad, hread⟩ := ih hrest (fun c hc => has c (List.mem_cons_of_mem _ hc))
      fun c hc => hids c (List.mem_cons_of_mem _ hc)
    refine ⟨action ++ '/' :: pre, post, by simp, List.length_pos_iff.2 (by simp), hpost, hpad, fun k => ?_⟩
    have hgo : k + (action ++ '/' :: (pre ++ '/' :: post)).length - (pre ++ '/' :: post).length <
        k + (action ++ '/' :: pre).length := by
      simp only [List.length_append, List.length_cons]
      omega
    have hlater := hread (k + action.length + 1)
    have hpos : k + action.length + 1 + pre.length = k + (action ++ '/' :: pre).length := by
      rw [List.length_append, List.length_cons]
      omega
    have hlen : k + action.length + 1 + (pre ++ '/' :: post).length =
        k + (action ++ '/' :: (pre ++ '/' :: post)).length := by
      rw [@List.length_append _ action, List.length_cons]
      omega
    have hlist : (a :: b :: as).filterMap (fun b => actionIds.lookup b) =
        id :: (b :: as).filterMap fun b => actionIds.lookup b := List.filterMap_cons_some hid
    rw [hpos, hlen] at hlater
    rw [readActions_append (ha.not_mem haction (.inr rfl)), ha.trim haction, hid, Option.bind_some, if_pos hgo,
      hlater, hlist, Option.map_some]

/-- The names of a cell are names that the sections list. -/
structure Known (actionIds stateIds : IdMap) (c : Cell Text Text) : Prop where
  actions : ∀ a ∈ c.actions, IsName a ∧ (actionIds.lookup a).isSome
  next : ∀ n ∈ c.next, IsName n ∧ (stateIds.lookup n).isSome

/-- What a cell does to the maps of its row. -/
theorem addCell_of_text {state_name : Text} {r : FSMState} (h : CellText c text) (k : Nat)
    (hc : Known actionIds stateIds c) (hown : stateIds.lookup state_name = some r.m_own_state) :
    FSMState.addCell actionIds stateIds state_name r k text = some { r with
      transitions := (k, (c.next.bind fun n => stateIds.lookup n).getD r.m_own_state) :: r.transitions
      actions :=
        if c.actions = [] then r.actions
        else (k, c.actions.filterMap fun a => actionIds.lookup a) :: r.actions } := by
  obtain ⟨as, next⟩ := c
  obtain ⟨hactions, hnext⟩ := hc
  have hisNext : IsNext next := fun n hn => (hnext n hn).1
  cases as with
  | nil =>
    have htrim : _trim text = next.getD [] := hisNext.trim h
    cases next with
    | none => simp [FSMState.addCell, htrim, hown]
    | some n =>
      obtain ⟨hn, hsome⟩ := hnext n rfl
      obtain ⟨id, hid⟩ := Option.isSome_iff_exists.1 hsome
      have hslash : FSMState.findLastOf '/' n = none := findLastOf_eq_none fun hmem => (hn.2 _ hmem).2.1 rfl
      simp [FSMState.addCell, htrim, hn.1, hslash, hid]
  | cons a as =>
    have htrim := PartsText.trim h (fun b hb => (hactions b hb).1) hisNext
    obtain ⟨pre, post, heq, -, hpost, hpad, hread⟩ :=
      htrim.readActions (fun b hb => (hactions b hb).1) hisNext fun b hb => (hactions b hb).2
    have hlast : FSMState.findLastOf '/' (_trim text) = some pre.length := heq ▸ findLastOf_append hpost
    have hne : (_trim text).length ≠ 0 := by simp [heq]
    have hdrop : (_trim text).drop (pre.length + 1) = post := by
      rw [heq, ← List.drop_drop, List.drop_left]
      rfl
    have hto : stateIds.lookup (if (next.getD []).length = 0 then state_name else next.getD []) =
        some ((next.bind fun n => stateIds.lookup n).getD r.m_own_state) := by
      cases next with
      | none => exact hown
      | some n =>
        obtain ⟨hn, hsome⟩ := hnext n rfl
        obtain ⟨id, hid⟩ := Option.isSome_iff_exists.1 hsome
        simp [hn.1, hid]
    have hread := hread 0
    rw [Nat.zero_add, Nat.zero_add] at hread
    rw [FSMState.addCell]
    dsimp only
    rw [if_pos hne, hlast]
    dsimp only
    rw [hdrop, hisNext.trim hpad, hto, Option.bind_some, hread, Option.map_some, if_neg (List.cons_ne_nil a as)]

/-- The actions that a row answers with. -/
theorem getActions_fst (r : FSMState) (e : Nat) : (r.getActions e).1 = (r.actions.lookup e).getD [] := by
  rw [FSMState.getActions]
  cases r.actions.lookup e <;> rfl

/-- A cell changes what the maps say of its own event only. -/
theorem lookup_cons_of_ne {β : Type} {k e : Nat} (b : β) (l : List (Nat × β)) (h : e ≠ k) :
    ((k, b) :: l).lookup e = l.lookup e := by
  rw [List.lookup_cons, beq_eq_false_iff_ne.2 h]

/-- Nothing is written for the empty cell only. -/
theorem eq_stay_of_nil (h : CellText c []) (hnext : IsNext c.next) : c = Cell.stay := by
  obtain ⟨as, next⟩ := c
  cases as with
  | cons a as =>
    obtain ⟨action, rest, heq, -, -⟩ := h
    cases action <;> cases heq
  | nil =>
    cases next with
    | none => rfl
    | some n => exact absurd ((hnext n rfl).length_pos h) (Nat.lt_irrefl 0)

/-- A row read from an event on answers for this event and those behind it with their cells. -/
theorem addCells_of_text {state_name : Text} {r : FSMState} {cells : Nat → Cell Text Text} {texts : List Text}
    {k : Nat} (h : ∀ i, CellText (cells i) (texts[i]?.getD [])) (hc : ∀ i, Known actionIds stateIds (cells i))
    (hown : stateIds.lookup state_name = some r.m_own_state)
    (hnew : ∀ e, k ≤ e → r.transitions.lookup e = none ∧ r.actions.lookup e = none) :
    ∃ r', FSMState.addCells actionIds stateIds state_name r k texts = some r' ∧
      r'.m_own_state = r.m_own_state ∧ r'.stable = r.stable ∧ r'.is_data_valid = r.is_data_valid ∧
      (∀ e < k, r'.getNextState e = r.getNextState e ∧ (r'.getActions e).1 = (r.getActions e).1) ∧
      ∀ i, r'.getNextState (k + i) = ((cells i).next.bind fun n => stateIds.lookup n).getD r.m_own_state ∧
        (r'.getActions (k + i)).1 = (cells i).actions.filterMap fun a => actionIds.lookup a := by
  induction texts generalizing r cells k with
  | nil =>
    refine ⟨r, rfl, rfl, rfl, rfl, fun _ _ => ⟨rfl, rfl⟩, fun i => ?_⟩
    obtain ⟨hnext, hactions⟩ := hnew (k + i) (Nat.le_add_right k i)
    rw [eq_stay_of_nil (h i) fun n hn => ((hc i).next n hn).1, FSMState.getNextState, FSMState.getActions, hnext,
      hactions]
    exact ⟨rfl, rfl⟩
  | cons text texts ih =>
    have hcell := addCell_of_text (h 0) k (hc 0) hown
    generalize hr₁ : ({ r with
      transitions := (k, ((cells 0).next.bind fun n => stateIds.lookup n).getD r.m_own_state) :: r.transitions
      actions :=
        if (cells 0).actions = [] then r.actions
        else (k, (cells 0).actions.filterMap fun a => actionIds.lookup a) :: r.actions } : FSMState) = r₁ at hcell
    have hother : ∀ e, e ≠ k → r₁.transitions.lookup e = r.transitions.lookup e ∧
        r₁.actions.lookup e = r.actions.lookup e := by
      intro e he
      subst hr₁
      refine ⟨lookup_cons_of_ne _ _ he, ?_⟩
      dsimp only
      split_ifs
      · rfl
      · exact lookup_cons_of_ne _ _ he
    have hat : r₁.getNextState k = ((cells 0).next.bind fun n => stateIds.lookup n).getD r.m_own_state ∧
        (r₁.getActions k).1 = (cells 0).actions.filterMap fun a => actionIds.lookup a := by
      rw [getActions_fst]
      subst hr₁
      refine ⟨by simp [FSMState.getNextState], ?_⟩
      dsimp only
      split_ifs with hempty
      · rw [hempty, (hnew k le_rfl).2]
        rfl
      · rw [List.lookup_cons_self]
        rfl
    have hown₁ : r₁.m_own_state = r.m_own_state ∧ r₁.stable = r.stable ∧
        r₁.is_data_valid = r.is_data_valid := by
      subst hr₁
      exact ⟨rfl, rfl, rfl⟩
    obtain ⟨r', hread, hr'own, hstable, hvalid, hold, hnow⟩ := ih (k := k + 1) (fun i => h (i + 1))
      (fun i => hc (i + 1)) (hown.trans (congrArg some hown₁.1.symm)) fun e he => by
        obtain ⟨hnext, hactions⟩ := hother e (by omega)
        rw [hnext, hactions]
        exact hnew e (by omega)
    refine ⟨r', ?_, hr'own.trans hown₁.1, hstable.trans hown₁.2.1, hvalid.trans hown₁.2.2, fun e he => ?_,
      fun i => ?_⟩
    · rw [List.getElem?_cons_zero, Option.getD_some] at hcell
      rw [FSMState.addCells, hcell, Option.bind_some, hread]
    · obtain ⟨hnext, hactions⟩ := hother e (Nat.ne_of_lt he)
      rw [(hold e (by omega)).1, (hold e (by omega)).2, getActions_fst, getActions_fst, FSMState.getNextState, hnext,
        hactions, hown₁.1, FSMState.getNextState]
      exact ⟨rfl, rfl⟩
    · cases i with
      | zero => exact ⟨(hold k (by omega)).1.trans hat.1, (hold k (by omega)).2.trans hat.2⟩
      | succ i =>
        rw [← Nat.add_assoc, Nat.add_right_comm, ← hown₁.1]
        exact hnow i

/-! ### The fields in front of the cells -/

/-- The digits of a number end at a blank. -/
theorem readDigits_append {r : Text} (m : Nat) (hr : ∀ c ∈ r, isBlank c) :
    readDigits m (s ++ r) = readDigits m s := by
  induction s generalizing m with
  | nil =>
    cases r with
    | nil => rfl
    | cons d r =>
      have hdigit : d.isDigit = false := by
        have hd : isBlank d = true := hr d (List.mem_cons_self ..)
        simp only [isBlank, Bool.or_eq_true, decide_eq_true_eq] at hd
        rcases hd with ((rfl | rfl) | rfl) | rfl <;> decide
      rw [List.nil_append, readDigits, readDigits, if_neg (Bool.eq_false_iff.1 hdigit)]
  | cons d s ih => rw [List.cons_append, readDigits, readDigits, ih]

/-- `atoi` skips the blanks around a number. -/
theorem atoi_padded (h : Padded isBlank n text) : atoi text = atoi n := by
  obtain ⟨l, r, rfl, hl, hr⟩ := h
  have hspace : ∀ c, isBlank c → isspace c := by
    intro c hc
    simp only [isBlank, Bool.or_eq_true, decide_eq_true_eq] at hc
    rcases hc with ((rfl | rfl) | rfl) | rfl <;> decide
  have hskip : (l ++ (n ++ r)).dropWhile isspace = (n ++ r).dropWhile isspace :=
    List.dropWhile_append_of_pos fun c hc => hspace c (hl c hc)
  cases hdrop : n.dropWhile isspace with
  | nil =>
    have hall : (n ++ r).dropWhile isspace = [] := by
      rw [List.dropWhile_append, hdrop]
      exact List.dropWhile_eq_nil_iff.2 fun c hc => hspace c (hr c hc)
    rw [atoi, atoi, hskip, hall, hdrop]
  | cons d m =>
    have hall : (n ++ r).dropWhile isspace = d :: (m ++ r) := by
      rw [List.dropWhile_append, hdrop]
      rfl
    have hback : readDigits 0 (m ++ r) = readDigits 0 m := readDigits_append 0 hr
    have hwhole : readDigits 0 (d :: (m ++ r)) = readDigits 0 (d :: m) :=
      readDigits_append (s := d :: m) 0 hr
    rw [atoi, atoi, hskip, hall, hdrop]
    simp only [hback, hwhole]

theorem Numeral.atoi_eq (h : Numeral x text) : atoi text = some x := by
  obtain ⟨number, hpad, -, hx⟩ := h
  exact (atoi_padded hpad).trans hx

theorem Numeral.not_mem (h : Numeral x text) : ',' ∉ text := by
  obtain ⟨number, hpad, hnumber, -⟩ := h
  exact hpad.not_mem (fun hmem => (hnumber _ hmem).1 rfl) (by decide)

/-- A stripped number is still the number. -/
theorem Numeral.trim (h : Numeral x text) : atoi (_trim text) = some x := by
  obtain ⟨number, hpad, hnumber, hx⟩ := h
  rw [_trim, trim_eq_of_padded hpad fun c hc => (hnumber c hc).2]
  exact hx

/-- Cells contain no comma. -/
theorem PartsText.not_mem (h : PartsText as next s) (has : ∀ a ∈ as, IsName a) (hnext : IsNext next) :
    ',' ∉ s := by
  induction as generalizing s with
  | nil => exact hnext.not_mem h (.inl rfl)
  | cons a as ih =>
    obtain ⟨action, rest, rfl, haction, hrest⟩ := h
    rw [List.forall_mem_cons] at has
    rw [List.mem_append, List.mem_cons]
    rintro (hmem | hmem | hmem)
    · exact has.1.not_mem haction (.inl rfl) hmem
    · exact absurd hmem (by decide)
    · exact ih hrest has.2 hmem

/-- A row is read as the state with its flags and its cells. -/
theorem ofLine_of_row {state : Text × Row Text Text} {own : Int} (h : RowLine state s) (hname : IsName state.1)
    (hc : ∀ i : Nat, Known actionIds stateIds (state.2.cells[i]?.getD Cell.stay))
    (hown : stateIds.lookup state.1 = some own) :
    ∃ r, FSMState.ofLine actionIds stateIds s = some r ∧ r.stable = state.2.stable ∧
      r.is_data_valid = state.2.isDataValid ∧ ∀ e : Nat,
        r.getNextState e = ((state.2.cells[e]?.getD Cell.stay).next.bind fun n => stateIds.lookup n).getD own ∧
        (r.getActions e).1 = (state.2.cells[e]?.getD Cell.stay).actions.filterMap fun a => actionIds.lookup a := by
  obtain ⟨name, stable, valid, cells, rfl, hpad, ⟨x, hx, hxb⟩, ⟨y, hy, hyb⟩, hcells⟩ := h
  have hcomma : ∀ text ∈ cells, ',' ∉ text := by
    intro text hmem
    obtain ⟨i, hi⟩ := List.mem_iff_getElem?.1 hmem
    have htext := hcells i
    rw [hi, Option.getD_some] at htext
    exact htext.not_mem (fun a ha => ((hc i).actions a ha).1) fun n hn => ((hc i).next n hn).1
  -- the flag in front of the cells is read whether a cell follows or not
  have hvalid : (getline ',' (some (valid ++ cells.flatMap (',' :: ·))) stable).1 = valid ∧ ∀ i : Nat,
      ((getline ',' (some (valid ++ cells.flatMap (',' :: ·))) stable).2.1.elim [] (fields ','))[i]?.getD [] =
        cells[i]?.getD [] := by
    cases cells with
    | nil =>
      rw [List.flatMap_nil, List.append_nil, getline_last hy.not_mem]
      exact ⟨rfl, fun _ => rfl⟩
    | cons text cells =>
      rw [List.forall_mem_cons] at hcomma
      rw [List.flatMap_cons, List.cons_append, getline_append hy.not_mem]
      exact ⟨rfl, getD_fields hcomma.1 hcomma.2⟩
  obtain ⟨r, hread, hrown, hstable, hisValid, -, hanswers⟩ := addCells_of_text (k := 0)
    (r := { m_own_state := own, stable := x = 1, is_data_valid := y = 1 })
    (fun i => (hvalid.2 i).symm ▸ hcells i) hc hown fun e _ => ⟨rfl, rfl⟩
  refine ⟨r, ?_, ?_, ?_, fun e => ?_⟩
  · rw [FSMState.ofLine, getline_append (hname.not_mem hpad (.inl rfl))]
    dsimp only
    rw [hname.trim hpad, hown, Option.bind_some, getline_append hx.not_mem]
    dsimp only
    rw [hx.atoi_eq, Option.bind_some, hvalid.1, hy.atoi_eq, Option.bind_some, hread]
  · rw [hstable, Bool.eq_iff_iff, hxb, decide_eq_true_iff]
  · rw [hisValid, Bool.eq_iff_iff, hyb, decide_eq_true_iff]
  · have he := hanswers e
    rwa [Nat.zero_add] at he

end Octopus
