import Octopus.TableFile.Rows

/-!
# Protocol tables survive being written and read

A file that a table is written as is read section by section into maps that number the names as the table
does, and row by row into states that answer as its cells do. From then on the handlers ask. Every
transition is answered as the table has it. `isHit` and `isStall` look their action up with
`operator[]`, which enters it with the number 0 if the table has no such action, and so take whatever
action is numbered 0 for a hit or a stall.
-/

namespace Octopus

open Lib WayPartition

variable {k : Heading} {line name value index : Text} {entries : List (Text × Int)} {ids : IdMap}
  {es : List (Heading × Text × Int)} {lines : List Text} {r : FSMReader} {t : ProtocolTable}

/-! ### Headings -/

/-- A heading is taken for what it announces. -/
theorem Heading.Announced.ofLine (h : k.Announced line) : Heading.ofLine line = some k := by
  obtain ⟨hk, hbefore⟩ := h
  cases k with
  | events => rw [Heading.ofLine, if_pos hk]
  | actions => rw [Heading.ofLine, if_neg (hbefore .events (by decide)), if_pos hk]
  | states =>
    rw [Heading.ofLine, if_neg (hbefore .events (by decide)), if_neg (hbefore .actions (by decide)), if_pos hk]
  | table =>
    rw [Heading.ofLine, if_neg (hbefore .events (by decide)), if_neg (hbefore .actions (by decide)),
      if_neg (hbefore .states (by decide)), if_pos hk]

/-- A line without keyword is no heading. -/
theorem Heading.ofLine_eq_none (h : ∀ k : Heading, ¬ k.keyword <:+: line) : Heading.ofLine line = none := by
  rw [Heading.ofLine, if_neg (h _), if_neg (h _), if_neg (h _), if_neg (h _)]

/--
The usual headings: the keyword with blanks around it, and columns with titles. No title contains the
keyword of a section; this is why the names of events must not.
-/
theorem Heading.announced_titles {first : Text} {titles : List Text} (hfirst : Padded isBlank k.keyword first)
    (htitles : ∀ title ∈ titles, ∀ k' : Heading, k' ≠ .table → ¬ k'.keyword <:+: title) :
    k.Announced (first ++ titles.flatMap (',' :: ·)) := by
  have hplain : ∀ k' : Heading, ∀ c ∈ k'.keyword, ¬ isBlank c ∧ c ≠ ',' := by
    intro k'
    cases k' <;> decide
  refine ⟨?_, fun k' hlt hmem => ?_⟩
  · obtain ⟨l, r, rfl, -, -⟩ := hfirst
    exact ⟨l, r ++ titles.flatMap (',' :: ·), by simp⟩
  · have hk' : k' ≠ .table := by
      rintro rfl
      revert hlt
      cases k <;> decide
    have hcomma : ',' ∉ k'.keyword := fun hc => (hplain k' _ hc).2 rfl
    have hin : k'.keyword <:+: first := by
      clear hfirst
      induction titles generalizing first with
      | nil => rwa [List.flatMap_nil, List.append_nil] at hmem
      | cons title titles ih =>
        rw [List.forall_mem_cons] at htitles
        rw [List.flatMap_cons, List.cons_append] at hmem
        rcases infix_append_cons hmem hcomma with hmem | hmem
        · exact hmem
        · exact absurd (ih htitles.2 hmem) (htitles.1 k' hk')
    have hkeyword := hfirst.infix (fun c hc => (hplain k' c hc).1) hin
    revert hlt hkeyword
    cases k <;> cases k' <;> decide

/-! ### Sections -/

/-- The first two fields of a line are read. -/
theorem Columns.getline (h : Columns value index line) :
    (Lib.getline ',' (some line) []).1 = value ∧
      (Lib.getline ',' (Lib.getline ',' (some line) []).2.1 []).1 = index := by
  obtain ⟨hvalue, hindex, rfl | ⟨rest, rfl⟩⟩ := h
  · rw [getline_append hvalue]
    dsimp only
    rw [getline_last hindex]
    exact ⟨rfl, rfl⟩
  · rw [getline_append hvalue]
    dsimp only
    rw [getline_append hindex]
    exact ⟨rfl, rfl⟩

/-- A section is read entry by entry, up to the line whose second field is blank. -/
theorem parseIds_of_entries {last : Text} {entryLines rest : List Text}
    (hentries : List.Forall₂ EntryLine entries entryLines) (hlast : EndLine last) :
    FSMReader.parseIds ids (entryLines ++ last :: rest) = some (entries.reverse ++ ids, rest) := by
  induction hentries generalizing ids with
  | nil =>
    have hblank : _trim (getline ',' (getline ',' (some last) []).2.1 []).1 = [] := by
      rcases hlast with hcomma | ⟨value, index, hcolumns, hblank⟩
      · rw [getline_last hcomma]
        rfl
      · rw [hcolumns.getline.2]
        exact trim_eq_of_padded ⟨index, [], by simp, hblank, by simp⟩ (by simp)
    rw [List.nil_append, FSMReader.parseIds, hblank]
    rfl
  | cons hentry _ ih =>
    obtain ⟨hname, value, index, hcolumns, hnumeral, hpad⟩ := hentry
    have hne := List.length_pos_iff.2 hname.1
    rw [List.cons_append, FSMReader.parseIds, hcolumns.getline.1, hcolumns.getline.2, hname.trim hpad,
      hnumeral.trim, if_neg (Nat.ne_of_gt hne), Option.bind_some, ih]
    simp

/-- The entries of one kind. -/
def entriesOf (k : Heading) (es : List (Heading × Text × Int)) : List (Text × Int) :=
  es.filterMap fun e => if e.1 = k then some e.2 else none

theorem mem_entriesOf {p : Text × Int} : p ∈ entriesOf k es ↔ (k, p) ∈ es := by
  rw [entriesOf, List.mem_filterMap]
  constructor
  · rintro ⟨⟨k', p'⟩, hmem, hp⟩
    dsimp only at hp
    split_ifs at hp with hk
    cases hp
    exact hk ▸ hmem
  · exact fun hmem => ⟨(k, p), hmem, if_pos rfl⟩

/-- A section adds its entries to those of its kind. -/
theorem entriesOf_append (k k' : Heading) (entries : List (Text × Int)) (es : List (Heading × Text × Int)) :
    entriesOf k' (entries.map (k, ·) ++ es) = if k = k' then entries ++ entriesOf k' es else entriesOf k' es := by
  rw [entriesOf, List.filterMap_append, List.filterMap_map]
  split_ifs with hk
  · have hall : entries.filterMap
        ((fun e : Heading × Text × Int => if e.1 = k' then some e.2 else none) ∘ (k, ·)) = entries := by
      simp [hk]
    rw [hall, entriesOf]
  · have hnone : entries.filterMap
        ((fun e : Heading × Text × Int => if e.1 = k' then some e.2 else none) ∘ (k, ·)) = [] := by
      simp [hk]
    rw [hnone, List.nil_append, entriesOf]

/-- The sections of a file are read into the maps of their kinds. -/
theorem parse_sections {sections rest : List Text} (h : Sections es sections) :
    r.parse (sections ++ rest) = FSMReader.parse { r with
      m_eventIds := (entriesOf .events es).reverse ++ r.m_eventIds
      m_actionIds := (entriesOf .actions es).reverse ++ r.m_actionIds
      m_stateIds := (entriesOf .states es).reverse ++ r.m_stateIds } rest := by
  induction h generalizing r with
  | nil => rfl
  | other hline _ ih =>
    rw [List.cons_append, FSMReader.parse, Heading.ofLine_eq_none hline]
    exact ih
  | @part k _ _ _ _ _ _ hk hheading hentries hlast _ ih =>
    rw [List.cons_append, List.append_assoc, List.cons_append, FSMReader.parse, hheading.ofLine]
    simp only [entriesOf_append]
    cases k with
    | table => exact absurd rfl hk
    | events | actions | states =>
      dsimp only
      split <;> rename_i hread <;> rw [parseIds_of_entries hentries hlast] at hread <;> cases hread
      rw [ih]
      simp

/-- A map whose entries are those of a function answers as the function. -/
theorem lookup_eq {F : Text → Option Int} (h : ∀ name id, (name, id) ∈ ids ↔ F name = some id) (name : Text) :
    ids.lookup name = F name := by
  cases hlookup : ids.lookup name with
  | none =>
    rw [List.lookup_eq_none_iff] at hlookup
    cases hF : F name with
    | none => rfl
    | some id => exact absurd (hlookup _ ((h name id).2 hF)) (by simp)
  | some id =>
    obtain ⟨l, l', hl, -⟩ := List.lookup_eq_some_iff.1 hlookup
    exact ((h name id).1 (hl ▸ by simp)).symm

/-- With distinct names, an entry of the table is what its name is looked up as. -/
theorem mem_iff_lookup {l : List (Text × Int)} (h : (l.map Prod.fst).Nodup) (name : Text) (id : Int) :
    (name, id) ∈ l ↔ l.lookup name = some id := by
  induction l with
  | nil => simp
  | cons e l ih =>
    obtain ⟨name', id'⟩ := e
    rw [List.map_cons, List.nodup_cons] at h
    rw [List.mem_cons, List.lookup_cons, ih h.2]
    by_cases hname : name = name'
    · subst hname
      have hnone : l.lookup name = none := by
        rw [List.lookup_eq_none_iff]
        exact fun p hp => bne_iff_ne.2 fun heq => h.1 (List.mem_map.2 ⟨p, hp, heq.symm⟩)
      rw [hnone, beq_self_eq_true]
      simp [eq_comm]
    · rw [beq_eq_false_iff_ne.2 hname]
      simp [hname]

/-- With distinct names, the name at a place has this place as its number. -/
theorem getElem?_eq_iff_idxOf {l : List Text} (h : l.Nodup) (name : Text) (i : Nat) :
    l[i]? = some name ↔ name ∈ l ∧ i = l.idxOf name := by
  constructor
  · intro hi
    obtain ⟨hlt, rfl⟩ := List.getElem?_eq_some_iff.1 hi
    exact ⟨List.getElem_mem hlt, (h.idxOf_getElem i hlt).symm⟩
  · rintro ⟨hmem, rfl⟩
    rw [List.getElem?_eq_getElem (List.idxOf_lt_length_of_mem hmem), List.getElem_idxOf]

/-! ### Rows -/

/-- A row is what the table has at a number. -/
structure RowOf (t : ProtocolTable) (i : Nat) (s : FSMState) : Prop where
  next : ∀ e, s.getNextState e = t.nextId i e
  actions : ∀ e, (s.getActions e).1 = t.actionIds i e
  stable : (t.states[i]?.map (·.2.stable)) = some s.stable
  valid : (t.states[i]?.map (·.2.isDataValid)) = some s.is_data_valid

/-- The reader answers as the table does, but for what `isHit` and `isStall` have entered. -/
structure Represents (t : ProtocolTable) (r : FSMReader) : Prop where
  length : r.m_states.length = t.states.length
  rows : ∀ i s, r.m_states[i]? = some s → RowOf t i s
  actions : ∀ name, r.m_actionIds.lookup name = t.actionId name ∨
    t.actionId name = none ∧ (name = "Hit".toList ∨ name = "Stall".toList) ∧ r.m_actionIds.lookup name = some 0
  states : ∀ name ∈ t.states.map Prod.fst, r.m_stateIds.lookup name = some (t.stateId name : Int)

/-- Lines that are all read are read together. -/
theorem exists_mapM {β : Type} {f : Text → Option β} {Q : Nat → β → Prop} {rows : List Text}
    (h : ∀ i line, rows[i]? = some line → ∃ b, f line = some b ∧ Q i b) :
    ∃ bs, rows.mapM f = some bs ∧ bs.length = rows.length ∧ ∀ i b, bs[i]? = some b → Q i b := by
  induction rows generalizing Q with
  | nil => exact ⟨[], rfl, rfl, by simp⟩
  | cons line rows ih =>
    obtain ⟨b, hb, hQ⟩ := h 0 line rfl
    obtain ⟨bs, hbs, hlen, hQs⟩ := ih (Q := fun i => Q (i + 1)) fun i line hi => h (i + 1) line hi
    refine ⟨b :: bs, ?_, congrArg (· + 1) hlen, fun i b' hi => ?_⟩
    · rw [List.mapM_cons, hb, hbs]
      rfl
    · cases i with
      | zero =>
        cases hi
        exact hQ
      | succ i => exact hQs i b' hi


/-- A known name is in the map of its section. -/
theorem ProtocolTable.Numbered.lookup_states (h : t.Numbered es) {name : Text}
    (hname : name ∈ t.states.map Prod.fst) :
    (entriesOf .states es).reverse.lookup name = some (t.stateId name : Int) := by
  have hall := @lookup_eq (entriesOf .states es).reverse
    (fun name => if name ∈ t.states.map Prod.fst then some (t.stateId name : Int) else none) (fun name id => by
      rw [List.mem_reverse, mem_entriesOf, h.states]
      simp only [← List.getElem?_map, getElem?_eq_iff_idxOf t.nodup_states]
      split_ifs with hmem
      · rw [Option.some_inj]
        constructor
        · rintro ⟨i, rfl, -, rfl⟩
          rfl
        · exact fun hid => ⟨_, hid.symm, hmem, rfl⟩
      · simp [hmem]) name
  rw [hall, if_pos hname]

/-- The actions are numbered as in the table. -/
theorem ProtocolTable.Numbered.lookup_actions (h : t.Numbered es) (name : Text) :
    (entriesOf .actions es).reverse.lookup name = t.actionId name :=
  lookup_eq (F := t.actionId) (fun name id => by
    rw [List.mem_reverse, mem_entriesOf, h.actions, ProtocolTable.actionId, mem_iff_lookup t.nodup_actions]) name

/-- The cells of a row hold known names. -/
theorem ProtocolTable.Numbered.known (h : t.Numbered es) {state : Text × Row Text Text} (hstate : state ∈ t.states)
    (i : Nat) : Known (entriesOf .actions es).reverse (entriesOf .states es).reverse
      (state.2.cells[i]?.getD Cell.stay) := by
  cases hcell : state.2.cells[i]? with
  | none => exact ⟨by simp [Cell.stay], by simp [Cell.stay]⟩
  | some c =>
    have hc := List.mem_of_getElem? hcell
    refine ⟨fun a ha => ?_, fun n hn => ?_⟩
    · have hmem := t.actions_known state hstate c hc a ha
      refine ⟨t.isName a (by simp [hmem]), ?_⟩
      obtain ⟨⟨a', id⟩, hentry, rfl⟩ := List.mem_map.1 hmem
      rw [h.lookup_actions, ProtocolTable.actionId, (mem_iff_lookup t.nodup_actions a' id).1 hentry]
      rfl
    · have hmem := t.next_known state hstate c hc n hn
      refine ⟨t.isName n (by simp [hmem]), ?_⟩
      rw [h.lookup_states hmem]
      rfl

/-- The lines of a file are read one by one, with or without a line break behind the last. -/
theorem fields_lines {text heading : Text} {sections rows : List Text}
    (hheading : heading ≠ []) (hrows : ∀ row ∈ rows, row ≠ [])
    (hlines : ∀ line ∈ sections ++ heading :: rows, '\n' ∉ line)
    (htext : (sections ++ heading :: rows).flatMap (· ++ ['\n']) = text ∨
      (sections ++ heading :: rows).flatMap (· ++ ['\n']) = text ++ ['\n']) :
    fields '\n' text = sections ++ heading :: rows := by
  rcases htext with rfl | htext
  · exact fields_flatMap hlines
  · rcases List.eq_nil_or_concat (heading :: rows) with hnil | ⟨init, last, hlast⟩
    · cases hnil
    · rw [List.concat_eq_append] at hlast
      have hne : last ≠ [] := by
        have hmem : last ∈ heading :: rows := hlast ▸ by simp
        rcases List.mem_cons.1 hmem with rfl | hmem
        · exact hheading
        · exact hrows last hmem
      rw [hlast, ← List.append_assoc] at hlines htext ⊢
      rw [List.flatMap_append, List.flatMap_singleton, ← List.append_assoc] at htext
      rw [← List.append_cancel_right htext]
      exact fields_flatMap_append (fun f hf => hlines f (List.mem_append_left _ hf)) (hlines last (by simp)) hne

/-- The cell of a row of the table. -/
theorem ProtocolTable.cell_eq {state : Text × Row Text Text} {i : Nat} (h : t.states[i]? = some state) (e : Nat) :
    t.cell i e = state.2.cells[e]?.getD Cell.stay := by
  rw [ProtocolTable.cell, h, Option.bind_some]

/-- A row of the table is read as that row. -/
theorem ProtocolTable.Numbered.exists_row (h : t.Numbered es) {i : Nat} {state : Text × Row Text Text}
    (hi : t.states[i]? = some state) (hline : RowLine state line) :
    ∃ s, FSMState.ofLine (entriesOf .actions es).reverse (entriesOf .states es).reverse line = some s ∧
      RowOf t i s := by
  have hstate := List.mem_of_getElem? hi
  have hmem : state.1 ∈ t.states.map Prod.fst := List.mem_map_of_mem hstate
  have hid : t.stateId state.1 = i := by
    have hname : (t.states.map Prod.fst)[i]? = some state.1 := by
      rw [List.getElem?_map, hi]
      rfl
    exact ((getElem?_eq_iff_idxOf t.nodup_states state.1 i).1 hname).2.symm
  obtain ⟨s, hread, hstable, hvalid, hanswers⟩ := ofLine_of_row hline (t.isName state.1 (by simp [hmem]))
    (h.known hstate) (h.lookup_states hmem)
  refine ⟨s, hread, fun e => ?_, fun e => ?_, ?_, ?_⟩
  · rw [(hanswers e).1, ProtocolTable.nextId, ProtocolTable.cell_eq hi, hid]
    cases hnext : (state.2.cells[e]?.getD Cell.stay).next with
    | none => rfl
    | some n =>
      obtain ⟨c, hc⟩ : ∃ c, state.2.cells[e]? = some c := by
        cases hcell : state.2.cells[e]? with
        | none =>
          rw [hcell] at hnext
          cases hnext
        | some c => exact ⟨c, rfl⟩
      rw [hc, Option.getD_some] at hnext
      rw [Option.bind_some, h.lookup_states (t.next_known state hstate c (List.mem_of_getElem? hc) n hnext)]
      rfl
  · rw [(hanswers e).2, ProtocolTable.actionIds, ProtocolTable.cell_eq hi]
    exact List.filterMap_congr fun a _ => h.lookup_actions a
  · rw [hi, hstable]
    rfl
  · rw [hi, hvalid]
    rfl

/-- A table that is read is represented, and its actions are numbered exactly as in the table. -/
theorem ProtocolTable.WrittenAs.exists_reader {text : Text} (h : t.WrittenAs text) :
    ∃ r, FSMReader.ofFile text = some r ∧ Represents t r ∧ ∀ name, r.m_actionIds.lookup name = t.actionId name := by
  obtain ⟨es, sections, heading, rows, hsections, hnumbered, hheading, hrows, hlines, htext⟩ := h
  have hheadingNe : heading ≠ [] := by
    rintro rfl
    exact absurd hheading.1 (by decide)
  have hat : ∀ (i : Nat) line, rows[i]? = some line → ∃ state, t.states[i]? = some state ∧ RowLine state line := by
    intro i line hi
    obtain ⟨hlt, rfl⟩ := List.getElem?_eq_some_iff.1 hi
    have hlt' : i < t.states.length := hrows.length_eq ▸ hlt
    exact ⟨t.states[i], List.getElem?_eq_getElem hlt', (List.forall₂_iff_get.1 hrows).2 i hlt' hlt⟩
  have hrowsNe : ∀ row ∈ rows, row ≠ [] := by
    rintro row hrow rfl
    obtain ⟨i, hi⟩ := List.mem_iff_getElem?.1 hrow
    obtain ⟨state, -, name, stable, valid, cells, hline, -⟩ := hat i [] hi
    cases name <;> cases hline
  have hrow : ∀ i line, rows[i]? = some line → ∃ s, FSMState.ofLine (entriesOf .actions es).reverse
      (entriesOf .states es).reverse line = some s ∧ RowOf t i s := by
    intro i line hi
    obtain ⟨state, hstate, hline⟩ := hat i line hi
    exact hnumbered.exists_row hstate hline
  obtain ⟨states, hmap, hlen, hall⟩ := exists_mapM hrow
  refine ⟨{
    m_eventIds := (entriesOf .events es).reverse
    m_actionIds := (entriesOf .actions es).reverse
    m_stateIds := (entriesOf .states es).reverse
    m_states := states }, ?_, ⟨?_, hall, fun name => .inl (hnumbered.lookup_actions name),
    fun name => hnumbered.lookup_states⟩, hnumbered.lookup_actions⟩
  · rw [FSMReader.ofFile, fields_lines hheadingNe hrowsNe hlines htext, parse_sections hsections, FSMReader.parse,
      hheading.ofLine]
    dsimp only
    rw [FSMReader.parseStates]
    simp only [List.append_nil, hmap, Option.map_some, List.nil_append]
  · exact hlen.trans hrows.length_eq.symm

end Octopus
