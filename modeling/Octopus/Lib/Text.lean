import Mathlib.Data.List.DropRight
import Mathlib.Data.List.Infix
import Mathlib.Data.List.TakeWhile

/-!
# Reading texts field by field

`getline` takes the text up to a delimiter off an input stream, `fields` is the loop that does so until
the stream ends, and `trim` strips the blanks around a field. The lemmas read back what was written:
fields with a delimiter behind each, the last one with or without it, and names with blanks around
them. Texts are lists over any alphabet; nothing here mentions protocol tables.
-/

namespace Octopus.Lib

variable {α : Type*} {d : α} {f rest s name b : List α} {blank : α → Bool} {ok : Bool}

/-- A property of a text's characters is decided along the text, also where the alphabet is finite. -/
instance (priority := high) decidableForallMem {p : α → Prop} [DecidablePred p] (s : List α) :
    Decidable (∀ c ∈ s, p c) :=
  List.decidableBAll p s

/-- The text without the blanks at its two ends. -/
def trim (blank : α → Bool) (s : List α) : List α := (s.dropWhile blank).rdropWhile blank

/-- A name with blanks around it. -/
def Padded (blank : α → Bool) (name s : List α) : Prop :=
  ∃ l r, s = l ++ (name ++ r) ∧ (∀ c ∈ l, blank c) ∧ ∀ c ∈ r, blank c

/-- Blanks in front of a text are dropped, up to a first character that is none. -/
theorem dropWhile_blanks {l : List α} (hl : ∀ c ∈ l, blank c) (hf : ∀ c ∈ f.head?, ¬ blank c) :
    (l ++ f).dropWhile blank = f := by
  rw [List.dropWhile_append_of_pos hl]
  cases f with
  | nil => rfl
  | cons c f => exact List.dropWhile_cons_of_neg (hf c rfl)

/-- What is left of a text is the text without blanks at its ends. -/
theorem padded_trim (blank : α → Bool) (s : List α) : Padded blank (trim blank s) s := by
  refine ⟨s.takeWhile blank, (s.dropWhile blank).rtakeWhile blank, ?_, fun c => List.mem_takeWhile_imp, ?_⟩
  · rw [trim, List.rdropWhile_append_rtakeWhile, List.takeWhile_append_dropWhile]
  · exact fun c => List.mem_rtakeWhile_imp

/-- A name without blanks inside is all that is left of a text that pads it. -/
theorem trim_eq_of_padded (h : Padded blank name s) (hname : ∀ c ∈ name, ¬ blank c) : trim blank s = name := by
  obtain ⟨l, r, rfl, hl, hr⟩ := h
  have hback : (name ++ r).rdropWhile blank = name := by
    rw [List.rdropWhile, List.reverse_append, dropWhile_blanks, List.reverse_reverse]
    · exact fun c hc => hr c (List.mem_reverse.1 hc)
    · exact fun c hc => hname c (List.mem_reverse.1 (List.mem_of_mem_head? hc))
  rw [trim]
  cases name with
  | nil =>
    have hall : ∀ c ∈ l ++ ([] ++ r), blank c := by
      simpa [or_imp, forall_and] using ⟨hl, hr⟩
    rw [List.dropWhile_eq_nil_iff.2 hall]
    rfl
  | cons c name =>
    rw [dropWhile_blanks hl, hback]
    rintro c' ⟨⟩
    exact hname c (List.mem_cons_self ..)

/-- A name pads itself. -/
theorem Padded.refl (blank : α → Bool) (name : List α) : Padded blank name name := ⟨[], [], by simp, by simp, by simp⟩

/-- A character that is no blank and not in the name is not in a text that pads it. -/
theorem Padded.not_mem (h : Padded blank name s) (hname : d ∉ name) (hd : ¬ blank d) : d ∉ s := by
  obtain ⟨l, r, rfl, hl, hr⟩ := h
  rw [List.mem_append, List.mem_append]
  rintro (hmem | hmem | hmem)
  · exact hd (hl d hmem)
  · exact hname hmem
  · exact hd (hr d hmem)

/-- A blank in front is padding. -/
theorem Padded.of_cons (h : Padded blank name (d :: s)) (hd : blank d) (hname : ∀ c ∈ name, ¬ blank c) :
    Padded blank name s := by
  obtain ⟨l, r, heq, hl, hr⟩ := h
  cases l with
  | cons c l =>
    cases heq
    exact ⟨l, r, rfl, fun c hc => hl c (List.mem_cons_of_mem _ hc), hr⟩
  | nil =>
    cases name with
    | cons c name =>
      cases heq
      exact absurd hd (hname d (List.mem_cons_self ..))
    | nil =>
      refine ⟨[], s, rfl, by simp, fun c hc => hr c ?_⟩
      rw [List.nil_append, List.nil_append] at heq
      exact heq ▸ List.mem_cons_of_mem _ hc

/-- The padding of the name read backwards is that of the text read backwards. -/
theorem Padded.reverse (h : Padded blank name s) : Padded blank name.reverse s.reverse := by
  obtain ⟨l, r, rfl, hl, hr⟩ := h
  refine ⟨r.reverse, l.reverse, ?_, ?_, ?_⟩
  · simp
  · exact fun c hc => hr c (List.mem_reverse.1 hc)
  · exact fun c hc => hl c (List.mem_reverse.1 hc)

/-- A blank at the end is padding. -/
theorem Padded.of_concat (h : Padded blank name (s ++ [d])) (hd : blank d) (hname : ∀ c ∈ name, ¬ blank c) :
    Padded blank name s := by
  have hback := h.reverse
  rw [List.reverse_append, List.reverse_singleton, List.singleton_append] at hback
  have hshort := (hback.of_cons hd fun c hc => hname c (List.mem_reverse.1 hc)).reverse
  rwa [List.reverse_reverse, List.reverse_reverse] at hshort

/-- A word is on one side of a character that it does not contain. -/
theorem infix_append_cons {w a : List α} (h : w <:+: a ++ d :: rest) (hd : d ∉ w) : w <:+: a ∨ w <:+: rest := by
  obtain ⟨l, r, heq⟩ := h
  rw [List.append_assoc] at heq
  rcases List.append_eq_append_iff.1 heq with ⟨m, rfl, hm⟩ | ⟨m, rfl, hm⟩
  · rcases List.append_eq_append_iff.1 hm with ⟨m', rfl, -⟩ | ⟨m', rfl, hm'⟩
    · exact .inl ⟨l, m', by rw [List.append_assoc]⟩
    · cases m' with
      | nil => exact .inl ⟨l, [], by simp⟩
      | cons c m' =>
        cases hm'
        exact absurd (List.mem_append_right _ (List.mem_cons_self ..)) hd
  · cases m with
    | nil =>
      cases w with
      | nil => exact .inr (List.nil_infix)
      | cons c w =>
        cases hm
        exact absurd (List.mem_cons_self ..) hd
    | cons c m =>
      cases hm
      exact .inr ⟨m, r, List.append_assoc m w r⟩

/-- A word without blanks is in a padded name only if it is in the name. -/
theorem Padded.infix {w : List α} (h : Padded blank name s) (hw : ∀ c ∈ w, ¬ blank c) (hs : w <:+: s) :
    w <:+: name := by
  obtain ⟨l, r, rfl, hl, hr⟩ := h
  have hfront : w <:+: name ++ r := by
    clear hr
    induction l with
    | nil => exact hs
    | cons d l ih =>
      rw [List.forall_mem_cons] at hl
      rcases infix_append_cons (a := []) hs fun hmem => hw d hmem hl.1 with hnil | hs
      · rw [List.infix_nil.1 hnil]
        exact List.nil_infix
      · exact ih hs hl.2
  clear hs hl
  induction r using List.reverseRecOn with
  | nil => rwa [List.append_nil] at hfront
  | append_singleton r d ih =>
    rw [← List.append_assoc] at hfront
    rcases infix_append_cons hfront fun hmem => hw d hmem (hr d (by simp)) with hs | hnil
    · exact ih (fun c hc => hr c (List.mem_append_left _ hc)) hs
    · rw [List.infix_nil.1 hnil]
      exact List.nil_infix

variable [DecidableEq α]

/-- An input stream: what is still unread, or `none` once a read has met its end. -/
abbrev Input (α : Type*) := Option (List α)

/--
`getline(stream, field, d)`: the new content of the variable `field`, the stream afterwards, and whether
the read succeeded. On a stream that has ended already, the variable keeps what it holds.
-/
def getline (d : α) : Input α → List α → List α × Input α × Bool
  | none, field => (field, none, false)
  | some s, _ =>
    match s.dropWhile (· ≠ d) with
    | [] => (s, none, !s.isEmpty)
    | _ :: rest => (s.takeWhile (· ≠ d), some rest, true)

/-- A field with a delimiter behind it is read off. -/
theorem getline_append (h : d ∉ f) : getline d (some (f ++ d :: rest)) b = (f, some rest, true) := by
  have hall : ∀ c ∈ f, decide (c ≠ d) = true := fun c hc => decide_eq_true fun hcd => h (hcd ▸ hc)
  have hdrop : (f ++ d :: rest).dropWhile (· ≠ d) = d :: rest := by
    rw [List.dropWhile_append_of_pos hall]
    simp
  have htake : (f ++ d :: rest).takeWhile (· ≠ d) = f := by
    rw [List.takeWhile_append_of_pos hall]
    simp
  rw [getline, hdrop, htake]

/-- The last field is all the rest of the stream, which ends; there is none if nothing is left. -/
theorem getline_last (h : d ∉ f) : getline d (some f) b = (f, none, !f.isEmpty) := by
  have hdrop : f.dropWhile (· ≠ d) = [] :=
    List.dropWhile_eq_nil_iff.2 fun c hc => decide_eq_true fun hcd => h (hcd ▸ hc)
  rw [getline, hdrop]

/-- A stream that goes on has become shorter. -/
theorem length_lt_of_getline (h : getline d (some s) b = (f, some rest, ok)) : rest.length < s.length := by
  rw [getline] at h
  have hle := (List.dropWhile_suffix (l := s) fun c => decide (c ≠ d)).length_le
  split at h
  · cases h
  · next hdrop =>
    cases h
    rw [hdrop] at hle
    exact hle

/-- The fields that `while (getline(stream, field, d))` visits. -/
def fields (d : α) (s : List α) : List (List α) :=
  match _h : getline d (some s) [] with
  | (field, some rest, true) => field :: fields d rest
  | (field, none, true) => [field]
  | (_, _, false) => []
termination_by s.length
decreasing_by exact length_lt_of_getline _h

/-- The loop visits a field with a delimiter behind it and goes on behind the delimiter. -/
theorem fields_append (h : d ∉ f) : fields d (f ++ d :: rest) = f :: fields d rest := by
  rw [fields]
  split <;> rename_i hline <;> rw [getline_append h] at hline <;> cases hline
  rfl

/-- The last field is visited unless it is empty. -/
theorem fields_last (h : d ∉ f) (hne : f ≠ []) : fields d f = [f] := by
  have hempty : (!f.isEmpty) = true := by simp [hne]
  rw [fields]
  split <;> rename_i hline <;> rw [getline_last h, hempty] at hline <;> cases hline
  rfl

@[simp]
theorem fields_nil : fields d [] = [] := by
  rw [fields]
  rfl

/--
Fields with a delimiter in front of each but the first are visited one after another; an empty one at the end
is not, and counts as the empty field that a missing one is.
-/
theorem getD_fields {later : List (List α)} (hf : d ∉ f) (hlater : ∀ g ∈ later, d ∉ g) (i : Nat) :
    (fields d (f ++ later.flatMap (d :: ·)))[i]?.getD [] = (f :: later)[i]?.getD [] := by
  induction later generalizing f i with
  | nil =>
    rw [List.flatMap_nil, List.append_nil]
    by_cases hne : f = []
    · subst hne
      rw [fields_nil]
      cases i <;> rfl
    · rw [fields_last hf hne]
  | cons g later ih =>
    rw [List.forall_mem_cons] at hlater
    rw [List.flatMap_cons, List.cons_append, fields_append hf]
    cases i with
    | zero => rfl
    | succ i => exact ih hlater.1 hlater.2 i

/-- Lines with a delimiter behind each are visited one after another. -/
theorem fields_flatMap {lines : List (List α)} (h : ∀ f ∈ lines, d ∉ f) :
    fields d (lines.flatMap (· ++ [d])) = lines := by
  induction lines with
  | nil => exact fields_nil
  | cons f lines ih =>
    rw [List.forall_mem_cons] at h
    rw [List.flatMap_cons, List.append_assoc, List.singleton_append, fields_append h.1, ih h.2]

/-- The delimiter behind the last line may be missing, if the line is not empty. -/
theorem fields_flatMap_append {lines : List (List α)} (h : ∀ f ∈ lines, d ∉ f) (hf : d ∉ f) (hne : f ≠ []) :
    fields d (lines.flatMap (· ++ [d]) ++ f) = lines ++ [f] := by
  induction lines with
  | nil => exact fields_last hf hne
  | cons g lines ih =>
    rw [List.forall_mem_cons] at h
    rw [List.flatMap_cons, List.append_assoc, List.append_assoc, List.singleton_append, fields_append h.1,
      ih h.2, List.cons_append]

end Octopus.Lib
