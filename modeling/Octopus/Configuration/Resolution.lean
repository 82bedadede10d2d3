import Octopus.Configuration.Configurable
import Octopus.Lib.Precedence
import Mathlib.Data.List.TakeWhile

/-!
# How a configuration is resolved

A component is seen as one map from dotted names to what is said about them. Adding a parameter updates
this map, and a subordinate is constructed from what it maps the names of this subordinate to. Descending
to a component is then a lookup along its path with an exact name and a wildcard at each step.
-/

namespace Octopus

/-- A name without a dot. -/
structure Name where
  text : List Char
  dotless : '.' ∉ text

/-- A step to a subordinate: its name, and its number if it is an instance of an array. -/
structure Component where
  name : Name
  instanceNumber : Int := -1

namespace Configurable

variable {ν : Type} {c : Configurable ν} {p : Parameter ν} {name : List Char}

/-- What a component says about a dotted name. -/
def stored (c : Configurable ν) (name : List Char) : Option (ParameterType × ν) :=
  if '.' ∈ name then
    (((c.subordinateParam.lookup (subName name)).bind fun m => m.lookup (paramName name))).map Parameter.content
  else (c.parameters.lookup name).map Parameter.content

/-- A component without parameters says nothing. -/
theorem stored_empty (name : List Char) : ({} : Configurable ν).stored name = none := by
  rw [stored]
  split_ifs <;> rfl

/-- What the last of some assignments to a dotted name says. -/
def lastAssignment (assignments : List (Parameter ν)) (name : List Char) : Option (ParameterType × ν) :=
  (assignments.filter fun p => p.name == name).getLast?.map Parameter.content

/-- The text before the first dot, the dot and the text behind it make up the name. -/
theorem subName_append_paramName (h : '.' ∈ name) : subName name ++ '.' :: paramName name = name := by
  have hdrop : name.dropWhile (fun c => c != '.') = '.' :: paramName name := by
    rw [paramName]
    cases hrest : name.dropWhile fun c => c != '.' with
    | nil => exact absurd (List.dropWhile_eq_nil_iff.1 hrest '.' h) (by simp)
    | cons c rest =>
      have hhead := List.head?_dropWhile_not (fun c => c != '.') name
      rw [hrest] at hhead
      rw [List.tail_cons, show c = '.' by simpa using hhead]
  rw [← hdrop, subName, List.takeWhile_append_dropWhile]

/-- The text before the first dot of a name that starts with a dotless one. -/
theorem subName_append {sub : List Char} (h : '.' ∉ sub) (rest : List Char) : subName (sub ++ '.' :: rest) = sub := by
  rw [subName, List.takeWhile_append_of_pos, List.takeWhile_cons_of_neg (by simp), List.append_nil]
  exact fun c hc => bne_iff_ne.2 fun heq => h (heq ▸ hc)

/-- The text behind the first dot of a name that starts with a dotless one. -/
theorem paramName_append {sub : List Char} (h : '.' ∉ sub) (rest : List Char) :
    paramName (sub ++ '.' :: rest) = rest := by
  rw [paramName, List.dropWhile_append_of_pos, List.dropWhile_cons_of_neg (by simp), List.tail_cons]
  exact fun c hc => bne_iff_ne.2 fun heq => h (heq ▸ hc)

/-- Adding a parameter says one thing more, and overrides what was said about its name. -/
theorem stored_addParameter2Map (c : Configurable ν) (p : Parameter ν) (name : List Char) :
    (c.addParameter2Map p).stored name = if name = p.name then some p.content else c.stored name := by
  rw [addParameter2Map]
  by_cases hp : '.' ∈ p.name
  · rw [if_pos hp, stored, stored]
    by_cases hname : '.' ∈ name
    · rw [if_pos hname, if_pos hname]
      by_cases hsub : subName name = subName p.name
      · have hiff : name = p.name ↔ paramName name = paramName p.name := by
          constructor
          · exact congrArg paramName
          · intro hparam
            rw [← subName_append_paramName hname, ← subName_append_paramName hp, hsub, hparam]
        rw [hsub, AList.lookup_insert, Option.bind_some, ParametersMap.lookup_emplace]
        simp only [hiff]
        split_ifs with hparam
        · rfl
        · cases c.subordinateParam.lookup (subName p.name) <;> rfl
      · rw [AList.lookup_insert_ne hsub, if_neg fun heq => hsub (congrArg subName heq)]
    · rw [if_neg hname, if_neg hname, if_neg fun heq : name = p.name => hname (heq ▸ hp)]
  · rw [if_neg hp, stored, stored]
    by_cases hname : '.' ∈ name
    · rw [if_pos hname, if_pos hname, if_neg fun heq : name = p.name => hp (heq ▸ hname)]
    · rw [if_neg hname, if_neg hname, ParametersMap.lookup_emplace, apply_ite (Option.map Parameter.content)]
      rfl

/-- After some assignments a component says what the last one to a name does, or what it said before. -/
theorem stored_foldl (assignments : List (Parameter ν)) (c : Configurable ν) (name : List Char) :
    (assignments.foldl addParameter2Map c).stored name = (lastAssignment assignments name).or (c.stored name) := by
  induction assignments generalizing c with
  | nil => rfl
  | cons p assignments ih =>
    rw [List.foldl_cons, ih, stored_addParameter2Map, lastAssignment, lastAssignment, List.filter_cons]
    by_cases hname : p.name = name
    · rw [if_pos hname.symm, if_pos (beq_iff_eq.2 hname), List.getLast?_cons]
      cases (assignments.filter fun p => p.name == name).getLast? <;> rfl
    · rw [if_neg fun heq => hname heq.symm, if_neg (by simpa using hname)]

/-- There is no last assignment to a name that nothing is assigned to. -/
theorem lastAssignment_eq_none {assignments : List (Parameter ν)} :
    lastAssignment assignments name = none ↔ ∀ p ∈ assignments, p.name ≠ name := by
  rw [lastAssignment, Option.map_eq_none_iff, List.getLast?_eq_none_iff, List.filter_eq_nil_iff]
  exact forall₂_congr fun p _ => not_congr beq_iff_eq

/-- A component made of a map of parameters says what the map does. -/
theorem stored_ofMap (m : ParametersMap ν) (name : List Char) :
    (ofMap [] m).stored name = (m.lookup name).map Parameter.content := by
  rw [ofMap, List.foldl_nil, stored_foldl, stored_empty, Option.or_none]
  cases hlookup : m.lookup name with
  | none =>
    refine lastAssignment_eq_none.2 fun p hp hname => ?_
    rw [ParametersMap.mem_values, hname, hlookup] at hp
    cases hp
  | some p =>
    rw [lastAssignment]
    have hpname := m.named name p hlookup
    have hp : p ∈ m.values.filter fun p => p.name == name :=
      List.mem_filter.2 ⟨ParametersMap.mem_values.2 (hpname ▸ hlookup), beq_iff_eq.2 hpname⟩
    obtain ⟨q, hq⟩ := Option.isSome_iff_exists.1 (List.getLast?_isSome.2 (List.ne_nil_of_mem hp))
    obtain ⟨hqvalues, hqname⟩ := List.mem_filter.1 (List.mem_of_getLast? hq)
    rw [ParametersMap.mem_values, beq_iff_eq.1 hqname, hlookup, Option.some.injEq] at hqvalues
    rw [hq, hqvalues]

/-- A subordinate is told what is said about its exact name, and else about its wildcard. -/
theorem lookup_getSubMap (c : Configurable ν) {compName : List Char} {instanceNumber : Int}
    (hexact : '.' ∉ exactName compName instanceNumber) (hwild : '.' ∉ wildName compName) (name : List Char) :
    ((c.getSubMap compName instanceNumber).lookup name).map Parameter.content =
      (c.stored (exactName compName instanceNumber ++ '.' :: name)).or (c.stored (wildName compName ++ '.' :: name)) := by
  have hstored : ∀ sub : List Char, '.' ∉ sub → c.stored (sub ++ '.' :: name) =
      ((c.subordinateParam.lookup sub).bind fun m => m.lookup name).map Parameter.content := by
    intro sub hsub
    rw [stored, if_pos (by simp), subName_append hsub, paramName_append hsub]
  rw [hstored _ hexact, hstored _ hwild, getSubMap]
  cases c.subordinateParam.lookup (exactName compName instanceNumber) with
  | none =>
    cases c.subordinateParam.lookup (wildName compName) with
    | none => rfl
    | some sub => rfl
  | some m =>
    cases c.subordinateParam.lookup (wildName compName) with
    | none => exact (Option.or_none ..).symm
    | some sub =>
      dsimp only
      rw [ParametersMap.lookup_insert, Option.bind_some, Option.bind_some, Option.map_or]

/-- A number is written with digits and a sign. -/
theorem isDigit_or_of_mem_toText {i : Int} {ch : Char} (h : ch ∈ toText i) : ch.isDigit = true ∨ ch = '-' := by
  cases i with
  | ofNat n => exact .inl (Nat.isDigit_of_mem_toDigits (by decide) (by decide) h)
  | negSucc n =>
    rcases List.mem_cons.1 h with rfl | h
    · exact .inr rfl
    · exact .inl (Nat.isDigit_of_mem_toDigits (by decide) (by decide) h)

/-- The parameter of a component, without the subordinates' ones. -/
def value (c : Configurable ν) (param : Name) : Option (ParameterType × ν) :=
  (c.parameters.lookup param.text).map Parameter.content

/-- The component at the end of a path of subordinates whose files assign nothing. -/
def descend (c : Configurable ν) : List Component → Configurable ν
  | [] => c
  | comp :: leaf => (ofMap [] (c.getSubMap comp.name.text comp.instanceNumber)).descend leaf

end Configurable

namespace Component

open Configurable

/-- The exact name of a component has no dot. -/
theorem dotless_exactName (comp : Component) : '.' ∉ exactName comp.name.text comp.instanceNumber := by
  rw [exactName]
  split_ifs
  · exact comp.name.dotless
  · intro h
    simp only [List.mem_append, List.mem_cons, List.not_mem_nil, or_false] at h
    rcases h with h | h | h | h
    · exact comp.name.dotless h
    · exact absurd h (by decide)
    · exact absurd (isDigit_or_of_mem_toText h) (by decide)
    · exact absurd h (by decide)

/-- The wildcard of a component has no dot. -/
theorem dotless_wildName (comp : Component) : '.' ∉ wildName comp.name.text := by
  rw [wildName, List.mem_append]
  exact not_or.2 ⟨comp.name.dotless, by decide⟩

/-- No instance is named like the wildcard. -/
theorem exactName_ne_wildName (comp : Component) :
    exactName comp.name.text comp.instanceNumber ≠ wildName comp.name.text := by
  rw [exactName, wildName]
  split_ifs
  · exact fun h => absurd (List.self_eq_append_right.1 h) (by decide)
  · intro h
    have hnumber := List.append_cancel_left h
    have hmem : '*' ∈ toText comp.instanceNumber ++ [']'] := by
      rw [(List.cons.inj hnumber).2]
      decide
    rcases List.mem_append.1 hmem with hmem | hmem
    · exact absurd (isDigit_or_of_mem_toText hmem) (by decide)
    · exact absurd hmem (by decide)

/-- The names that match a component. -/
def choice (comp : Component) : Lib.Choice (List Char) where
  exact := exactName comp.name.text comp.instanceNumber
  wild := wildName comp.name.text
  ne := comp.exactName_ne_wildName

/-- The names of a path match a component and those above it. -/
def Matches (leaf : List Component) (path : List (List Char)) : Prop :=
  List.Forall₂ Lib.Choice.Matches (leaf.map choice) path

end Component

namespace Configurable

variable {ν : Type} {assignments : List (Parameter ν)} {leaf : List Component} {param : Name}

/-- The dotted name of a parameter at the end of a path. -/
def dotted : List (List Char) → List Char → List Char
  | [], param => param
  | name :: path, param => name ++ '.' :: dotted path param

/-- What a component at the end of a path says is looked up along the path. -/
theorem stored_descend (c : Configurable ν) (leaf : List Component) (name : List Char) :
    (c.descend leaf).stored name = Lib.resolve (fun path => c.stored (dotted path name)) (leaf.map Component.choice) := by
  induction leaf generalizing c with
  | nil => rfl
  | cons comp leaf ih =>
    rw [descend, ih, List.map_cons, Lib.resolve]
    congr 1
    funext path
    rw [stored_ofMap, lookup_getSubMap c comp.dotless_exactName comp.dotless_wildName]
    rfl

/-- What a list of assignments to the top makes a component say about a parameter. -/
def configured (assignments : List (Parameter ν)) (leaf : List Component) (param : Name) :
    Option (ParameterType × ν) :=
  ((assignments.foldl addParameter2Map {}).descend leaf).value param

/-- A component's parameter is the last assignment to its name along the path, looked up step by step. -/
theorem configured_eq (assignments : List (Parameter ν)) (leaf : List Component) (param : Name) :
    configured assignments leaf param =
      Lib.resolve (fun path => lastAssignment assignments (dotted path param.text)) (leaf.map Component.choice) := by
  have hvalue : ∀ c : Configurable ν, c.value param = c.stored param.text := fun c => (if_neg param.dotless).symm
  rw [configured, hvalue, stored_descend]
  congr 1
  funext path
  rw [stored_foldl, stored_empty, Option.or_none]

/-- A component sees the last assignment to the path that wins among those that match it: the one that is
exact where paths first differ, compared from the innermost component outwards. Without an assignment to a
matching path the parameter is absent, and an assignment to a path that does not match changes nothing. -/
theorem configured_iff (assignments : List (Parameter ν)) (leaf : List Component) (param : Name) :
    (∀ v, configured assignments leaf param = some v ↔
      ∃ path, Lib.Wins (fun path => lastAssignment assignments (dotted path param.text)) (leaf.map Component.choice)
        path ∧ lastAssignment assignments (dotted path param.text) = some v) ∧
    (configured assignments leaf param = none ↔
      ∀ path, Component.Matches leaf path → ∀ p ∈ assignments, p.name ≠ dotted path param.text) ∧
    ∀ before p after, assignments = before ++ p :: after →
      (∀ path, Component.Matches leaf path → p.name ≠ dotted path param.text) →
      configured assignments leaf param = configured (before ++ after) leaf param := by
  simp only [configured_eq]
  refine ⟨fun v => Lib.resolve_eq_some, ?_, ?_⟩
  · rw [Lib.resolve_eq_none]
    exact forall₂_congr fun path _ => lastAssignment_eq_none
  · rintro before p after rfl hp
    refine Lib.resolve_congr fun path hpath => ?_
    rw [lastAssignment, lastAssignment, List.filter_append, List.filter_append,
      List.filter_cons_of_neg (by simpa using hp path hpath)]

end Configurable

end Octopus
