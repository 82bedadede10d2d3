import Mathlib.Data.Char
import Mathlib.Data.List.AList
import Mathlib.Data.List.Lex

/-!
# Configurable components

A component holds its own parameters and, for each of its subordinates, a map of parameters that is
handed to the subordinate's constructor. A parameter with a dotted name belongs to the subordinate that
the text before the first dot names. A subordinate that is an instance of an array takes the parameters of
its own name and, where it has none, those of the wildcard.

Values are of any type; parsing them from configuration files and from the command line is left out.
-/

namespace Octopus

/-- The type of a parameter. -/
inductive ParameterType
  | integer
  | double
  | string
  | vectorInteger
  | vectorDouble
  | vectorString
  deriving DecidableEq, Repr

/-- A parameter. -/
structure Parameter (ν : Type) where
  name : List Char
  type : ParameterType
  value : ν

/-- What a parameter says, without its name. -/
def Parameter.content {ν : Type} (p : Parameter ν) : ParameterType × ν := (p.type, p.value)

/-- A map of parameters. Each one stands under its own name. -/
structure ParametersMap (ν : Type) where
  map : AList fun _ : List Char => Parameter ν
  named : ∀ name p, map.lookup name = some p → p.name = name

namespace ParametersMap

variable {ν : Type}

/-- The empty map. -/
def empty : ParametersMap ν := ⟨∅, fun _ _ h => nomatch h⟩

/-- The parameter of a name. -/
def lookup (m : ParametersMap ν) (name : List Char) : Option (Parameter ν) := m.map.lookup name

/-- Add a parameter, in place of one with its name. -/
def emplace (m : ParametersMap ν) (p : Parameter ν) : ParametersMap ν where
  map := m.map.insert p.name p
  named name q h := by
    by_cases hname : name = p.name
    · subst hname
      rw [AList.lookup_insert, Option.some.injEq] at h
      rw [← h]
    · rw [AList.lookup_insert_ne hname] at h
      exact m.named name q h

/-- Add the parameters of another map whose names are new. -/
def insert (m sub : ParametersMap ν) : ParametersMap ν where
  map := m.map ∪ sub.map
  named name q h := by
    rcases AList.mem_lookup_union.1 h with hleft | ⟨-, hright⟩
    · exact m.named name q hleft
    · exact sub.named name q hright

/-- The parameters in the order of their names. -/
def values (m : ParametersMap ν) : List (Parameter ν) :=
  (m.map.entries.mergeSort fun a b => decide (a.1 ≤ b.1)).map Sigma.snd

@[simp] theorem lookup_empty (name : List Char) : (empty : ParametersMap ν).lookup name = none := rfl

/-- A parameter that is added stands under its name. -/
theorem lookup_emplace (m : ParametersMap ν) (p : Parameter ν) (name : List Char) :
    (m.emplace p).lookup name = if name = p.name then some p else m.lookup name := by
  split_ifs with hname
  · subst hname
    exact AList.lookup_insert _
  · exact AList.lookup_insert_ne hname

/-- The parameters of the first map hide those of the second one. -/
theorem lookup_insert (m sub : ParametersMap ν) (name : List Char) :
    (m.insert sub).lookup name = (m.lookup name).or (sub.lookup name) := by
  by_cases hmem : name ∈ m.map
  · obtain ⟨p, hp⟩ := Option.isSome_iff_exists.1 (AList.lookup_isSome.2 hmem)
    rw [show m.lookup name = some p from hp, Option.some_or]
    exact (AList.lookup_union_left hmem).trans hp
  · rw [show m.lookup name = none from AList.lookup_eq_none.2 hmem, Option.none_or]
    exact AList.lookup_union_right hmem

/-- The values are the parameters that stand under their names. -/
theorem mem_values {m : ParametersMap ν} {p : Parameter ν} : p ∈ m.values ↔ m.lookup p.name = some p := by
  have hperm := List.mergeSort_perm m.map.entries fun a b => decide (a.1 ≤ b.1)
  rw [values, List.mem_map]
  constructor
  · rintro ⟨entry, hentry, rfl⟩
    have hlookup : m.map.lookup entry.1 = some entry.2 := AList.mem_lookup_iff.2 (hperm.mem_iff.1 hentry)
    have hname := m.named entry.1 entry.2 hlookup
    rw [hname]
    exact hlookup
  · exact fun h => ⟨⟨p.name, p⟩, hperm.mem_iff.2 (AList.mem_lookup_iff.1 h), rfl⟩

end ParametersMap

/-- A component: its parameters and those of its subordinates. -/
structure Configurable (ν : Type) where
  parameters : ParametersMap ν := .empty
  subordinateParam : AList (fun _ : List Char => ParametersMap ν) := ∅

namespace Configurable

variable {ν : Type}

/-- The text before the first dot of a name. -/
def subName (name : List Char) : List Char := name.takeWhile fun c => c != '.'

/-- The text behind the first dot of a name. -/
def paramName (name : List Char) : List Char := (name.dropWhile fun c => c != '.').tail

/-- Add a parameter to the component, or to its subordinate that the name starts with. -/
def addParameter2Map (c : Configurable ν) (p : Parameter ν) : Configurable ν :=
  if '.' ∈ p.name then
    let sub := (c.subordinateParam.lookup (subName p.name)).getD .empty
    { c with subordinateParam :=
        c.subordinateParam.insert (subName p.name) (sub.emplace { p with name := paramName p.name }) }
  else { c with parameters := c.parameters.emplace p }

/-- The component that a configuration file and a map of parameters make. -/
def ofMap (file : List (Parameter ν)) (map : ParametersMap ν) : Configurable ν :=
  map.values.foldl addParameter2Map (file.foldl addParameter2Map {})

/-- `to_string`. -/
def toText : Int → List Char
  | .ofNat n => Nat.toDigits 10 n
  | .negSucc n => '-' :: Nat.toDigits 10 (n + 1)

/-- The name of an instance of a component; `-1` is the instance of a component that is no array. -/
def exactName (compName : List Char) (instanceNumber : Int) : List Char :=
  if instanceNumber = -1 then compName else compName ++ '[' :: (toText instanceNumber ++ [']'])

/-- The name that stands for every instance of a component. -/
def wildName (compName : List Char) : List Char := compName ++ ['[', '*', ']']

/-- The parameters for the constructor of a subordinate. -/
def getSubMap (c : Configurable ν) (compName : List Char) (instanceNumber : Int) : ParametersMap ν :=
  match c.subordinateParam.lookup (exactName compName instanceNumber),
    c.subordinateParam.lookup (wildName compName) with
  | some m, some sub => m.insert sub
  | some m, none => m
  | none, some sub => sub
  | none, none => .empty

end Configurable

end Octopus
