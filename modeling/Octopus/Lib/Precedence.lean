import Mathlib.Data.List.Forall2

/-!
# Layered lookup with wildcards

Values are stored under paths. A lookup descends a path of choices: at each one it takes what is stored
under the exact name and, where nothing is, what is stored under the wildcard. The layers are merged from
the outermost choice inwards, but the value that comes out is the one stored under the matching path that
is exact where paths first differ when they are compared from the innermost choice outwards.
-/

namespace Octopus.Lib

/-- What a component of a path may be matched by. -/
structure Choice (α : Type*) where
  exact : α
  wild : α
  ne : exact ≠ wild

variable {α β : Type*} {stored stored' : List α → Option β} {path : List (Choice α)} {p q : List α} {v : β}

/-- A name matches a choice exactly or as its wildcard. -/
def Choice.Matches (c : Choice α) (a : α) : Prop := a = c.exact ∨ a = c.wild

/-- Look a path up, merging one layer after the other. -/
def resolve (stored : List α → Option β) : List (Choice α) → Option β
  | [] => stored []
  | c :: path => resolve (fun rest => (stored (c.exact :: rest)).or (stored (c.wild :: rest))) path

/-- From the innermost component outwards, the first path is exact and the second one is wild where they
first differ. -/
def Beats : List (Choice α) → List α → List α → Prop
  | c :: path, a :: p, b :: q => Beats path p q ∨ (p = q ∧ a = c.exact ∧ b = c.wild)
  | _, _, _ => False

/-- A path wins a lookup if something is stored under it, and it beats all others of which this is so. -/
structure Wins (stored : List α → Option β) (path : List (Choice α)) (p : List α) : Prop where
  isMatch : List.Forall₂ Choice.Matches path p
  isStored : stored p ≠ none
  beats : ∀ q, List.Forall₂ Choice.Matches path q → stored q ≠ none → q ≠ p → Beats path p q

/-- No two paths beat each other. -/
theorem Beats.asymm (h : Beats path p q) : ¬ Beats path q p := by
  induction path generalizing p q with
  | nil => cases h
  | cons c path ih =>
    cases p with
    | nil => cases h
    | cons a p =>
      cases q with
      | nil => cases h
      | cons b q =>
        rintro (hback | ⟨hsame, hb, ha⟩)
        · rcases h with h | ⟨rfl, -, -⟩
          · exact ih h hback
          · exact ih hback hback
        · subst hsame
          rcases h with h | ⟨-, ha', -⟩
          · exact ih h h
          · exact c.ne (ha'.symm.trans ha)

/-- At most one path wins. -/
theorem Wins.unique (hp : Wins stored path p) (hq : Wins stored path q) : p = q := by
  by_contra hne
  exact (hp.beats q hq.isMatch hq.isStored (Ne.symm hne)).asymm (hq.beats p hp.isMatch hp.isStored hne)

/-- Nothing is found just when nothing is stored under a matching path. -/
theorem resolve_eq_none : resolve stored path = none ↔ ∀ p, List.Forall₂ Choice.Matches path p → stored p = none := by
  induction path generalizing stored with
  | nil =>
    rw [resolve]
    exact ⟨fun h p hp => by cases hp; exact h, fun h => h [] .nil⟩
  | cons c path ih =>
    rw [resolve, ih]
    simp only [Option.or_eq_none_iff]
    constructor
    · intro h p hp
      cases hp with
      | cons hc hrest =>
        rcases hc with rfl | rfl
        · exact (h _ hrest).1
        · exact (h _ hrest).2
    · exact fun h p hp => ⟨h _ (.cons (.inl rfl) hp), h _ (.cons (.inr rfl) hp)⟩

/-- What is found is stored under a path that wins. -/
theorem exists_wins (h : resolve stored path = some v) : ∃ p, Wins stored path p ∧ stored p = some v := by
  induction path generalizing stored with
  | nil =>
    rw [resolve] at h
    refine ⟨[], ⟨.nil, by rw [h]; exact Option.some_ne_none v, fun q hq _ hne => ?_⟩, h⟩
    cases hq
    exact absurd rfl hne
  | cons c path ih =>
    obtain ⟨p, hp, hv⟩ := ih h
    -- the name at this component is exact, unless nothing is stored under the path with it
    obtain ⟨a, ha, hstored, hexact⟩ : ∃ a, c.Matches a ∧ stored (a :: p) = some v ∧
        (a ≠ c.exact → stored (c.exact :: p) = none) := by
      cases hfirst : stored (c.exact :: p) with
      | some w =>
        rw [hfirst, Option.some_or] at hv
        exact ⟨c.exact, .inl rfl, hfirst.trans hv, fun hne => absurd rfl hne⟩
      | none =>
        rw [hfirst, Option.none_or] at hv
        exact ⟨c.wild, .inr rfl, hv, fun _ => rfl⟩
    refine ⟨a :: p, ⟨.cons ha hp.isMatch, by rw [hstored]; exact Option.some_ne_none v, fun q hq hstoredq hne => ?_⟩,
      hstored⟩
    cases hq with
    | @cons _ b _ q hb hq =>
      by_cases hsame : q = p
      · subst hsame
        refine .inr ⟨rfl, ?_⟩
        rcases ha with rfl | rfl
        · exact ⟨rfl, hb.resolve_left fun hb => hne (congrArg (· :: q) hb)⟩
        · rcases hb with rfl | rfl
          · exact absurd (hexact c.ne.symm) hstoredq
          · exact absurd rfl hne
      · refine .inl (hp.beats q hq ?_ hsame)
        rw [Ne, Option.or_eq_none_iff]
        rcases hb with rfl | rfl
        · exact fun hnone => hstoredq hnone.1
        · exact fun hnone => hstoredq hnone.2

/-- A lookup finds what is stored under the path that wins. -/
theorem resolve_eq_some : resolve stored path = some v ↔ ∃ p, Wins stored path p ∧ stored p = some v := by
  refine ⟨exists_wins, ?_⟩
  rintro ⟨p, hp, hv⟩
  cases hresolve : resolve stored path with
  | none => exact absurd (resolve_eq_none.1 hresolve p hp.isMatch) hp.isStored
  | some w =>
    obtain ⟨q, hq, hw⟩ := exists_wins hresolve
    rw [hp.unique hq, hw] at hv
    exact hv

/-- Only what is stored under matching paths matters. -/
theorem resolve_congr (h : ∀ p, List.Forall₂ Choice.Matches path p → stored p = stored' p) :
    resolve stored path = resolve stored' path := by
  induction path generalizing stored stored' with
  | nil => exact h [] .nil
  | cons c path ih =>
    refine ih fun p hp => ?_
    rw [h _ (.cons (.inl rfl) hp), h _ (.cons (.inr rfl) hp)]

end Octopus.Lib
