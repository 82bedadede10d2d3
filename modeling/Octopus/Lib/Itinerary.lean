import Mathlib.Data.List.Count

/-!
# Itineraries of a token

A token moves between clients and a home. Its itinerary lists, in order, the clients that will
hold it, the times it returns home, and the clients that are served a copy on the way. The facts
here say what an order of requests fixes about the future of the token: who is last, who is
still to be served after the last holder, and what comes right after a holder.
-/

namespace Octopus.Lib

/-- One entry of an itinerary. -/
inductive Stop (ι : Type*)
  /-- The token visits a client; the mark tells two kinds of visit apart. -/
  | visit (mark : Bool) (i : ι)
  /-- The token returns home. -/
  | home
  /-- A client is served a copy by whoever holds the token then. -/
  | serve (i : ι)
  deriving DecidableEq, Repr

/-- Where the token is: at home, on its way to the head of the itinerary, or held there. -/
inductive Place
  | home
  | flying
  | held
  deriving DecidableEq, Repr

namespace Itinerary

open Stop

variable {ι : Type*}

/-- No client is going to hold the token. -/
def Unvisited (W : List (Stop ι)) : Prop := ∀ x i, visit x i ∉ W

/-- A client is served after every visit. -/
def ServedAfter (j : ι) : List (Stop ι) → Prop
  | [] => True
  | visit _ _ :: W => serve j ∈ W ∧ ServedAfter j W
  | home :: W => ServedAfter j W
  | serve _ :: W => ServedAfter j W

/-- The first visit is to the given client. -/
def FirstVisit (j : ι) : List (Stop ι) → Prop
  | [] => False
  | visit _ i :: _ => i = j
  | home :: W => FirstVisit j W
  | serve _ :: W => FirstVisit j W

/-- What follows the visit of a client. -/
def Follows (W : List (Stop ι)) (x : Bool) (j : ι) (post : List (Stop ι)) : Prop :=
  ∃ pre, W = pre ++ visit x j :: post

section Unvisited

/-- The empty itinerary visits nobody. -/
@[simp] theorem unvisited_nil : Unvisited ([] : List (Stop ι)) := by
  simp [Unvisited]

/-- A return home is no visit. -/
@[simp] theorem unvisited_home {W : List (Stop ι)} : Unvisited (home :: W) ↔ Unvisited W := by
  simp [Unvisited]

/-- Serving a copy is no visit. -/
@[simp] theorem unvisited_serve {W : List (Stop ι)} {i : ι} :
    Unvisited (serve i :: W) ↔ Unvisited W := by
  simp [Unvisited]

/-- A visit is a visit. -/
@[simp] theorem not_unvisited_visit {W : List (Stop ι)} {x : Bool} {i : ι} :
    ¬ Unvisited (visit x i :: W) := fun h => h x i List.mem_cons_self

/-- The parts of an itinerary without visits have none. -/
@[simp] theorem unvisited_append {W V : List (Stop ι)} :
    Unvisited (W ++ V) ↔ Unvisited W ∧ Unvisited V := by
  simp only [Unvisited, List.mem_append, not_or]
  exact ⟨fun h => ⟨fun x i => (h x i).1, fun x i => (h x i).2⟩, fun h x i => ⟨h.1 x i, h.2 x i⟩⟩

end Unvisited

section ServedAfter

/-- Without visits there is nothing to be served after. -/
theorem Unvisited.servedAfter {W : List (Stop ι)} (h : Unvisited W) (j : ι) : ServedAfter j W := by
  induction W with
  | nil => trivial
  | cons s W ih =>
    cases s with
    | visit x i => exact absurd h not_unvisited_visit
    | home => exact ih (unvisited_home.1 h)
    | serve i => exact ih (unvisited_serve.1 h)

/-- A client that is not served any more is served after no visit, so there is none. -/
theorem ServedAfter.unvisited {W : List (Stop ι)} {j : ι} (h : ServedAfter j W) (hj : serve j ∉ W) :
    Unvisited W := by
  induction W with
  | nil => simp
  | cons s W ih =>
    obtain ⟨-, hW⟩ : serve j ≠ s ∧ serve j ∉ W := by simpa using hj
    cases s with
    | visit x i => exact absurd h.1 hW
    | home => exact unvisited_home.2 (ih h hW)
    | serve i => exact unvisited_serve.2 (ih h hW)

/-- What was served after every visit still is once the head is done. -/
theorem ServedAfter.tail {W : List (Stop ι)} {j : ι} {s : Stop ι} (h : ServedAfter j (s :: W)) :
    ServedAfter j W := by
  cases s with
  | visit x i => exact h.2
  | home => exact h
  | serve i => exact h

/-- New stops without a visit keep the order. -/
theorem ServedAfter.append {W V : List (Stop ι)} {j : ι} (h : ServedAfter j W) (hV : Unvisited V) :
    ServedAfter j (W ++ V) := by
  induction W with
  | nil => exact hV.servedAfter j
  | cons s W ih =>
    cases s with
    | visit x i => exact ⟨List.mem_append_left V h.1, ih h.2⟩
    | home => exact ih h
    | serve i => exact ih h

/-- A client served at the end is served after every visit. -/
theorem servedAfter_append_of_mem {V : List (Stop ι)} {j : ι} (W : List (Stop ι)) (hV : Unvisited V)
    (hj : serve j ∈ V) : ServedAfter j (W ++ V) := by
  induction W with
  | nil => exact hV.servedAfter j
  | cons s W ih =>
    cases s with
    | visit x i => exact ⟨List.mem_append_right W hj, ih⟩
    | home => exact ih
    | serve i => exact ih

end ServedAfter

section FirstVisit

/-- Later stops do not change the first visit. -/
theorem FirstVisit.append {W : List (Stop ι)} {j : ι} (h : FirstVisit j W) (V : List (Stop ι)) :
    FirstVisit j (W ++ V) := by
  induction W with
  | nil => exact absurd h id
  | cons s W ih =>
    cases s with
    | visit x i => exact h
    | home => exact ih h
    | serve i => exact ih h

/-- The first visit stays the first when another stop is done. -/
theorem FirstVisit.tail {W : List (Stop ι)} {j : ι} {s : Stop ι} (h : FirstVisit j (s :: W))
    (hs : ∀ x, s ≠ visit x j) : FirstVisit j W := by
  cases s with
  | visit x i => exact absurd (congrArg (visit x) h) (hs x)
  | home => exact h
  | serve i => exact h

/-- After no visit, a new visit is the first. -/
theorem Unvisited.firstVisit {W : List (Stop ι)} (h : Unvisited W) (x : Bool) (j : ι)
    (V : List (Stop ι)) : FirstVisit j (W ++ visit x j :: V) := by
  induction W with
  | nil => rfl
  | cons s W ih =>
    cases s with
    | visit y i => exact absurd h not_unvisited_visit
    | home => exact ih (unvisited_home.1 h)
    | serve i => exact ih (unvisited_serve.1 h)

end FirstVisit

section Follows

/-- Later stops follow as well. -/
theorem Follows.append {W post : List (Stop ι)} {x : Bool} {j : ι} (h : Follows W x j post)
    (V : List (Stop ι)) : Follows (W ++ V) x j (post ++ V) := by
  obtain ⟨pre, rfl⟩ := h
  exact ⟨pre, by simp⟩

/-- Nothing follows a visit at the end. -/
theorem follows_append_self (W : List (Stop ι)) (x : Bool) (j : ι) : Follows (W ++ [visit x j]) x j [] :=
  ⟨W, rfl⟩

/-- What follows a visit is what followed it when another stop is done. -/
theorem Follows.tail {W post : List (Stop ι)} {x : Bool} {j : ι} {s : Stop ι}
    (h : Follows (s :: W) x j post) (hs : s ≠ visit x j) : Follows W x j post := by
  obtain ⟨pre, hW⟩ := h
  cases pre with
  | nil => exact absurd (List.cons.inj hW).1 hs
  | cons a pre => exact ⟨pre, (List.cons.inj hW).2⟩

/-- What follows the only visit at the head is the rest of the itinerary. -/
theorem Follows.eq_tail {W post : List (Stop ι)} {x : Bool} {j : ι}
    (h : Follows (visit x j :: W) x j post) (hj : visit x j ∉ W) : post = W := by
  obtain ⟨pre, hW⟩ := h
  cases pre with
  | nil => exact ((List.cons.inj hW).2).symm
  | cons a pre =>
    have hmem : visit x j ∈ W := by
      rw [(List.cons.inj hW).2]
      simp
    exact absurd hmem hj

/-- A visit nothing follows is the last stop. -/
theorem Follows.getLast? {W : List (Stop ι)} {x : Bool} {j : ι} (h : Follows W x j []) :
    W.getLast? = some (visit x j) := by
  obtain ⟨pre, rfl⟩ := h
  simp

end Follows

section Landing

variable [DecidableEq ι]

/-- Whether the token is on its way to a client, as a number. -/
def landing (place : Place) (W : List (Stop ι)) (x : Bool) (j : ι) : Nat :=
  if place = .flying ∧ W.head? = some (visit x j) then 1 else 0

/-- A token that is not flying is on its way to nobody. -/
theorem landing_eq_zero {place : Place} {W : List (Stop ι)} {x : Bool} {j : ι}
    (h : place = .flying → W.head? ≠ some (visit x j)) : landing place W x j = 0 := by
  rw [landing, if_neg]
  exact fun hc => h hc.1 hc.2

/-- Later stops do not change where the token is going, if it is going anywhere. -/
theorem landing_append {place : Place} {W : List (Stop ι)} (h : place = .home ∨ W ≠ []) (x : Bool)
    (j : ι) (V : List (Stop ι)) : landing place (W ++ V) x j = landing place W x j := by
  rcases h with rfl | h
  · simp [landing]
  · obtain ⟨s, W, rfl⟩ := List.exists_cons_of_ne_nil h
    rfl

/--
A client waits for its only visit: it is served no copy, and the tokens on their way to it,
counted by mark, are the one at the head of the itinerary.
-/
structure Awaits (place : Place) (W : List (Stop ι)) (x : Bool) (j : ι) (k : Bool → Nat) : Prop where
  serve_notMem : serve j ∉ W
  count : W.count (visit x j) = 1
  other : visit (!x) j ∉ W
  arriving : k x = landing place W x j
  arriving_other : k (!x) = 0
  not_held : place = .held → W.head? ≠ some (visit x j)

/-- A client waits to be served one copy, or one is on its way. -/
structure Reads (W : List (Stop ι)) (j : ι) (k : Bool → Nat) : Prop where
  count : k false + W.count (serve j) = 1
  arriving_other : k true = 0
  visit_notMem : ∀ x, visit x j ∉ W

/-- Stops for others keep a client waiting. -/
theorem Awaits.append {place : Place} {W V : List (Stop ι)} {x : Bool} {j : ι} {k : Bool → Nat}
    (h : Awaits place W x j k) (hV : ∀ y, visit y j ∉ V) (hs : serve j ∉ V) :
    Awaits place (W ++ V) x j k where
  serve_notMem := by simp [h.serve_notMem, hs]
  count := by rw [List.count_append, h.count, List.count_eq_zero.2 (hV x)]
  other := by simp [h.other, hV]
  arriving := by
    have hW : W ≠ [] := by
      rintro rfl
      simpa using h.count
    rw [landing_append (.inr hW), h.arriving]
  arriving_other := h.arriving_other
  not_held hp := by
    have hW : W ≠ [] := by
      rintro rfl
      simpa using h.count
    obtain ⟨s, W, rfl⟩ := List.exists_cons_of_ne_nil hW
    exact h.not_held hp

/-- Stops for others keep a client reading. -/
theorem Reads.append {W V : List (Stop ι)} {j : ι} {k : Bool → Nat} (h : Reads W j k)
    (hV : ∀ y, visit y j ∉ V) (hs : serve j ∉ V) : Reads (W ++ V) j k where
  count := by rw [List.count_append, List.count_eq_zero.2 hs, Nat.add_zero, h.count]
  arriving_other := h.arriving_other
  visit_notMem x := by simp [h.visit_notMem x, hV x]

/-- A client keeps waiting when another stop is done, with the token perhaps on its way now. -/
theorem Awaits.pop {place : Place} {W : List (Stop ι)} {x : Bool} {j : ι} {k k' : Bool → Nat}
    {s : Stop ι} (h : Awaits place (s :: W) x j k) (hs : ∀ y, s ≠ visit y j) (hp : place ≠ .held)
    (hk : ∀ y, k' y = k y + (if s = serve j ∧ y = false then 1 else 0) + landing place W y j) :
    Awaits place W x j k' where
  serve_notMem hmem := h.serve_notMem (List.mem_cons_of_mem s hmem)
  count := by
    have hcount := h.count
    rwa [List.count_cons_of_ne (hs x)] at hcount
  other hmem := h.other (List.mem_cons_of_mem s hmem)
  arriving := by
    have hserve : s ≠ serve j := fun heq => h.serve_notMem (by simp [heq])
    have hzero : k x = 0 := by
      rw [h.arriving]
      exact landing_eq_zero fun _ => by simpa using hs x
    rw [hk, hzero]
    simp [hserve]
  arriving_other := by
    have hserve : s ≠ serve j := fun heq => h.serve_notMem (by simp [heq])
    have hland : landing place W (!x) j = 0 := landing_eq_zero fun _ hhead =>
      h.other (List.mem_cons_of_mem s (List.mem_of_head? hhead))
    rw [hk, h.arriving_other, hland]
    simp [hserve]
  not_held hheld := absurd hheld hp

/-- A client keeps reading when another stop is done, and is served when it is its own. -/
theorem Reads.pop {place : Place} {W : List (Stop ι)} {j : ι} {k k' : Bool → Nat} {s : Stop ι}
    (h : Reads (s :: W) j k)
    (hk : ∀ y, k' y = k y + (if s = serve j ∧ y = false then 1 else 0) + landing place W y j) :
    Reads W j k' where
  count := by
    have hcount := h.count
    have hland : landing place W false j = 0 := landing_eq_zero fun _ hhead =>
      h.visit_notMem false (List.mem_cons_of_mem s (List.mem_of_head? hhead))
    rw [hk, hland]
    rw [List.count_cons] at hcount
    by_cases hs : s = serve j <;> simp [hs] at hcount ⊢ <;> omega
  arriving_other := by
    have hland : landing place W true j = 0 := landing_eq_zero fun _ hhead =>
      h.visit_notMem true (List.mem_cons_of_mem s (List.mem_of_head? hhead))
    rw [hk, hland, h.arriving_other]
    simp
  visit_notMem x hmem := h.visit_notMem x (List.mem_cons_of_mem s hmem)

/-- A client keeps waiting when the token changes its place, with the arrivals counted anew. -/
theorem Awaits.setPlace {place place' : Place} {W : List (Stop ι)} {x : Bool} {j : ι}
    {k k' : Bool → Nat} (h : Awaits place W x j k)
    (hheld : place' = .held → W.head? ≠ some (visit x j))
    (hk : ∀ y, k' y + landing place W y j = k y + landing place' W y j) : Awaits place' W x j k' where
  serve_notMem := h.serve_notMem
  count := h.count
  other := h.other
  arriving := by
    have harr := h.arriving
    have := hk x
    omega
  arriving_other := by
    have hland : ∀ p, landing p W (!x) j = 0 := fun p => landing_eq_zero fun _ hhead =>
      h.other (List.mem_of_head? hhead)
    have := hk (!x)
    rw [hland, hland, h.arriving_other] at this
    omega
  not_held := hheld

/-- A client keeps reading when the token changes its place. -/
theorem Reads.setPlace {place place' : Place} {W : List (Stop ι)} {j : ι} {k k' : Bool → Nat}
    (h : Reads W j k) (hk : ∀ y, k' y + landing place W y j = k y + landing place' W y j) :
    Reads W j k' := by
  have hland : ∀ p y, landing p W y j = 0 := fun p y => landing_eq_zero fun _ hhead =>
    h.visit_notMem y (List.mem_of_head? hhead)
  have heq : k' = k := by
    funext y
    have := hk y
    rw [hland, hland] at this
    omega
  rwa [heq]

/-- A client gets the copy it waits for. -/
theorem Reads.arrive {W : List (Stop ι)} {j : ι} {k k' : Bool → Nat} {x : Bool} (h : Reads W j k)
    (hk : ∀ y, k' y + (if x = y then 1 else 0) = k y) :
    x = false ∧ (∀ y, k' y = 0) ∧ serve j ∉ W := by
  have hcount := h.count
  have hfalse := hk false
  have htrue := hk true
  rw [h.arriving_other] at htrue
  cases x with
  | true => simp at htrue
  | false =>
    simp only [if_true, Bool.false_eq_true, if_false, Nat.add_zero] at hfalse htrue
    refine ⟨rfl, fun y => ?_, List.count_eq_zero.1 (by omega)⟩
    cases y <;> omega

/-- A client gets the token it waits for, which was on its way. -/
theorem Awaits.arrive {place : Place} {W : List (Stop ι)} {j : ι} {k k' : Bool → Nat} {x y : Bool}
    (h : Awaits place W y j k) (hk : ∀ y, k' y + (if x = y then 1 else 0) = k y) :
    x = y ∧ (∀ z, k' z = 0) ∧ place = .flying ∧
      ∃ V, W = visit y j :: V ∧ (∀ z, visit z j ∉ V) ∧ serve j ∉ V := by
  have hother := hk (!y)
  rw [h.arriving_other] at hother
  obtain rfl : x = y := by cases x <;> cases y <;> simp at hother ⊢
  have hmark := hk x
  rw [if_pos rfl, h.arriving] at hmark
  have hland : place = .flying ∧ W.head? = some (visit x j) := by
    by_contra hland
    rw [landing, if_neg hland] at hmark
    simp at hmark
  rw [landing, if_pos hland] at hmark
  obtain ⟨hplace, hhead⟩ := hland
  obtain ⟨V, rfl⟩ : ∃ V, W = visit x j :: V := by
    cases W with
    | nil => simp at hhead
    | cons a V => exact ⟨V, by simpa using hhead⟩
  have hcount := h.count
  have hvisit := h.other
  have hserve := h.serve_notMem
  simp only [List.count_cons_self, Nat.add_eq_right, List.count_eq_zero] at hcount
  simp only [List.mem_cons, not_or] at hvisit hserve
  refine ⟨rfl, fun z => ?_, hplace, V, rfl, fun z => ?_, hserve.2⟩
  · by_cases hz : z = x
    · subst hz
      omega
    · rw [Bool.eq_not_of_ne hz]
      omega
  · by_cases hz : z = x
    · rwa [hz]
    · rw [Bool.eq_not_of_ne hz]
      exact hvisit.2

end Landing

end Itinerary

end Octopus.Lib
