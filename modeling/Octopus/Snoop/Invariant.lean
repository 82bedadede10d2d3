import Octopus.Snoop.PhaseSteps

/-!
# The token invariant

A state of the skeleton has a token: a place, an itinerary and a view. Every controller's phase
agrees with it, the data messages in flight are those it accounts for, and each private cache has
exactly the requests on the bus that its state says.
-/

namespace Octopus.Snoop

open Lib Lib.Itinerary
open Lib.Stop (visit home serve)

variable {σ τ : Type} {n : Nat}

/-- Where the line's data is, where it will go, and who has it in the end. -/
structure Token where
  place : Place
  route : List (Stop Nat)
  view : View

/-- A message that waits in the queue of the last-level cache between two steps. -/
def QueueOk (n llc : Nat) (m : HomeMsg) : Prop :=
  m = .replacement ∨ m = .request ⟨requestTypeInv, llc⟩ ∨
    ∃ i < n, m = .request ⟨requestTypeGetS, i⟩ ∨ m = .request ⟨requestTypeGetM, i⟩

/-- The recalls under way: queued replacements, and invalidations queued or on the bus. -/
def recalls (llc : Nat) (queue : List HomeMsg) (bus : List Req) : Nat :=
  queue.count .replacement + queue.count (.request ⟨requestTypeInv, llc⟩) + bus.count ⟨requestTypeInv, llc⟩

/-- The private caches agree with the token. -/
structure CoresOk (ph : Phases σ τ) (llc : Nat) (t : Token) (core : Fin n → Core σ)
    (flight : List Supply) : Prop where
  phase : ∀ i : Fin n,
    (ph.core (core i).state).Ok llc t.place t.route i (arriving flight i) (core i).saved
  /-- Nobody has a line the view says nobody has, and the owner has it alone. -/
  alone : ∀ i : Fin n, (ph.core (core i).state).isCurrent →
    t.view ≠ .free ∧ ∀ o, t.view = .own o → o = i

/-- The bus holds the requests that the states of the private caches account for. -/
structure BusOk (ph : Phases σ τ) (llc : Nat) (core : Fin n → Core σ) (bus : List Req) : Prop where
  pending : ∀ i : Fin n,
    bus.filter (·.owner = (i : Nat)) = (ph.pending (core i).state).toList.map fun type => ⟨type, i⟩
  owner : ∀ r ∈ bus, r.owner < n ∨ r = ⟨requestTypeInv, llc⟩

/-- The token itself: where it may be, and what is on its way. -/
structure TokenOk (ph : Phases σ τ) (n llc : Nat) (t : Token) (flight : List Supply) : Prop where
  head : match t.place with
    | .home => True
    | .flying => (∃ V, t.route = home :: V) ∨ ∃ x b V, t.route = visit x b :: V
    | .held => ∃ x b V, t.route = visit x b :: V
  homeArriving : arriving flight llc false + arriving flight llc true =
    if t.place = .flying ∧ t.route.head? = some home then 1 else 0
  /-- A data message that grants the token to a reader names it as its owner. -/
  exclusive : ∀ f ∈ flight, f.exclusive → f.dest = llc ∨ f.dest = f.owner
  free : t.view = .free → ph.grantsExclusive
  bound : ∀ x i, visit x i ∈ t.route → i < n
  bound_serve : ∀ i, serve i ∈ t.route → i < n

/-- The state of the skeleton agrees with the token. -/
structure TokenInv (ph : Phases σ τ) (llc : Nat) (t : Token) (s : Skeleton n σ τ) : Prop where
  token : TokenOk ph n llc t s.flight
  cores : CoresOk ph llc t s.core s.flight
  home : (ph.home s.home.state).Ok ph.base t.place t.route t.view s.home.owner s.home.pending s.memory
    s.queue
  located : (ph.home s.home.state).Located s.home.location (recalls llc s.queue s.bus)
  queue : ∀ m ∈ s.queue, QueueOk n llc m
  bus : BusOk ph llc s.core s.bus
  waiting : ∀ i, s.waiting i = []

section Counting

variable {flight flight' : List Supply} {d : Nat} {x : Bool}

/-- Data messages in two lists. -/
@[simp] theorem arriving_append : arriving (flight ++ flight') d x = arriving flight d x + arriving flight' d x := by
  simp [arriving, List.countP_append]

/-- No data message. -/
@[simp] theorem arriving_nil : arriving [] d x = 0 := rfl

/-- One data message. -/
@[simp] theorem arriving_cons (f : Supply) :
    arriving (f :: flight) d x =
      arriving flight d x + if f.dest = d ∧ f.exclusive = x then 1 else 0 := by
  simp [arriving, List.countP_cons]

/-- Taking one data message out of those in flight. -/
theorem arriving_eraseIdx {k : Nat} {f : Supply} (hf : flight[k]? = some f) (d : Nat) (x : Bool) :
    arriving (flight.eraseIdx k) d x + (if f.dest = d ∧ f.exclusive = x then 1 else 0) =
      arriving flight d x := by
  obtain ⟨hk, rfl⟩ := List.getElem?_eq_some_iff.1 hf
  have hperm := (List.getElem_cons_eraseIdx_perm hk).countP_eq (fun f => f.dest = d ∧ f.exclusive = x)
  rw [List.countP_cons] at hperm
  simpa [arriving] using hperm

end Counting

section Views

variable {base v : View} {W : List (Stop Nat)} {q : List HomeMsg}

/-- A request the last-level cache may queue. -/
theorem View.after_append (base v : View) (q : List HomeMsg) (r : Req) :
    View.after base v (q ++ [.request r]) = (View.step base (View.after base v q) r).1 := by
  induction q generalizing v with
  | nil => rfl
  | cons m q ih => cases m <;> exact ih _

/-- The stops a new request at the end of the queue adds. -/
theorem View.stops_append (base v : View) (q : List HomeMsg) (r : Req) :
    View.stops base v (q ++ [.request r]) =
      View.stops base v q ++ (View.step base (View.after base v q) r).2 := by
  induction q generalizing v with
  | nil => simp [View.stops, View.after]
  | cons m q ih =>
    cases m with
    | request r' => simp [View.stops, View.after, ih]
    | _ => exact ih v

/-- A replacement does not change the view. -/
theorem View.after_replacement (base v : View) (pre post : List HomeMsg) :
    View.after base v (pre ++ .replacement :: post) = View.after base v (pre ++ post) := by
  induction pre generalizing v with
  | nil => rfl
  | cons m q ih => cases m <;> exact ih _

/-- A replacement adds no stop. -/
theorem View.stops_replacement (base v : View) (pre post : List HomeMsg) :
    View.stops base v (pre ++ .replacement :: post) = View.stops base v (pre ++ post) := by
  induction pre generalizing v with
  | nil => rfl
  | cons m q ih =>
    cases m with
    | request r => simp [View.stops, ih]
    | _ => exact ih v

/-- Messages that are not requests neither change the view nor add stops. -/
theorem View.replacements {pre : List HomeMsg} (hpre : ∀ m ∈ pre, m = .replacement)
    (base v : View) (post : List HomeMsg) :
    View.after base v (pre ++ post) = View.after base v post ∧
      View.stops base v (pre ++ post) = View.stops base v post := by
  induction pre with
  | nil => exact ⟨rfl, rfl⟩
  | cons m pre ih =>
    obtain rfl := hpre m List.mem_cons_self
    exact ih fun x hx => hpre x (List.mem_cons_of_mem _ hx)

/-- A view that ends an itinerary still does after a request. -/
theorem View.Ends.step (h : v.Ends W) (hbase : ∀ i, base ≠ .own i) (r : Req) :
    (View.step base v r).1.Ends (W ++ (View.step base v r).2) := by
  intro i
  simp only [View.step]
  split_ifs with hS hM hI hP
  · cases v <;> simp
  · simp
  · cases v with
    | own o => simpa using fun heq => hbase i heq
    | _ =>
      have hi := h i
      simp only [reduceCtorEq, iff_false] at hi
      simpa [hi] using fun heq => hbase i heq
  · simpa using fun heq => hbase i heq
  · simpa using h i

/-- The view that ends an itinerary ends it after the queued requests too. -/
theorem View.Ends.after (h : v.Ends W) (hbase : ∀ i, base ≠ .own i) (q : List HomeMsg) :
    (View.after base v q).Ends (W ++ View.stops base v q) := by
  induction q generalizing v W with
  | nil => simpa [View.after, View.stops] using h
  | cons m q ih =>
    cases m with
    | request r =>
      rw [View.after, View.stops, ← List.append_assoc]
      exact ih (h.step hbase r)
    | _ => exact ih h

/-- The last-level cache's phase fixes who is last in the itinerary. -/
theorem HomePhase.Ok.ends {p : HomePhase} {place : Place} {owner : Option Nat} {pending memory : List Nat}
    (h : p.Ok base place W v owner pending memory q) (hbase : ∀ i, base ≠ .own i) : v.Ends W := by
  have hresident : ∀ isFree, (View.resident isFree).Ends [] := by
    intro isFree i
    cases isFree <;> simp [View.resident]
  have hhome : ∀ isFree A, (View.resident isFree).Ends (A ++ [home]) := by
    intro isFree A i
    cases isFree <;> simp [View.resident]
  have hown : ∀ x o A, (View.own o).Ends (A ++ [visit x o]) := by
    intro x o A i
    simp
  cases p with
  | resident isFree valid =>
    obtain ⟨-, -, -, -, rfl, rfl⟩ := h
    exact (hresident isFree).after hbase q
  | fetchShared =>
    obtain ⟨-, -, r, -, -, rfl, rfl⟩ := h
    have hserve : View.shared.Ends [serve r] := fun i => by simp
    exact hserve.after hbase q
  | fetchOwned x =>
    obtain ⟨-, o, -, -, -, rfl, rfl⟩ := h
    exact (hown x o []).after hbase q
  | owned =>
    obtain ⟨-, -, -, o, x, A, -, -, rfl, rfl⟩ := h
    simpa using (hown x o A).after hbase q
  | awaiting isFree dropped =>
    obtain ⟨-, -, -, -, A, -, rfl, rfl⟩ := h
    simpa using (hhome isFree A).after hbase q
  | unreachable => exact absurd h id

/-- The view of a line nobody has names no owner. -/
theorem Phases.base_ne_own (ph : Phases σ τ) (i : Nat) : ph.base ≠ .own i := by
  rw [Phases.base, View.resident]
  split <;> simp

end Views

end Octopus.Snoop
