import Octopus.Lib.Itinerary
import Octopus.Snoop.Queue

/-!
# Phases of the controllers

An abstract view of a snooping protocol in which the data of the line is a token. A private
cache waits for the token, holds it, waits for a copy, or has nothing to do with it; the
last-level cache has it, fetches it, lets a private cache own it, or waits for it. The requests
in bus order fix the itinerary of the token. The laws say what a table must do with each event
in each phase; they are decidable facts about finite tables, and MSI and MESI both obey them.
-/

namespace Octopus.Snoop

open Lib Lib.Itinerary
open Lib.Stop (visit home serve)

/-- What a private cache does with the token once it has it. -/
inductive Plan
  /-- It keeps it. -/
  | keep
  /-- It returns it home and serves the parked reader, and keeps a copy. -/
  | downgrade
  /-- It returns it home and serves the parked reader. -/
  | passShared
  /-- It hands it to whom the parked request names. -/
  | pass
  deriving DecidableEq, Repr

/-- The plans are finitely many. -/
instance : Fintype Plan :=
  ⟨⟨[Plan.keep, .downgrade, .passShared, .pass], by decide⟩, fun p => by cases p <;> decide⟩

/-- What a private cache has to do with the token. -/
inductive Phase
  | idle
  | shared
  /-- It waits for a copy, which later requests may have made stale. -/
  | reader (current : Bool)
  /-- It waits for a copy or, if the last-level cache grants one, for the token. -/
  | reading (plan : Plan)
  /-- It waits for the token, and may have a copy to read from until then. -/
  | filling (readable : Bool) (plan : Plan)
  | holding
  /-- It holds the token, which the last-level cache has called back. -/
  | recalled
  | unreachable
  deriving DecidableEq, Repr

/-- What the last-level cache has to do with the token. -/
inductive HomePhase
  /-- It has the token; `free` if no private cache may have a copy, `valid` if the line is there. -/
  | resident (free valid : Bool)
  /-- It fetches the line to serve a reader. -/
  | fetchShared
  /-- It fetches the line for a cache that will hold the token. -/
  | fetchOwned (exclusive : Bool)
  | owned
  /-- It waits for the token; `free` and `dropped` say what it will be once it has it. -/
  | awaiting (free dropped : Bool)
  | unreachable
  deriving DecidableEq, Repr

/-- Who has the line once every request so far has been served. -/
inductive View
  | free
  | shared
  | own (i : Nat)
  deriving DecidableEq, Repr

namespace View

/-- The view of a last-level cache that has the token. -/
def resident (isFree : Bool) : View := if isFree then .free else .shared

/-- What a request does to the view, and the stops it adds to the itinerary. -/
def step (base : View) (v : View) (r : Req) : View × List (Stop Nat) :=
  if r.type = requestTypeGetS then
    match v with
    | .free => (.own r.owner, [visit true r.owner])
    | .shared => (.shared, [serve r.owner])
    | .own _ => (.shared, [serve r.owner, home])
  else if r.type = requestTypeGetM then (.own r.owner, [visit false r.owner])
  else if r.type = requestTypeInv then
    match v with
    | .own _ => (base, [home])
    | _ => (base, [])
  else if r.type = requestTypePutM ∧ v = .own r.owner then (base, [home])
  else (v, [])

/-- The view after the queued requests. -/
def after (base : View) : View → List HomeMsg → View
  | v, [] => v
  | v, .request r :: q => after base (step base v r).1 q
  | v, _ :: q => after base v q

/-- The stops the queued requests add to the itinerary. -/
def stops (base : View) : View → List HomeMsg → List (Stop Nat)
  | _, [] => []
  | v, .request r :: q => (step base v r).2 ++ stops base (step base v r).1 q
  | v, _ :: q => stops base v q

/-- The view names the last holder of an itinerary. -/
def Ends (v : View) (W : List (Stop Nat)) : Prop :=
  ∀ i, (∃ x, W.getLast? = some (visit x i)) ↔ v = .own i

end View

/--
What a cache that passes the token on does with it: the stops its parked request asks for. Only
a reader that was granted the token may have parked nothing.
-/
inductive Handoff (llc : Nat) : Bool → List Req → List (Stop Nat) → Prop
  | drop : Handoff llc true [] [home]
  | getS (x : Bool) (i : Nat) : Handoff llc x [⟨requestTypeGetS, i⟩] [serve i, home]
  | getM (x : Bool) (i : Nat) : Handoff llc x [⟨requestTypeGetM, i⟩] [visit false i]
  | inv (x : Bool) : Handoff llc x [⟨requestTypeInv, llc⟩] [home]

/-- The itinerary agrees with the plan of a cache that waits for the token. -/
def Plan.Ok (llc : Nat) (W : List (Stop Nat)) (x : Bool) (j : Nat) (saved : List Req) : Plan → Prop
  | .keep => saved = [] ∧ Follows W x j []
  | .downgrade => ∃ i post, saved = [⟨requestTypeGetS, i⟩] ∧
      Follows W x j (serve i :: home :: post) ∧ Unvisited post
  | .passShared => ∃ i post, saved = [⟨requestTypeGetS, i⟩] ∧ Follows W x j (serve i :: home :: post)
  | .pass => ∃ seg post, Handoff llc x saved seg ∧ Follows W x j (seg ++ post)

/-- Whether a plan leaves the cache with the line in the end. -/
def Plan.isCurrent : Plan → Bool
  | .keep | .downgrade => true
  | .passShared | .pass => false

/-- Whether a cache will have the line once every request so far has been served. -/
def Phase.isCurrent : Phase → Bool
  | .shared | .holding => true
  | .reader current => current
  | .reading plan | .filling _ plan => plan.isCurrent
  | .idle | .recalled | .unreachable => false

/-- The phase of cache `j` agrees with the itinerary and with the data on its way to it. -/
def Phase.Ok (llc : Nat) (place : Place) (W : List (Stop Nat)) (j : Nat) (k : Bool → Nat)
    (saved : List Req) : Phase → Prop
  | .idle => saved = [] ∧ (∀ x, k x = 0) ∧ (∀ x, visit x j ∉ W) ∧ serve j ∉ W
  | .shared => saved = [] ∧ (∀ x, k x = 0) ∧ serve j ∉ W ∧ Unvisited W
  | .reader current => saved = [] ∧ Reads W j k ∧ (current → ServedAfter j W)
  | .reading plan =>
    (Reads W j k ∧ (plan.isCurrent → ServedAfter j W) ∧ (plan = .keep → saved = [])) ∨
      (Awaits place W true j k ∧ plan.Ok llc W true j saved)
  | .filling readable plan =>
    Awaits place W false j k ∧ plan.Ok llc W false j saved ∧ (readable → FirstVisit j W)
  | .holding => saved = [] ∧ (∀ x, k x = 0) ∧ place = .held ∧ ∃ x, W = [visit x j]
  | .recalled => saved = [] ∧ (∀ x, k x = 0) ∧ place = .held ∧ serve j ∉ W ∧
      ∃ x post, W = visit x j :: home :: post ∧ ∀ y, visit y j ∉ post
  | .unreachable => False

/-- The data messages on their way to `d`, by mark. -/
def arriving (flight : List Supply) (d : Nat) (x : Bool) : Nat :=
  flight.countP fun f => f.dest = d ∧ f.exclusive = x

/-- The last-level cache agrees with the itinerary and with its pending read. -/
def HomePhase.Ok (base : View) (place : Place) (W : List (Stop Nat)) (v : View) (owner : Option Nat)
    (pending memory : List Nat) (queue : List HomeMsg) : HomePhase → Prop
  | .resident isFree _ => place = .home ∧ owner = none ∧ pending = [] ∧ memory = [] ∧
      W = View.stops base (.resident isFree) queue ∧ v = View.after base (.resident isFree) queue
  | .fetchShared => place = .home ∧ owner = none ∧ ∃ r, pending = [r] ∧ memory = [r] ∧
      W = serve r :: View.stops base .shared queue ∧ v = View.after base .shared queue
  | .fetchOwned x => place = .home ∧ ∃ o, owner = some o ∧ pending = [o] ∧ memory = [o] ∧
      W = visit x o :: View.stops base (.own o) queue ∧ v = View.after base (.own o) queue
  | .owned => place ≠ .home ∧ pending = [] ∧ memory = [] ∧ ∃ o x A, owner = some o ∧ home ∉ A ∧
      W = A ++ visit x o :: View.stops base (.own o) queue ∧ v = View.after base (.own o) queue
  | .awaiting isFree _ => place ≠ .home ∧ owner = none ∧ pending = [] ∧ memory = [] ∧
      ∃ A, home ∉ A ∧ W = A ++ home :: View.stops base (.resident isFree) queue ∧
        v = View.after base (.resident isFree) queue
  | .unreachable => False

/--
Where the line is and how many recalls are under way: replacements the last-level cache queued
and invalidations it issued.
-/
def HomePhase.Located (location : Option LineLocation) (recalls : Nat) : HomePhase → Prop
  | .resident _ false => location = none ∧ recalls = 0
  | .fetchShared | .fetchOwned _ => location = some .mshr ∧ recalls = 0
  | .resident _ true | .owned | .awaiting _ false =>
    location = some .array ∧ recalls = 0 ∨ location = some .pwb ∧ recalls = 1
  | .awaiting _ true => location = some .pwb ∧ recalls = 0
  | .unreachable => False

end Octopus.Snoop
