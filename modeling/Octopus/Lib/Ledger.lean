import Mathlib.Data.List.Basic
import Mathlib.Data.List.Perm.Basic

/-!
# Ledgers

Messages that wait in many buffers, sorted by kind, are counted as one multiset: the ledger of a
list of holders is a family of lists, one for each kind. What enters or leaves the buffers of one
holder enters or leaves the ledger. `Buffered` is the account of one receiver: by kind, what it
received is what was consumed and what its buffers hold.
-/

namespace Octopus.Lib

variable {ι κ α : Type*}

/-- What all holders have of each kind. -/
def ledger (has : ι → κ → List α) (holders : List ι) (k : κ) : List α :=
  holders.flatMap fun i => has i k

@[simp] theorem ledger_nil (has : ι → κ → List α) (k : κ) : ledger has [] k = [] := rfl

@[simp] theorem ledger_cons (has : ι → κ → List α) (i : ι) (holders : List ι) (k : κ) :
    ledger has (i :: holders) k = has i k ++ ledger has holders k := rfl

theorem ledger_append (has : ι → κ → List α) (first last : List ι) (k : κ) :
    ledger has (first ++ last) k = ledger has first k ++ ledger has last k := by
  simp [ledger]

/-- Holders of nothing. -/
theorem ledger_eq_nil {has : ι → κ → List α} {holders : List ι} (h : ∀ i ∈ holders, ∀ k, has i k = [])
    (k : κ) : ledger has holders k = [] :=
  List.flatMap_eq_nil_iff.2 fun i hi => h i hi k

/-- Holders that are exchanged for others with the same items keep the ledger. -/
theorem ledger_congr {has : ι → κ → List α} {holders holders' : List ι}
    (h : List.Forall₂ (fun i i' => ∀ k, has i' k = has i k) holders holders') (k : κ) :
    ledger has holders' k = ledger has holders k := by
  induction h with
  | nil => rfl
  | cons hfirst _ ih => rw [ledger_cons, ledger_cons, hfirst, ih]

/-- A family with one item. -/
def single [DecidableEq κ] (k : κ) (x : α) (other : κ) : List α :=
  if other = k then [x] else []

/-- The second family has what the first has and new items, in any order. -/
def Adds (f g new : κ → List α) : Prop :=
  ∀ k, (g k).Perm (f k ++ new k)

variable {f g new : κ → List α}

/-- What is added to some of the kinds. -/
theorem Adds.flatMap (h : Adds f g new) (kinds : List κ) :
    (kinds.flatMap g).Perm (kinds.flatMap f ++ kinds.flatMap new) := by
  induction kinds with
  | nil => exact .nil
  | cons k rest ih =>
    simp only [List.flatMap_cons]
    refine ((h k).append ih).trans ?_
    simp only [List.append_assoc]
    refine List.Perm.append_left _ ?_
    rw [← List.append_assoc, ← List.append_assoc]
    exact List.perm_append_comm.append_right _

/-- What is added to one holder is added to the ledger. -/
theorem Adds.set {has : ι → κ → List α} {holders : List ι} {n : Nat} {i i' : ι} (hn : holders[n]? = some i)
    (h : Adds (has i) (has i') new) : Adds (ledger has holders) (ledger has (holders.set n i')) new := by
  intro k
  obtain ⟨hlt, rfl⟩ := List.getElem?_eq_some_iff.1 hn
  obtain ⟨first, last, hsplit, -, hset⟩ := @List.exists_of_set _ n i' holders hlt
  rw [hset]
  conv_rhs => rw [hsplit]
  rw [ledger_append, ledger_append, ledger_cons, ledger_cons, List.append_assoc]
  refine List.Perm.append_left _ (((h k).append_right _).trans ?_)
  rw [List.append_assoc, List.append_assoc]
  exact List.perm_append_comm.append_left _

/-- What one holder loses, the ledger loses. -/
theorem Adds.set_left {has : ι → κ → List α} {holders : List ι} {n : Nat} {i i' : ι}
    (hn : holders[n]? = some i) (h : Adds (has i') (has i) new) :
    Adds (ledger has (holders.set n i')) (ledger has holders) new := by
  obtain ⟨hlt, rfl⟩ := List.getElem?_eq_some_iff.1 hn
  have hback : (holders.set n i')[n]? = some i' := List.getElem?_set_self hlt
  have hadds := Adds.set hback h
  rwa [List.set_set, List.set_getElem_self] at hadds

/-- Of every kind, what was received is what was consumed, in order, and what waits in a buffer. -/
def Buffered [DecidableEq κ] (kind : α → κ) (received consumed : List α) (buffer : κ → List α) : Prop :=
  ∀ k, received.filter (fun x => kind x == k) = consumed.filter (fun x => kind x == k) ++ buffer k

section Buffered

variable [DecidableEq κ] {kind : α → κ} {received consumed : List α} {buffer buffer' : κ → List α}

/-- What waits in a buffer is of its kind. -/
theorem Buffered.kind_of_mem (h : Buffered kind received consumed buffer) {k : κ} {x : α}
    (hx : x ∈ buffer k) : kind x = k := by
  have hmem : x ∈ received.filter fun x => kind x == k := by
    rw [h k]
    exact List.mem_append_right _ hx
  simpa using (List.mem_filter.1 hmem).2

/-- What is received enters the end of the buffer of its kind. -/
theorem Buffered.push (h : Buffered kind received consumed buffer) {x : α}
    (hbuffer : ∀ k, buffer' k = buffer k ++ if k = kind x then [x] else []) :
    Buffered kind (received ++ [x]) consumed buffer' := by
  intro k
  rw [hbuffer, List.filter_append, h k, List.append_assoc]
  by_cases hk : k = kind x
  · simp [hk]
  · simp [hk, Ne.symm hk]

/-- What is consumed leaves the front of one buffer. -/
theorem Buffered.pop (h : Buffered kind received consumed buffer) (popped : κ)
    (hbuffer : ∀ k, buffer' k = if k = popped then (buffer popped).tail else buffer k) :
    Buffered kind received (consumed ++ (buffer popped).head?.toList) buffer' := by
  intro k
  rw [hbuffer, h k]
  have hkind : ∀ x ∈ buffer popped, kind x = popped := fun x => h.kind_of_mem
  cases hwaiting : buffer popped with
  | nil =>
    by_cases heq : k = popped
    · simp [heq, hwaiting]
    · simp [heq]
  | cons x rest =>
    have hx := hkind x (by simp [hwaiting])
    by_cases heq : k = popped
    · simp [heq, hwaiting, hx]
    · simp [heq, hx, Ne.symm heq]

end Buffered

/-- Exchanging one element of a list relates the lists pointwise. -/
theorem forall₂_set {R : ι → ι → Prop} (hrefl : ∀ i, R i i) {l : List ι} {n : Nat} {i i' : ι}
    (hn : l[n]? = some i) (h : R i i') : List.Forall₂ R l (l.set n i') := by
  induction l generalizing n with
  | nil => simp at hn
  | cons first rest ih =>
    cases n with
    | zero =>
      obtain rfl : first = i := by simpa using hn
      exact .cons h (List.forall₂_same.2 fun i _ => hrefl i)
    | succ n => exact .cons (hrefl first) (ih (by simpa using hn))

end Octopus.Lib
