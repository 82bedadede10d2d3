import Octopus.Controller.EnvStep
import Octopus.Controller.PrivateCaches

/-!
# The bounds on what a cache keeps open

A cache counts the blocks with an outstanding miss against its registers when it admits a demand
request, and nothing when it moves a line to the write-back buffer. So both bounds hold along the
runs that do not take the ways around the check, or around the check that nothing calls.
-/

namespace Octopus

namespace CacheLines

variable {κ π : Type} (L : LineLogic κ π) (cfg : CacheConfig)

/-- The runs of a cache from its empty state. -/
def system : Lib.TransitionSystem (CacheController (CacheLines κ π)) ControllerLabel where
  init s := s = (core L cfg).start (start L)
  step s l s' := (core L cfg).step s l = some s'

/-- The lists of keys name the lines they are about. -/
structure Listed (e : CacheLines κ π) : Prop where
  nodup : e.pendingKeys.Nodup
  pending : ∀ key, key ∈ e.pendingKeys ↔ L.pending (e.line key) ≠ []
  array : ∀ key, L.location (e.line key) = some .array → key ∈ e.array
  pwb : ∀ key, L.location (e.line key) = some .pwb → key ∈ e.pwb

section Listed

variable {L cfg} {e : CacheLines κ π} {key : Nat} {o : Outcome κ π}

/-- A key is among the keys after it has entered, and only then. -/
theorem mem_setKey {keys : List Nat} {key x : Nat} {isIn : Bool} (hnodup : keys.Nodup) :
    x ∈ setKey keys key isIn ↔ if x = key then isIn = true else x ∈ keys := by
  rw [setKey]
  cases isIn
  · by_cases hx : x = key <;> simp [hnodup.mem_erase_iff, hx]
  · by_cases hx : x = key <;> by_cases hkey : key ∈ keys <;> simp [hx, hkey]

/-- Keys that name a line once still do. -/
theorem nodup_setKey {keys : List Nat} {key : Nat} {isIn : Bool} (hnodup : keys.Nodup) :
    (setKey keys key isIn).Nodup := by
  rw [setKey]
  split_ifs with hin hkey
  · exact hnodup
  · refine List.nodup_append.2 ⟨hnodup, List.nodup_singleton key, fun x hx y hy heq => hkey ?_⟩
    rw [← List.mem_singleton.1 hy, ← heq]
    exact hx
  · exact hnodup.erase key

/-- A key that enters is among the keys, with those that were. -/
theorem mem_setKey_true {keys : List Nat} {key x : Nat} (h : x = key ∨ x ∈ keys) : x ∈ setKey keys key true := by
  rw [setKey]
  by_cases hkey : key ∈ keys <;> grind

/-- A key that leaves takes no other along. -/
theorem mem_setKey_of_ne {keys : List Nat} {key x : Nat} {isIn : Bool} (hne : x ≠ key) (hx : x ∈ keys) :
    x ∈ setKey keys key isIn := by
  rw [setKey]
  split_ifs
  · exact hx
  · exact List.mem_append_left _ hx
  · exact (List.mem_erase_of_ne hne).2 hx

/-- Another key makes the list longer by one at most, and only if it enters. -/
theorem length_setKey {keys : List Nat} {key : Nat} {isIn : Bool} : (setKey keys key isIn).length ≤ keys.length ∨
    isIn = true ∧ key ∉ keys ∧ (setKey keys key isIn).length = keys.length + 1 := by
  rw [setKey]
  split_ifs with hin hkey
  · exact .inl le_rfl
  · exact .inr ⟨hin, hkey, by simp⟩
  · exact .inl List.length_erase_le

/-- An empty cache lists nothing. -/
theorem Listed.start : Listed L (start L) where
  nodup := List.nodup_nil
  pending key := by simp [CacheLines.start, L.pending_start]
  array key h := by simp [CacheLines.start, L.location_start] at h
  pwb key h := by simp [CacheLines.start, L.location_start] at h

/-- A line that enters the array. -/
theorem Listed.enterArray (h : ∀ x, x ≠ key → L.location (e.line x) = some .array → x ∈ e.array)
    (hnodup : e.pendingKeys.Nodup) (hpending : ∀ x, x ∈ e.pendingKeys ↔ L.pending (e.line x) ≠ [])
    (hpwb : ∀ x, L.location (e.line x) = some .pwb → x ∈ e.pwb) : Listed L (e.enterArray L cfg key) := by
  rw [CacheLines.enterArray]
  split
  · refine ⟨hnodup, hpending, fun x hx => ?_, hpwb⟩
    by_cases hkey : x = key
    · exact List.mem_append_right _ (by simp [hkey])
    · exact List.mem_append_left _ (h x hkey hx)
  · next v hv =>
    constructor
    · exact hnodup
    · intro x
      by_cases hx : x = v
      · simp [hx, L.pending_moveLine2WB, hpending]
      · simp [hx, hpending]
    · intro x harray
      by_cases hx : x = v
      · simp [hx, L.array_moveLine2WB] at harray
      · simp only [Function.update_of_ne hx] at harray
        by_cases hkey : x = key
        · exact List.mem_append_right _ (by simp [hkey])
        · exact List.mem_append_left _ ((List.mem_erase_of_ne hx).2 (h x hkey harray))
    · intro x hloc
      by_cases hx : x = v
      · exact mem_setKey_true (.inl hx)
      · simp only [Function.update_of_ne hx] at hloc
        exact mem_setKey_true (.inr (hpwb x hloc))

/-- A line after a message, put back. -/
theorem Listed.setLine (h : Listed L e) : Listed L (e.setLine L cfg key o) := by
  have hnodup := @nodup_setKey _ key (L.pending o.line != []) h.nodup
  have hpending : ∀ x, x ∈ setKey e.pendingKeys key (L.pending o.line != []) ↔
      L.pending (Function.update e.line key o.line x) ≠ [] := by
    intro x
    rw [mem_setKey h.nodup]
    by_cases hx : x = key <;> simp [hx, h.pending]
  have hpwb : ∀ x, L.location (Function.update e.line key o.line x) = some .pwb →
      x ∈ setKey e.pwb key (L.location o.line == some .pwb) := by
    intro x hx
    by_cases hkey : x = key
    · simp only [hkey, Function.update_self] at hx
      rw [hx]
      exact mem_setKey_true (.inl hkey)
    · simp only [Function.update_of_ne hkey] at hx
      exact mem_setKey_of_ne hkey (h.pwb x hx)
  have harray : ∀ x, x ≠ key → L.location (Function.update e.line key o.line x) = some .array → x ∈ e.array := by
    intro x hkey hx
    simp only [Function.update_of_ne hkey] at hx
    exact h.array x hx
  rw [CacheLines.setLine]
  dsimp only
  split_ifs with hloc hkey
  · refine ⟨hnodup, hpending, fun x hx => ?_, hpwb⟩
    by_cases heq : x = key
    · exact heq ▸ hkey
    · exact harray x heq hx
  · exact Listed.enterArray harray hnodup hpending hpwb
  · refine ⟨hnodup, hpending, fun x hx => ?_, hpwb⟩
    by_cases heq : x = key
    · simp only [heq, Function.update_self] at hx
      exact absurd hx hloc
    · exact (List.mem_erase_of_ne heq).2 (harray x heq hx)

/-- What a message leaves of the keys of the pending requests. -/
theorem pendingKeys_setLine :
    (e.setLine L cfg key o).pendingKeys = setKey e.pendingKeys key (L.pending o.line != []) := by
  have henter : ∀ e' : CacheLines κ π, (e'.enterArray L cfg key).pendingKeys = e'.pendingKeys := by
    intro e'
    rw [CacheLines.enterArray]
    split <;> rfl
  rw [CacheLines.setLine]
  dsimp only
  split_ifs
  · rfl
  · exact henter _
  · rfl

/-- The write-back buffer gets a line only when a line enters an array without room. -/
theorem pwb_setLine (h : Listed L e) (hpwb : L.location o.line = some .pwb → L.location (e.line key) = some .pwb) :
    (e.setLine L cfg key o).pwb.length ≤ e.pwb.length ∨
      L.location o.line = some .array ∧ L.location (e.line key) ≠ some .array ∧ (cfg.victim e.fills e.array key).isSome ∧
        (e.setLine L cfg key o).pwb.length ≤ e.pwb.length + 1 := by
  have hkeys : (setKey e.pwb key (L.location o.line == some .pwb)).length ≤ e.pwb.length := by
    rcases @length_setKey e.pwb key (L.location o.line == some .pwb) with hle | ⟨hin, hnot, -⟩
    · exact hle
    · exact absurd (h.pwb key (hpwb (by simpa using hin))) hnot
  rw [CacheLines.setLine]
  dsimp only
  split_ifs with hloc hkey
  · exact .inl hkeys
  · rw [CacheLines.enterArray]
    split
    · exact .inl hkeys
    · next v hv =>
      refine .inr ⟨hloc, fun harray => hkey (h.array key harray), by simpa using Option.isSome_of_eq_some hv, ?_⟩
      have hv' := @length_setKey (setKey e.pwb key (L.location o.line == some .pwb)) v true
      dsimp only
      omega
  · exact .inl hkeys

end Listed

/-- The invariant is kept by every step. -/
theorem listed_inductive : (system L cfg).Inductive fun s => Listed L s.env where
  init s hs := by
    rw [hs]
    exact Listed.start
  step s l s' _ h hstep := by
    have henv := ControllerCore.envStep hstep
    change Listed L s'.env
    generalize s'.env = e' at henv ⊢
    cases henv with
    | same => exact h
    | cycle => exact ⟨h.nodup, h.pending, h.array, h.pwb⟩
    | pendingWB hw =>
      obtain ⟨rest, rfl⟩ := addressOfLinePendingWB_eq_some hw
      exact ⟨h.nodup, h.pending, h.array, h.pwb⟩
    | message _ _ hr =>
      obtain ⟨o, -, rfl⟩ := processRequest_eq_ok hr
      exact h.setLine
    | actions _ hr =>
      obtain rfl | ⟨p, parked, o, -, -, -, rfl⟩ := fireActions_eq_ok hr
      · exact h
      · exact Listed.setLine ⟨h.nodup, h.pending, h.array, h.pwb⟩

/-- `pwbHasSpace`. -/
def pwbHasSpace (e : CacheLines κ π) : Bool := !cfg.m_pwb_size.any fun n => n ≤ e.pwb.length

/-- `fillWouldOverflowPwb`: the line waits in a holding register for a set without an empty way. -/
def fillWouldOverflowPwb (e : CacheLines κ π) (addr : Nat) : Bool :=
  !pwbHasSpace cfg e && L.location (e.line (getAddressKey cfg addr)) == some .mshr &&
    (cfg.victim e.fills e.array (getAddressKey cfg addr)).isSome

/-- Whether what a step carries out writes a block of bytes. -/
def writesBlock (e : CacheLines κ π) : DataArrayOpKind × Message → Bool
  | (.message, msg) => L.fills (e.line (getAddressKey cfg msg.addr)) msg
  | (.actions, msg) => ((e.parked (getAddressKey cfg msg.addr)).find? (L.parkedMsg · == msg)).any L.parkedFills

/-- A step fills a line that `fillWouldOverflowPwb` would hold back. -/
def overflows (s : CacheController (CacheLines κ π)) (l : ControllerLabel) : Bool :=
  ((core L cfg).carriesOut s l).any fun op => writesBlock L cfg s.env op && fillWouldOverflowPwb L cfg s.env op.2.addr

section Pwb

variable {L cfg} {e : CacheLines κ π} {m : Message} {r : Processed (CacheLines κ π)}

/-- A message or an access whose fill finds room keeps the bound. -/
theorem pwb_processed {key : Nat} {o : Outcome κ π} (h : Listed L e) (hbound : ∀ k ∈ cfg.m_pwb_size, e.pwb.length ≤ k)
    (hpwb : L.location o.line = some .pwb → L.location (e.line key) = some .pwb)
    (harray : L.location o.line = some .array → L.location (e.line key) ≠ some .array →
      (cfg.victim e.fills e.array key).isSome → pwbHasSpace cfg e = true) :
    ∀ k ∈ cfg.m_pwb_size, (e.setLine L cfg key o).pwb.length ≤ k := by
  intro k hk
  rcases pwb_setLine h hpwb with hle | ⟨hloc, hold, hvictim, hle⟩
  · exact hle.trans (hbound k hk)
  · have hspace := harray hloc hold hvictim
    have hlt : e.pwb.length < k := by simpa [pwbHasSpace, Option.mem_def.1 hk] using hspace
    omega

end Pwb

/--
The write-back buffer keeps its bound in every run in which no fill that would have to evict is
carried out while the buffer is full.
-/
theorem pwb_bounded {s : CacheController (CacheLines κ π)}
    (hr : ((system L cfg).restrict fun s l => overflows L cfg s l = false).Reachable s) :
    ∀ k ∈ cfg.m_pwb_size, s.env.pwb.length ≤ k := by
  induction hr with
  | init hinit =>
    intro k _
    rw [hinit]
    exact Nat.zero_le k
  | @step s s' l hr hstep ih =>
    have hlisted := (listed_inductive L cfg).reachable hr.of_restrict
    have henv := ControllerCore.envStep hstep.2
    have hguard := hstep.1
    generalize s'.env = e' at henv ⊢
    cases henv with
    | same => exact ih
    | cycle => exact ih
    | pendingWB hw =>
      obtain ⟨rest, rfl⟩ := addressOfLinePendingWB_eq_some hw
      exact ih
    | @message msg r hcarries _ hrun =>
      obtain ⟨o, ho, rfl⟩ := processRequest_eq_ok hrun
      refine pwb_processed hlisted ih (L.pwb_process ho) fun harray hold hvictim => ?_
      obtain ⟨hmshr, hfills⟩ := (L.array_process ho harray).resolve_left hold
      by_contra hfull
      simp [overflows, hcarries, writesBlock, fillWouldOverflowPwb, hmshr, hfills, hvictim, hfull] at hguard
    | @actions msg r hcarries hrun =>
      obtain rfl | ⟨p, parked, o, hp, -, ho, rfl⟩ := fireActions_eq_ok hrun
      · exact ih
      · refine @pwb_processed _ _ _ _ { s.env with parked := parked } _ _ ⟨hlisted.nodup, hlisted.pending, hlisted.array,
          hlisted.pwb⟩ ih (L.pwb_fire ho) fun harray hold hvictim => ?_
        obtain ⟨hmshr, hfills⟩ := (L.array_fire ho harray).resolve_left hold
        by_contra hfull
        have hfull' : pwbHasSpace cfg s.env = false := Bool.eq_false_iff.2 hfull
        simp only [overflows, hcarries, writesBlock, fillWouldOverflowPwb, hmshr, hp, Option.any_some, hfills,
          hfull', Bool.true_and, Bool.not_false] at hguard
        simp [hvictim] at hguard

/-- Whether a step is a round of the loop, which checks what it carries out. -/
def isIterate : ControllerLabel → Bool
  | .iterate => true
  | _ => false

/--
A step carries out a message that asks for a block which is not pending, while no register is free,
and which the step has not admitted as a demand request for a new line: the line is tracked, the
message is no demand request (a Store that carries its bytes), or it was deferred after its admission.
-/
def opensUnchecked (s : CacheController (CacheLines κ π)) (l : ControllerLabel) : Bool :=
  ((core L cfg).carriesOut s l).any fun op =>
    let c := s.env.line (getAddressKey cfg op.2.addr)
    op.1 == .message && L.asks c op.2 && !s.env.pendingKeys.contains (getAddressKey cfg op.2.addr) &&
      (cfg.m_num_mshr.any fun n => n ≤ s.env.pendingKeys.length) &&
      ((L.location c).isSome || !op.2.isDemandRequest || !isIterate l)

/-- The blocks with an outstanding miss keep their bound in every run without a step that opens one unchecked. -/
theorem pendingKeys_bounded {s : CacheController (CacheLines κ π)}
    (hr : ((system L cfg).restrict fun s l => opensUnchecked L cfg s l = false).Reachable s) :
    ∀ k ∈ cfg.m_num_mshr, s.env.pendingKeys.length ≤ k := by
  induction hr with
  | init hinit =>
    intro k _
    rw [hinit]
    exact Nat.zero_le k
  | @step s s' l hr hstep ih =>
    have hlisted := (listed_inductive L cfg).reachable hr.of_restrict
    have henv := ControllerCore.envStep hstep.2
    have hguard := hstep.1
    generalize s'.env = e' at henv ⊢
    cases henv with
    | same => exact ih
    | cycle => exact ih
    | pendingWB hw =>
      obtain ⟨rest, rfl⟩ := addressOfLinePendingWB_eq_some hw
      exact ih
    | @message msg r hcarries hadmit hrun =>
      obtain ⟨o, ho, rfl⟩ := processRequest_eq_ok hrun
      intro k hk
      change (setLine L cfg s.env (getAddressKey cfg msg.addr) o).pendingKeys.length ≤ k
      rw [pendingKeys_setLine]
      rcases @length_setKey s.env.pendingKeys (getAddressKey cfg msg.addr) (L.pending o.line != []) with hle | ⟨hin, hnot, hlength⟩
      · exact hle.trans (ih k hk)
      · rw [hlength]
        by_contra hfull
        have hfull' : k ≤ s.env.pendingKeys.length := by omega
        have hk' : cfg.m_num_mshr = some k := hk
        -- the block was not pending, so the row asks for it, and the check of the source has failed
        have hold : ¬ L.pending (s.env.line (getAddressKey cfg msg.addr)) ≠ [] := fun hne => hnot ((hlisted.pending _).2 hne)
        have hasks := (L.pending_process ho (by simpa using hin)).resolve_left hold
        have hchecked : (L.location (s.env.line (getAddressKey cfg msg.addr))).isSome = false ∧
            msg.isDemandRequest = true ∧ isIterate l = true := by
          simpa [opensUnchecked, hcarries, hasks, hk', hnot, hfull', and_assoc] using hguard
        have hadmitted := hadmit (by cases l <;> simp [isIterate] at hchecked ⊢)
        simp [ControllerCore.canAdmitRequest, core, hk', hchecked, hnot, hfull'] at hadmitted
    | @actions msg r hcarries hrun =>
      obtain rfl | ⟨p, parked, o, hp, -, ho, rfl⟩ := fireActions_eq_ok hrun
      · exact ih
      · intro k hk
        change (setLine L cfg { s.env with parked := parked } (getAddressKey cfg msg.addr) o).pendingKeys.length ≤ k
        rw [pendingKeys_setLine]
        rcases @length_setKey s.env.pendingKeys (getAddressKey cfg msg.addr) (L.pending o.line != []) with hle | ⟨hin, hnot, -⟩
        · exact hle.trans (ih k hk)
        · exact absurd ((hlisted.pending _).2 (L.pending_fire ho (by simpa using hin))) hnot

end CacheLines

end Octopus
