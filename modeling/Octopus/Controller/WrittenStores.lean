import Octopus.Controller.ArrayAccesses
import Octopus.Controller.Registers
import Octopus.Controller.StoreRows

/-!
# The stores of a private cache

In the occupancy model with the line interlock a message whose row touches the array runs while the
array is open, and no access to its line waits then. So every store that is answered is in its line,
as long as no row closes the array before it writes its store.
-/

namespace Octopus

namespace CacheLines

open ControllerCore

variable {κ π : Type} (L : LineLogic κ π) (cfg : CacheConfig)

/-- Whatever a line has parked is on the list of the data array, on which a deferred message is alone. -/
structure Aligned (e : CacheLines κ π) (ops : List DataArrayOp) : Prop where
  alone : (core L cfg).Alone ops
  key : ∀ key, ∀ p ∈ e.parked key, getAddressKey cfg (L.parkedMsg p).addr = key
  count : ∀ m, (e.parked (getAddressKey cfg m.addr)).countP (L.parkedMsg · == m) ≤ ops.count ⟨.actions, m⟩

section Aligned

variable {L cfg} {e : CacheLines κ π} {ops pre post : List DataArrayOp} {op : DataArrayOp} {o : Outcome κ π} {key : Nat}
  {m : Message}

/-- A line without an access on the list has parked nothing. -/
theorem Aligned.parked_eq_nil (h : Aligned L cfg e ops) {addr : Nat} (hfree : (core L cfg).Free ops addr) :
    e.parked (getAddressKey cfg addr) = [] := by
  refine List.eq_nil_iff_forall_not_mem.2 fun p hp => ?_
  have hkey := h.key _ p hp
  have hcount := h.count (L.parkedMsg p)
  rw [hkey] at hcount
  have hpos : 0 < (e.parked (getAddressKey cfg addr)).countP (L.parkedMsg · == L.parkedMsg p) :=
    List.countP_pos_iff.2 ⟨p, hp, by simp⟩
  have hmem : ⟨.actions, L.parkedMsg p⟩ ∈ ops := List.count_pos_iff.1 (Nat.lt_of_lt_of_le hpos hcount)
  exact hfree _ hmem hkey

/-- A message leaves the list. -/
theorem Aligned.remove_message (h : Aligned L cfg e (pre ++ op :: post)) (hkind : op.kind = .message) :
    Aligned L cfg e (pre ++ post) where
  alone := h.alone.remove
  key := h.key
  count m := by
    have hne : op ≠ ⟨.actions, m⟩ := by
      rintro rfl
      simp at hkind
    simpa [List.count_append, List.count_cons, hne] using h.count m

/-- What is parked on a line after a message. -/
theorem parked_setLine : (e.setLine L cfg key o).parked = Function.update e.parked key (e.parked key ++ o.parked) := by
  have henter : ∀ e' : CacheLines κ π, (e'.enterArray L cfg key).parked = e'.parked := by
    intro e'
    rw [CacheLines.enterArray]
    split <;> rfl
  rw [CacheLines.setLine]
  dsimp only
  split_ifs
  · rfl
  · exact henter _
  · rfl

/-- What a message leaves of the array. -/
theorem data_setLine : (e.setLine L cfg key o).data = o.array := by
  have henter : ∀ e' : CacheLines κ π, (e'.enterArray L cfg key).data = e'.data := by
    intro e'
    rw [CacheLines.enterArray]
    split <;> rfl
  rw [CacheLines.setLine]
  dsimp only
  split_ifs
  · rfl
  · exact henter _
  · rfl

/-- What a message or an access parks is parked on its line, and on the list. -/
theorem Aligned.park (h : Aligned L cfg e ops) (hparked : ∀ p ∈ o.parked, getAddressKey cfg (L.parkedMsg p).addr = key)
    (halone : (core L cfg).Alone (ops ++ (o.parked.map L.parkedMsg).map fun m => ⟨.actions, m⟩)) :
    Aligned L cfg (e.setLine L cfg key o) (ops ++ (o.parked.map L.parkedMsg).map fun m => ⟨.actions, m⟩) where
  alone := halone
  key := by
    rw [parked_setLine]
    intro x p hp
    by_cases hx : x = key
    · subst hx
      rw [Function.update_self, List.mem_append] at hp
      exact hp.elim (h.key x p) (hparked p)
    · rw [Function.update_of_ne hx] at hp
      exact h.key x p hp
  count m := by
    have hnew : ((o.parked.map L.parkedMsg).map fun m => (⟨.actions, m⟩ : DataArrayOp)).count ⟨.actions, m⟩ =
        o.parked.countP (L.parkedMsg · == m) := by
      rw [List.map_map, List.count_eq_countP, List.countP_map]
      refine List.countP_congr fun p _ => ?_
      simp
    rw [parked_setLine, List.count_append, hnew]
    have hold := h.count m
    by_cases hkey : getAddressKey cfg m.addr = key
    · rw [hkey] at hold ⊢
      rw [Function.update_self, List.countP_append]
      omega
    · rw [Function.update_of_ne hkey]
      omega

/-- A completed access, with what it takes from the parked ones of its line. -/
theorem fireActions_parked {r : Processed (CacheLines κ π)} (h : e.fireActions L cfg m = .ok r) :
    (r = ⟨e, [], []⟩ ∧ (e.parked (getAddressKey cfg m.addr)).countP (L.parkedMsg · == m) = 0) ∨
      ∃ p pre post o, e.parked (getAddressKey cfg m.addr) = pre ++ p :: post ∧
        (e.parked (getAddressKey cfg m.addr)).find? (L.parkedMsg · == m) = some p ∧ L.parkedMsg p = m ∧
        L.fire e.data (e.line (getAddressKey cfg m.addr)) p = .ok o ∧
        r = ({ e with parked := Function.update e.parked (getAddressKey cfg m.addr) (pre ++ post) } :
          CacheLines κ π).processed L cfg (getAddressKey cfg m.addr) o := by
  rw [fireActions] at h
  split at h
  · next hnone =>
    refine .inl ⟨(Except.ok.inj h).symm, List.countP_eq_zero.2 fun p hp => ?_⟩
    simpa using List.find?_eq_none.1 hnone p hp
  · next p hp =>
    right
    obtain ⟨hmatch, pre, post, hsplit, hbefore⟩ := List.find?_eq_some_iff_append.1 hp
    obtain ⟨o, ho, rfl⟩ := Lib.map_eq_ok.1 h
    have herase : (e.parked (getAddressKey cfg m.addr)).eraseP (L.parkedMsg · == m) = pre ++ post := by
      rw [hsplit, List.eraseP_append_right _ fun b hb => by simpa using hbefore b hb]
      exact congrArg (pre ++ ·) (List.eraseP_cons_of_pos hmatch)
    exact ⟨p, pre, post, o, hsplit, hp, by simpa using hmatch, ho, by rw [herase]⟩

/-- A step keeps the parked accesses and the list aligned. -/
theorem Aligned.step {s : CacheController (CacheLines κ π)} {l : ControllerLabel} {e' : CacheLines κ π}
    {ops' : List DataArrayOp} (hlock : cfg.array.m_line_interlock = true) (h : Aligned L cfg s.env s.m_array_ops)
    (hstep : (core L cfg).AccessStep s l e' ops') : Aligned L cfg e' ops' := by
  have halone := hstep.alone hlock h.alone
  cases hstep with
  | same => exact h
  | cycle => exact ⟨h.alone, h.key, h.count⟩
  | pendingWB _ hw =>
    obtain ⟨rest, rfl⟩ := addressOfLinePendingWB_eq_some hw
    exact ⟨h.alone, h.key, h.count⟩
  | deferred =>
    refine ⟨halone, h.key, fun m => (h.count m).trans ?_⟩
    rw [List.count_append]
    exact Nat.le_add_right _ _
  | processed _ _ _ _ hr =>
    obtain ⟨o, ho, rfl⟩ := processRequest_eq_ok hr
    exact h.park (fun p hp => by rw [L.parked_addr ho p hp]) halone
  | putBack _ hkind hops =>
    rw [hops] at h
    exact h.remove_message hkind
  | fired _ _ hkind _ hops hr =>
    rw [hops] at h
    obtain ⟨o, ho, rfl⟩ := processRequest_eq_ok hr
    exact (h.remove_message hkind).park (fun p hp => by rw [L.parked_addr ho p hp]) halone
  | @completed pre post op r _ _ hkind hops hr =>
    obtain ⟨kind, m⟩ := op
    obtain rfl : kind = .actions := hkind
    rw [hops] at h
    -- the access leaves the list, and the parked one leaves its line
    have hcount : ∀ m', (pre ++ ⟨.actions, m⟩ :: post).count ⟨.actions, m'⟩ =
        (pre ++ post).count ⟨.actions, m'⟩ + if m = m' then 1 else 0 := by
      intro m'
      by_cases hm : m = m' <;> simp [List.count_append, hm]; omega
    obtain ⟨rfl, hnone⟩ | ⟨p, before, behind, o, hsplit, -, hmsg, ho, rfl⟩ := fireActions_parked hr
    · refine ⟨halone, h.key, fun m' => ?_⟩
      have hold := h.count m'
      rw [hcount] at hold
      simp only [List.map_nil, List.append_nil]
      by_cases hm : m = m'
      · rw [← hm, hnone]
        exact Nat.zero_le _
      · simpa [hm] using hold
    · have hmid : Aligned L cfg { s.env with
          parked := Function.update s.env.parked (getAddressKey cfg m.addr) (before ++ behind) } (pre ++ post) := by
        refine ⟨h.alone.remove, fun x q hq => ?_, fun m' => ?_⟩
        · by_cases hx : x = getAddressKey cfg m.addr
          · subst hx
            simp only [Function.update_self] at hq
            refine h.key _ q ?_
            rw [hsplit]
            exact ((List.Sublist.refl before).append (List.sublist_cons_self p behind)).mem hq
          · simp only [Function.update_of_ne hx] at hq
            exact h.key x q hq
        · have hold := h.count m'
          rw [hcount] at hold
          by_cases hx : getAddressKey cfg m'.addr = getAddressKey cfg m.addr
          · simp only [hx, Function.update_self]
            rw [hx, hsplit] at hold
            simp only [List.countP_append, List.countP_cons, hmsg, beq_iff_eq] at hold ⊢
            split_ifs at hold <;> omega
          · simp only [Function.update_of_ne hx]
            have hm : m ≠ m' := fun hm => hx (by rw [hm])
            simpa [hm] using hold
      exact hmid.park (fun q hq => by rw [L.fired_addr ho q hq, hmsg]) halone

end Aligned

end CacheLines

namespace L1Protocol

open CacheLines ControllerCore LineController

variable {σ : Type} (P : L1Protocol σ) (hP : P.HasRows) (cfg : CacheConfig)

/-- The lines of a private cache. -/
abbrev cacheLogic : LineLogic (LineController σ) ParkedAction := (P.lines hP cfg.controller cfg.array).logic

/-- The line of a message. -/
def lineOf (e : CacheLines (LineController σ) ParkedAction) (m : Message) : LineController σ :=
  e.line (getAddressKey cfg m.addr)

/-- The row of a message in the state of its line. -/
def rowOf (e : CacheLines (LineController σ) ParkedAction) (m : Message) : Except Exit (List (ControllerAction σ)) :=
  P.processRequest cfg.controller ((lineOf cfg e m).slot.readLineBits P.initial) m

/-- An access that completes finds the array open, or its line in a register; the loop checks for itself. -/
def findsReady (s : CacheController (CacheLines (LineController σ) ParkedAction)) (l : ControllerLabel) : Bool :=
  isIterate l || ((core (P.cacheLogic hP cfg) cfg).carriesOut s l).all fun op =>
    (lineOf cfg s.env op.2).slot.isReady cfg.array s.env.data

/-- A step carries out a row that closes the array before its store, or that misnames one. -/
def losesStore (s : CacheController (CacheLines (LineController σ) ParkedAction)) (l : ControllerLabel) : Bool :=
  match (core (P.cacheLogic hP cfg) cfg).carriesOut s l with
  | some (.message, m) => (P.rowOf cfg s.env m).toOption.any fun as =>
    (lineOf cfg s.env m).closesArrayOnStore cfg.controller cfg.array as || (lineOf cfg s.env m).misnamesStore as
  | _ => false

/--
What a step owes to the stores of a line that stays: a message runs when no access to its line waits,
and what a row or a completed access answers or drops is written.
-/
structure WritesStores (s : CacheController (CacheLines (LineController σ) ParkedAction)) (l : ControllerLabel) : Prop where
  message : ∀ m, (core (P.cacheLogic hP cfg) cfg).carriesOut s l = some (.message, m) →
    s.env.parked (getAddressKey cfg m.addr) = [] ∧
      ∀ as o, P.rowOf cfg s.env m = .ok as → (P.cacheLogic hP cfg).process s.env.data (lineOf cfg s.env m) m = .ok o →
        o.line.slot.isSome → (lineOf cfg s.env m).KeepsStores cfg.controller m as o
  access : ∀ m p o, (core (P.cacheLogic hP cfg) cfg).carriesOut s l = some (.actions, m) →
    (s.env.parked (getAddressKey cfg m.addr)).find? (·.msg == m) = some p →
      (P.cacheLogic hP cfg).fire s.env.data (lineOf cfg s.env m) p = .ok o → o.line.slot.isSome →
        (lineOf cfg s.env m).KeepsStores cfg.controller m [] o

/-- The runs of a private cache whose steps lose no store. -/
def sparing : Lib.TransitionSystem (CacheController (CacheLines (LineController σ) ParkedAction)) ControllerLabel :=
  (system (P.cacheLogic hP cfg) cfg).restrict fun s l =>
    (P.findsReady hP cfg s l && !P.losesStore hP cfg s l) = true

/-- The invariant: an array without latency is open, nothing parked is an answer, and what is parked is on the list. -/
structure StoresSafe (s : CacheController (CacheLines (LineController σ) ParkedAction)) : Prop where
  isOpen : IsOpen cfg.array s.env.data
  noAnswer : ∀ key, ∀ p ∈ s.env.parked key, p.kind = .writeBack ∨ p.kind = .writeCacheLineData
  aligned : Aligned (P.cacheLogic hP cfg) cfg s.env s.m_array_ops

section Steps

variable {P hP cfg} {s s' : CacheController (CacheLines (LineController σ) ParkedAction)} {l : ControllerLabel}
  {m : Message} {o : Outcome (LineController σ) ParkedAction}

/-- A message that the loop carries out is not deferred. -/
theorem not_deferred_of_carriesOut {ε : Type} {C : ControllerCore ε} {s : CacheController ε} {kind : DataArrayOpKind}
    (h : C.carriesOut s .iterate = some (kind, m)) : C.deferForDataArray s.env m = false := by
  rw [carriesOut] at h
  split at h
  · next msg q hpop =>
    split_ifs at h with hrun
    obtain rfl : msg = m := by simpa using (Prod.mk.inj (Option.some.inj h)).2
    simp only [Bool.and_eq_true, Bool.not_eq_true'] at hrun
    exact hrun.2
  · simp at h

/-- The line of a row that touches the array is ready when the row runs. -/
theorem isReady_of_carriesOut (hocc : cfg.array.m_data_array_pipelined = false)
    (hlock : cfg.array.line_interlock = true) (hopen : IsOpen cfg.array s.env.data)
    (hready : P.findsReady hP cfg s l = true)
    (hcarries : (core (P.cacheLogic hP cfg) cfg).carriesOut s l = some (.message, m))
    (htouches : P.needsDataArray cfg.controller.id ((lineOf cfg s.env m).slot.readLineBits P.initial) m = .ok true) :
    (lineOf cfg s.env m).slot.isReady cfg.array s.env.data = true := by
  by_cases hzero : cfg.array.m_data_access_latency = 0
  · exact hopen.isReady hzero _
  cases l with
  | iterate =>
    have hdefer := not_deferred_of_carriesOut hcarries
    have hneeds : (P.lines hP cfg.controller cfg.array).needsDataArray (lineOf cfg s.env m) m = true := by
      change (P.needsDataArray _ _ m).toOption.getD false = true
      rw [htouches]
      rfl
    have hnow : s.env.data.isReady cfg.array = true := by
      by_contra hbusy
      have htouch : (P.lines hP cfg.controller cfg.array).defers s.env.data (lineOf cfg s.env m) m = true := by
        simp only [LineRows.defers, DataArray.defers, ArrayConfig.pipelinedArray, hocc, Bool.false_and, Bool.false_eq_true,
          if_false, hneeds, Bool.and_true, Bool.and_eq_true, bne_iff_ne]
        exact ⟨hzero, by simpa using hbusy⟩
      have hdeferred : (core (P.cacheLogic hP cfg) cfg).deferForDataArray s.env m = true := by
        rw [deferForDataArray, Bool.and_eq_true]
        exact ⟨by simp [core, ArrayConfig.m_line_interlock, hlock], htouch⟩
      simp [hdeferred] at hdefer
    simp [Slot.isReady, hnow]
  | cycle | intake upper lower => simp [carriesOut] at hcarries
  | fire k => simpa [findsReady, isIterate, hcarries] using hready
  | flush => simpa [findsReady, isIterate, hcarries] using hready

/-- What a message does to its line: its row answers nothing, or it is the row of a hit on a line that is found. -/
theorem process_eq_ok (hrows : P.HasHitRows) (hocc : cfg.array.m_data_array_pipelined = false)
    {d : DataArray} {c : LineController σ} (h : (P.cacheLogic hP cfg).process d c m = .ok o) :
    ∃ as, P.processRequest cfg.controller (c.slot.readLineBits P.initial) m = .ok as ∧
      execAll (execTimed cfg.controller cfg.array false) d c as = .ok o ∧ ((∀ a ∈ as, a.Quiet) ∨
        c.slot.isSome ∧ P.needsDataArray cfg.controller.id (c.slot.readLineBits P.initial) m = .ok true ∧
          ∃ v, (m.source = .lowerInterconnect → v = m.complementaryValue) ∧
            ControllerAction.HitRow { m with complementaryValue := v } as) := by
  change (P.lines hP cfg.controller cfg.array).process d c m = .ok o at h
  rw [LineRows.process] at h
  split at h
  · simp at h
  · next as has =>
    have hpipelined : cfg.array.pipelinedArray = false := by simp [ArrayConfig.pipelinedArray, hocc]
    rw [hpipelined, Bool.false_and] at h
    refine ⟨as, has, h, (hrows has).imp_right ?_⟩
    rintro ⟨hstate, hneeds, v, hlower, hhit⟩
    refine ⟨?_, hneeds, v, hlower, hhit⟩
    cases hslot : c.slot with
    | none => simp [hslot, Slot.readLineBits] at hstate
    | some r => rfl

/-- A message that a step carries out parks no answer. -/
theorem parked_process (hrows : P.HasHitRows) (hocc : cfg.array.m_data_array_pipelined = false)
    (hlock : cfg.array.line_interlock = true) (hopen : IsOpen cfg.array s.env.data)
    (hready : P.findsReady hP cfg s l = true)
    (hcarries : (core (P.cacheLogic hP cfg) cfg).carriesOut s l = some (.message, m))
    (h : (P.cacheLogic hP cfg).process s.env.data (lineOf cfg s.env m) m = .ok o) :
    ∀ p ∈ o.parked, p.kind = .writeBack ∨ p.kind = .writeCacheLineData := by
  obtain ⟨as, -, hrun, hquiet | ⟨hslot, hneeds, v, -, hhit⟩⟩ := process_eq_ok hrows hocc h
  · exact (execAll_spares hquiet hrun).parked
  · rw [hitRow_parked hocc hhit hslot (isReady_of_carriesOut hocc hlock hopen hready hcarries hneeds) hrun]
    simp

/-- An answer in the name of a message that reading has edited. -/
theorem KeepsStores_of_read {c : LineController σ} {as : List (ControllerAction σ)} {v : Nat}
    (hlower : m.source = .lowerInterconnect → v = m.complementaryValue)
    (h : c.KeepsStores cfg.controller { m with complementaryValue := v } as o) : c.KeepsStores cfg.controller m as o where
  answered x hx hport htype q hq := by
    refine h.answered x hx hport htype q ?_
    cases hq with
    | saved hlookup => exact .saved hlookup
    | hit hsource hdata =>
      obtain rfl := hlower hsource
      exact .hit hsource hdata
  dropped := h.dropped

/-- A step of a safe state that loses no store writes the stores. -/
theorem StoresSafe.writesStores (hrows : P.HasHitRows) (hocc : cfg.array.m_data_array_pipelined = false)
    (hlock : cfg.array.line_interlock = true) (h : P.StoresSafe hP cfg s)
    (hready : P.findsReady hP cfg s l = true) (hloses : P.losesStore hP cfg s l = false)
    (hstep : (core (P.cacheLogic hP cfg) cfg).step s l = some s') : P.WritesStores hP cfg s l where
  message m hcarries := by
    constructor
    · have haccess := accessStep hstep
      have hlock' : (core (P.cacheLogic hP cfg) cfg).m_line_interlock = true := by
        simp [core, ArrayConfig.m_line_interlock, hlock]
      generalize s'.env = e', s'.m_array_ops = ops' at haccess
      cases haccess with
      | same hnone | cycle hnone | pendingWB hnone | deferred hnone | putBack hnone => simp [hnone] at hcarries
      | completed hcarries' => simp [hcarries'] at hcarries
      | processed hcarries' _ hfree =>
        obtain rfl : _ = m := (Prod.mk.inj (Option.some.inj (hcarries'.symm.trans hcarries))).2
        exact h.aligned.parked_eq_nil (hfree hlock')
      | fired hcarries' _ hkind hkey hops =>
        obtain rfl : _ = m := (Prod.mk.inj (Option.some.inj (hcarries'.symm.trans hcarries))).2
        have haligned := h.aligned
        rw [hops] at haligned
        have hfree := haligned.alone.free hkind
        have hnil := (haligned.remove_message hkind).parked_eq_nil hfree
        rwa [show getAddressKey cfg _ = _ from hkey]
    · intro as o has ho hresident
      obtain ⟨as', has', hrun, hquiet | ⟨hslot, hneeds, v, hlower, hhit⟩⟩ := process_eq_ok hrows hocc ho
      all_goals obtain rfl : as = as' := Except.ok.inj (has.symm.trans has')
      · exact (execAll_spares hquiet hrun).keepsStores
      · have hguard : ((lineOf cfg s.env m).closesArrayOnStore cfg.controller cfg.array as ||
            (lineOf cfg s.env m).misnamesStore as) = false := by
          simpa [losesStore, hcarries, has, Except.toOption] using hloses
        rw [Bool.or_eq_false_iff] at hguard
        exact KeepsStores_of_read hlower (hitRow_keepsStores hocc hhit hslot
          (isReady_of_carriesOut hocc hlock h.isOpen hready hcarries hneeds) h.isOpen hguard.1 hguard.2 hrun hresident)
  access m p o _ hp ho _ := (fireParked_spares (h.noAnswer _ p (List.mem_of_find?_eq_some hp)) ho).keepsStores

/-- A line that is put back with an open array, on which nothing new that is parked is an answer. -/
theorem safe_setLine {e : CacheLines (LineController σ) ParkedAction} {key : Nat} (hopen : IsOpen cfg.array o.array)
    (hold : ∀ key, ∀ p ∈ e.parked key, p.kind = .writeBack ∨ p.kind = .writeCacheLineData)
    (hnew : ∀ p ∈ o.parked, p.kind = .writeBack ∨ p.kind = .writeCacheLineData) :
    IsOpen cfg.array (e.setLine (P.cacheLogic hP cfg) cfg key o).data ∧
      ∀ x, ∀ p ∈ (e.setLine (P.cacheLogic hP cfg) cfg key o).parked x, p.kind = .writeBack ∨ p.kind = .writeCacheLineData := by
  constructor
  · rw [data_setLine]
    exact hopen
  · rw [parked_setLine]
    intro x p hp
    by_cases hx : x = key
    · subst hx
      rw [Function.update_self, List.mem_append] at hp
      exact hp.elim (hold x p) (hnew p)
    · rw [Function.update_of_ne hx] at hp
      exact hold x p hp

/-- A step that loses no store keeps the invariant. -/
theorem StoresSafe.step (hrows : P.HasHitRows) (hocc : cfg.array.m_data_array_pipelined = false)
    (hlock : cfg.array.line_interlock = true) (h : P.StoresSafe hP cfg s)
    (hready : P.findsReady hP cfg s l = true) (hstep : (core (P.cacheLogic hP cfg) cfg).step s l = some s') :
    P.StoresSafe hP cfg s' := by
  have haccess := accessStep hstep
  have haligned := h.aligned.step (by simp [ArrayConfig.m_line_interlock, hlock]) haccess
  have hkept : IsOpen cfg.array s'.env.data ∧
      ∀ key, ∀ p ∈ s'.env.parked key, p.kind = .writeBack ∨ p.kind = .writeCacheLineData := by
    generalize s'.env = e', s'.m_array_ops = ops' at haccess
    cases haccess with
    | same | deferred | putBack => exact ⟨h.isOpen, h.noAnswer⟩
    | cycle => exact ⟨fun hzero => Nat.le_succ_of_le (h.isOpen hzero), h.noAnswer⟩
    | pendingWB _ hw =>
      obtain ⟨rest, rfl⟩ := addressOfLinePendingWB_eq_some hw
      exact ⟨h.isOpen, h.noAnswer⟩
    | processed hcarries _ _ _ hr | fired hcarries _ _ _ _ hr =>
      obtain ⟨o, ho, rfl⟩ := processRequest_eq_ok hr
      obtain ⟨as, -, hrun, -⟩ := process_eq_ok hrows hocc ho
      exact safe_setLine (execAll_isOpen h.isOpen hrun) h.noAnswer
        (parked_process hrows hocc hlock h.isOpen hready hcarries ho)
    | @completed _ _ op _ _ _ _ _ hr =>
      obtain ⟨rfl, -⟩ | ⟨p, pre, post, o, hsplit, hp, hmsg, ho, rfl⟩ := fireActions_parked hr
      · exact ⟨h.isOpen, h.noAnswer⟩
      · have hkind := h.noAnswer _ p (List.mem_of_find?_eq_some hp)
        refine safe_setLine (fireParked_isOpen h.isOpen ho) (fun x q hq => ?_) (fireParked_spares hkind ho).parked
        by_cases hx : x = getAddressKey cfg op.msg.addr
        · subst hx
          simp only [Function.update_self] at hq
          refine h.noAnswer (CacheLines.getAddressKey cfg op.msg.addr) q ?_
          rw [hsplit]
          exact ((List.Sublist.refl pre).append (List.sublist_cons_self p post)).mem hq
        · simp only [Function.update_of_ne hx] at hq
          exact h.noAnswer x q hq
  exact ⟨hkept.1, hkept.2, haligned⟩

/-- The invariant is kept along the runs whose steps lose no store. -/
theorem storesSafe_inductive (hrows : P.HasHitRows) (hocc : cfg.array.m_data_array_pipelined = false)
    (hlock : cfg.array.line_interlock = true) : (P.sparing hP cfg).Inductive fun s => P.StoresSafe hP cfg s where
  init s hs := by
    rw [hs]
    exact ⟨fun _ => Nat.zero_le 0, fun key p hp => by simp [ControllerCore.start, CacheLines.start] at hp,
      ⟨List.Pairwise.nil, fun key p hp => by simp [ControllerCore.start, CacheLines.start] at hp, fun m => Nat.zero_le _⟩⟩
  step s l s' _ h hstep := by
    have hguard : (P.findsReady hP cfg s l && !P.losesStore hP cfg s l) = true := hstep.1
    rw [Bool.and_eq_true] at hguard
    exact h.step hrows hocc hlock hguard.1 hstep.2

/-- Along the runs whose steps lose no store, every step writes the stores. -/
theorem writesStores_of_sparing (hrows : P.HasHitRows) (hocc : cfg.array.m_data_array_pipelined = false)
    (hlock : cfg.array.line_interlock = true) (hr : (P.sparing hP cfg).Reachable s)
    (hstep : (P.sparing hP cfg).step s l s') : P.WritesStores hP cfg s l := by
  have hguard : (P.findsReady hP cfg s l && !P.losesStore hP cfg s l) = true := hstep.1
  rw [Bool.and_eq_true, Bool.not_eq_true'] at hguard
  exact ((storesSafe_inductive hrows hocc hlock).reachable hr).writesStores hrows hocc hlock hguard.1 hguard.2 hstep.2

end Steps

end L1Protocol

open L1Protocol ControllerCore in
/--
In the occupancy model with the line interlock, whatever the latency: along the runs in which no row
closes the array before it writes its store, the snooping private caches write every store that they
answer before they drop it.
-/
theorem stores_written (cfg : CacheConfig) (hocc : cfg.array.m_data_array_pipelined = false)
    (hlock : cfg.array.line_interlock = true) :
    (∀ s l s', (msiProtocol.sparing msi_hasRows cfg).Reachable s → (msiProtocol.sparing msi_hasRows cfg).step s l s' →
        msiProtocol.WritesStores msi_hasRows cfg s l) ∧
      (∀ s l s', (mesiProtocol.sparing mesi_hasRows cfg).Reachable s →
        (mesiProtocol.sparing mesi_hasRows cfg).step s l s' → mesiProtocol.WritesStores mesi_hasRows cfg s l) ∧
      ∀ s l s', (moesiProtocol.sparing moesi_hasRows cfg).Reachable s →
        (moesiProtocol.sparing moesi_hasRows cfg).step s l s' → moesiProtocol.WritesStores moesi_hasRows cfg s l :=
  ⟨fun _ _ _ hr => writesStores_of_sparing msi_hasHitRows hocc hlock hr,
    fun _ _ _ hr => writesStores_of_sparing mesi_hasHitRows hocc hlock hr,
    fun _ _ _ hr => writesStores_of_sparing moesi_hasHitRows hocc hlock hr⟩

open L1Protocol
open L1Lines (request granted filled cycleOf)

/-- An MSI cache whose array is busy for two cycles after an access, with the interlock on. -/
def busyCache : CacheConfig where
  controller := ⟨0, 10, 8, true⟩
  array := ⟨2, false, true⟩
  processing_queue_size := none
  m_num_mshr := none
  m_pwb_size := none
  victim _ _ _ := none

/-- A Store of one byte, with its byte. -/
def storeByte (id addr : Nat) (byte : UInt8) : Message := { request 1 id addr with data := some [byte], dataSize := 1 }

/-- A step of the cache, if it loses no store. -/
abbrev sparingStep (s : CacheController (CacheLines (LineController MSIState) ParkedAction)) (l : ControllerLabel) : Bool :=
  msiProtocol.findsReady msi_hasRows busyCache s l && !msiProtocol.losesStore msi_hasRows busyCache s l

/-- A Store to a line that the cache has got for another one: the array is open again, and the byte is written. -/
theorem stores_written_hit : ∃ s, (msiProtocol.sparing msi_hasRows busyCache).Reachable s ∧
    (CacheLines.core (msiProtocol.cacheLogic msi_hasRows busyCache) busyCache).carriesOut s .iterate =
      some (.message, storeByte 2 0 7) ∧ msiProtocol.WritesStores msi_hasRows busyCache s .iterate := by
  obtain ⟨s, hr, htest⟩ := CacheLines.exists_guarded (msiProtocol.cacheLogic msi_hasRows busyCache) busyCache sparingStep
    (CacheLines.served 1 1 0 ++ [.cycle, .cycle, .intake none (some (storeByte 2 0 7))])
    (fun s => sparingStep s .iterate &&
      ((CacheLines.core (msiProtocol.cacheLogic msi_hasRows busyCache) busyCache).step s .iterate).isSome &&
      (CacheLines.core (msiProtocol.cacheLogic msi_hasRows busyCache) busyCache).carriesOut s .iterate ==
        some (.message, storeByte 2 0 7)) (by decide)
  simp only [Bool.and_eq_true, beq_iff_eq, Option.isSome_iff_exists] at htest
  obtain ⟨⟨hguard, s', hstep⟩, hcarries⟩ := htest
  exact ⟨s, hr, hcarries, (stores_written busyCache rfl rfl).1 s .iterate s' hr ⟨by simpa using hguard, hstep⟩⟩

/-- The bytes of the line, as the loop takes them. -/
def lineArrives : Message := { filled 1 0 with source := .upperInterconnect }

/-- What the next round of the loop carries out drops the byte of a Store that the line does not get. -/
def dropsByte (s : CacheController (CacheLines (LineController MSIState) ParkedAction)) : Bool :=
  (CacheLines.core (msiProtocol.cacheLogic msi_hasRows busyCache) busyCache).carriesOut s .iterate ==
      some (.message, lineArrives) &&
    match msiProtocol.rowOf busyCache s.env lineArrives,
      (msiProtocol.cacheLogic msi_hasRows busyCache).process s.env.data (lineOf busyCache s.env lineArrives) lineArrives with
    | .ok _, .ok o => o.line.slot.isSome && o.line.slot.readCacheLine == some (List.replicate 8 0) &&
      (lineOf busyCache s.env lineArrives).modifying.lookup 1 == some (storeByte 1 0 7) && o.line.modifying.lookup 1 == none
    | _, _ => false

/-- Such a round does not write the stores. -/
theorem not_writesStores_of_dropsByte {s : CacheController (CacheLines (LineController MSIState) ParkedAction)}
    (h : dropsByte s = true) : ¬ msiProtocol.WritesStores msi_hasRows busyCache s .iterate := by
  intro hwrites
  rw [dropsByte, Bool.and_eq_true, beq_iff_eq] at h
  obtain ⟨hcarries, h⟩ := h
  split at h
  · next as o has ho =>
    simp only [Bool.and_eq_true, beq_iff_eq] at h
    obtain ⟨⟨⟨hresident, hbytes⟩, hsaved⟩, hdropped⟩ := h
    obtain ⟨block, -, hwritten⟩ := ((hwrites.message _ hcarries).2 as o has ho hresident).dropped 1 _ hsaved hdropped
    rw [hbytes] at hwritten
    have hbyte := congrArg List.head? (Option.some.inj hwritten)
    simp [overwrite, storeByte, busyCache, request, List.replicate] at hbyte
  · simp at h

/-- A Store misses, its line arrives and closes the array: the Store is answered, and its byte is lost. -/
theorem stores_dropped : ∃ s s', (CacheLines.system (msiProtocol.cacheLogic msi_hasRows busyCache) busyCache).Reachable s ∧
    (CacheLines.core (msiProtocol.cacheLogic msi_hasRows busyCache) busyCache).step s .iterate = some s' ∧
      ¬ msiProtocol.WritesStores msi_hasRows busyCache s .iterate := by
  obtain ⟨s, hr, htest⟩ := CacheLines.exists_guarded (msiProtocol.cacheLogic msi_hasRows busyCache) busyCache
    (fun _ _ => true)
    (cycleOf none (some (storeByte 1 0 7)) 2 ++ cycleOf (some (granted 1 1 0)) none 2 ++ [.intake (some (filled 1 0)) none])
    (fun s => dropsByte s &&
      ((CacheLines.core (msiProtocol.cacheLogic msi_hasRows busyCache) busyCache).step s .iterate).isSome) (by decide)
  rw [Bool.and_eq_true, Option.isSome_iff_exists] at htest
  obtain ⟨hdrops, s', hstep⟩ := htest
  exact ⟨s, s', hr.of_restrict, hstep, not_writesStores_of_dropsByte hdrops⟩

end Octopus
