import Octopus.Controller.ActionEffects

/-!
# The rows of a protocol on a line of a cache

A protocol turns a message into the actions of a row, and the controller carries them out on the
line of the message. What the processing loop and the bounds on its resources rest on follows from
the kinds of actions that a row can have.
-/

namespace Octopus

/--
An action of the row of a message: the update of its line, the message itself put back, if its row
stalls, or an action about its block.
-/
inductive ControllerAction.FromRow {σ : Type} (stalls : Prop) (msg : Message) (update : GenericCacheLine σ) :
    ControllerAction σ → Prop
  | update : FromRow stalls msg update (.updateCacheLine msg update)
  | stall : stalls → FromRow stalls msg update (.stall msg)
  | other (a : ControllerAction σ) : (∀ addr, a.addr? = some addr → addr = msg.addr) → (∀ x, a ≠ .stall x) →
      (∀ x l, a ≠ .updateCacheLine x l) → FromRow stalls msg update a

/-- What every step of a fallible fold keeps holds at its end. -/
theorem foldlM_keeps {α β : Type} {f : β → α → Except Exit β} {I : β → Prop} {l : List α} {b b' : β} (hb : I b)
    (hstep : ∀ a ∈ l, ∀ b b', I b → f b a = .ok b' → I b') (h : l.foldlM f b = .ok b') : I b' := by
  induction l generalizing b with
  | nil =>
    obtain rfl := Except.ok.inj h
    exact hb
  | cons a rest ih =>
    rw [List.foldlM_cons] at h
    cases hf : f b a with
    | error e => simp [hf, bind, Except.bind] at h
    | ok b₁ =>
      rw [hf] at h
      exact ih (hstep a List.mem_cons_self b b₁ hb hf) (fun x hx => hstep x (List.mem_cons_of_mem a hx)) h

/-- What a row puts back is the message itself, and the row stalls. -/
theorem ControllerAction.FromRow.of_stall {σ : Type} {stalls : Prop} {msg x : Message} {update : GenericCacheLine σ}
    (h : (ControllerAction.stall x).FromRow stalls msg update) : x = msg ∧ stalls := by
  cases h with
  | stall hstalls => exact ⟨rfl, hstalls⟩
  | other _ _ hstall _ => exact absurd rfl (hstall x)

/-- An action of a row, where another condition stands for the Stall cell. -/
theorem ControllerAction.FromRow.mono {σ : Type} {stalls stalls' : Prop} {msg : Message}
    {update : GenericCacheLine σ} {a : ControllerAction σ} (h : a.FromRow stalls msg update)
    (hstalls : stalls → stalls') : a.FromRow stalls' msg update := by
  cases h with
  | update => exact .update
  | stall hstall => exact .stall (hstalls hstall)
  | other _ haddr hstall hupdate => exact .other _ haddr hstall hupdate

/--
A protocol on the lines of a cache: `κ` is what the controller keeps of a line, of which `view` is
the part every controller has, and `α` are the actions, of which some are controller actions.
-/
structure LineRows (σ κ α : Type) (cfg : ControllerConfig) (acfg : ArrayConfig) where
  intake : Intake
  start : κ
  view : κ → LineController σ
  base : α → Option (ControllerAction σ)
  /-- Carry out an action; the flag is `m_pipe_firing`. -/
  exec : Bool → DataArray → κ → α → Except Exit (Outcome κ ParkedAction)
  fire : DataArray → κ → ParkedAction → Except Exit (Outcome κ ParkedAction)
  moveLine2WB : κ → κ
  processRequest : κ → Message → Except Exit (List α)
  getRequestState : κ → Message → FRFCFSState × Message
  needsDataArray : κ → Message → Bool
  view_start : view start = {}
  view_moveLine2WB : ∀ c, view (moveLine2WB c) = { view c with slot := (view c).slot.moveLine2WB }
  state_moveLine2WB : ∀ c m, getRequestState (moveLine2WB c) m = getRequestState c m
  row_moveLine2WB : ∀ c m, processRequest (moveLine2WB c) m = processRequest c m
  exec_effect : ∀ {firing d c a o}, exec firing d c a = .ok o →
    LineController.Effect cfg (view c) (base a).toList (o.mapLine view)
  fire_effect : ∀ {d c p o}, fire d c p = .ok o → LineController.FireEffect (view c) p (o.mapLine view)
  ready_or_nonReady : ∀ c m, (getRequestState c m).1 = .ready ∨ (getRequestState c m).1 = .nonReady
  edit : ∀ c m, (getRequestState c m).2 = m ∨
    m.isDemandRequest = false ∧ (getRequestState c m).2.isDemandRequest = false
  edit_addr : ∀ c m, (getRequestState c m).2.addr = m.addr
  row : ∀ {c m as}, processRequest c m = .ok as → ∃ update, ∀ a ∈ as.filterMap base,
    a.FromRow ((getRequestState c m).1 ≠ .ready) (getRequestState c m).2 update

namespace LineRows

variable {σ κ α : Type} {cfg : ControllerConfig} {acfg : ArrayConfig} (R : LineRows σ κ α cfg acfg)

/-- Whether a message is deferred, the interlock apart. -/
def defers (d : DataArray) (c : κ) (msg : Message) : Bool :=
  d.defers acfg (R.needsDataArray c msg) (R.view c).slot.lineLocation msg

/--
Process a message. In the pipelined model one that touches the array runs when its access
completes, which is when `m_pipe_firing` is set.
-/
def process (d : DataArray) (c : κ) (msg : Message) : Except Exit (Outcome κ ParkedAction) :=
  match R.processRequest c msg with
  | .error e => .error e
  | .ok as => execAll (R.exec (acfg.pipelinedArray && R.defers d c msg)) d c as

/-- Whether the row of a message has an action. -/
def hasAction (p : ControllerAction σ → Bool) (c : κ) (msg : Message) : Bool :=
  match R.processRequest c msg with
  | .error _ => false
  | .ok as => (as.filterMap R.base).any p

/-- Whether an action records a pending request. -/
def isAddPending : ControllerAction σ → Bool
  | .addPending _ => true
  | _ => false

/-- Whether an action writes a block of bytes. -/
def isFill (cfg : ControllerConfig) : ControllerAction σ → Bool
  | .updateCacheLine msg line => LineController.writesData cfg msg line
  | _ => false

variable {R}

/-- A processed message, from its row. -/
theorem process_eq_ok {d : DataArray} {c : κ} {m : Message} {o : Outcome κ ParkedAction}
    (h : R.process d c m = .ok o) : ∃ as update, R.processRequest c m = .ok as ∧
      (∀ a ∈ as.filterMap R.base, a.FromRow ((R.getRequestState c m).1 ≠ .ready) (R.getRequestState c m).2 update) ∧
      LineController.Effect cfg (R.view c) (as.filterMap R.base) (o.mapLine R.view) := by
  rw [process] at h
  split at h
  · simp at h
  · next as has =>
    obtain ⟨update, hrow⟩ := R.row has
    refine ⟨as, update, has, hrow, LineController.execAll_effect R.exec_effect
      (w := LineController.writesData cfg (R.getRequestState c m).2 update) (fun x l hx => ?_) h⟩
    cases hrow _ hx with
    | update => rfl
    | other _ _ _ hupdate => exact absurd rfl (hupdate x l)

/-- An action of a row, found in it. -/
theorem hasAction_of_mem {p : ControllerAction σ → Bool} {c : κ} {m : Message} {as : List α} {a : ControllerAction σ}
    (has : R.processRequest c m = .ok as) (ha : a ∈ as.filterMap R.base) (hp : p a = true) :
    R.hasAction p c m = true := by
  rw [hasAction, has]
  exact List.any_eq_true.2 ⟨a, ha, hp⟩

variable (R)

/-- What a cache does with a line, by the rows of its protocol. -/
def logic : LineLogic κ ParkedAction where
  intake := R.intake
  start := R.start
  pending c := (R.view c).pending
  location c := (R.view c).slot.lineLocation
  moveLine2WB := R.moveLine2WB
  getRequestState := R.getRequestState
  touchesBusyArray := R.defers
  process := R.process
  fire := R.fire
  parkedMsg := ParkedAction.msg
  asks := R.hasAction isAddPending
  fills := R.hasAction (isFill cfg)
  parkedFills p := p.kind == .writeCacheLineData
  ready_or_nonReady := R.ready_or_nonReady
  edit := R.edit
  edit_addr := R.edit_addr
  stalled_demand := by
    intro d c m o h x hx hport hdemand
    obtain ⟨as, update, -, hrow, heffect⟩ := process_eq_ok h
    obtain ⟨hmsg, hstalls⟩ := (hrow _ (heffect.queued x hx hport)).of_stall
    rcases R.edit c m with hsame | ⟨-, hnot⟩
    · exact ⟨hmsg.trans hsame, hstalls⟩
    · rw [hmsg, hnot] at hdemand
      exact absurd hdemand Bool.false_ne_true
  fired_stalled h x hx := (R.fire_effect h).queued x hx
  parked_addr := by
    intro d c m o h p hp
    obtain ⟨as, update, -, hrow, heffect⟩ := process_eq_ok h
    obtain ⟨a, ha, haddr⟩ := heffect.parked p hp
    rw [← R.edit_addr c m]
    cases hrow a ha with
    | update => exact (Option.some.inj haddr).symm
    | stall _ => exact (Option.some.inj haddr).symm
    | other _ hsame _ _ => exact hsame _ haddr
  fired_addr h q hq := (R.fire_effect h).parked q hq
  state_moveLine2WB := R.state_moveLine2WB
  pending_start := by rw [R.view_start]
  location_start := by rw [R.view_start]; rfl
  pending_moveLine2WB c := by rw [R.view_moveLine2WB]
  array_moveLine2WB c := by
    rw [R.view_moveLine2WB]
    cases (R.view c).slot <;> simp [Slot.moveLine2WB, Slot.lineLocation]
  pending_process := by
    intro d c m o h hne
    obtain ⟨as, update, has, -, heffect⟩ := process_eq_ok h
    rcases heffect.pending hne with hc | ⟨x, hx⟩
    · exact .inl hc
    · exact .inr (hasAction_of_mem has hx rfl)
  pending_fire h := (R.fire_effect h).pending
  array_process := by
    intro d c m o h harray
    obtain ⟨as, update, has, -, heffect⟩ := process_eq_ok h
    rcases heffect.array harray with hc | ⟨hmshr, x, l, hx, hwrites⟩
    · exact .inl hc
    · exact .inr ⟨hmshr, hasAction_of_mem has hx hwrites⟩
  array_fire := by
    intro d c p o h harray
    rcases (R.fire_effect h).array harray with hc | ⟨hmshr, hkind⟩
    · exact .inl hc
    · exact .inr ⟨hmshr, by simp [hkind]⟩
  pwb_process := by
    intro d c m o h hpwb
    obtain ⟨as, update, -, -, heffect⟩ := process_eq_ok h
    exact heffect.pwb hpwb
  pwb_fire h := (R.fire_effect h).pwb

end LineRows

end Octopus
