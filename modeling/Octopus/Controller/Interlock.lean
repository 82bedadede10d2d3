import Octopus.Controller.EnvStep
import Octopus.Controller.Order

/-!
# The line interlock

While a line has an access on the list of the data array, its messages stay in the processing queue.
So a deferred message is the only access to its line, nothing else is processed on the line before it
fires, and it runs the row that it was released with.
-/

namespace Octopus

namespace ControllerCore

open FRFCFSBuffer

variable {ε ρ : Type} (C : ControllerCore ε) (row : ε → Message → ρ)

/-- A controller with the messages its loop has released and those it has carried out, each with its row. -/
structure Released (ε ρ : Type) where
  state : CacheController ε
  released : List (Message × ρ)
  carriedOut : List (Message × ρ)

/-- The message that a step releases from the queue: it is admitted, and then deferred or processed. -/
def releasedBy (s : CacheController ε) : ControllerLabel → List (Message × ρ)
  | .iterate =>
    match s.m_processing_queue.getFirstReady (C.scan s.env s.m_array_ops) with
    | (some msg, _) => if C.canAdmitRequest s.env msg then [(msg, row s.env msg)] else []
    | _ => []
  | _ => []

/-- The message that a step carries out. -/
def carriedOutBy (s : CacheController ε) (l : ControllerLabel) : List (Message × ρ) :=
  match C.carriesOut s l with
  | some (.message, msg) => [(msg, row s.env msg)]
  | _ => []

section Processed

variable {C} {s s' : CacheController ε} {l : ControllerLabel}

/-- A completed access processes the message that it carries out. -/
theorem processed_pipelineFire {k : Nat} (hs : C.pipelineFire s k = some s')
    (hcarries : C.carriesOut s l = s.m_array_ops[k]?.bind (C.completes s.env)) :
    s'.processed = s.processed ++ (C.carriedOutBy row s l).map Prod.fst := by
  obtain ⟨op, hop, hs⟩ := Option.bind_eq_some_iff.1 hs
  obtain ⟨s₁, hs₁, rfl⟩ := Option.map_eq_some_iff.1 hs
  rw [hop, Option.bind_some] at hcarries
  rw [carriedOutBy, hcarries, completes]
  rw [complete.eq_def] at hs₁
  cases hkind : op.kind with
  | message =>
    simp only [hkind] at hs₁
    rcases hstate : C.getRequestState s.env op.msg with ⟨state, msg⟩
    cases state with
    | ready =>
      simp only [hstate] at hs₁
      exact processed_effect hs₁
    | _ =>
      simp only [hstate] at hs₁
      obtain ⟨q, -, rfl⟩ := Option.map_eq_some_iff.1 hs₁
      exact (List.append_nil _).symm
  | actions =>
    simp only [hkind] at hs₁
    exact (processed_effect hs₁).trans (List.append_nil _).symm

/-- What a step carries out is what it processes. -/
theorem processed_step (hs : C.step s l = some s') :
    s'.processed = s.processed ++ (C.carriedOutBy row s l).map Prod.fst := by
  rw [step.eq_def] at hs
  cases l with
  | cycle =>
    dsimp only at hs
    split_ifs at hs
    obtain rfl := Option.some.inj hs
    exact (List.append_nil _).symm
  | fire k =>
    dsimp only at hs
    split_ifs at hs
    exact processed_pipelineFire row hs rfl
  | intake upper lower =>
    dsimp only at hs
    split_ifs at hs
    obtain rfl := Option.some.inj hs
    have hreplace : ∀ t : CacheController ε, (C.checkReplacements t).processed = t.processed := by
      intro t
      rw [checkReplacements]
      split
      · rfl
      · dsimp only
        split <;> rfl
    rw [hreplace, (intake_frame upper lower).2.2.1]
    exact (List.append_nil _).symm
  | flush =>
    dsimp only at hs
    split at hs
    · next key hphase =>
      split at hs
      · next hnone =>
        obtain rfl := Option.some.inj hs
        have hnothing : C.carriedOutBy row s .flush = [] := by simp [carriedOutBy, carriesOut, hphase, hnone]
        rw [hnothing]
        exact (List.append_nil _).symm
      · next k hk =>
        refine processed_pipelineFire row hs ?_
        simp only [carriesOut, hphase, hk, Option.bind_some]
    · simp at hs
  | iterate =>
    dsimp only at hs
    split_ifs at hs
    rw [iterate] at hs
    rw [carriedOutBy, carriesOut]
    split at hs
    · next q hpop =>
      obtain rfl := Option.some.inj hs
      simp [hpop]
    · next msg q hpop =>
      split_ifs at hs with hadmit hdefer
      · obtain rfl := Option.some.inj hs
        have hrefused : C.canAdmitRequest s.env msg = false := by simpa using hadmit
        simp [hpop, hrefused]
      · obtain rfl := Option.some.inj hs
        simp [hpop, hdefer]
      · have hadmit' : C.canAdmitRequest s.env msg = true := by simpa using hadmit
        have hdefer' : C.deferForDataArray s.env msg = false := by simpa using hdefer
        simp only [hpop, hadmit', hdefer', Bool.not_false, Bool.and_self, if_true]
        exact processed_effect hs

end Processed

/-- The runs of a controller with these histories. -/
def history : Lib.TransitionSystem (Released ε ρ) ControllerLabel where
  init h := ∃ e, h = ⟨C.start e, [], []⟩
  step h l h' := C.step h.state l = some h'.state ∧ h'.released = h.released ++ C.releasedBy row h.state l ∧
    h'.carriedOut = h.carriedOut ++ C.carriedOutBy row h.state l

/-- The messages that wait for the data array, each with the row it has now. -/
def waiting (e : ε) (ops : List DataArrayOp) : List (Message × ρ) := (opMessages ops).map fun m => (m, row e m)

/-- The part of a history that is about a line. -/
def onLine (key : Nat) (l : List (Message × ρ)) : List (Message × ρ) :=
  l.filter fun x => C.getAddressKey x.1.addr == key

/-- What the interlock rests on: it is on, messages are not edited, and those from above are always ready. -/
structure Interlocks : Prop where
  lock : C.m_line_interlock = true
  unedited : ∀ e m, (C.getRequestState e m).2 = m
  upper_ready : ∀ e m, m.source = .upperInterconnect → (C.getRequestState e m).1 = .ready
  /-- A message changes the rows of its own line only. -/
  frame : ∀ {e m r}, C.processRequest e m = .ok r ∨ C.fireActions e m = .ok r → ∀ x,
    C.getAddressKey x.addr ≠ C.getAddressKey m.addr → row r.env x = row e x
  frame_pendingWB : ∀ {e w e'}, C.addressOfLinePendingWB e = some (w, e') → ∀ x, row e' x = row e x
  frame_cycle : ∀ e x, row (C.updateCycle e) x = row e x

/-- The messages of a line are carried out one after the other, in the order of their release, each with its row then. -/
structure Serial (h : Released ε ρ) : Prop where
  /-- A deferred message is the only access to its line. -/
  alone : h.state.m_array_ops.Pairwise fun a b => a.kind = .message ∨ b.kind = .message →
    C.getAddressKey a.msg.addr ≠ C.getAddressKey b.msg.addr
  /-- A deferred message finds its row ready when it fires. -/
  ready : ∀ op ∈ h.state.m_array_ops, op.kind = .message → (C.getRequestState h.state.env op.msg).1 = .ready
  order : ∀ key, C.onLine key h.released = C.onLine key (h.carriedOut ++ waiting row h.state.env h.state.m_array_ops)
  /-- What is queued as ready comes from above. -/
  upper : ∀ x ∈ h.state.m_processing_queue.buffer, x.state = .ready → x.item.source = .upperInterconnect

section Lists

variable {C row} {e e' : ε} {key : Nat} {ops ops' : List DataArrayOp} {xs ys : List (Message × ρ)} {m : Message} {x : ρ}

@[simp] theorem onLine_append : C.onLine key (xs ++ ys) = C.onLine key xs ++ C.onLine key ys := List.filter_append ..

@[simp] theorem onLine_nil : C.onLine key ([] : List (Message × ρ)) = [] := rfl

/-- A message of another line does not count. -/
theorem onLine_of_ne (h : C.getAddressKey m.addr ≠ key) : C.onLine key [(m, x)] = [] := by
  simp [onLine, h]

@[simp] theorem waiting_append : waiting row e (ops ++ ops') = waiting row e ops ++ waiting row e ops' := by
  simp [waiting]

/-- Parked actions are no whole messages. -/
@[simp] theorem waiting_actions (msgs : List Message) : waiting row e (msgs.map fun m => ⟨.actions, m⟩) = [] := by
  simp [waiting]

@[simp] theorem waiting_message : waiting row e [⟨.message, m⟩] = [(m, row e m)] := rfl

/-- The rows of the lines that nothing is carried out on stay. -/
theorem waiting_congr (h : ∀ op ∈ ops, op.kind = .message → row e' op.msg = row e op.msg) :
    waiting row e' ops = waiting row e ops := by
  refine List.map_congr_left fun m hm => ?_
  obtain ⟨op, hop, rfl⟩ := List.mem_map.1 hm
  obtain ⟨hop, hkind⟩ := List.mem_filter.1 hop
  rw [h op hop (by simpa using hkind)]

/-- No message of a line waits that no deferred message is about. -/
theorem onLine_waiting (h : ∀ op ∈ ops, op.kind = .message → C.getAddressKey op.msg.addr ≠ key) :
    C.onLine key (waiting row e ops) = [] := by
  refine List.filter_eq_nil_iff.2 fun y hy => ?_
  obtain ⟨m, hm, rfl⟩ := List.mem_map.1 hy
  obtain ⟨op, hop, rfl⟩ := List.mem_map.1 hm
  obtain ⟨hop, hkind⟩ := List.mem_filter.1 hop
  simpa using h op hop (by simpa using hkind)

end Lists

namespace Serial

variable {C row} {s s' : CacheController ε} {released carried : List (Message × ρ)} {msg : Message} {q : FRFCFSBuffer}
  {res : Except Exit (Processed ε)}

/-- The first state. -/
theorem start (e : ε) : C.Serial row ⟨C.start e, [], []⟩ where
  alone := List.Pairwise.nil
  ready op hop := by simp [ControllerCore.start] at hop
  order key := rfl
  upper x hx := by simp [ControllerCore.start] at hx

/-- Another queue, in which what is ready comes from above too. -/
theorem setQueue (h : C.Serial row ⟨s, released, carried⟩) {phase : ControllerPhase}
    (hq : ∀ x ∈ q.buffer, x.state = .ready → x.item.source = .upperInterconnect) :
    C.Serial row ⟨{ s with m_processing_queue := q, phase := phase }, released, carried⟩ :=
  ⟨h.alone, h.ready, h.order, hq⟩

/-- What is carried out on a line that no deferred message is about. -/
theorem effect (hC : C.Interlocks row) (h : C.Serial row ⟨s, released, carried⟩)
    (hs : ControllerCore.effect s res = some s')
    (hres : ∀ r, res = .ok r → C.processRequest s.env msg = .ok r ∨ C.fireActions s.env msg = .ok r)
    (hkey : ∀ op ∈ s.m_array_ops, op.kind = .message → C.getAddressKey op.msg.addr ≠ C.getAddressKey msg.addr) :
    C.Serial row ⟨s', released, carried⟩ := by
  cases res with
  | error e => simp [ControllerCore.effect] at hs
  | ok r =>
    obtain ⟨q, hq, rfl⟩ := Option.map_eq_some_iff.1 hs
    have hrun := hres r rfl
    have hmessages : ∀ op ∈ s.m_array_ops ++ r.parked.map fun msg => ⟨.actions, msg⟩, op.kind = .message →
        op ∈ s.m_array_ops := by
      intro op hop hkind
      rcases List.mem_append.1 hop with hold | hnew
      · exact hold
      · obtain ⟨x, -, rfl⟩ := List.mem_map.1 hnew
        simp at hkind
    constructor
    · refine List.pairwise_append.2 ⟨h.alone, ?_, fun a ha b hb hkind => ?_⟩
      · rw [List.pairwise_map]
        exact List.pairwise_of_forall fun a b hkind => by simp at hkind
      · obtain ⟨x, hx, rfl⟩ := List.mem_map.1 hb
        rw [C.parked_key hrun x hx]
        exact hkey a ha (by simpa using hkind)
    · intro op hop hkind
      have hold := hmessages op hop hkind
      rw [C.frame hrun op.msg (hkey op hold hkind)]
      exact h.ready op hold hkind
    · intro key
      have hwaiting : waiting row r.env s.m_array_ops = waiting row s.env s.m_array_ops :=
        waiting_congr fun op hop hkind => hC.frame hrun op.msg (hkey op hop hkind)
      simpa [hwaiting] using h.order key
    · intro x hx hready
      rw [stall_buffer hq, List.mem_append, List.mem_map] at hx
      rcases hx with hold | ⟨m, -, rfl⟩
      · exact h.upper x hold hready
      · simp at hready

/-- A message is processed on a line that no deferred message is about. -/
theorem execute (hC : C.Interlocks row) (h : C.Serial row ⟨s, released, carried⟩) (hs : C.execute s msg = some s')
    (hkey : ∀ op ∈ s.m_array_ops, op.kind = .message → C.getAddressKey op.msg.addr ≠ C.getAddressKey msg.addr) :
    C.Serial row ⟨s', released, carried⟩ := by
  have h' : C.Serial row ⟨{ s with processed := s.processed ++ [msg] }, released, carried⟩ :=
    ⟨h.alone, h.ready, h.order, h.upper⟩
  exact h'.effect hC hs (fun r hr => .inl hr) hkey

/-- A scan keeps that what is queued as ready comes from above. -/
theorem upper_of_rescanned {e : ε} {ops : List DataArrayOp} {buf buf' : List Element}
    (h : List.Forall₂ (PassedOver (C.scan e ops)) buf buf')
    (hbuf : ∀ x ∈ buf, x.state = .ready → x.item.source = .upperInterconnect) :
    ∀ x ∈ buf', x.state = .ready → x.item.source = .upperInterconnect := by
  induction h with
  | nil => simp
  | @cons x y xs ys hxy _ ih =>
    rw [List.forall_mem_cons] at hbuf ⊢
    refine ⟨fun hready => ?_, ih hbuf.2⟩
    cases hxy with
    | same => exact hbuf.1 hready
    | checked hstate hcheck => exact absurd hready hcheck

/-- What the loop knows of the message it takes: it is ready, and no access to its line is deferred. -/
theorem popped (hC : C.Interlocks row) (h : C.Serial row ⟨s, released, carried⟩)
    (hpop : s.m_processing_queue.getFirstReady (C.scan s.env s.m_array_ops) = (some msg, q)) :
    (C.getRequestState s.env msg).1 = .ready ∧
      (∀ op ∈ s.m_array_ops, C.getAddressKey op.msg.addr ≠ C.getAddressKey msg.addr) ∧
      ∀ x ∈ q.buffer, x.state = .ready → x.item.source = .upperInterconnect := by
  rw [getFirstReady] at hpop
  split_ifs at hpop with hclean
  · simp at hpop
  split at hpop
  · next m buffer hscan =>
    obtain ⟨hm, rfl⟩ := Prod.mk.inj hpop
    obtain rfl := Option.some.inj hm
    obtain ⟨pre, e, post, pre', hqueue, hbuf, hpassed, hhold, -, htaken⟩ :=
      firstReady_some (fun m _ => C.ready_or_nonReady s.env m) hscan
    obtain rfl : buffer = pre' ++ post := by simpa using hbuf
    have hmem : e ∈ s.m_processing_queue.buffer := by simp [hqueue]
    obtain ⟨rfl, hready⟩ : m = e.item ∧ (C.getRequestState s.env e.item).1 = .ready := by
      cases htaken with
      | ready hstate => exact ⟨rfl, hC.upper_ready _ _ (h.upper e hmem hstate)⟩
      | checked hstate hcheck => exact ⟨hC.unedited _ _, hcheck⟩
    refine ⟨hready, ?_, fun x hx => ?_⟩
    · simp only [scan, hC.lock, Bool.true_and, lineHasDeferredOp, List.any_eq_false] at hhold
      simpa using hhold
    · rcases List.mem_append.1 hx with hpre | hpost
      · exact upper_of_rescanned hpassed (fun x hx => h.upper x (by simp [hqueue, hx])) x hpre
      · exact h.upper x (by simp [hqueue, hpost])
  · simp at hpop

/-- A fruitless scan. -/
theorem scanned (h : C.Serial row ⟨s, released, carried⟩)
    (hpop : s.m_processing_queue.getFirstReady (C.scan s.env s.m_array_ops) = (none, q)) :
    ∀ x ∈ q.buffer, x.state = .ready → x.item.source = .upperInterconnect := by
  rw [getFirstReady] at hpop
  split_ifs at hpop with hclean
  · obtain rfl := (Prod.mk.inj hpop).2
    exact h.upper
  · split at hpop
    · simp at hpop
    · next buffer hscan =>
      obtain rfl := (Prod.mk.inj hpop).2
      obtain ⟨buf', hbuf, hpassed⟩ := firstReady_none (fun m _ => C.ready_or_nonReady s.env m) hscan
      obtain rfl : buffer = buf' := by simpa using hbuf
      exact upper_of_rescanned hpassed h.upper

/-- One round of the loop. -/
theorem iterate (hC : C.Interlocks row) (h : C.Serial row ⟨s, released, carried⟩) (hs : C.iterate s = some s') :
    C.Serial row ⟨s', released ++ C.releasedBy row s .iterate, carried ++ C.carriedOutBy row s .iterate⟩ := by
  rw [ControllerCore.iterate] at hs
  split at hs
  · next q hpop =>
    obtain rfl := Option.some.inj hs
    have hnothing : C.releasedBy row s .iterate = [] ∧ C.carriedOutBy row s .iterate = [] := by
      simp [releasedBy, carriedOutBy, carriesOut, hpop]
    rw [hnothing.1, hnothing.2, List.append_nil, List.append_nil]
    exact h.setQueue (h.scanned hpop)
  · next m q hpop =>
    obtain ⟨hready, hfree, hupper⟩ := h.popped hC hpop
    split_ifs at hs with hadmitted hdefer
    · -- refused: put back behind the others, or nowhere
      obtain rfl := Option.some.inj hs
      have hrefused : C.canAdmitRequest s.env m = false := by simpa using hadmitted
      have hnothing : C.releasedBy row s .iterate = [] ∧ C.carriedOutBy row s .iterate = [] := by
        simp [releasedBy, carriedOutBy, carriesOut, hpop, hrefused]
      rw [hnothing.1, hnothing.2, List.append_nil, List.append_nil]
      refine h.setQueue fun x hx hstate => ?_
      rcases pushBack_getD q m with hback | hback
      · rw [hback, List.mem_append, List.mem_singleton] at hx
        rcases hx with hx | rfl
        · exact hupper x hx hstate
        · simp at hstate
      · rw [hback] at hx
        exact hupper x hx hstate
    · -- deferred: the only access to its line, with the row it has now
      obtain rfl := Option.some.inj hs
      have hadmit : C.canAdmitRequest s.env m = true := by simpa using hadmitted
      have hreleased : C.releasedBy row s .iterate = [(m, row s.env m)] := by simp [releasedBy, hpop, hadmit]
      have hcarried : C.carriedOutBy row s .iterate = [] := by simp [carriedOutBy, carriesOut, hpop, hdefer]
      rw [hreleased, hcarried, List.append_nil]
      refine ⟨?_, fun op hop hkind => ?_, fun key => ?_, hupper⟩
      · refine List.pairwise_append.2 ⟨h.alone, List.pairwise_singleton _ _, fun a ha b hb _ => ?_⟩
        rw [List.mem_singleton.1 hb]
        exact hfree a ha
      · rcases List.mem_append.1 hop with hold | hnew
        · exact h.ready op hold hkind
        · rw [List.mem_singleton.1 hnew]
          exact hready
      · have hold := h.order key
        simp only [onLine_append, waiting_append, waiting_message] at hold ⊢
        rw [hold, List.append_assoc]
    · -- processed: nothing that is deferred is to its line
      have hadmit : C.canAdmitRequest s.env m = true := by simpa using hadmitted
      have hdefer' : C.deferForDataArray s.env m = false := by simpa using hdefer
      have hreleased : C.releasedBy row s .iterate = [(m, row s.env m)] := by simp [releasedBy, hpop, hadmit]
      have hcarried : C.carriedOutBy row s .iterate = [(m, row s.env m)] := by
        simp [carriedOutBy, carriesOut, hpop, hadmit, hdefer']
      rw [hreleased, hcarried]
      have h' : C.Serial row ⟨{ s with m_processing_queue := q }, released ++ [(m, row s.env m)],
          carried ++ [(m, row s.env m)]⟩ := by
        refine ⟨h.alone, h.ready, fun key => ?_, hupper⟩
        have hold := h.order key
        simp only [onLine_append] at hold ⊢
        rw [hold, List.append_assoc, List.append_assoc]
        congr 1
        by_cases hkey : C.getAddressKey m.addr = key
        · have hempty : C.onLine key (waiting row s.env s.m_array_ops) = [] :=
            onLine_waiting fun op hop _ => hkey ▸ hfree op hop
          rw [hempty, List.append_nil, List.nil_append]
        · rw [onLine_of_ne hkey, List.append_nil, List.nil_append]
      exact h'.execute hC hs fun op hop _ => hfree op hop

/-- A deferred access completes. -/
theorem pipelineFire (hC : C.Interlocks row) (h : C.Serial row ⟨s, released, carried⟩) {k : Nat}
    {l : ControllerLabel} (hs : C.pipelineFire s k = some s') (hnot : C.releasedBy row s l = [])
    (hcarries : C.carriesOut s l = s.m_array_ops[k]?.bind (C.completes s.env)) :
    C.Serial row ⟨s', released ++ C.releasedBy row s l, carried ++ C.carriedOutBy row s l⟩ := by
  obtain ⟨op, hk, hs⟩ := Option.bind_eq_some_iff.1 hs
  obtain ⟨s₁, hs₁, rfl⟩ := Option.map_eq_some_iff.1 hs
  obtain ⟨hlt, rfl⟩ := List.getElem?_eq_some_iff.1 hk
  generalize hop : s.m_array_ops[k] = op at hs₁ hk
  have hops : s.m_array_ops = s.m_array_ops.take k ++ op :: s.m_array_ops.drop (k + 1) := by
    rw [← hop, List.getElem_cons_drop, List.take_append_drop]
  rw [List.eraseIdx_eq_take_drop_succ] at hs₁
  generalize s.m_array_ops.take k = pre at hops hs₁
  generalize s.m_array_ops.drop (k + 1) = post at hops hs₁
  have hmem : op ∈ s.m_array_ops := by simp [hops]
  have hsub : (pre ++ post).Sublist s.m_array_ops := by
    rw [hops]
    exact (List.Sublist.refl pre).append (List.sublist_cons_self op post)
  -- no message waits for the line of an access that leaves the list
  have hkey : ∀ x ∈ pre ++ post, x.kind = .message ∨ op.kind = .message →
      C.getAddressKey x.msg.addr ≠ C.getAddressKey op.msg.addr := by
    have halone := h.alone
    simp only [hops, List.pairwise_append, List.pairwise_cons] at halone
    obtain ⟨-, ⟨hpost, -⟩, hpre⟩ := halone
    intro x hx hkind
    rcases List.mem_append.1 hx with hx | hx
    · exact hpre x hx op List.mem_cons_self hkind
    · exact (hpost x hx hkind.symm).symm
  rw [hk, Option.bind_some] at hcarries
  rw [hnot, List.append_nil]
  have hfire : C.Serial row ⟨s₁, released, carried ++ C.carriedOutBy row s l⟩ := by
    rw [ControllerCore.complete] at hs₁
    cases hkind : op.kind with
    | actions =>
      simp only [hkind] at hs₁
      have hnothing : C.carriedOutBy row s l = [] := by simp [carriedOutBy, hcarries, completes, hkind]
      rw [hnothing, List.append_nil]
      have h' : C.Serial row ⟨{ s with m_array_ops := pre ++ post }, released, carried⟩ := by
        refine ⟨h.alone.sublist hsub, fun x hx => h.ready x (hsub.subset hx), fun key => ?_, h.upper⟩
        have hnone : waiting row s.env [op] = [] := by simp [waiting, opMessages, hkind]
        have hold := h.order key
        rw [hops, ← List.singleton_append] at hold
        simp only [waiting_append, hnone, List.nil_append] at hold
        rw [hold, waiting_append]
      exact h'.effect hC hs₁ (fun r hr => .inr hr) fun x hx hx' => hkey x hx (.inl hx')
    | message =>
      simp only [hkind] at hs₁
      have hstate : C.getRequestState s.env op.msg = (.ready, op.msg) :=
        Prod.ext (h.ready op hmem hkind) (hC.unedited _ _)
      have hone : C.carriedOutBy row s l = [(op.msg, row s.env op.msg)] := by
        simp [carriedOutBy, hcarries, completes, hkind, hstate]
      rw [hone]
      simp only [hstate] at hs₁
      have h' : C.Serial row ⟨{ s with m_array_ops := pre ++ post }, released, carried ++ [(op.msg, row s.env op.msg)]⟩ := by
        refine ⟨h.alone.sublist hsub, fun x hx => h.ready x (hsub.subset hx), fun key => ?_, h.upper⟩
        have hsingle : waiting row s.env [op] = [(op.msg, row s.env op.msg)] := by simp [waiting, opMessages, hkind]
        have hold := h.order key
        rw [hops, ← List.singleton_append] at hold
        simp only [onLine_append, waiting_append, hsingle] at hold ⊢
        rw [hold, List.append_assoc]
        congr 1
        rw [← List.append_assoc, ← List.append_assoc]
        congr 1
        by_cases hop' : C.getAddressKey op.msg.addr = key
        · have hempty : C.onLine key (waiting row s.env pre) = [] :=
            onLine_waiting fun x hx hx' => hop' ▸ hkey x (List.mem_append_left post hx) (.inl hx')
          rw [hempty, List.append_nil, List.nil_append]
        · rw [onLine_of_ne hop', List.append_nil, List.nil_append]
      exact h'.execute hC hs₁ fun x hx hx' => hkey x hx (.inl hx')
  exact ⟨hfire.alone, hfire.ready, hfire.order, hfire.upper⟩

/-- A message from the upper interface. -/
theorem intakeUpper (hC : C.Interlocks row) (h : C.Serial row ⟨s, released, carried⟩) :
    C.Serial row ⟨C.intakeUpper s msg, released, carried⟩ := by
  obtain hsame | ⟨pre, post, x, hbuffer, hs, hitem⟩ := intakeUpper_cases (C := C) s msg
  · rw [hsame]
    exact h
  · have hsource : x.item.source = .upperInterconnect := by
      rcases hitem with hitem | hitem
      · rw [hitem]
      · rw [hitem, hC.unedited]
    have hold : ∀ y ∈ pre ++ post, y.state = .ready → y.item.source = .upperInterconnect := hbuffer ▸ h.upper
    rw [hs]
    refine h.setQueue fun y hy hready => ?_
    rcases List.mem_append.1 hy with hpre | hpost
    · exact hold y (List.mem_append_left _ hpre) hready
    · rcases List.mem_cons.1 hpost with rfl | hpost
      · exact hsource
      · exact hold y (List.mem_append_right _ hpost) hready

/-- A message from the lower interface. -/
theorem intakeLower (h : C.Serial row ⟨s, released, carried⟩) :
    C.Serial row ⟨C.intakeLower s msg, released, carried⟩ := by
  obtain hsame | hs := intakeLower_cases (C := C) s msg
  · rw [hsame]
    exact h
  · rw [hs]
    refine ⟨h.alone, h.ready, h.order, fun x hx hready => ?_⟩
    rcases List.mem_append.1 hx with hx | hx
    · exact h.upper x hx hready
    · obtain rfl := List.mem_singleton.1 hx
      simp at hready

/-- A pending write-back becomes a Replacement. -/
theorem checkReplacements (hC : C.Interlocks row) (h : C.Serial row ⟨s, released, carried⟩) :
    C.Serial row ⟨C.checkReplacements s, released, carried⟩ := by
  rw [ControllerCore.checkReplacements]
  split
  · exact h.setQueue h.upper
  · next w e hw =>
    simp only [pushBack, Bool.not_true, Bool.false_and, Bool.false_eq_true, if_false]
    refine ⟨h.alone, fun op hop hkind => ?_, fun key => ?_, fun x hx hready => ?_⟩
    · rw [C.frame_pendingWB hw]
      exact h.ready op hop hkind
    · have hwaiting : waiting row e s.m_array_ops = waiting row s.env s.m_array_ops :=
          waiting_congr fun op _ _ => hC.frame_pendingWB hw op.msg
      rw [hwaiting]
      exact h.order key
    · rcases List.mem_append.1 hx with hx | hx
      · exact h.upper x hx hready
      · obtain rfl := List.mem_singleton.1 hx
        simp at hready

/-- One step. -/
theorem step (hC : C.Interlocks row) (h : C.Serial row ⟨s, released, carried⟩) {l : ControllerLabel}
    (hs : C.step s l = some s') :
    C.Serial row ⟨s', released ++ C.releasedBy row s l, carried ++ C.carriedOutBy row s l⟩ := by
  cases l with
  | cycle =>
    simp only [ControllerCore.step] at hs
    split_ifs at hs
    obtain rfl := Option.some.inj hs
    simp only [releasedBy, carriedOutBy, carriesOut, List.append_nil]
    refine ⟨h.alone, fun op hop hkind => ?_, fun key => ?_, h.upper⟩
    · rw [C.frame_cycle]
      exact h.ready op hop hkind
    · have hwaiting : waiting row (C.updateCycle s.env) s.m_array_ops = waiting row s.env s.m_array_ops :=
        waiting_congr fun op _ _ => hC.frame_cycle s.env op.msg
      rw [hwaiting]
      exact h.order key
  | fire k =>
    simp only [ControllerCore.step] at hs
    split_ifs at hs
    exact h.pipelineFire hC hs rfl rfl
  | intake upper lower =>
    simp only [ControllerCore.step] at hs
    split_ifs at hs
    obtain rfl := Option.some.inj hs
    simp only [releasedBy, carriedOutBy, carriesOut, List.append_nil]
    cases upper <;> cases lower <;>
      first
        | exact h.checkReplacements hC
        | exact (h.intakeUpper hC).checkReplacements hC
        | exact h.intakeLower.checkReplacements hC
        | exact (h.intakeUpper hC).intakeLower.checkReplacements hC
  | flush =>
    simp only [ControllerCore.step] at hs
    split at hs
    · next key hphase =>
      split at hs
      · next hnone =>
        obtain rfl := Option.some.inj hs
        have hnothing : C.carriedOutBy row s .flush = [] := by simp [carriedOutBy, carriesOut, hphase, hnone]
        have hreleased : C.releasedBy row s .flush = [] := rfl
        rw [hnothing, hreleased, List.append_nil, List.append_nil]
        exact h.setQueue h.upper
      · next k hk =>
        refine h.pipelineFire hC hs rfl ?_
        simp only [carriesOut, hphase, hk, Option.bind_some]
    · simp at hs
  | iterate =>
    simp only [ControllerCore.step] at hs
    split_ifs at hs
    exact h.iterate hC hs

/-- Along every run, what was carried out is what the controller has processed. -/
theorem carriedOut_processed {h : Released ε ρ} (hr : (C.history row).Reachable h) :
    h.carriedOut.map Prod.fst = h.state.processed := by
  induction hr with
  | init hinit =>
    obtain ⟨e, rfl⟩ := hinit
    rfl
  | step _ hstep ih =>
    obtain ⟨hs, -, hcarried⟩ := hstep
    rw [hcarried, List.map_append, ih, processed_step row hs]

/-- The messages of every line are carried out one after the other along every run. -/
theorem serial_inductive (hC : C.Interlocks row) : (C.history row).Inductive (C.Serial row) where
  init := by
    rintro h ⟨e, rfl⟩
    exact start e
  step h l h' _ hinv hstep := by
    obtain ⟨hs, hreleased, hcarried⟩ := hstep
    have hnext := hinv.step hC hs
    rw [← hreleased, ← hcarried] at hnext
    exact hnext

end Serial

end ControllerCore

end Octopus
