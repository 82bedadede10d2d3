import Mathlib.Data.List.Basic
import Octopus.Controller.ProcessLogic

/-!
# The order of the demand requests of a line

The per-line gate and the hold keep the demand requests of a line in arrival order: what has been
processed, then what is deferred, then what is queued. The one place that can break the order is
the refusal of `canAdmitRequest`, which puts a request back behind a younger one of its line.
-/

namespace Octopus

namespace ControllerCore

open FRFCFSBuffer

variable {ε : Type} (C : ControllerCore ε)

/-- The demand requests to a line, in the order of a list. -/
def demandsOf (key : Nat) (msgs : List Message) : List Message :=
  msgs.filter fun m => m.isDemandRequest && C.getAddressKey m.addr == key

/-- The whole messages that wait for the data array. -/
def opMessages (ops : List DataArrayOp) : List Message :=
  (ops.filter fun op => op.kind = .message).map (·.msg)

/-- The messages of a queue. -/
def items (buffer : List Element) : List Message := buffer.map (·.item)

section Lists

variable {C} {key : Nat} {m : Message} {xs ys : List Message} {ops ops' : List DataArrayOp} {buf buf' : List Element}

@[simp] theorem demandsOf_nil : C.demandsOf key [] = [] := rfl

@[simp] theorem demandsOf_append : C.demandsOf key (xs ++ ys) = C.demandsOf key xs ++ C.demandsOf key ys :=
  List.filter_append ..

/-- A message that is no demand request to the line does not count. -/
theorem demandsOf_cons_of_not (h : m.isDemandRequest = true → C.getAddressKey m.addr ≠ key) :
    C.demandsOf key (m :: xs) = C.demandsOf key xs := by
  rw [demandsOf, List.filter_cons_of_neg, demandsOf]
  simpa using h

/-- Messages that are no demand requests to the line do not count. -/
theorem demandsOf_eq_nil (h : ∀ m ∈ xs, m.isDemandRequest = true → C.getAddressKey m.addr ≠ key) :
    C.demandsOf key xs = [] := by
  rw [demandsOf, List.filter_eq_nil_iff]
  simpa using h

@[simp] theorem opMessages_append : opMessages (ops ++ ops') = opMessages ops ++ opMessages ops' := by
  simp [opMessages]

/-- Parked actions are no whole messages. -/
@[simp] theorem opMessages_actions (msgs : List Message) : opMessages (msgs.map fun m => ⟨.actions, m⟩) = [] := by
  simp [opMessages]

@[simp] theorem items_append : items (buf ++ buf') = items buf ++ items buf' := List.map_append

@[simp] theorem items_nil : items [] = [] := rfl

@[simp] theorem items_cons {e : Element} : items (e :: buf) = e.item :: items buf := rfl

/-- A scan keeps the demand requests of an element it passes over. -/
theorem demandsOf_passedOver {e : ε} {x y : Element} (h : PassedOver (C.scan e ops) x y) :
    C.demandsOf key [y.item] = C.demandsOf key [x.item] := by
  cases h with
  | same => rfl
  | checked hstate hcheck =>
    rcases C.edit e x.item with hsame | ⟨hbefore, hafter⟩
    · simp only [scan, hsame]
    · rw [demandsOf_cons_of_not (by simp [scan, hafter]), demandsOf_cons_of_not (by simp [hbefore])]

/-- A scan keeps the demand requests of the elements it passes over. -/
theorem demandsOf_rescanned {e : ε} (h : List.Forall₂ (PassedOver (C.scan e ops)) buf buf') :
    C.demandsOf key (items buf') = C.demandsOf key (items buf) := by
  induction h with
  | nil => rfl
  | cons hxy _ ih =>
    rw [items_cons, items_cons, ← List.singleton_append, demandsOf_append, ih, demandsOf_passedOver hxy,
      ← demandsOf_append, List.singleton_append]

/-- The messages of Stall cells go to the end of the queue. -/
theorem stall_buffer {q q' : FRFCFSBuffer} (h : stall q xs = some q') :
    q'.buffer = q.buffer ++ xs.map fun m => ⟨m, .nonReady⟩ := by
  induction xs generalizing q with
  | nil => simp [← Option.some.inj h]
  | cons m xs ih =>
    obtain ⟨q₁, hq₁, hrest⟩ := Option.bind_eq_some_iff.1 h
    rw [pushBack] at hq₁
    split_ifs at hq₁
    rw [ih hrest, ← Option.some.inj hq₁]
    simp

/-- An unforced message goes to the end of the queue, or nowhere if the queue is full. -/
theorem pushBack_getD (q : FRFCFSBuffer) (m : Message) :
    ((q.pushBack m .nonReady false).getD q).buffer = q.buffer ++ [⟨m, .nonReady⟩] ∨
      (q.pushBack m .nonReady false).getD q = q := by
  rw [pushBack]
  split_ifs
  · exact .inr rfl
  · exact .inl rfl

end Lists

/-- The demand requests of every line are processed, deferred and queued in the order of their arrival. -/
structure InOrder (s : CacheController ε) : Prop where
  order : ∀ key, (C.demandsOf key (s.processed ++ opMessages s.m_array_ops ++ items s.m_processing_queue.buffer)).Sublist
    (C.demandsOf key s.arrived)
  /-- A queued demand request has passed no scan as ready. -/
  nonReady : ∀ e ∈ s.m_processing_queue.buffer, e.item.isDemandRequest = true → e.state = .nonReady
  interlock : ∀ op ∈ s.m_array_ops, op.kind = .message → C.m_line_interlock = true
  /-- A deferred message is the only access to its line. -/
  alone : s.m_array_ops.Pairwise fun a b => a.kind = .message ∨ b.kind = .message →
    C.getAddressKey a.msg.addr ≠ C.getAddressKey b.msg.addr
  /-- A deferred demand request is as ready as when it was deferred. -/
  ready : ∀ op ∈ s.m_array_ops, op.kind = .message → op.msg.isDemandRequest = true →
    (C.getRequestState s.env op.msg).1 = .ready

namespace InOrder

variable {C} {s s' : CacheController ε} {msg : Message} {q : FRFCFSBuffer} {res : Except Exit (Processed ε)}

/-- The effect of a message on a line that no deferred message is about. -/
theorem effect (h : C.InOrder s) {key : Nat} (hs : ControllerCore.effect s res = some s')
    (hstalled : ∀ r, res = .ok r → ∀ x ∈ r.stalled, x.isDemandRequest = false)
    (hparked : ∀ r, res = .ok r → ∀ x ∈ r.parked, C.getAddressKey x.addr = key)
    (hframe : ∀ r, res = .ok r → ∀ x, C.getAddressKey x.addr ≠ key →
      (C.getRequestState r.env x).1 = (C.getRequestState s.env x).1)
    (hkey : ∀ op ∈ s.m_array_ops, op.kind = .message → C.getAddressKey op.msg.addr ≠ key) : C.InOrder s' := by
  cases res with
  | error e => simp [ControllerCore.effect] at hs
  | ok r =>
    obtain ⟨q, hq, rfl⟩ := Option.map_eq_some_iff.1 hs
    have hbuffer := stall_buffer hq
    have hnone : ∀ key, C.demandsOf key (items (r.stalled.map fun m => ⟨m, .nonReady⟩)) = [] := by
      intro key
      refine demandsOf_eq_nil fun m hm hdemand => ?_
      simp only [items, List.map_map, List.mem_map, Function.comp_apply] at hm
      obtain ⟨x, hx, rfl⟩ := hm
      simp [hstalled r rfl x hx] at hdemand
    have hmessages : ∀ op ∈ s.m_array_ops ++ r.parked.map fun msg => ⟨.actions, msg⟩, op.kind = .message →
        op ∈ s.m_array_ops := by
      intro op hop hkind
      rcases List.mem_append.1 hop with hold | hnew
      · exact hold
      · obtain ⟨x, -, rfl⟩ := List.mem_map.1 hnew
        simp at hkind
    refine ⟨fun key => ?_, fun e he hdemand => ?_, fun op hop hkind => h.interlock op (hmessages op hop hkind) hkind, ?_,
      fun op hop hkind hdemand => ?_⟩
    · simpa [hbuffer, hnone] using h.order key
    · rw [hbuffer, List.mem_append, List.mem_map] at he
      rcases he with hold | ⟨x, -, rfl⟩
      · exact h.nonReady e hold hdemand
      · rfl
    · refine List.pairwise_append.2 ⟨h.alone, ?_, fun a ha b hb hkind => ?_⟩
      · rw [List.pairwise_map]
        exact List.pairwise_of_forall fun a b hkind => by simp at hkind
      · obtain ⟨x, hx, rfl⟩ := List.mem_map.1 hb
        rw [hparked r rfl x hx]
        exact hkey a ha (by simpa using hkind)
    · have hold := hmessages op hop hkind
      rw [hframe r rfl op.msg (hkey op hold hkind)]
      exact h.ready op hold hkind hdemand

/-- A message is processed that does not stall if it is a demand request. -/
theorem execute (h : C.InOrder { s with processed := s.processed ++ [msg] })
    (hs : C.execute s msg = some s')
    (hready : msg.isDemandRequest = true → (C.getRequestState s.env msg).1 = .ready)
    (hkey : ∀ op ∈ s.m_array_ops, op.kind = .message → C.getAddressKey op.msg.addr ≠ C.getAddressKey msg.addr) :
    C.InOrder s' := by
  refine h.effect hs (fun r hr x hx => ?_) (fun r hr => C.parked_key (.inl hr)) (fun r hr => C.frame (.inl hr)) hkey
  rw [← Bool.not_eq_true]
  intro hdemand
  obtain ⟨rfl, hstate⟩ := C.stalled_demand hr x hx hdemand
  exact hstate (hready hdemand)

/-- A demand request is not ready before a scan has found it so. -/
theorem nonReady_of_rescanned {e : ε} {ops : List DataArrayOp} {buf buf' : List Element}
    (h : List.Forall₂ (PassedOver (C.scan e ops)) buf buf')
    (hbuf : ∀ x ∈ buf, x.item.isDemandRequest = true → x.state = .nonReady) :
    ∀ x ∈ buf', x.item.isDemandRequest = true → x.state = .nonReady := by
  induction h with
  | nil => simp
  | @cons x y xs ys hxy _ ih =>
    rw [List.forall_mem_cons] at hbuf ⊢
    refine ⟨fun hdemand => ?_, ih hbuf.2⟩
    cases hxy with
    | same => exact hbuf.1 hdemand
    | checked hstate hcheck =>
      rcases C.ready_or_nonReady e x.item with hready | hnot
      · exact absurd hready hcheck
      · exact hnot

/-- What the loop knows of a message that it has taken from the queue. -/
structure Popped (C : ControllerCore ε) (s : CacheController ε) (m : Message) (q : FRFCFSBuffer) : Prop where
  /-- A demand request is ready, and it is the first of its line. -/
  ready : m.isDemandRequest = true → (C.getRequestState s.env m).1 = .ready
  order : ∀ key, C.demandsOf key (items s.m_processing_queue.buffer) = C.demandsOf key (m :: items q.buffer)
  nonReady : ∀ x ∈ q.buffer, x.item.isDemandRequest = true → x.state = .nonReady
  /-- No access to its line is deferred. -/
  free : C.m_line_interlock = true → ∀ op ∈ s.m_array_ops, C.getAddressKey op.msg.addr ≠ C.getAddressKey m.addr

/-- What the loop knows of the message it takes. -/
theorem popped (h : C.InOrder s)
    (hpop : s.m_processing_queue.getFirstReady (C.scan s.env s.m_array_ops) = (some msg, q)) : Popped C s msg q := by
  rw [getFirstReady] at hpop
  split_ifs at hpop with hclean
  · simp at hpop
  split at hpop
  · next m buffer hscan =>
    obtain ⟨hm, rfl⟩ := Prod.mk.inj hpop
    obtain rfl := Option.some.inj hm
    obtain ⟨pre, e, post, pre', hqueue, hbuf, hpassed, hhold, hgate, htaken⟩ :=
      firstReady_some (fun m _ => C.ready_or_nonReady s.env m) hscan
    obtain rfl : buffer = pre' ++ post := by simpa using hbuf
    have hedit : m = e.item ∨ e.item.isDemandRequest = false ∧ m.isDemandRequest = false := by
      cases htaken with
      | ready => exact .inl rfl
      | checked => exact C.edit s.env e.item
    have htake : ∀ key, C.demandsOf key [e.item] = C.demandsOf key [m] := by
      intro key
      rcases hedit with rfl | ⟨hbefore, hafter⟩
      · rfl
      · rw [demandsOf_cons_of_not (by simp [hbefore]), demandsOf_cons_of_not (by simp [hafter])]
    have hmem : e ∈ s.m_processing_queue.buffer := by simp [hqueue]
    refine ⟨fun hdemand => ?_, fun key => ?_, fun x hx => ?_, fun hlock op hop => ?_⟩
    · cases htaken with
      | ready hstate => simp [h.nonReady e hmem hdemand] at hstate
      | checked hstate hcheck =>
        rcases hedit with heq | ⟨-, hafter⟩
        · rw [heq]
          exact hcheck
        · simp [hafter] at hdemand
    · have hcommute : C.demandsOf key [m] ++ C.demandsOf key (items pre') =
          C.demandsOf key (items pre') ++ C.demandsOf key [m] := by
        by_cases hm : m.isDemandRequest = true ∧ C.getAddressKey m.addr = key
        · -- the gate: no older demand request to the line
          obtain rfl : m = e.item := hedit.resolve_right fun hnot => by simp [hnot.2] at hm
          have hpre : C.demandsOf key (items pre') = [] := by
            refine demandsOf_eq_nil fun o ho hdemand hkey => ?_
            obtain ⟨x, hx, rfl⟩ := List.mem_map.1 ho
            simp only [List.nil_append, gated, Message.isOrdered, hm.1, Bool.true_or, Bool.true_and,
              List.any_eq_false] at hgate
            exact hgate x hx (by simp [hdemand, scan, hkey, hm.2])
          rw [hpre, List.append_nil, List.nil_append]
        · rw [demandsOf_cons_of_not (by simpa using hm)]
          simp
      have happend : ∀ x (xs : List Message), C.demandsOf key (x :: xs) = C.demandsOf key [x] ++ C.demandsOf key xs :=
        fun x xs => @demandsOf_append ε C key [x] xs
      rw [hqueue, items_append, items_cons, demandsOf_append, happend e.item, htake, happend m (items _), items_append,
        demandsOf_append, ← demandsOf_rescanned hpassed, ← List.append_assoc, ← List.append_assoc, hcommute]
    · rcases List.mem_append.1 hx with hpre | hpost
      · exact nonReady_of_rescanned hpassed (fun x hx => h.nonReady x (by simp [hqueue, hx])) x hpre
      · exact h.nonReady x (by simp [hqueue, hpost])
    · simp only [scan, hlock, Bool.true_and, lineHasDeferredOp, List.any_eq_false] at hhold
      have hkey : C.getAddressKey m.addr = C.getAddressKey e.item.addr := by
        cases htaken with
        | ready => rfl
        | checked => exact congrArg C.getAddressKey (C.edit_addr s.env e.item)
      simpa [hkey] using hhold op hop
  · simp at hpop

/-- A fruitless scan. -/
theorem scanned (h : C.InOrder s)
    (hpop : s.m_processing_queue.getFirstReady (C.scan s.env s.m_array_ops) = (none, q)) :
    (∀ key, C.demandsOf key (items q.buffer) = C.demandsOf key (items s.m_processing_queue.buffer)) ∧
      ∀ x ∈ q.buffer, x.item.isDemandRequest = true → x.state = .nonReady := by
  rw [getFirstReady] at hpop
  split_ifs at hpop with hclean
  · obtain rfl := (Prod.mk.inj hpop).2
    exact ⟨fun _ => rfl, h.nonReady⟩
  · split at hpop
    · simp at hpop
    · next buffer hscan =>
      obtain rfl := (Prod.mk.inj hpop).2
      obtain ⟨buf', hbuf, hpassed⟩ := firstReady_none (fun m _ => C.ready_or_nonReady s.env m) hscan
      obtain rfl : buffer = buf' := by simpa using hbuf
      exact ⟨fun key => demandsOf_rescanned hpassed, nonReady_of_rescanned hpassed h.nonReady⟩

/-- The first state. -/
theorem start (e : ε) : C.InOrder (C.start e) where
  order key := by simp [ControllerCore.start, opMessages]
  nonReady e he := by simp [ControllerCore.start] at he
  interlock op hop := by simp [ControllerCore.start] at hop
  alone := by simp [ControllerCore.start]
  ready op hop := by simp [ControllerCore.start] at hop

/-- A queue with the same demand requests in the same order. -/
theorem setQueue (h : C.InOrder s) {phase : ControllerPhase}
    (horder : ∀ key, (C.demandsOf key (items q.buffer)).Sublist
      (C.demandsOf key (items s.m_processing_queue.buffer)))
    (hnonReady : ∀ x ∈ q.buffer, x.item.isDemandRequest = true → x.state = .nonReady) :
    C.InOrder { s with m_processing_queue := q, phase := phase } where
  order key := by
    have hold := h.order key
    rw [demandsOf_append] at hold ⊢
    exact ((List.Sublist.refl _).append (horder key)).trans hold
  nonReady := hnonReady
  interlock := h.interlock
  alone := h.alone
  ready := h.ready

end InOrder

/-- No request is refused while a younger one of its line is queued. -/
def RefusesAlone (s : CacheController ε) : ControllerLabel → Prop
  | .iterate => ∀ m q, s.m_processing_queue.getFirstReady (C.scan s.env s.m_array_ops) = (some m, q) →
      C.canAdmitRequest s.env m = false → ∀ x ∈ q.buffer, x.item.isDemandRequest = true →
      C.getAddressKey x.item.addr ≠ C.getAddressKey m.addr
  | _ => True

/-- The guard, computed. -/
def refusesAlone (s : CacheController ε) : ControllerLabel → Bool
  | .iterate =>
    let scanned := s.m_processing_queue.getFirstReady (C.scan s.env s.m_array_ops)
    scanned.1.all fun m => C.canAdmitRequest s.env m ||
      scanned.2.buffer.all fun x => !x.item.isDemandRequest || C.getAddressKey x.item.addr != C.getAddressKey m.addr
  | _ => true

/-- The computed guard decides. -/
theorem refusesAlone_iff {s : CacheController ε} {l : ControllerLabel} : C.refusesAlone s l = true ↔ C.RefusesAlone s l := by
  cases l with
  | iterate =>
    rcases hpop : s.m_processing_queue.getFirstReady (C.scan s.env s.m_array_ops) with ⟨_ | m, q⟩
    · simp [refusesAlone, RefusesAlone, hpop]
    · simp only [refusesAlone, RefusesAlone, hpop, Option.all_some, Bool.or_eq_true, List.all_eq_true,
        Bool.not_eq_true', bne_iff_ne, ne_eq, Prod.mk.injEq, Option.some.injEq, and_imp]
      constructor
      · rintro h m' q' rfl rfl hrefused x hx hdemand
        exact ((h.resolve_left (by simp [hrefused])) x hx).resolve_left (by simp [hdemand])
      · intro h
        cases hadmitted : C.canAdmitRequest s.env m with
        | true => exact .inl rfl
        | false =>
          refine .inr fun x hx => ?_
          cases hdemand : x.item.isDemandRequest with
          | false => exact .inl rfl
          | true => exact .inr (h m q rfl rfl hadmitted x hx hdemand)
  | _ => simp [refusesAlone, RefusesAlone]

/-- A run whose steps all meet a guard. -/
def runWhile (guard : CacheController ε → ControllerLabel → Bool) (s : CacheController ε) :
    List ControllerLabel → Option (CacheController ε)
  | [] => some s
  | l :: rest => if guard s l then (C.step s l).bind fun s' => runWhile guard s' rest else none

/-- A run of the guarded steps reaches what the guarded system reaches. -/
theorem runWhile_reachable {guard : CacheController ε → ControllerLabel → Bool}
    (G : CacheController ε → ControllerLabel → Prop) (hguard : ∀ {s l}, guard s l = true → G s l)
    {s s' : CacheController ε} {labels : List ControllerLabel} (hr : (C.system.restrict G).Reachable s)
    (hrun : C.runWhile guard s labels = some s') : (C.system.restrict G).Reachable s' := by
  induction labels generalizing s with
  | nil =>
    obtain rfl := Option.some.inj hrun
    exact hr
  | cons l rest ih =>
    rw [runWhile] at hrun
    split_ifs at hrun with hl
    obtain ⟨s₁, hs₁, hrest⟩ := Option.bind_eq_some_iff.1 hrun
    exact ih (hr.step ⟨hguard hl, hs₁⟩) hrest

/-- A run reaches what the system reaches. -/
theorem run_reachable {s s' : CacheController ε} {labels : List ControllerLabel} (hr : C.system.Reachable s)
    (hrun : C.runWhile (fun _ _ => true) s labels = some s') : C.system.Reachable s' :=
  (C.runWhile_reachable (fun _ _ => True) (fun _ => trivial)
    (hr.restrict_of_forall fun _ _ => trivial) hrun).of_restrict

namespace InOrder

variable {C} {s s' : CacheController ε} {msg : Message} {q : FRFCFSBuffer}

/-- One round of the loop. -/
theorem iterate (h : C.InOrder s) (hguard : C.RefusesAlone s .iterate) (hs : C.iterate s = some s') : C.InOrder s' := by
  rw [ControllerCore.iterate] at hs
  split at hs
  · next q hpop =>
    obtain rfl := Option.some.inj hs
    obtain ⟨horder, hnonReady⟩ := h.scanned hpop
    exact h.setQueue (fun key => by rw [horder]) hnonReady
  · next m q hpop =>
    obtain ⟨hready, horder, hnonReady, hfree⟩ := h.popped hpop
    have hkey : ∀ op ∈ s.m_array_ops, op.kind = .message → C.getAddressKey op.msg.addr ≠ C.getAddressKey m.addr :=
      fun op hop hkind => hfree (h.interlock op hop hkind) op hop
    have hops : C.demandsOf (C.getAddressKey m.addr) (opMessages s.m_array_ops) = [] := by
      refine demandsOf_eq_nil fun x hx _ => ?_
      obtain ⟨op, hop, rfl⟩ := List.mem_map.1 hx
      obtain ⟨hop, hkind⟩ := List.mem_filter.1 hop
      exact hkey op hop (by simpa using hkind)
    have hcons : ∀ key, C.demandsOf key (m :: items q.buffer) = C.demandsOf key [m] ++ C.demandsOf key (items q.buffer) :=
      fun key => @demandsOf_append ε C key [m] _
    have hcommute : ∀ key (xs : List Message), C.demandsOf (C.getAddressKey m.addr) xs = [] →
        C.demandsOf key [m] ++ C.demandsOf key xs = C.demandsOf key xs ++ C.demandsOf key [m] := by
      intro key xs hxs
      by_cases hm : key = C.getAddressKey m.addr
      · rw [hm, hxs, List.append_nil, List.nil_append]
      · rw [demandsOf_cons_of_not fun _ => Ne.symm hm]
        simp
    split_ifs at hs with hadmitted hdefer
    · -- refused: behind the other requests, none of which is to its line
      obtain rfl := Option.some.inj hs
      have hrefused : C.canAdmitRequest s.env m = false := by simpa using hadmitted
      have hempty : C.demandsOf (C.getAddressKey m.addr) (items q.buffer) = [] := by
        refine demandsOf_eq_nil fun x hx hdemand => ?_
        obtain ⟨y, hy, rfl⟩ := List.mem_map.1 hx
        exact hguard m q hpop hrefused y hy hdemand
      rcases pushBack_getD q m with hback | hback
      · refine h.setQueue (fun key => ?_) fun x hx hdemand => ?_
        · rw [horder, hcons, hcommute key _ hempty, hback]
          simp
        · rw [hback, List.mem_append, List.mem_singleton] at hx
          rcases hx with hx | rfl
          · exact hnonReady x hx hdemand
          · rfl
      · rw [hback]
        refine h.setQueue (fun key => ?_) hnonReady
        rw [horder, hcons]
        exact List.sublist_append_right ..
    · -- deferred: the first of its line, and the only access to it
      obtain rfl := Option.some.inj hs
      have hlock : C.m_line_interlock = true := by
        rw [deferForDataArray, Bool.and_eq_true] at hdefer
        exact hdefer.1
      refine ⟨fun key => ?_, hnonReady, fun op hop hkind => hlock, ?_, fun op hop hkind hdemand => ?_⟩
      · have hold := h.order key
        rw [demandsOf_append, horder, hcons] at hold
        simpa [opMessages, hcons] using hold
      · refine List.pairwise_append.2 ⟨h.alone, List.pairwise_singleton _ _, fun a ha b hb _ => ?_⟩
        rw [List.mem_singleton.1 hb]
        exact hfree hlock a ha
      · rcases List.mem_append.1 hop with hold | hnew
        · exact h.ready op hold hkind hdemand
        · rw [List.mem_singleton.1 hnew] at hdemand ⊢
          exact hready hdemand
    · -- processed: what is deferred is not to its line
      refine execute (s := { s with m_processing_queue := q }) ⟨fun key => ?_, hnonReady, h.interlock, h.alone, h.ready⟩
        hs hready hkey
      have hold := h.order key
      rw [demandsOf_append, demandsOf_append, horder, hcons] at hold
      rw [demandsOf_append, demandsOf_append, demandsOf_append, List.append_assoc, List.append_assoc,
        ← List.append_assoc (C.demandsOf key [m]), hcommute key _ hops]
      simpa using hold

/-- No access to the line of a deferred message is left once it is off the list. -/
theorem erase_key (h : C.InOrder s) {pre post : List DataArrayOp} {op : DataArrayOp}
    (hops : s.m_array_ops = pre ++ op :: post) : ∀ x ∈ pre ++ post, x.kind = .message ∨ op.kind = .message →
      C.getAddressKey x.msg.addr ≠ C.getAddressKey op.msg.addr := by
  have halone := h.alone
  rw [hops, List.pairwise_append, List.pairwise_cons] at halone
  obtain ⟨-, ⟨hpost, -⟩, hpre⟩ := halone
  intro x hx hkind
  rcases List.mem_append.1 hx with hx | hx
  · exact hpre x hx op List.mem_cons_self hkind
  · exact (hpost x hx hkind.symm).symm

/-- An access leaves the list; a message is processed, or is no demand request. -/
theorem erase (h : C.InOrder s) {pre post : List DataArrayOp} {op : DataArrayOp}
    (hops : s.m_array_ops = pre ++ op :: post) (msgs : List Message)
    (horder : ∀ key, C.demandsOf key msgs = C.demandsOf key (opMessages [op])) :
    C.InOrder { s with m_array_ops := pre ++ post, processed := s.processed ++ msgs } := by
  have hsub : (pre ++ post).Sublist s.m_array_ops := by
    rw [hops]
    exact (List.Sublist.refl pre).append (List.sublist_cons_self op post)
  refine ⟨fun key => ?_, h.nonReady, fun x hx => h.interlock x (hsub.subset hx), h.alone.sublist hsub,
    fun x hx => h.ready x (hsub.subset hx)⟩
  have hcommute : C.demandsOf key (opMessages [op]) ++ C.demandsOf key (opMessages pre) =
      C.demandsOf key (opMessages pre) ++ C.demandsOf key (opMessages [op]) := by
    by_cases hop : op.kind = .message ∧ C.getAddressKey op.msg.addr = key
    · have hpre : C.demandsOf key (opMessages pre) = [] := by
        refine demandsOf_eq_nil fun m hm _ => ?_
        obtain ⟨x, hx, rfl⟩ := List.mem_map.1 hm
        rw [← hop.2]
        exact h.erase_key hops x (List.mem_append_left post (List.mem_filter.1 hx).1) (.inr hop.1)
      rw [hpre, List.append_nil, List.nil_append]
    · have hnone : C.demandsOf key (opMessages [op]) = [] := by
        refine demandsOf_eq_nil fun m hm _ => ?_
        obtain ⟨x, hx, rfl⟩ := List.mem_map.1 hm
        obtain ⟨hx, hkind⟩ := List.mem_filter.1 hx
        obtain rfl := List.mem_singleton.1 hx
        exact fun hkey => hop ⟨by simpa using hkind, hkey⟩
      rw [hnone, List.append_nil, List.nil_append]
  have hsplit : opMessages s.m_array_ops = opMessages pre ++ opMessages [op] ++ opMessages post := by
    rw [hops, ← List.singleton_append, opMessages_append, opMessages_append, List.append_assoc]
  have hold := h.order key
  rw [hsplit] at hold
  simp only [demandsOf_append, opMessages_append, horder, List.append_assoc] at hold ⊢
  rwa [← List.append_assoc (C.demandsOf key (opMessages [op])), hcommute, List.append_assoc]

/-- A deferred access completes. -/
theorem complete (h : C.InOrder s) {pre post : List DataArrayOp} {op : DataArrayOp}
    (hops : s.m_array_ops = pre ++ op :: post)
    (hs : C.complete { s with m_array_ops := pre ++ post } op = some s') : C.InOrder s' := by
  have hmem : op ∈ s.m_array_ops := by simp [hops]
  have hkey := h.erase_key hops
  rw [ControllerCore.complete] at hs
  cases hkind : op.kind with
  | actions =>
    simp only [hkind] at hs
    have herased := h.erase hops [] (by simp [opMessages, hkind])
    rw [List.append_nil] at herased
    refine herased.effect hs (fun r hr => ?_) (fun r hr => C.parked_key (.inr hr)) (fun r hr => C.frame (.inr hr))
      fun x hx hx' => hkey x hx (.inl hx')
    simp [C.fired_stalled hr]
  | message =>
    simp only [hkind] at hs
    have hdemand : ∀ m, (C.getRequestState s.env op.msg).2 = m → ∀ key,
        C.demandsOf key [m] = C.demandsOf key (opMessages [op]) := by
      rintro m rfl key
      have hop : opMessages [op] = [op.msg] := by simp [opMessages, hkind]
      rw [hop]
      rcases C.edit s.env op.msg with hsame | ⟨hbefore, hafter⟩
      · rw [hsame]
      · rw [demandsOf_cons_of_not (by simp [hafter]), demandsOf_cons_of_not (by simp [hbefore])]
    rcases hstate : C.getRequestState s.env op.msg with ⟨state, m⟩
    have hm : (C.getRequestState s.env op.msg).2 = m := by rw [hstate]
    have haddr : m.addr = op.msg.addr := by rw [← hm, C.edit_addr]
    rw [hstate] at hs
    rcases C.ready_or_nonReady s.env op.msg with hready | hnot
    · obtain rfl : state = .ready := by simpa [hstate] using hready
      have herased := h.erase hops [m] (hdemand m hm)
      refine execute (s := { s with m_array_ops := pre ++ post }) herased hs (fun hd => ?_) fun x hx hx' => ?_
      · rcases C.edit s.env op.msg with hsame | ⟨-, hafter⟩
        · rw [← hm, hsame]
          exact hready
        · rw [hm] at hafter
          simp [hafter] at hd
      · rw [haddr]
        exact hkey x hx (.inl hx')
    · obtain rfl : state = .nonReady := by simpa [hstate] using hnot
      -- no demand request: it would still be ready
      have hop : op.msg.isDemandRequest = false := by
        rw [← Bool.not_eq_true]
        exact fun hd => by simp [h.ready op hmem hkind hd] at hnot
      have hnone : ∀ key, C.demandsOf key (opMessages [op]) = [] := by
        intro key
        refine demandsOf_eq_nil fun x hx hd => ?_
        obtain ⟨y, hy, rfl⟩ := List.mem_map.1 hx
        obtain rfl := List.mem_singleton.1 (List.mem_filter.1 hy).1
        simp [hop] at hd
      have hd : m.isDemandRequest = false := by
        rcases C.edit s.env op.msg with hsame | ⟨-, hafter⟩
        · rw [← hm, hsame, hop]
        · rw [← hm, hafter]
      have herased := h.erase hops [] fun key => by rw [hnone, demandsOf_nil]
      rw [List.append_nil] at herased
      simp only [pushBack, Bool.not_true, Bool.false_and, Bool.false_eq_true, if_false, Option.map_some] at hs
      obtain rfl := Option.some.inj hs
      refine herased.setQueue (fun key => ?_) fun x hx hx' => ?_
      · rw [items_append, demandsOf_append, items_cons, items_nil, demandsOf_cons_of_not (by simp [hd])]
        simp
      · rcases List.mem_append.1 hx with hx | hx
        · exact h.nonReady x hx hx'
        · obtain rfl := List.mem_singleton.1 hx
          rfl

/-- `pipelineFire`. -/
theorem pipelineFire (h : C.InOrder s) {k : Nat} (hs : C.pipelineFire s k = some s') : C.InOrder s' := by
  obtain ⟨op, hk, hs⟩ := Option.bind_eq_some_iff.1 hs
  obtain ⟨s₁, hs₁, rfl⟩ := Option.map_eq_some_iff.1 hs
  obtain ⟨hlt, rfl⟩ := List.getElem?_eq_some_iff.1 hk
  have hops : s.m_array_ops = s.m_array_ops.take k ++ s.m_array_ops[k] :: s.m_array_ops.drop (k + 1) := by
    rw [List.getElem_cons_drop, List.take_append_drop]
  rw [List.eraseIdx_eq_take_drop_succ] at hs₁
  have hinv := h.complete hops hs₁
  exact hinv.setQueue (fun _ => List.Sublist.refl _) hinv.nonReady

/-- A message from the upper interface. -/
theorem intakeUpper (h : C.InOrder s) : C.InOrder (C.intakeUpper s msg) := by
  obtain hsame | ⟨pre, post, x, hbuffer, hs, hitem⟩ := intakeUpper_cases (C := C) s msg
  · rw [hsame]
    exact h
  · have hupper : ({ msg with source := .upperInterconnect } : Message).isDemandRequest = false := by
      simp [Message.isDemandRequest]
    have hnot : x.item.isDemandRequest = false := by
      rcases hitem with hitem | hitem
      · rw [hitem, hupper]
      · rcases C.edit s.env { msg with source := .upperInterconnect } with hedit | ⟨-, hedit⟩
        · rw [hitem, hedit, hupper]
        · rw [hitem, hedit]
    rw [hs]
    refine h.setQueue (fun key => ?_) fun y hy hd => ?_
    · have hskip : C.demandsOf key (x.item :: items post) = C.demandsOf key (items post) :=
        demandsOf_cons_of_not (by simp [hnot])
      rw [items_append, items_cons, demandsOf_append, hskip, ← demandsOf_append, ← items_append, ← hbuffer]
    · have hold : y = x ∨ y ∈ s.m_processing_queue.buffer := by
        rw [hbuffer, List.mem_append]
        rcases List.mem_append.1 hy with hpre | hpost
        · exact .inr (.inl hpre)
        · exact (List.mem_cons.1 hpost).imp_right .inr
      rcases hold with rfl | hold
      · simp [hnot] at hd
      · exact h.nonReady y hold hd

/-- A message from the lower interface. -/
theorem intakeLower (h : C.InOrder s) : C.InOrder (C.intakeLower s msg) := by
  obtain hsame | hs := intakeLower_cases (C := C) s msg
  · rw [hsame]
    exact h
  · rw [hs]
    refine ⟨fun key => ?_, fun x hx hd => ?_, h.interlock, h.alone, h.ready⟩
    · have hold := h.order key
      simp only [items_append, ← List.append_assoc, demandsOf_append] at hold ⊢
      exact hold.append (List.Sublist.refl _)
    · rcases List.mem_append.1 hx with hx | hx
      · exact h.nonReady x hx hd
      · obtain rfl := List.mem_singleton.1 hx
        rfl

/-- A pending write-back becomes a Replacement. -/
theorem checkReplacements (h : C.InOrder s) : C.InOrder (C.checkReplacements s) := by
  rw [ControllerCore.checkReplacements]
  split
  · exact h.setQueue (fun _ => List.Sublist.refl _) h.nonReady
  · next w e hw =>
    simp only [pushBack, Bool.not_true, Bool.false_and, Bool.false_eq_true, if_false]
    have hready : ∀ op ∈ s.m_array_ops, op.kind = .message → op.msg.isDemandRequest = true →
        (C.getRequestState e op.msg).1 = .ready := fun op hop hkind hd => by
      rw [C.frame_pendingWB hw]
      exact h.ready op hop hkind hd
    refine ⟨fun key => ?_, fun x hx hd => ?_, h.interlock, h.alone, hready⟩
    · rw [items_append, ← List.append_assoc, demandsOf_append, items_cons, items_nil,
        demandsOf_cons_of_not (by simp [Message.isDemandRequest]), demandsOf_nil, List.append_nil]
      exact h.order key
    · rcases List.mem_append.1 hx with hx | hx
      · exact h.nonReady x hx hd
      · obtain rfl := List.mem_singleton.1 hx
        rfl

/-- A step that refuses no request behind which a younger one of its line is queued. -/
theorem step (h : C.InOrder s) {l : ControllerLabel} (hguard : C.RefusesAlone s l) (hs : C.step s l = some s') :
    C.InOrder s' := by
  cases l with
  | cycle =>
    simp only [ControllerCore.step] at hs
    split_ifs at hs
    obtain rfl := Option.some.inj hs
    refine ⟨h.order, h.nonReady, h.interlock, h.alone, fun op hop hkind hd => ?_⟩
    rw [C.frame_cycle]
    exact h.ready op hop hkind hd
  | fire k =>
    simp only [ControllerCore.step] at hs
    split_ifs at hs
    exact h.pipelineFire hs
  | intake upper lower =>
    simp only [ControllerCore.step] at hs
    split_ifs at hs
    obtain rfl := Option.some.inj hs
    cases upper <;> cases lower <;>
      first
        | exact h.checkReplacements
        | exact h.intakeUpper.checkReplacements
        | exact h.intakeLower.checkReplacements
        | exact h.intakeUpper.intakeLower.checkReplacements
  | flush =>
    simp only [ControllerCore.step] at hs
    split at hs
    · split at hs
      · obtain rfl := Option.some.inj hs
        exact h.setQueue (fun _ => List.Sublist.refl _) h.nonReady
      · exact h.pipelineFire hs
    · simp at hs
  | iterate =>
    simp only [ControllerCore.step] at hs
    split_ifs at hs
    exact h.iterate hguard hs

/-- The order holds along every run of such steps. -/
theorem inductive_inOrder : (C.system.restrict C.RefusesAlone).Inductive C.InOrder where
  init := by
    rintro s ⟨e, rfl⟩
    exact start e
  step s l s' _ h hstep := h.step hstep.1 hstep.2

end InOrder

end ControllerCore

end Octopus
