import Octopus.Lib.TransitionSystem
import Octopus.Logger.IssueOrder

/-!
# Oldest latencies over a run

The calls of the cores and the components in any order: the clock of a core goes forward, a core adds a
request and stamps its entry in the same cycle, components stamp events and annotations, and the core
stamps the exit of an outstanding request. The histories of the calls say which requests are outstanding
and since when. Over every run the oldest latencies of a core add up to its busy cycles.
-/

namespace Octopus.Logger

/-- A logger with the history of the calls to it: the ids that were added and, for each core, its
outstanding requests, the oldest one first, and those that retired. -/
structure Recorded where
  logger : Logger := {}
  issued : List Nat := []
  outstanding : Nat → List Request := fun _ => []
  settled : Nat → List Settled := fun _ => []

/-- A call to the logger. -/
inductive Call
  | setClkCount (coreId clk : Nat)
  | addRequest (coreId msgId addr cycle : Nat)
  | annotate (msgId : Nat) (key : Annot) (value : Int)
  | event (msgId : Nat) (role : Role) (compId : Nat) (phase : Phase)
  | retire (coreId msgId : Nat)

/-- The calls that are made: clocks go forward, each request is added once, and the core stamps the exit
of a request only when it is outstanding. -/
def Recorded.Allowed (r : Recorded) : Call → Prop
  | .setClkCount coreId clk => (r.logger.core coreId).clkCount ≤ clk
  | .addRequest _ msgId _ _ => msgId ∉ r.issued
  | .annotate .. => True
  | .event _ role _ phase => ¬ (role = .cpu ∧ phase = .exit)
  | .retire coreId msgId => ∃ req ∈ r.outstanding coreId, req.msgId = msgId

instance (r : Recorded) : DecidablePred r.Allowed
  | .setClkCount .. => inferInstanceAs (Decidable (_ ≤ _))
  | .addRequest .. => inferInstanceAs (Decidable (_ ∉ _))
  | .annotate .. => inferInstanceAs (Decidable True)
  | .event .. => inferInstanceAs (Decidable (¬ _))
  | .retire .. => inferInstanceAs (Decidable (∃ _ ∈ _, _))

/-- Take a request off the outstanding ones of its core. -/
def Recorded.settle (r : Recorded) (coreId msgId : Nat) : Recorded :=
  let older := (r.outstanding coreId).takeWhile fun req => req.msgId != msgId
  match (r.outstanding coreId).dropWhile fun req => req.msgId != msgId with
  | [] => r
  | req :: younger =>
    { r with
      outstanding := Function.update r.outstanding coreId (older ++ younger)
      settled := Function.update r.settled coreId
        (r.settled coreId ++ [⟨req, (r.logger.core coreId).clkCount, older⟩]) }

/-- A call and its history. A core adds a request and stamps its entry at once. -/
def Recorded.call (r : Recorded) : Call → Recorded
  | .setClkCount coreId clk => { r with logger := r.logger.setClkCount coreId clk }
  | .addRequest coreId msgId addr cycle =>
    { r with
      logger := (r.logger.addRequest coreId msgId addr cycle).event msgId .cpu coreId .enter
      issued := msgId :: r.issued
      outstanding := Function.update r.outstanding coreId
        (r.outstanding coreId ++ [⟨msgId, (r.logger.core coreId).clkCount⟩]) }
  | .annotate msgId key value => { r with logger := r.logger.annotate msgId key value }
  | .event msgId role compId phase => { r with logger := r.logger.event msgId role compId phase }
  | .retire coreId msgId => { r.settle coreId msgId with logger := r.logger.event msgId .cpu coreId .exit }

/-- The runs of a logger. -/
def system : Lib.TransitionSystem Recorded Call where
  init r := r = {}
  step r c r' := r.Allowed c ∧ r' = r.call c

/-- The timeline of an outstanding request starts with its entry, and it has an identity. -/
structure Bound (l : Logger) (coreId : Nat) (req : Request) : Prop where
  core : l.eventCore req.msgId = some coreId
  identity : ∃ info, l.eventMeta req.msgId = some info ∧ info.reqId = req.msgId
  enter : find (l.eventLog req.msgId) .cpu .enter false = req.added

/-- What holds in every run: outstanding requests are bound, others leave no trace in the maps, and the
account of each core is right. -/
structure Recorded.Sound (r : Recorded) : Prop where
  bound : ∀ coreId, ∀ req ∈ r.outstanding coreId, r.logger.Bound coreId req
  issued : ∀ coreId, ∀ e ∈ (r.logger.core coreId).issueOrder, e.1 ∈ r.issued
  unbound : ∀ msgId ∉ r.issued, r.logger.eventCore msgId = none ∧ r.logger.eventLog msgId = []
  accounts : ∀ coreId, (r.logger.core coreId).Accounts (r.outstanding coreId) (r.settled coreId)

variable {l : Logger} {r : Recorded} {req : Request} {msgId coreId compId : Nat} {role : Role} {phase : Phase}

/-- The first stamp of a timeline stays the first one. -/
theorem find_append {ev : List LogEvent} {p : Phase} {cycle : Nat} (h : find ev role p false = cycle) (e : LogEvent) :
    find (ev ++ [e]) role p false = cycle := by
  rw [find, if_neg Bool.false_ne_true] at h ⊢
  cases hstamps : stamps ev role p with
  | nil =>
    rw [hstamps] at h
    exact absurd h (by simp [milestone])
  | cons first rest =>
    rw [hstamps] at h
    have happend : stamps (ev ++ [e]) role p = first :: (rest ++ stamps [e] role p) := by
      rw [stamps, List.filter_append, List.map_append]
      exact congrArg (· ++ stamps [e] role p) hstamps
    rw [happend]
    exact h

/-- The last stamp of a timeline. -/
theorem find_concat (ev : List LogEvent) (compId cycle : Nat) (role : Role) (phase : Phase) :
    find (ev ++ [⟨compId, role, phase, cycle⟩]) role phase true = cycle := by
  have happend : stamps (ev ++ [⟨compId, role, phase, cycle⟩]) role phase = stamps ev role phase ++ [cycle] := by
    rw [stamps, List.filter_append, List.map_append]
    exact congrArg (stamps ev role phase ++ ·) (by simp)
  rw [find, if_pos rfl, happend, List.getLast?_concat]
  rfl

/-- A stamp that is not an exit of the core adds to a bound timeline, and changes nothing else. -/
theorem event_eq (l : Logger) (msgId compId : Nat) (h : ¬ (role = .cpu ∧ phase = .exit)) :
    ∃ eventLog, l.event msgId role compId phase = { l with eventLog } ∧
      (∀ other, eventLog other = l.eventLog other ∨
        l.eventCore other ≠ none ∧ ∃ e, eventLog other = l.eventLog other ++ [e]) := by
  rw [event]
  cases hcore : l.eventCore msgId with
  | none => exact ⟨l.eventLog, rfl, fun _ => .inl rfl⟩
  | some coreId =>
    dsimp only
    rw [if_neg h]
    refine ⟨_, rfl, fun other => ?_⟩
    by_cases hother : other = msgId
    · subst hother
      exact .inr ⟨by rw [hcore]; exact Option.some_ne_none _, _, Function.update_self ..⟩
    · exact .inl (Function.update_of_ne hother ..)

/-- The exit of an outstanding request prints its row and leaves no trace of it in the maps. -/
theorem event_exit (h : l.Bound coreId req) (compId : Nat) :
    ∃ (m : Milestones) (info : EventMeta) (evtOk evtFail evtNoresp : Nat), m.issue = req.added ∧
      m.rx = (l.core coreId).clkCount ∧ info.reqId = req.msgId ∧
      l.event req.msgId .cpu compId .exit = {
        eventLog := Function.update l.eventLog req.msgId []
        eventCore := Function.update l.eventCore req.msgId none
        eventMeta := Function.update l.eventMeta req.msgId none
        core := Function.update l.core coreId ((l.core coreId).report req.msgId m info)
        evtOk
        evtFail
        evtNoresp } := by
  obtain ⟨info, hinfo, hid⟩ := h.identity
  have hissue : (milestones (l.eventLog req.msgId ++ [⟨compId, .cpu, .exit, (l.core coreId).clkCount⟩])).issue =
      req.added := find_append h.enter _
  have hrx : (milestones (l.eventLog req.msgId ++ [⟨compId, .cpu, .exit, (l.core coreId).clkCount⟩])).rx =
      (l.core coreId).clkCount := find_concat ..
  have hm : milestones (Function.update l.eventLog req.msgId
      (l.eventLog req.msgId ++ [⟨compId, .cpu, .exit, (l.core coreId).clkCount⟩]) req.msgId) = _ :=
    congrArg milestones (Function.update_self ..)
  have hfinalize := finalizeEvents_eq (l := { l with
      eventLog := Function.update l.eventLog req.msgId
        (l.eventLog req.msgId ++ [⟨compId, .cpu, .exit, (l.core coreId).clkCount⟩]) })
    h.core hinfo hm (by rw [hissue]; exact Int.natCast_nonneg _) (by rw [hrx]; exact Int.natCast_nonneg _)
  rw [event, h.core]
  dsimp only
  rw [if_pos ⟨rfl, rfl⟩, hfinalize, Function.update_idem]
  exact ⟨_, info, _, _, _, hissue, hrx, hid, rfl⟩

/-- The outstanding request of an id, with the ones around it. -/
theorem settle_eq {older younger : List Request} (hold : r.outstanding coreId = older ++ req :: younger)
    (hids : req.msgId ∉ older.map Request.msgId) :
    r.settle coreId req.msgId =
      { r with
        outstanding := Function.update r.outstanding coreId (older ++ younger)
        settled := Function.update r.settled coreId
          (r.settled coreId ++ [⟨req, (r.logger.core coreId).clkCount, older⟩]) } := by
  have hall : ∀ req' ∈ older, (req'.msgId != req.msgId) = true := fun req' hreq' =>
    bne_iff_ne.2 fun heq => hids (heq ▸ List.mem_map_of_mem hreq')
  have htake : (older ++ req :: younger).takeWhile (fun req' => req'.msgId != req.msgId) = older := by
    rw [List.takeWhile_append_of_pos hall, List.takeWhile_cons_of_neg (by simp), List.append_nil]
  have hdrop : (older ++ req :: younger).dropWhile (fun req' => req'.msgId != req.msgId) = req :: younger := by
    rw [List.dropWhile_append_of_pos hall, List.dropWhile_cons_of_neg (by simp)]
  rw [Recorded.settle, hold, htake, hdrop]

/-- The ids of the outstanding requests of a core are distinct. -/
theorem CoreLog.Accounts.nodup_ids {c : CoreLog} {outstanding : List Request} {settled : List Settled}
    (h : c.Accounts outstanding settled) : (outstanding.map Request.msgId).Nodup := by
  rw [← h.queue]
  exact (List.filter_sublist.map Prod.fst).nodup h.nodup

/-- Outstanding requests of one id are of one core. -/
theorem Recorded.Sound.core_eq (h : r.Sound) {coreId' : Nat} {req' : Request} (hreq : req ∈ r.outstanding coreId)
    (hreq' : req' ∈ r.outstanding coreId') (heq : req'.msgId = req.msgId) : coreId' = coreId := by
  have hcore := (h.bound coreId req hreq).core
  rw [← heq, (h.bound coreId' req' hreq').core] at hcore
  exact Option.some.inj hcore

/-- An outstanding request was issued. -/
theorem Recorded.Sound.mem_issued (h : r.Sound) (hreq : req ∈ r.outstanding coreId) : req.msgId ∈ r.issued := by
  by_contra hnew
  have hcore := (h.bound coreId req hreq).core
  rw [(h.unbound req.msgId hnew).1] at hcore
  cases hcore

/-- The clock of a core goes forward. -/
theorem Recorded.Sound.setClkCount (h : r.Sound) {clk : Nat} (hclk : (r.logger.core coreId).clkCount ≤ clk) :
    (r.call (.setClkCount coreId clk)).Sound where
  bound := fun coreId' req hreq =>
    ⟨(h.bound coreId' req hreq).core, (h.bound coreId' req hreq).identity, (h.bound coreId' req hreq).enter⟩
  issued coreId' := by
    rw [call, Logger.setClkCount]
    by_cases hcore : coreId' = coreId
    · subst hcore
      dsimp only
      rw [Function.update_self]
      exact h.issued coreId'
    · dsimp only
      rw [Function.update_of_ne hcore]
      exact h.issued coreId'
  unbound := h.unbound
  accounts coreId' := by
    rw [call, Logger.setClkCount]
    by_cases hcore : coreId' = coreId
    · subst hcore
      dsimp only
      rw [Function.update_self]
      exact (h.accounts coreId').setClkCount hclk
    · dsimp only
      rw [Function.update_of_ne hcore]
      exact h.accounts coreId'

/-- An annotation changes no identity. -/
theorem Recorded.Sound.annotate (h : r.Sound) (key : Annot) (value : Int) : (r.call (.annotate msgId key value)).Sound := by
  rw [call, Logger.annotate]
  cases hinfo : r.logger.eventMeta msgId with
  | none => exact h
  | some info =>
    refine ⟨fun coreId' req hreq => ⟨(h.bound coreId' req hreq).core, ?_, (h.bound coreId' req hreq).enter⟩,
      h.issued, h.unbound, h.accounts⟩
    obtain ⟨info', hinfo', hid⟩ := (h.bound coreId' req hreq).identity
    by_cases hreqId : req.msgId = msgId
    · subst hreqId
      cases hinfo.symm.trans hinfo'
      exact ⟨_, Function.update_self .., by cases key <;> simp only [hid, apply_ite EventMeta.reqId, ite_self]⟩
    · exact ⟨info', (Function.update_of_ne hreqId ..).trans hinfo', hid⟩

/-- A timeline that grows by a stamp still starts with its entry. -/
theorem Bound.append {eventLog : Nat → List LogEvent} (h : l.Bound coreId req)
    (heq : eventLog req.msgId = l.eventLog req.msgId ∨ ∃ e, eventLog req.msgId = l.eventLog req.msgId ++ [e]) :
    Bound { l with eventLog } coreId req := by
  refine ⟨h.core, h.identity, ?_⟩
  rcases heq with heq | ⟨e, heq⟩
  · exact (congrArg (find · .cpu .enter false) heq).trans h.enter
  · exact (congrArg (find · .cpu .enter false) heq).trans (find_append h.enter e)

/-- A stamp that is not an exit of the core keeps the logger sound. -/
theorem Recorded.Sound.event (h : r.Sound) (compId : Nat) (hphase : ¬ (role = .cpu ∧ phase = .exit)) :
    (r.call (.event msgId role compId phase)).Sound := by
  obtain ⟨eventLog, heq, hlog⟩ := event_eq r.logger msgId compId hphase
  rw [call, heq]
  refine ⟨fun coreId' req hreq => (h.bound coreId' req hreq).append ((hlog req.msgId).imp_right And.right),
    h.issued, fun msgId' hnew => ⟨(h.unbound msgId' hnew).1, ?_⟩, h.accounts⟩
  exact ((hlog msgId').resolve_right fun hcore => hcore.1 (h.unbound msgId' hnew).1).trans (h.unbound msgId' hnew).2

/-- A new request of a core is outstanding from now on. -/
theorem Recorded.Sound.addRequest (h : r.Sound) (hnew : msgId ∉ r.issued) (coreId addr cycle : Nat) :
    (r.call (.addRequest coreId msgId addr cycle)).Sound := by
  have hfresh : msgId ∉ (r.logger.core coreId).issueOrder.map Prod.fst := by
    intro hmem
    obtain ⟨e, he, rfl⟩ := List.mem_map.1 hmem
    exact hnew (h.issued coreId e he)
  have hadd := (h.accounts coreId).add hfresh
  rw [call, Logger.addRequest, Logger.event]
  dsimp only
  rw [Function.update_self]
  dsimp only
  rw [if_neg (by simp), Function.update_self, (h.unbound msgId hnew).2]
  refine ⟨fun coreId' req hreq => ?_, fun coreId' e he => ?_, fun msgId' hnew' => ?_, fun coreId' => ?_⟩
  · have hcases : req = ⟨msgId, (r.logger.core coreId).clkCount⟩ ∧ coreId' = coreId ∨ req ∈ r.outstanding coreId' := by
      dsimp only at hreq
      by_cases hcore : coreId' = coreId
      · subst hcore
        rw [Function.update_self] at hreq
        rcases List.mem_append.1 hreq with hold | hreq
        · exact .inr hold
        · exact .inl ⟨List.mem_singleton.1 hreq, rfl⟩
      · rw [Function.update_of_ne hcore] at hreq
        exact .inr hreq
    rcases hcases with ⟨rfl, rfl⟩ | hold
    · refine ⟨Function.update_self .., ⟨_, Function.update_self .., rfl⟩, ?_⟩
      dsimp only
      rw [Function.update_self]
      rfl
    · have hne : req.msgId ≠ msgId := fun heq => hnew (heq ▸ h.mem_issued hold)
      have hbound := h.bound coreId' req hold
      obtain ⟨info, hinfo, hid⟩ := hbound.identity
      refine ⟨(Function.update_of_ne hne ..).trans hbound.core,
        ⟨info, (Function.update_of_ne hne ..).trans hinfo, hid⟩, ?_⟩
      dsimp only
      rw [Function.update_of_ne hne]
      exact hbound.enter
  · by_cases hcore : coreId' = coreId
    · subst hcore
      dsimp only at he
      rw [Function.update_self] at he
      rcases List.mem_append.1 he with hold | he
      · exact List.mem_cons_of_mem _ (h.issued coreId' e hold)
      · cases List.mem_singleton.1 he
        exact List.mem_cons_self ..
    · dsimp only at he
      rw [Function.update_of_ne hcore] at he
      exact List.mem_cons_of_mem _ (h.issued coreId' e he)
  · have hne : msgId' ≠ msgId := fun heq => hnew' (heq ▸ List.mem_cons_self ..)
    have hunbound := h.unbound msgId' fun hmem => hnew' (List.mem_cons_of_mem _ hmem)
    exact ⟨(Function.update_of_ne hne ..).trans hunbound.1, (Function.update_of_ne hne ..).trans hunbound.2⟩
  · by_cases hcore : coreId' = coreId
    · subst hcore
      dsimp only
      rw [Function.update_self, Function.update_self]
      exact hadd
    · dsimp only
      rw [Function.update_of_ne hcore, Function.update_of_ne hcore]
      exact h.accounts coreId'

/-- The exit of an outstanding request keeps the logger sound. -/
theorem Recorded.Sound.retire (h : r.Sound) (hreq : req ∈ r.outstanding coreId) :
    (r.call (.retire coreId req.msgId)).Sound := by
  obtain ⟨older, younger, hold⟩ := List.append_of_mem hreq
  have hnodup := (h.accounts coreId).nodup_ids
  rw [hold, List.map_append, List.map_cons] at hnodup
  have hids : req.msgId ∉ older.map Request.msgId := fun hmem =>
    (List.nodup_append.1 hnodup).2.2 _ hmem _ (List.mem_cons_self ..) rfl
  have hidsYounger : req.msgId ∉ younger.map Request.msgId :=
    (List.nodup_cons.1 (List.nodup_append.1 hnodup).2.1).1
  have haccounts := h.accounts coreId
  rw [hold] at haccounts
  obtain ⟨m, info, evtOk, evtFail, evtNoresp, hissue, hrx, hid, hexit⟩ := event_exit (h.bound coreId req hreq) coreId
  have hreport := haccounts.report hissue hrx hid
  rw [call, settle_eq hold hids, hexit]
  refine ⟨fun coreId' req' hreq' => ?_, fun coreId' e he => ?_, fun msgId' hnew => ?_, fun coreId' => ?_⟩
  · have hother : req'.msgId ≠ req.msgId ∧ req' ∈ r.outstanding coreId' := by
      dsimp only at hreq'
      by_cases hcore : coreId' = coreId
      · subst hcore
        rw [Function.update_self] at hreq'
        rw [hold]
        rcases List.mem_append.1 hreq' with hmem | hmem
        · exact ⟨fun heq => hids (heq ▸ List.mem_map_of_mem hmem), List.mem_append_left _ hmem⟩
        · exact ⟨fun heq => hidsYounger (heq ▸ List.mem_map_of_mem hmem),
            List.mem_append_right _ (List.mem_cons_of_mem _ hmem)⟩
      · rw [Function.update_of_ne hcore] at hreq'
        exact ⟨fun heq => hcore (h.core_eq hreq hreq' heq), hreq'⟩
    have hbound := h.bound coreId' req' hother.2
    obtain ⟨info', hinfo', hid'⟩ := hbound.identity
    refine ⟨(Function.update_of_ne hother.1 ..).trans hbound.core,
      ⟨info', (Function.update_of_ne hother.1 ..).trans hinfo', hid'⟩, ?_⟩
    dsimp only
    rw [Function.update_of_ne hother.1]
    exact hbound.enter
  · dsimp only at he
    by_cases hcore : coreId' = coreId
    · subst hcore
      rw [Function.update_self] at he
      have hmem := (r.logger.core coreId').map_fst_report_subset req.msgId m info (List.mem_map_of_mem he)
      obtain ⟨e', he', heq⟩ := List.mem_map.1 hmem
      exact heq ▸ h.issued coreId' e' he'
    · rw [Function.update_of_ne hcore] at he
      exact h.issued coreId' e he
  · have hne : msgId' ≠ req.msgId := fun heq => hnew (heq ▸ h.mem_issued hreq)
    have hunbound := h.unbound msgId' hnew
    exact ⟨(Function.update_of_ne hne ..).trans hunbound.1, (Function.update_of_ne hne ..).trans hunbound.2⟩
  · dsimp only
    by_cases hcore : coreId' = coreId
    · subst hcore
      rw [Function.update_self, Function.update_self, Function.update_self]
      exact hreport
    · rw [Function.update_of_ne hcore, Function.update_of_ne hcore, Function.update_of_ne hcore]
      exact h.accounts coreId'

/-- Every call that is made keeps the logger sound. -/
theorem Recorded.Sound.call (h : r.Sound) {c : Call} (hc : r.Allowed c) : (r.call c).Sound := by
  cases c with
  | setClkCount coreId clk => exact h.setClkCount hc
  | addRequest coreId msgId addr cycle => exact h.addRequest hc coreId addr cycle
  | annotate msgId key value => exact h.annotate key value
  | event msgId role compId phase => exact h.event compId hc
  | retire coreId msgId =>
    obtain ⟨req, hreq, rfl⟩ := hc
    exact h.retire hreq

/-- A logger is sound in every run. -/
theorem inductive_sound : system.Inductive Recorded.Sound where
  init := by
    rintro _ rfl
    exact ⟨by simp, by simp, fun _ _ => ⟨rfl, rfl⟩, fun _ => accounts_nil⟩
  step r c r' _ h hstep := by
    obtain ⟨hc, rfl⟩ := hstep
    exact h.call hc

/-- The oldest latencies of a core whose requests have all retired add up to the cycles in which it had one
outstanding. The oldest latency of a request is at most its total latency, and zero if it retired while an
older one was outstanding. -/
theorem oldest_accounts (hr : system.Reachable r) (coreId : Nat) :
    (r.outstanding coreId = [] →
      ((r.logger.core coreId).rows.map Row.oldest).sum =
        ((r.settled coreId).toFinset.biUnion fun s => Finset.Ico s.request.added s.retired).card) ∧
    List.Forall₂ RowOf (r.settled coreId) (r.logger.core coreId).rows := by
  have haccounts := (inductive_sound.reachable hr).accounts coreId
  refine ⟨fun hdone => ?_, haccounts.rows⟩
  have hbusy := haccounts.busy
  rw [if_pos hdone, hdone, List.map_nil, Lib.busy_nil, Nat.add_zero] at hbusy
  rw [← hbusy]
  congr 1
  ext t
  simp [Settled.stay]

/-- A call, if it may be made. -/
def Recorded.callIfAllowed (r : Recorded) (c : Call) : Option Recorded :=
  if r.Allowed c then some (r.call c) else none

/-- The first request retires behind the second one, which is the oldest up to then. -/
theorem oldest_accounts_overlap : ∃ r : Recorded, r.outstanding 0 = [] ∧ (r.logger.core 0).rows.map Row.oldest = [0, 7, 2] ∧
    ((r.outstanding 0 = [] →
      ((r.logger.core 0).rows.map Row.oldest).sum =
        ((r.settled 0).toFinset.biUnion fun s => Finset.Ico s.request.added s.retired).card) ∧
    List.Forall₂ RowOf (r.settled 0) (r.logger.core 0).rows) := by
  let calls : List Call := [.addRequest 0 1 0 0, .setClkCount 0 2, .addRequest 0 2 64 2, .setClkCount 0 5,
    .retire 0 2, .setClkCount 0 6, .addRequest 0 3 128 6, .setClkCount 0 7, .retire 0 1, .setClkCount 0 9, .retire 0 3]
  have hrun : (calls.foldlM Recorded.callIfAllowed {}).any (fun r =>
      r.outstanding 0 == [] && (r.logger.core 0).rows.map Row.oldest == [0, 7, 2]) := by decide
  obtain ⟨r, hr, htest⟩ := (Option.any_eq_true ..).1 hrun
  rw [Bool.and_eq_true, beq_iff_eq, beq_iff_eq] at htest
  refine ⟨r, htest.1, htest.2, oldest_accounts (.foldlM ?_ (.init rfl) hr) 0⟩
  intro r c r' hcall
  rw [Recorded.callIfAllowed] at hcall
  split_ifs at hcall with hc
  exact ⟨hc, (Option.some.inj hcall).symm⟩

end Octopus.Logger
