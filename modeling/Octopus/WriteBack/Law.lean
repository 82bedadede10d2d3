import Octopus.Snoop.MSI
import Octopus.WriteBack.Directory
import Octopus.WriteBack.Snooping

/-!
# The write-back law of the last-level caches

When a write-back goes to main memory alone with the last bytes that were given for the line. The
snooping last-level cache writes back what the message of the row brings, but to the owner of that
message; the directory home writes to main memory, but what its array held before the message.
-/

namespace Octopus.WriteBack

open Snoop (Topology System Flight ElementOk HomeMsgOk drain msiProtocols msiLawful twoCores cache0 cache1)

section Law

variable {cfg : ControllerConfig} {msg m : Message} {out : List Emission}

/-- A message that a cache processes in a run. -/
structure Processed {κ : Type} (W : Cache κ) (s : History κ) (msg : Message) (cache : κ) (out : List Emission) :
    Prop where
  reachable : (system W).Reachable s
  whole : WholeBlock W.cfg.blockSize msg
  process : W.process s.cache msg = .ok (cache, out)

/-- The bytes of a write-back are the last ones given if they are whole. -/
theorem take_latest {κ : Type} {W : Cache κ} {Ok : κ → Prop} {s : History κ} {cache : κ} (hW : Laws W Ok)
    (hp : Processed W s msg cache out) (hwrites : m ∈ writeBacks out) :
    W.bytes s.cache = some s.latest ∧ s.latest.take W.cfg.blockSize = s.latest :=
  ⟨bytes_of_writeBack hW hp.reachable hp.whole hp.process (List.ne_nil_of_mem hwrites),
    List.take_of_length_le ((inv_inductive hW).reachable hp.reachable).latest⟩

/-- A write-back of the snooping last-level cache follows the owner of the message of its row. -/
theorem snooping_lawful_iff {s : History (LineController LLCMSIState)} {c : LineController LLCMSIState}
    (hp : Processed (snoopingLLC cfg) s msg c out) (hm : m ∈ writeBacks out) :
    Lawful cfg (latestAfter cfg.blockSize s.latest msg) m ↔ msg.owner = cfg.id ∨ msg.owner = cfg.sharedMemoryId := by
  have hsaved := ((inv_inductive (snoopingLLC_laws cfg)).reachable hp.reachable).ok
  obtain ⟨hto, hdata⟩ := (snooping_row hsaved hp.whole hp.process).2.2 m hm
  obtain ⟨hbytes, htake⟩ := take_latest (snoopingLLC_laws cfg) hp hm
  have hbytes : s.cache.slot.readCacheLine = some s.latest := hbytes
  have htake : s.latest.take cfg.blockSize = s.latest := htake
  have htoIds : m.toIds = [cfg.sharedMemoryId] ↔ msg.owner = cfg.id ∨ msg.owner = cfg.sharedMemoryId := by
    rw [hto]
    by_cases hid : msg.owner = cfg.id <;> simp [hid]
  refine ⟨fun h => htoIds.1 h.toIds, fun h => ⟨htoIds.2 h, ?_⟩⟩
  rw [hdata, hbytes]
  cases hmsg : msg.data with
  | none => simpa [hmsg, latestAfter] using htake
  | some bytes => simp [hmsg, latestAfter]

/-- A write-back of the directory home misses the bytes that the message of its row brings. -/
theorem directory_lawful_iff {s : History (DirectoryController LLCMSIDirectoryState)}
    {c : DirectoryController LLCMSIDirectoryState}
    (hp : Processed (directoryHome cfg) s msg c out) (hm : m ∈ writeBacks out) :
    Lawful cfg (latestAfter cfg.blockSize s.latest msg) m ↔
      ∀ bytes, msg.data = some bytes → s.cache.line.slot.readCacheLine = some (bytes.take cfg.blockSize) := by
  have hsaved := ((inv_inductive (directoryHome_laws cfg)).reachable hp.reachable).ok
  obtain ⟨hto, hdata⟩ := (directory_row hsaved hp.whole hp.process).2.2 m hm
  obtain ⟨hbytes, htake⟩ := take_latest (directoryHome_laws cfg) hp hm
  have hbytes : s.cache.line.slot.readCacheLine = some s.latest := hbytes
  have htake : s.latest.take cfg.blockSize = s.latest := htake
  have htoIds : m.toIds = [cfg.sharedMemoryId] := by simpa [directoryWriteBack] using hto
  have hsent : m.data.map (·.take cfg.blockSize) = some s.latest := by
    simpa [hdata, hbytes, directoryWriteBack] using htake
  rw [hbytes]
  refine ⟨fun h bytes hmsg => ?_, fun h => ⟨htoIds, hsent.trans ?_⟩⟩
  · rw [← hsent, h.data]
    simp [latestAfter, hmsg]
  · cases hmsg : msg.data with
    | none => simp [latestAfter, hmsg]
    | some bytes => rw [h bytes hmsg]; simp [latestAfter, hmsg]

/--
In every run, a write-back goes to main memory alone with the last bytes given for the line exactly when,
for the snooping last-level cache, the message of the row has the cache or main memory as its owner, and, for
the directory home, that message brings no data or what the array holds already. Both write a line back once
between its fill and its return to `N`.
-/
theorem writeBack_law (cfg : ControllerConfig) :
    (∀ s msg c out, Processed (snoopingLLC cfg) s msg c out →
      (∀ m ∈ writeBacks out, Lawful cfg (latestAfter cfg.blockSize s.latest msg) m ↔
        msg.owner = cfg.id ∨ msg.owner = cfg.sharedMemoryId) ∧
      ((s.cache.slot.readLineBits .N).state ≠ .N → (c.slot.readLineBits .N).state = .N →
        (s.after (snoopingLLC cfg) msg c out).written.length = 1)) ∧
    (∀ s msg c out, Processed (directoryHome cfg) s msg c out →
      (∀ m ∈ writeBacks out, Lawful cfg (latestAfter cfg.blockSize s.latest msg) m ↔
        ∀ bytes, msg.data = some bytes → s.cache.line.slot.readCacheLine = some (bytes.take cfg.blockSize)) ∧
      ((s.cache.line.slot.readLineBits .N).state ≠ .N → (c.line.slot.readLineBits .N).state = .N →
        (s.after (directoryHome cfg) msg c out).written.length = 1)) := by
  have hsnooping : ∀ s : LLCMSIState, snoopingPhase s = .absent ↔ s = .N := by decide
  have hdirectory : ∀ s : LLCMSIDirectoryState, directoryPhase s = .absent ↔ s = .N := by decide
  refine ⟨fun s msg c out hp => ⟨fun m hm => snooping_lawful_iff hp hm, fun hheld hgone => ?_⟩,
    fun s msg c out hp => ⟨fun m hm => directory_lawful_iff hp hm, fun hheld hgone => ?_⟩⟩
  · exact written_once (snoopingLLC_laws cfg) hp.reachable hp.whole hp.process
      (fun h => hheld ((hsnooping _).1 h)) ((hsnooping _).2 hgone)
  · exact written_once (directoryHome_laws cfg) hp.reachable hp.whole hp.process
      (fun h => hheld ((hdirectory _).1 h)) ((hdirectory _).2 hgone)

end Law

section Snooping

variable {t : Topology} {s s' : System t MSIState LLCMSIState} {c c' : LineController LLCMSIState}

/-- A last-level cache that a run of its own reaches. -/
def HasHistory (t : Topology) (c : LineController LLCMSIState) : Prop :=
  ∃ h, (system (snoopingLLC t.llcConfig)).Reachable h ∧ h.cache = c

/-- Draining the queue processes one message after the other. -/
theorem drain_history {fuel : Nat} {q q' : FRFCFSBuffer} {out : List Emission}
    (h : drain llcMSIProtocol t.llcConfig fuel c q = .ok (c', q', out)) (hq : ∀ e ∈ q.buffer, ElementOk t e)
    (hdirty : q.dirty = true) (hc : HasHistory t c) : HasHistory t c' := by
  induction fuel generalizing c q out with
  | zero =>
    obtain ⟨rfl, -, -⟩ : c = c' ∧ q = q' ∧ [] = out := by simpa [drain] using h
    exact hc
  | succ fuel ih =>
    rw [drain] at h
    split at h
    · next q₁ hfirst =>
      obtain ⟨rfl, -, -⟩ : c = c' ∧ q₁ = q' ∧ [] = out := by simpa using h
      exact hc
    · next msg q₁ hfirst =>
      obtain ⟨hok, -, hdirty₁, hmsg, -⟩ := Snoop.getFirstReady_abs c hq hdirty hfirst
      split at h
      · simp at h
      · next c₁ out₁ hprocess =>
        split at h
        · simp at h
        · next c₂ q₂ out₂ hdrain =>
          obtain ⟨rfl, rfl, -⟩ : c₂ = c' ∧ q₂ = q' ∧ out₁ ++ out₂ = out := by simpa using h
          apply ih hdrain hok hdirty₁
          obtain ⟨s, hs, rfl⟩ := hc
          exact ⟨_, hs.step (l := .process msg) ⟨hmsg.size, c₁, out₁, hprocess, rfl⟩, rfl⟩

/-- The last-level cache works on a queue. -/
theorem drainLLC_history {q : FRFCFSBuffer} (h : s.drainLLC llcMSIProtocol q = .ok s')
    (hq : ∀ e ∈ q.buffer, ElementOk t e) (hdirty : q.dirty = true) (hc : HasHistory t s.llc) :
    HasHistory t s'.llc := by
  rw [System.drainLLC] at h
  split at h
  · simp at h
  · next c q' out hdrain =>
    obtain rfl := Except.ok.inj h
    exact drain_history hdrain hq hdirty hc

/-- A message enters the last-level cache from below. -/
theorem receiveLLC_history {msg : Message} (h : s.receiveLLC llcMSIProtocol msg = .ok s')
    (hq : ∀ e ∈ s.queue.buffer, ElementOk t e) (hmsg : HomeMsgOk t msg) (hc : HasHistory t s.llc) :
    HasHistory t s'.llc := by
  rw [System.receiveLLC, FRFCFSBuffer.pushBack] at h
  simp only [Bool.not_true, Bool.false_and, Bool.false_eq_true, if_false] at h
  refine drainLLC_history h (fun e he => ?_) rfl hc
  rcases List.mem_append.1 he with he | he
  · exact hq e he
  · rw [List.mem_singleton.1 he]
    exact ⟨hmsg, fun hstate => by simp at hstate⟩

/-- A private cache leaves the last-level cache alone. -/
theorem runL1_llc {i : Fin t.n} {msg : Message} (h : s.runL1 msiProtocols.l1 i msg = .ok s') : s'.llc = s.llc := by
  rw [System.runL1] at h
  split at h
  · simp at h
  · obtain rfl := Except.ok.inj h
    rfl

/-- A processor request leaves the last-level cache alone. -/
theorem request_llc {i : Fin t.n} {msg : Message} (h : s.request msiProtocols.l1 i msg = some (.ok s')) :
    s'.llc = s.llc := by
  rw [System.request] at h
  split at h
  · have hrun := runL1_llc (Option.some.inj h)
    exact hrun
  · simp at h

/-- The last-level cache of a snooping system runs as a cache with write-backs does. -/
theorem snoop_history (hr : (Snoop.system t msiProtocols).Reachable s) : HasHistory t s.llc := by
  induction hr with
  | init hs =>
    obtain rfl := hs
    exact ⟨_, .init rfl, rfl⟩
  | @step s s' l hr hstep ih =>
    have hok := (Snoop.ok_inductive msiLawful).reachable hr
    simp only [Snoop.system] at hstep
    cases l with
    | load i offset | store i offset bytes =>
      rw [System.step] at hstep
      split at hstep
      · rw [request_llc hstep]
        exact ih
      · simp at hstep
    | replacement i =>
      rw [request_llc hstep]
      exact ih
    | evict =>
      rw [System.step] at hstep
      split at hstep <;> try split at hstep
      · refine receiveLLC_history (Option.some.inj hstep) hok.queue (Snoop.homeMsgOk_evict s) ?_
        obtain ⟨h, hh, heq⟩ := ih
        refine ⟨_, hh.step (l := .moveLine2WB) rfl, ?_⟩
        simp [snoopingLLC, heq]
      · simp at hstep
      · simp at hstep
    | grant k =>
      rw [System.step] at hstep
      split at hstep
      · next msg hmsg =>
        have hbroadcast := Option.some.inj hstep
        rw [System.broadcast] at hbroadcast
        split at hbroadcast
        · simp at hbroadcast
        · exact receiveLLC_history hbroadcast hok.queue
            (Snoop.homeMsgOk_bus (hok.bus msg (List.mem_of_getElem? hmsg))) ih
      · simp at hstep
    | retry i k =>
      rw [System.step] at hstep
      split at hstep <;> try split at hstep
      · rw [runL1_llc (Option.some.inj hstep)]
        exact ih
      · simp at hstep
      · simp at hstep
    | deliver k =>
      rw [System.step] at hstep
      split at hstep
      · next f hf =>
        have hsize := (hok.flight f (List.mem_of_getElem? hf)).2
        dsimp only at hstep
        split_ifs at hstep
        · exact receiveLLC_history (Option.some.inj hstep) hok.queue ⟨fun _ => hsize, by simp, by simp⟩ ih
        · rw [runL1_llc (Option.some.inj hstep)]
          exact ih
      · simp at hstep
    | fill k =>
      rw [System.step] at hstep
      split at hstep
      · next read hread =>
        refine drainLLC_history (Option.some.inj hstep) (fun e he => ?_) rfl ih
        simp only [FRFCFSBuffer.pushFrontOrdered, List.mem_append, List.mem_cons] at he
        rcases he with he | rfl | he
        · exact hok.queue e (List.mem_of_mem_take he)
        · exact ⟨Snoop.homeMsgOk_fill read, fun _ => by simp [Snoop.fillMessage]⟩
        · exact hok.queue e (List.mem_of_mem_drop he)
      · simp at hstep

/--
A run to a supply that the last-level cache writes back. Cache 1 holds the line when the last-level cache
starts to evict it; the load of cache 0 is granted before the invalidation, so the supply answers cache 0.
-/
def supplyRun : List (Snoop.Label 2) :=
  [.store cache1 0 none, .grant 0, .fill 0, .deliver 0, .load cache0 0, .evict, .grant 0, .grant 0]

/-- The last-level cache sends the write-back of an evicted line to a private cache. -/
theorem writeBack_to_requester : ∃ s : System twoCores MSIState LLCMSIState,
    (Snoop.system twoCores msiProtocols).Reachable s ∧ ∃ f ∈ s.flight, f.dest = twoCores.llcId ∧
      ∃ c out m, llcMSIProtocol.process twoCores.llcConfig s.llc { f.msg with source := .lowerInterconnect } =
        .ok (c, out) ∧ m ∈ writeBacks out ∧ m.toIds = [0] ∧ m.toIds ≠ [twoCores.llcConfig.sharedMemoryId] := by
  have hsome : ((System.initial twoCores MSIState LLCMSIState).run msiProtocols supplyRun).any (fun s =>
      s.flight.any fun f => f.dest == twoCores.llcId &&
        match llcMSIProtocol.process twoCores.llcConfig s.llc { f.msg with source := .lowerInterconnect } with
        | .ok (_, out) => (writeBacks out).any fun m => m.toIds == [0]
        | .error _ => false) := by
    decide
  obtain ⟨s, hs, hflight⟩ := (Option.any_eq_true _ _).1 hsome
  obtain ⟨f, hf, hprocess⟩ := List.any_eq_true.1 hflight
  obtain ⟨hdest, hprocess⟩ := Bool.and_eq_true_iff.1 hprocess
  refine ⟨s, System.run_reachable (.init rfl) hs, f, hf, by simpa using hdest, ?_⟩
  split at hprocess
  · next c out heq =>
    obtain ⟨m, hm, hto⟩ := List.any_eq_true.1 hprocess
    have hto : m.toIds = [0] := by simpa using hto
    exact ⟨c, out, m, heq, hm, hto, by rw [hto]; decide⟩
  · simp at hprocess

/-- A run to an eviction of a line that no private cache has written. -/
def evictionRun : List (Snoop.Label 2) := [.load cache0 0, .grant 0, .fill 0, .deliver 0, .evict]

/-- The snooping last-level cache processes its own invalidation, which makes the line leave. -/
theorem snooping_evicts : ∃ s msg c out, Processed (snoopingLLC twoCores.llcConfig) s msg c out ∧
    msg.owner = twoCores.llcId ∧ writeBacks out ≠ [] ∧ (s.cache.slot.readLineBits .N).state ≠ .N ∧
      (c.slot.readLineBits .N).state = .N := by
  have hsome : ((System.initial twoCores MSIState LLCMSIState).run msiProtocols evictionRun).any (fun s =>
      s.bus.any fun msg => msg.owner == twoCores.llcId && msg.data.isNone &&
        match llcMSIProtocol.process twoCores.llcConfig s.llc msg with
        | .ok (c, out) => !(writeBacks out).isEmpty && (s.llc.slot.readLineBits .N).state != .N &&
          (c.slot.readLineBits .N).state == .N
        | .error _ => false) := by
    decide
  obtain ⟨s, hs, hbus⟩ := (Option.any_eq_true _ _).1 hsome
  obtain ⟨msg, -, hprocess⟩ := List.any_eq_true.1 hbus
  simp only [Bool.and_eq_true, beq_iff_eq, Option.isNone_iff_eq_none] at hprocess
  obtain ⟨⟨howner, hdata⟩, hprocess⟩ := hprocess
  split at hprocess
  · next c out heq =>
    simp only [Bool.and_eq_true, Bool.not_eq_true', List.isEmpty_eq_false_iff, bne_iff_ne, beq_iff_eq] at hprocess
    obtain ⟨⟨hwrites, hheld⟩, hgone⟩ := hprocess
    obtain ⟨s', hs', hcache⟩ := snoop_history (System.run_reachable (.init rfl) hs)
    refine ⟨s', msg, c, out, ⟨hs', by simp [WholeBlock, hdata], ?_⟩, howner, hwrites, hcache ▸ hheld, hgone⟩
    rw [hcache]
    exact heq
  · simp at hprocess

end Snooping

section Directory

/-- The bytes that core 0 writes. -/
def written : List UInt8 := [1, 2, 3, 4, 5, 6, 7, 8]

/-- The data with which core 0 gives its copy up. -/
def putM : Message where
  msgId := 2
  complementaryValue := MSIDirectory.requestTypePutM
  data := some written
  dataSize := 64

/-- A run in which core 0 takes the line and gives it up. -/
def putBackRun : List Label :=
  [.process { msgId := 1, complementaryValue := requestTypeGetM },
    .process { msgId := 1, source := .upperInterconnect, data := some (List.replicate 64 0), dataSize := 64 },
    .process putM, .moveLine2WB]

/-- The replacement that the home asks itself for. -/
def replacement : Message := { msgId := 3, source := .self, owner := twoCores.llcId }

/-- The directory home processes its own replacement, which makes the line leave. -/
theorem directory_evicts : ∃ s c out, Processed (directoryHome twoCores.llcConfig) s replacement c out ∧
    s.latest = written ∧ writeBacks out ≠ [] ∧ (s.cache.line.slot.readLineBits .N).state ≠ .N ∧
      (c.line.slot.readLineBits .N).state = .N := by
  have hsome : (putBackRun.foldlM (History.step (directoryHome twoCores.llcConfig)) ⟨{}, [], []⟩).any (fun s =>
      s.latest == written && (s.cache.line.slot.readLineBits .N).state != .N &&
        match llcMSIDirectory.process twoCores.llcConfig s.cache replacement with
        | .ok (c, out) => !(writeBacks out).isEmpty && (c.line.slot.readLineBits .N).state == .N
        | .error _ => false) := by
    decide
  obtain ⟨s, hs, htest⟩ := (Option.any_eq_true _ _).1 hsome
  have hr := Lib.TransitionSystem.Reachable.foldlM (M := system (directoryHome twoCores.llcConfig))
    (fun _ _ _ h => History.step_eq_some _ h) (.init rfl) hs
  simp only [Bool.and_eq_true, beq_iff_eq, bne_iff_ne] at htest
  obtain ⟨⟨hlatest, hheld⟩, hprocess⟩ := htest
  split at hprocess
  · next c out heq =>
    simp only [Bool.and_eq_true, Bool.not_eq_true', List.isEmpty_eq_false_iff, beq_iff_eq] at hprocess
    exact ⟨s, c, out, ⟨hr, by simp [WholeBlock, replacement], heq⟩, hlatest, hprocess.1, hheld, hprocess.2⟩
  · simp at hprocess

/-- Both homes write an evicted line back to main memory, once; the directory home, what its owner has written. -/
theorem writeBack_law_evicted :
    (∃ s msg c out m, Processed (snoopingLLC twoCores.llcConfig) s msg c out ∧ m ∈ writeBacks out ∧
      Lawful twoCores.llcConfig (latestAfter twoCores.blockSize s.latest msg) m ∧
      (s.after (snoopingLLC twoCores.llcConfig) msg c out).written.length = 1) ∧
    ∃ s c out m, Processed (directoryHome twoCores.llcConfig) s replacement c out ∧ m ∈ writeBacks out ∧
      Lawful twoCores.llcConfig written m ∧
      (s.after (directoryHome twoCores.llcConfig) replacement c out).written.length = 1 := by
  constructor
  · obtain ⟨s, msg, c, out, hp, howner, hwrites, hheld, hgone⟩ := snooping_evicts
    obtain ⟨m, hm⟩ := List.exists_mem_of_ne_nil _ hwrites
    obtain ⟨hlawful, honce⟩ := (writeBack_law twoCores.llcConfig).1 s msg c out hp
    exact ⟨s, msg, c, out, m, hp, hm, (hlawful m hm).2 (.inl howner), honce hheld hgone⟩
  · obtain ⟨s, c, out, hp, hlatest, hwrites, hheld, hgone⟩ := directory_evicts
    obtain ⟨m, hm⟩ := List.exists_mem_of_ne_nil _ hwrites
    obtain ⟨hlawful, honce⟩ := (writeBack_law twoCores.llcConfig).2 s replacement c out hp
    have hto := (hlawful m hm).2 fun bytes hdata => absurd hdata (by simp [replacement])
    rw [latestAfter, show replacement.data = none from rfl, hlatest] at hto
    exact ⟨s, c, out, m, hp, hm, hto, honce hheld hgone⟩

end Directory

end Octopus.WriteBack
