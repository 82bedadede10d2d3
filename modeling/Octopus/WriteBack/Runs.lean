import Octopus.LineController
import Octopus.Lib.TransitionSystem

/-!
# The write-backs of a last-level cache

A last-level cache under messages of any kind, in any order, with two histories: the last bytes that
a message brought for the line, and the write-backs since the line was filled. What the cache does
with a message is a parameter; the laws it must obey are those of its table and its actions.
-/

namespace Octopus.WriteBack

/-- The messages that leave an action for the level above. -/
def writeBacks (out : List Emission) : List Message :=
  out.filterMap fun e => if e.port = .upper ∧ e.type = .dataResponse then some e.msg else none

@[simp] theorem writeBacks_nil : writeBacks [] = [] := rfl

@[simp] theorem writeBacks_append (out out' : List Emission) :
    writeBacks (out ++ out') = writeBacks out ++ writeBacks out' :=
  List.filterMap_append

/-- What the state of a line says about the write-back that follows its fill. -/
inductive Phase
  /-- The line is not here. -/
  | absent
  /-- Memory has been asked for the line. -/
  | fetching
  /-- The line is here and has not been written back. -/
  | holding
  /-- The line has been written back and waits to leave. -/
  | written
  deriving DecidableEq, Repr

/-- The moves of a row, given whether it is a fill and whether it writes the line back. -/
def Phase.moves : Phase → Bool → Bool → List Phase
  | .absent, false, false => [.absent, .fetching]
  | .fetching, false, false => [.fetching]
  | .fetching, true, false => [.holding]
  | .holding, false, false => [.holding]
  | .holding, false, true => [.written, .absent]
  | .written, false, false => [.written, .absent]
  | _, _, _ => []

/-- The same moves, one by one. -/
inductive Phase.Move : Phase → Bool → Bool → Phase → Prop
  | stayAway : Move .absent false false .absent
  | fetch : Move .absent false false .fetching
  | await : Move .fetching false false .fetching
  | fill : Move .fetching true false .holding
  | hold : Move .holding false false .holding
  | writeBack : Move .holding false true .written
  | writeBackAndLeave : Move .holding false true .absent
  | linger : Move .written false false .written
  | leave : Move .written false false .absent

/-- A listed move is one of those. -/
theorem Phase.move_of_mem {p q : Phase} {fill writes : Bool} (h : q ∈ p.moves fill writes) : p.Move fill writes q := by
  cases p <;> cases fill <;> cases writes <;> cases q <;> first | constructor | simp [Phase.moves] at h

/-- A last-level cache, as far as its write-backs go. -/
structure Cache (κ : Type) where
  cfg : ControllerConfig
  start : κ
  process : κ → Message → Except Exit (κ × List Emission)
  /-- The line moves to the write-back buffer. -/
  moveLine2WB : κ → κ
  phase : κ → Phase
  /-- The bytes of the line, where it has some. -/
  bytes : κ → Option (List UInt8)

/-- A cache with its histories. -/
structure History (κ : Type) where
  cache : κ
  /-- The last bytes that the fill or a private cache gave for the line. -/
  latest : List UInt8
  /-- The write-backs since the line's last fill. -/
  written : List Message

/-- The steps: a message is processed, or the line is chosen for eviction. -/
inductive Label
  | process (msg : Message)
  | moveLine2WB

/-- A message that carries data carries a whole block. -/
def WholeBlock (blockSize : Nat) (msg : Message) : Prop := msg.data.isSome = true → blockSize ≤ msg.dataSize

/-- The last bytes for the line after a message. -/
def latestAfter (blockSize : Nat) (latest : List UInt8) (msg : Message) : List UInt8 :=
  (msg.data.map (·.take blockSize)).getD latest

/-- A write-back as it should be: for memory alone, with the last bytes anyone gave for the line. -/
structure Lawful (cfg : ControllerConfig) (latest : List UInt8) (m : Message) : Prop where
  toIds : m.toIds = [cfg.sharedMemoryId]
  data : m.data.map (·.take cfg.blockSize) = some latest

variable {κ : Type} (W : Cache κ)

/-- The histories after a message. -/
def History.after (s : History κ) (msg : Message) (cache : κ) (out : List Emission) : History κ where
  cache := cache
  latest := latestAfter W.cfg.blockSize s.latest msg
  written := (if msg.source = .upperInterconnect then [] else s.written) ++ writeBacks out

/-- The runs of a last-level cache. -/
def system : Lib.TransitionSystem (History κ) Label where
  init s := s = ⟨W.start, [], []⟩
  step s l s' :=
    match l with
    | .process msg => WholeBlock W.cfg.blockSize msg ∧
        ∃ cache out, W.process s.cache msg = .ok (cache, out) ∧ s' = s.after W msg cache out
    | .moveLine2WB => s' = { s with cache := W.moveLine2WB s.cache }

instance (blockSize : Nat) (msg : Message) : Decidable (WholeBlock blockSize msg) := inferInstanceAs (Decidable (_ → _))

/-- A step of a run as a function, where it applies. -/
def History.step (s : History κ) : Label → Option (History κ)
  | .process msg =>
    if WholeBlock W.cfg.blockSize msg then (W.process s.cache msg).toOption.map fun x => s.after W msg x.1 x.2 else none
  | .moveLine2WB => some { s with cache := W.moveLine2WB s.cache }

/-- It is a step of the system. -/
theorem History.step_eq_some {s s' : History κ} {l : Label} (h : s.step W l = some s') : (system W).step s l s' := by
  cases l with
  | moveLine2WB => exact (Option.some.inj h).symm
  | process msg =>
    rw [History.step] at h
    split_ifs at h with hwhole
    obtain ⟨x, hx, rfl⟩ := Option.map_eq_some_iff.1 h
    refine ⟨hwhole, x.1, x.2, ?_, rfl⟩
    cases hprocess : W.process s.cache msg with
    | error e => simp [hprocess, Except.toOption] at hx
    | ok y =>
      rw [hprocess] at hx
      rw [Option.some.inj hx]

/-- What processing one message does to a cache, as the table and the actions of the cache promise it. -/
structure Row (c : κ) (msg : Message) (c' : κ) (out : List Emission) : Prop where
  move : W.phase c' ∈ (W.phase c).moves (msg.source == .upperInterconnect) !(writeBacks out).isEmpty
  once : (writeBacks out).length ≤ 1
  fill : msg.source = .upperInterconnect → msg.data.isSome = true
  /-- A line that is held takes the bytes of the message, or keeps its own. -/
  bytes : W.phase c' = .holding → W.phase c = .fetching ∧ msg.data.isSome = true ∨ (W.bytes c).isSome = true →
    W.bytes c' = some (latestAfter W.cfg.blockSize ((W.bytes c).getD []) msg)

/-- What a cache promises; `Ok` is an invariant of its own that this rests on. -/
structure Laws (Ok : κ → Prop) : Prop where
  start_ok : Ok W.start
  start_phase : W.phase W.start = .absent
  evict_ok : ∀ {c}, Ok c → Ok (W.moveLine2WB c)
  evict_phase : ∀ c, W.phase (W.moveLine2WB c) = W.phase c
  evict_bytes : ∀ c, W.bytes (W.moveLine2WB c) = W.bytes c
  row : ∀ {c msg c' out}, Ok c → WholeBlock W.cfg.blockSize msg → W.process c msg = .ok (c', out) →
    Ok c' ∧ Row W c msg c' out

/-- What holds along every run. -/
structure Inv (Ok : κ → Prop) (s : History κ) : Prop where
  ok : Ok s.cache
  latest : s.latest.length ≤ W.cfg.blockSize
  bytes : W.phase s.cache = .holding → W.bytes s.cache = some s.latest
  /-- A line that is held has not been written back since its fill. -/
  holding : W.phase s.cache = .holding → s.written = []
  /-- A line that waits to leave has been written back once. -/
  written : W.phase s.cache = .written → s.written.length = 1

variable {W} {Ok : κ → Prop} {s s' : History κ} {msg : Message} {cache : κ} {out : List Emission}

/-- The bytes of a message are cut to a block. -/
theorem latestAfter_length {blockSize : Nat} {latest : List UInt8} (h : latest.length ≤ blockSize) :
    (latestAfter blockSize latest msg).length ≤ blockSize := by
  cases hdata : msg.data with
  | none => simpa [latestAfter, hdata] using h
  | some bytes => simp [latestAfter, hdata]

/-- The history of the write-backs follows the moves of the line. -/
theorem Inv.written_after (h : Inv W Ok s) (hrow : Row W s.cache msg cache out) :
    (W.phase cache = .holding → (s.after W msg cache out).written = []) ∧
      (W.phase cache = .written → (s.after W msg cache out).written.length = 1) ∧
      (W.phase s.cache ≠ .absent → W.phase cache = .absent → (s.after W msg cache out).written.length = 1) := by
  have hmove := Phase.move_of_mem hrow.move
  have honce := hrow.once
  have hholding := h.holding
  have hwritten := h.written
  simp only [History.after]
  generalize W.phase s.cache = p at hmove hholding hwritten
  generalize W.phase cache = q at hmove
  generalize hfill : (msg.source == .upperInterconnect) = fill at hmove
  generalize hwrites : (!(writeBacks out).isEmpty) = writes at hmove
  cases hmove <;> simp only [beq_iff_eq, beq_eq_false_iff_ne, Bool.not_eq_true', Bool.not_eq_false',
    List.isEmpty_iff, List.isEmpty_eq_false_iff] at hfill hwrites
  case writeBack | writeBackAndLeave =>
    have hone : (writeBacks out).length = 1 := by
      have hpos := List.length_pos_of_ne_nil hwrites
      omega
    simp [hfill, hholding rfl, hone]
  case linger | leave => simp [hfill, hwrites, hwritten rfl]
  case hold => simp [hfill, hwrites, hholding rfl]
  all_goals simp [hfill, hwrites]

/-- The bytes of a line that is held are the last ones given. -/
theorem Inv.bytes_after (h : Inv W Ok s) (hrow : Row W s.cache msg cache out) (hphase : W.phase cache = .holding) :
    W.bytes cache = some (latestAfter W.cfg.blockSize s.latest msg) := by
  have hmove := Phase.move_of_mem hrow.move
  rw [hphase] at hmove
  have hbytes := hrow.bytes hphase
  generalize hp : W.phase s.cache = p at hmove
  generalize hfill : (msg.source == .upperInterconnect) = fill at hmove
  generalize (!(writeBacks out).isEmpty) = writes at hmove
  cases hmove with
  | fill =>
    have hdata := hrow.fill (by simpa using hfill)
    obtain ⟨bytes, hbytes'⟩ := Option.isSome_iff_exists.1 hdata
    rw [hbytes (.inl ⟨hp, hdata⟩)]
    simp [latestAfter, hbytes']
  | hold =>
    have hold := h.bytes hp
    rw [hbytes (.inr (by simp [hold])), hold]
    rfl

/-- Processing a message keeps the invariant. -/
theorem Inv.process (h : Inv W Ok s) (hok : Ok cache) (hrow : Row W s.cache msg cache out) :
    Inv W Ok (s.after W msg cache out) where
  ok := hok
  latest := latestAfter_length h.latest
  bytes := h.bytes_after hrow
  holding := (h.written_after hrow).1
  written := (h.written_after hrow).2.1

/-- The invariant holds along every run. -/
theorem inv_inductive (hW : Laws W Ok) : (system W).Inductive (Inv W Ok) where
  init := by
    rintro s rfl
    refine ⟨hW.start_ok, Nat.zero_le _, ?_, fun _ => rfl, ?_⟩ <;> intro hphase <;>
      rw [hW.start_phase] at hphase <;> simp at hphase
  step := by
    intro s l s' _ h hstep
    cases l with
    | process msg =>
      obtain ⟨hmsg, cache, out, hprocess, rfl⟩ := hstep
      obtain ⟨hok, hrow⟩ := hW.row h.ok hmsg hprocess
      exact h.process hok hrow
    | moveLine2WB =>
      obtain rfl := hstep
      refine ⟨hW.evict_ok h.ok, h.latest, ?_, ?_, ?_⟩ <;> simp only [hW.evict_phase, hW.evict_bytes]
      · exact h.bytes
      · exact h.holding
      · exact h.written

/-- A line that returns to absence has been written back once since its fill. -/
theorem written_once (hW : Laws W Ok) (hr : (system W).Reachable s) (hmsg : WholeBlock W.cfg.blockSize msg)
    (hprocess : W.process s.cache msg = .ok (cache, out)) (hheld : W.phase s.cache ≠ .absent)
    (hgone : W.phase cache = .absent) : (s.after W msg cache out).written.length = 1 := by
  have h := (inv_inductive hW).reachable hr
  obtain ⟨-, hrow⟩ := hW.row h.ok hmsg hprocess
  exact (h.written_after hrow).2.2 hheld hgone

/-- A line that is written back is held, and its bytes are the last ones given before the message. -/
theorem bytes_of_writeBack (hW : Laws W Ok) (hr : (system W).Reachable s) (hmsg : WholeBlock W.cfg.blockSize msg)
    (hprocess : W.process s.cache msg = .ok (cache, out)) (hwrites : writeBacks out ≠ []) :
    W.bytes s.cache = some s.latest := by
  have h := (inv_inductive hW).reachable hr
  obtain ⟨-, hrow⟩ := hW.row h.ok hmsg hprocess
  have hmove := Phase.move_of_mem hrow.move
  generalize hp : W.phase s.cache = p at hmove
  generalize W.phase cache = q at hmove
  generalize (msg.source == .upperInterconnect) = fill at hmove
  rw [List.isEmpty_eq_false_iff.2 hwrites] at hmove
  cases hmove <;> exact h.bytes hp

end Octopus.WriteBack
