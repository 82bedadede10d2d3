import Octopus.Trace.Writer

/-!
# Reading a raw event trace

The reader takes the index from the end of the file and reads chunk by chunk, leaving out the chunks that
no record of the window can stand in. A file without a trailer, as a killed run leaves it, is read from its
start.
-/

namespace Octopus.Trace

open Lib

/-- Bytes of a file from an offset on. -/
def bytesAt (file : List UInt8) (offset count : Nat) : List UInt8 := (file.drop offset).take count

/-- What `read_index` finds; it fails on a file that is no trace, or has no room for a trailer. -/
inductive Index
  | error
  | truncated
  | index (chunks : List TraceChunk)
  deriving DecidableEq, Repr

/-- `read_index`. -/
def readIndex (file : List UInt8) : Index :=
  if file.take 8 ≠ traceMagic then .error
  else if file.length < 24 then .error
  else
    let trailer := file.drop (file.length - 24)
    let idx_off := leNat (trailer.take 8)
    let n := leNat ((trailer.drop 8).take 8)
    let raw := bytesAt file idx_off (48 * n)
    if trailer.drop 16 ≠ traceMagic then .truncated
    else if raw.length % 48 ≠ 0 then .error
    else .index (traceChunk.decodeMany n raw)

/-- The records of a chunk. -/
def chunkRecords (file : List UInt8) (c : TraceChunk) : List TraceRec :=
  traceRec.decodeMany c.count.toNat (file.drop c.offset.toNat)

/-- The records of a file without a trailer. -/
def bodyRecords (file : List UInt8) : List TraceRec :=
  traceRec.decodeMany ((file.length - 8) / traceRec.width) (file.drop 8)

/-- `read_all`. -/
def readAll (file : List UInt8) : Option (List TraceRec) :=
  match readIndex file with
  | .error => none
  | .truncated => some (bodyRecords file)
  | .index chunks => some (chunks.flatMap (chunkRecords file))

/-- Whether a chunk can hold a record of a window. -/
def intersects (t0 t1 : UInt64) (c : TraceChunk) : Bool := decide (t0 ≤ c.cmax) && decide (c.cmin ≤ t1)

/-- `read_window`. -/
def readWindow (file : List UInt8) (t0 t1 : UInt64) : Option (List TraceRec) :=
  match readIndex file with
  | .error => none
  | .truncated => some ((bodyRecords file).filter (inWindow t0 t1))
  | .index chunks =>
    some ((chunks.filter (intersects t0 t1)).flatMap fun c => (chunkRecords file c).filter (inWindow t0 t1))

/-- The part of a chunk that a window keeps, if there is one. -/
def trim (window : Option (UInt64 × UInt64)) (records : List TraceRec) : List TraceRec :=
  match window with
  | none => records
  | some (t0, t1) => records.filter (inWindow t0 t1)

/-- The slices in which a file without a trailer is read. -/
def slices : Nat → List TraceRec → List (List TraceRec)
  | 0, _ => []
  | fuel + 1, records =>
    if records = [] then [] else records.take chunkSize :: slices fuel (records.drop chunkSize)

/-- `iter_chunks`: what it yields, in order; an empty piece is not yielded. -/
def iterChunks (file : List UInt8) (window : Option (UInt64 × UInt64)) : Option (List (List TraceRec)) :=
  match readIndex file with
  | .error => none
  | .truncated =>
    some (((slices (bodyRecords file).length (bodyRecords file)).map (trim window)).filter (· ≠ []))
  | .index chunks =>
    let near := match window with
      | none => chunks
      | some (t0, t1) => chunks.filter (intersects t0 t1)
    some ((near.map fun c => trim window (chunkRecords file c)).filter (· ≠ []))

section Layout

/-- An entry that describes a chunk: it leads to its records, and spans their cycles. -/
def Describes (file : List UInt8) (c : TraceChunk) (records : List TraceRec) : Prop :=
  chunkRecords file c = records ∧ ∀ r ∈ records, c.cmin ≤ r.cycle ∧ r.cycle ≤ c.cmax

/-- The entry of a chunk describes it where the chunk stands. -/
theorem describes_chunkOf (file : List UInt8) (offset : Nat) (records : List TraceRec) (rest : List UInt8)
    (hdrop : file.drop offset = traceRec.encodeAll records ++ rest) (hfits : offset + records.length < 2 ^ 64) :
    Describes file (chunkOf offset records) records := by
  have hplace := foldl_span records
    ⟨UInt64.ofNat offset, UInt64.ofNat records.length, 0xFFFFFFFFFFFFFFFF, 0, 0xFFFFFFFFFFFFFFFF, 0⟩
  have hoffset : (chunkOf offset records).offset.toNat = offset := by
    rw [chunkOf, hplace.1, UInt64.toNat_ofNat']
    omega
  have hcount : (chunkOf offset records).count.toNat = records.length := by
    rw [chunkOf, hplace.2, UInt64.toNat_ofNat']
    omega
  constructor
  · rw [chunkRecords, hoffset, hcount, hdrop, Codec.decodeMany_encodeAll]
  · intro r hr
    exact cycle_mem_foldl_span records _ r hr

/-- The index describes the chunks that stand one behind the other. -/
theorem describes_indexFrom (file : List UInt8) (offset : Nat) (chunks : List (List TraceRec)) (rest : List UInt8)
    (hdrop : file.drop offset = traceRec.encodeAll chunks.flatten ++ rest)
    (hfits : offset + 32 * chunks.flatten.length < 2 ^ 64) :
    List.Forall₂ (Describes file) (indexFrom offset chunks) chunks := by
  induction chunks generalizing offset with
  | nil => exact List.Forall₂.nil
  | cons records chunks ih =>
    simp only [List.flatten_cons, List.length_append, Codec.encodeAll_append, List.append_assoc] at hdrop hfits
    have hlength : (traceRec.encodeAll records).length = 32 * records.length := by
      rw [Codec.encodeAll_length, traceRec_width]
    have hnext : file.drop (offset + 32 * records.length) = traceRec.encodeAll chunks.flatten ++ rest := by
      rw [← List.drop_drop, hdrop, List.drop_left' hlength]
    apply List.Forall₂.cons
    · exact describes_chunkOf file offset records _ hdrop (by omega)
    · exact ih _ hnext (by omega)

variable {file : List UInt8} {index : List TraceChunk} {chunks : List (List TraceRec)}

/-- Chunk by chunk, the records are those of the chunks. -/
theorem map_chunkRecords (h : List.Forall₂ (Describes file) index chunks) :
    index.map (chunkRecords file) = chunks := by
  induction h with
  | nil => rfl
  | cons hhead _ ih => rw [List.map_cons, hhead.1, ih]

/-- A chunk that does not meet the window has no record in it. -/
theorem filter_of_not_intersects {c : TraceChunk} {records : List TraceRec} (h : Describes file c records)
    (t0 t1 : UInt64) (hfar : intersects t0 t1 c = false) : records.filter (inWindow t0 t1) = [] := by
  rw [List.filter_eq_nil_iff]
  intro r hr hin
  have hspan := h.2 r hr
  simp only [inWindow, Bool.and_eq_true, decide_eq_true_eq] at hin
  have hnear : intersects t0 t1 c = true := by
    simp only [intersects, Bool.and_eq_true, decide_eq_true_eq]
    exact ⟨UInt64.le_trans hin.1 hspan.2, UInt64.le_trans hspan.1 hin.2⟩
  rw [hfar] at hnear
  exact absurd hnear (by simp)

/-- The chunks that meet the window hold all the records in it. -/
theorem flatMap_intersects (h : List.Forall₂ (Describes file) index chunks) (t0 t1 : UInt64) :
    ((index.filter (intersects t0 t1)).flatMap fun c => (chunkRecords file c).filter (inWindow t0 t1)) =
      chunks.flatten.filter (inWindow t0 t1) := by
  induction h with
  | nil => rfl
  | @cons c records _ _ hhead _ ih =>
    rw [List.flatten_cons, List.filter_append, ← ih]
    cases hnear : intersects t0 t1 c with
    | false =>
      rw [List.filter_cons_of_neg (by simp [hnear]), filter_of_not_intersects hhead t0 t1 hnear, List.nil_append]
    | true => rw [List.filter_cons_of_pos hnear, List.flatMap_cons, hhead.1]

/-- Pieces of some records, in order, none empty and none larger than a chunk. -/
structure Pieces (records : List TraceRec) (pieces : List (List TraceRec)) : Prop where
  flatten : pieces.flatten = records
  bounds : ∀ piece ∈ pieces, 0 < piece.length ∧ piece.length ≤ chunkSize

/-- Leaving out empty pieces does not change what they hold together. -/
theorem flatten_filter_ne_nil (pieces : List (List TraceRec)) : (pieces.filter (· ≠ [])).flatten = pieces.flatten := by
  induction pieces with
  | nil => rfl
  | cons piece pieces ih =>
    cases piece with
    | nil => simpa using ih
    | cons r piece => simpa using ih

/-- What a window keeps of a piece is not larger than it. -/
theorem trim_length_le (window : Option (UInt64 × UInt64)) (records : List TraceRec) :
    (trim window records).length ≤ records.length := by
  cases window with
  | none => exact Nat.le_refl _
  | some bounds => exact List.length_filter_le _ _

/-- Small pieces without the empty ones. -/
theorem pieces_filter {records : List TraceRec} {pieces : List (List TraceRec)} (hflatten : pieces.flatten = records)
    (hsmall : ∀ piece ∈ pieces, piece.length ≤ chunkSize) : Pieces records (pieces.filter (· ≠ [])) where
  flatten := by rw [flatten_filter_ne_nil, hflatten]
  bounds piece hpiece := by
    rw [List.mem_filter] at hpiece
    have hne : piece ≠ [] := by simpa using hpiece.2
    exact ⟨List.length_pos_iff.2 hne, hsmall piece hpiece.1⟩

end Layout

section Closed

variable {file : List UInt8} {chunks : List (List TraceRec)}

/-- The part of a closed trace before the index. -/
def body (chunks : List (List TraceRec)) : List UInt8 := traceMagic ++ traceRec.encodeAll chunks.flatten

/-- The last bytes of a closed trace. -/
def trailer (chunks : List (List TraceRec)) : List UInt8 :=
  leBytes 8 (8 + 32 * chunks.flatten.length) ++ (leBytes 8 chunks.length ++ traceMagic)

/-- The length of the part before the index. -/
theorem body_length (chunks : List (List TraceRec)) : (body chunks).length = 8 + 32 * chunks.flatten.length := by
  rw [body, List.length_append, Codec.encodeAll_length, traceRec_width]
  rfl

/-- The trailer has 24 bytes. -/
theorem trailer_length (chunks : List (List TraceRec)) : (trailer chunks).length = 24 := by
  simp [trailer, traceMagic]

/-- A number of 64 bits that does not overflow is written as it is. -/
theorem uint64_encode_ofNat (n : Nat) (hn : n < 2 ^ 64) : Codec.uint64.encode (UInt64.ofNat n) = leBytes 8 n := by
  have hvalue : (UInt64.ofNat n).toNat = n := by
    rw [UInt64.toNat_ofNat']
    omega
  exact congrArg (leBytes 8) hvalue

/-- A closed trace whose length does not overflow, in three parts. -/
theorem Closed.parts (h : Closed file chunks) (hlt : file.length < 2 ^ 64) :
    file = body chunks ++ (traceChunk.encodeAll (indexFrom 8 chunks) ++ trailer chunks) := by
  have hlength := congrArg List.length h.layout
  simp only [List.length_append, Codec.encodeAll_length, traceRec_width, traceChunk_width,
    indexFrom_length] at hlength
  rw [h.layout, uint64_encode_ofNat _ (by omega), uint64_encode_ofNat _ (by omega), body, trailer]
  simp only [List.append_assoc]

/-- The reader finds the index of a closed trace. -/
theorem Closed.readIndex_eq (h : Closed file chunks) (hlt : file.length < 2 ^ 64) :
    readIndex file = .index (indexFrom 8 chunks) := by
  have hfile := h.parts hlt
  have hindex : (traceChunk.encodeAll (indexFrom 8 chunks)).length = 48 * chunks.length := by
    rw [Codec.encodeAll_length, traceChunk_width, indexFrom_length]
  have hlength : file.length = 8 + 32 * chunks.flatten.length + 48 * chunks.length + 24 := by
    rw [hfile, List.length_append, List.length_append, body_length, hindex, trailer_length, ← Nat.add_assoc]
  have hmagic : file.take 8 = traceMagic := by
    rw [hfile, body, List.append_assoc]
    rfl
  have htrailer : file.drop (file.length - 24) = trailer chunks := by
    rw [hfile, ← List.append_assoc]
    apply List.drop_left'
    rw [List.length_append, List.length_append, List.length_append, body_length, hindex, trailer_length]
    omega
  have hoffset : leNat ((trailer chunks).take 8) = 8 + 32 * chunks.flatten.length := by
    rw [trailer, List.take_left' (leBytes_length 8 _), leNat_leBytes 8 _ (by omega)]
  have hcount : leNat (((trailer chunks).drop 8).take 8) = chunks.length := by
    rw [trailer, List.drop_left' (leBytes_length 8 _), List.take_left' (leBytes_length 8 _),
      leNat_leBytes 8 _ (by omega)]
  have hend : (trailer chunks).drop 16 = traceMagic := by
    rw [trailer, ← List.append_assoc]
    apply List.drop_left'
    simp
  have hraw : bytesAt file (8 + 32 * chunks.flatten.length) (48 * chunks.length) =
      traceChunk.encodeAll (indexFrom 8 chunks) := by
    rw [bytesAt, hfile, List.drop_left' (body_length chunks), List.take_left' hindex]
  have hdecode := traceChunk.decodeMany_encodeAll (indexFrom 8 chunks) []
  rw [List.append_nil, indexFrom_length] at hdecode
  rw [readIndex, if_neg (by simp [hmagic]), if_neg (by omega)]
  simp only [htrailer, hoffset, hcount, hend, hraw, hindex, hdecode]
  rw [if_neg (by simp), if_neg (by omega)]

/-- The index of a closed trace describes its chunks. -/
theorem Closed.describes (h : Closed file chunks) (hlt : file.length < 2 ^ 64) :
    List.Forall₂ (Describes file) (indexFrom 8 chunks) chunks := by
  have hfile := h.parts hlt
  have hlength := congrArg List.length hfile
  rw [List.length_append, body_length] at hlength
  have hdrop : file.drop 8 =
      traceRec.encodeAll chunks.flatten ++ (traceChunk.encodeAll (indexFrom 8 chunks) ++ trailer chunks) := by
    rw [hfile, body, List.append_assoc]
    rfl
  exact describes_indexFrom file 8 chunks _ hdrop (by omega)

/-- Everything that was written is read. -/
theorem Closed.readAll_eq (h : Closed file chunks) (hlt : file.length < 2 ^ 64) :
    readAll file = some chunks.flatten := by
  have hmap := map_chunkRecords (h.describes hlt)
  rw [readAll, h.readIndex_eq hlt]
  simp only [List.flatMap_def, hmap]

/-- The index leads to all records of a window. -/
theorem Closed.readWindow_eq (h : Closed file chunks) (hlt : file.length < 2 ^ 64) (t0 t1 : UInt64) :
    readWindow file t0 t1 = some (chunks.flatten.filter (inWindow t0 t1)) := by
  rw [readWindow, h.readIndex_eq hlt]
  exact congrArg some (flatMap_intersects (h.describes hlt) t0 t1)

/-- The pieces that are yielded hold together what was written, or the window's part of it. -/
theorem Closed.iterChunks_eq (h : Closed file chunks) (hlt : file.length < 2 ^ 64)
    (window : Option (UInt64 × UInt64)) :
    ∃ pieces, iterChunks file window = some pieces ∧ Pieces (trim window chunks.flatten) pieces := by
  have hmap := map_chunkRecords (h.describes hlt)
  have hsmall (c : TraceChunk) (hc : c ∈ indexFrom 8 chunks) : (chunkRecords file c).length ≤ chunkSize := by
    have hchunk : chunkRecords file c ∈ chunks := by
      rw [← hmap]
      exact List.mem_map_of_mem hc
    exact (h.small _ hchunk).2
  rw [iterChunks, h.readIndex_eq hlt]
  refine ⟨_, rfl, pieces_filter ?_ ?_⟩
  · cases window with
    | none => exact congrArg List.flatten hmap
    | some bounds =>
      have hflat := flatMap_intersects (h.describes hlt) bounds.1 bounds.2
      rwa [List.flatMap_def] at hflat
  · intro piece hpiece
    rw [List.mem_map] at hpiece
    cases hpiece with
    | intro c hc =>
      rw [← hc.2]
      apply Nat.le_trans (trim_length_le window _)
      apply hsmall
      cases window with
      | none => exact hc.1
      | some bounds => exact List.mem_of_mem_filter hc.1

end Closed

/-- A closed trace is read back: everything its own window kept, any window of it, and the pieces. -/
theorem read_closed (window : Option (UInt64 × UInt64)) (calls : List Call)
    (hlt : (traced window calls).traceClose.file.length < 2 ^ 64) :
    readAll (traced window calls).traceClose.file = some (kept window calls) ∧
      (∀ t0 t1, readWindow (traced window calls).traceClose.file t0 t1 =
        some ((kept window calls).filter (inWindow t0 t1))) ∧
      ∀ part, ∃ pieces, iterChunks (traced window calls).traceClose.file part = some pieces ∧
        Pieces (trim part (kept window calls)) pieces := by
  have hclosed := closed_traced window calls
  cases hclosed with
  | intro chunks h =>
    rw [← h.2]
    exact ⟨h.1.readAll_eq hlt, h.1.readWindow_eq hlt, h.1.iterChunks_eq hlt⟩

/-- The trace of a run of two events is read back. -/
theorem read_closed_two :
    readAll (traced none
      [.trace 300 ⟨7, 64, 1, 2⟩ .l1 3 .enter 0, .traceFsm 500 ⟨7, 64, 1, 2⟩ 3 4 5 6]).traceClose.file =
        some [⟨4, 7, 64, 1, 0, 1, 2, 3, 0⟩, ⟨6, 7, 64, 11, 6, 1, 2, 3, 0x405⟩] := by
  have hlength := closed_length_le none
    [.trace 300 ⟨7, 64, 1, 2⟩ .l1 3 .enter 0, .traceFsm 500 ⟨7, 64, 1, 2⟩ 3 4 5 6]
  have hread := read_closed none
    [.trace 300 ⟨7, 64, 1, 2⟩ .l1 3 .enter 0, .traceFsm 500 ⟨7, 64, 1, 2⟩ 3 4 5 6]
    (Nat.lt_of_le_of_lt hlength (by decide))
  rw [hread.1]
  decide

section Killed

/-- The first bytes of some blocks are those of the first blocks. -/
theorem encodeAll_take (records : List TraceRec) (m : Nat) :
    (traceRec.encodeAll records).take (32 * m) = traceRec.encodeAll (records.take m) := by
  induction m generalizing records with
  | zero => simp
  | succ m ih =>
    cases records with
    | nil => simp
    | cons r records =>
      have hlength : (traceRec.encode r).length = 32 := traceRec.encode_length r
      rw [List.take_succ_cons, Codec.encodeAll_cons, Codec.encodeAll_cons, List.take_append, hlength,
        List.take_of_length_le (by omega), ← ih]
      congr 2

/-- The last eight bytes of a record start with its resource. -/
theorem encode_drop (r : TraceRec) : ((traceRec.encode r).drop 24).head? = some r.resource := by
  have hbyte : UInt8.ofNat r.resource.toNat = r.resource := by simp
  exact congrArg some hbyte

/-- The number of a role is not the first byte of a trailer's magic. -/
theorem role_num_ne (role : Logger.Role) : role.num ≠ 0x4F := by
  cases role <;> decide

/-- No record that is kept ends like a trailer. -/
theorem resource_ne (window : Option (UInt64 × UInt64)) (calls : List Call) (r : TraceRec)
    (hr : r ∈ kept window calls) : r.resource ≠ 0x4F := by
  have hcall := List.mem_of_mem_filter hr
  rw [List.mem_map] at hcall
  cases hcall with
  | intro call h =>
    rw [← h.2]
    cases call with
    | trace now m role comp phase flags => exact role_num_ne role
    | traceFsm now m comp oldState newState eventId => exact role_num_ne .fsm

/-- Records that end in one that does not look like a trailer do not end in one. -/
theorem encodeAll_drop_ne (records : List TraceRec) (hne : records ≠ [])
    (hresource : ∀ r ∈ records, r.resource ≠ 0x4F) :
    (traceRec.encodeAll records).drop (32 * records.length - 8) ≠ traceMagic := by
  cases records using List.reverseRecOn with
  | nil => exact absurd rfl hne
  | append_singleton records r =>
    have hlength : (traceRec.encodeAll records).length = 32 * records.length := by
      rw [Codec.encodeAll_length, traceRec_width]
    have hsum : 32 * (records ++ [r]).length - 8 = 32 * records.length + 24 := by
      rw [List.length_append, List.length_singleton]
      omega
    have hdrop : (traceRec.encodeAll (records ++ [r])).drop (32 * (records ++ [r]).length - 8) =
        (traceRec.encode r).drop 24 := by
      rw [hsum, ← List.drop_drop, Codec.encodeAll_append, List.drop_left' hlength, Codec.encodeAll_cons,
        Codec.encodeAll_nil, List.append_nil]
    intro hmagic
    have hhead := encode_drop r
    rw [← hdrop, hmagic] at hhead
    have heq : r.resource = 0x4F := (Option.some.inj hhead).symm
    exact hresource r (by simp) heq

/-- The slices hold together all the records. -/
theorem slices_flatten (fuel : Nat) (records : List TraceRec) (hfuel : records.length ≤ fuel) :
    (slices fuel records).flatten = records := by
  induction fuel generalizing records with
  | zero =>
    have hnil : records = [] := List.length_eq_zero_iff.1 (by omega)
    rw [hnil]
    rfl
  | succ fuel ih =>
    by_cases hnil : records = []
    · simp [slices, hnil]
    · have hpos := List.length_pos_iff.2 hnil
      have hrest : (records.drop chunkSize).length ≤ fuel := by
        rw [List.length_drop]
        simp only [chunkSize]
        omega
      rw [slices, if_neg hnil, List.flatten_cons, ih _ hrest, List.take_append_drop]

/-- No slice is larger than a chunk. -/
theorem slices_length_le (fuel : Nat) (records : List TraceRec) (piece : List TraceRec)
    (hpiece : piece ∈ slices fuel records) : piece.length ≤ chunkSize := by
  induction fuel generalizing records with
  | zero => simp [slices] at hpiece
  | succ fuel ih =>
    by_cases hnil : records = []
    · simp [slices, hnil] at hpiece
    · rw [slices, if_neg hnil, List.mem_cons] at hpiece
      cases hpiece with
      | inl hfirst =>
        rw [hfirst, List.length_take]
        exact Nat.min_le_left _ _
      | inr hrest => exact ih _ hrest

/-- Filtering slice by slice is filtering at once. -/
theorem flatten_map_trim (window : Option (UInt64 × UInt64)) (pieces : List (List TraceRec)) :
    (pieces.map (trim window)).flatten = trim window pieces.flatten := by
  cases window with
  | none => exact congrArg List.flatten (List.map_id pieces)
  | some bounds => exact List.filter_flatten.symm

/-- A file without room for a trailer is not read: its magic is not whole, or there is nothing 24 bytes before
its end. -/
theorem readIndex_of_short {file : List UInt8} (h : file.length < 24) : readIndex file = .error := by
  rw [readIndex]
  split_ifs
  · rfl
  · rfl

/-- A file of a killed run that has room for a trailer reads as the records that are whole in it. -/
theorem read_truncated (window : Option (UInt64 × UInt64)) (calls : List Call) (k : Nat) (hk : 24 ≤ k)
    (hlength : k ≤ (traced window calls).file.length)
    (hcut : (k - 8) % 32 = 0 ∨ ((traced window calls).file.take k).drop (k - 8) ≠ traceMagic) :
    readAll ((traced window calls).file.take k) = some ((kept window calls).take ((k - 8) / 32)) ∧
      (∀ t0 t1, readWindow ((traced window calls).file.take k) t0 t1 =
        some (((kept window calls).take ((k - 8) / 32)).filter (inWindow t0 t1))) ∧
      ∀ part, ∃ pieces, iterChunks ((traced window calls).file.take k) part = some pieces ∧
        Pieces (trim part ((kept window calls).take ((k - 8) / 32))) pieces := by
  have hrun := written_traced window calls
  cases hrun with
  | intro chunks h =>
    rw [h.file_length] at hlength
    have hlen : ((traced window calls).file.take k).length = k := by
      rw [List.length_take, h.file_length]
      omega
    have hbody : ((traced window calls).file.take k).drop 8 = (traceRec.encodeAll chunks.flatten).take (k - 8) := by
      rw [h.file, List.drop_take]
      rfl
    have hrecords : bodyRecords ((traced window calls).file.take k) = (kept window calls).take ((k - 8) / 32) := by
      rw [bodyRecords, hlen, hbody, Codec.decodeMany_take, traceRec_width, List.take_take, Nat.min_self, ← h.records,
        List.take_append_of_le_length (by omega)]
    have hmagic : ((traced window calls).file.take k).take 8 = traceMagic := by
      rw [List.take_take, Nat.min_eq_left (by omega), h.file]
      rfl
    have hend : ((traced window calls).file.take k).drop (k - 8) ≠ traceMagic := by
      cases hcut with
      | inr hother => exact hother
      | inl hwhole =>
        have hcount : k - 8 = 32 * ((k - 8) / 32) := by omega
        have htaken : (chunks.flatten.take ((k - 8) / 32)).length = (k - 8) / 32 := by
          rw [List.length_take]
          omega
        have hne : chunks.flatten.take ((k - 8) / 32) ≠ [] := by
          apply List.length_pos_iff.1
          omega
        have hlast := encodeAll_drop_ne _ hne fun r hr => by
          apply resource_ne window calls
          rw [← h.records]
          exact List.mem_append_left _ (List.mem_of_mem_take hr)
        rw [htaken, ← encodeAll_take, ← hcount, ← hbody, List.drop_drop] at hlast
        rwa [show 8 + (k - 8 - 8) = k - 8 by omega] at hlast
    have hindex : readIndex ((traced window calls).file.take k) = .truncated := by
      rw [readIndex, if_neg (by simp [hmagic]), hlen, if_neg (by omega)]
      simp only [List.drop_drop]
      rw [show k - 24 + 16 = k - 8 by omega, if_pos hend]
    refine ⟨?_, ?_, ?_⟩
    · rw [readAll, hindex]
      simp only [hrecords]
    · intro t0 t1
      rw [readWindow, hindex]
      simp only [hrecords]
    · intro part
      rw [iterChunks, hindex]
      simp only [hrecords]
      refine ⟨_, rfl, pieces_filter ?_ ?_⟩
      · rw [flatten_map_trim, slices_flatten _ _ (Nat.le_refl _)]
      · intro piece hpiece
        rw [List.mem_map] at hpiece
        cases hpiece with
        | intro slice hslice =>
          rw [← hslice.2]
          exact Nat.le_trans (trim_length_le part slice) (slices_length_le _ _ slice hslice.1)

end Killed

/-- The file of a run that was killed is not read if it is shorter than a trailer. From there on it reads as
the records that are whole in it, unless it happens to end like a trailer; it does not where it ends with a
record. -/
theorem read_killed (window : Option (UInt64 × UInt64)) (calls : List Call) (k : Nat)
    (hlength : k ≤ (traced window calls).file.length) :
    (k < 24 → readAll ((traced window calls).file.take k) = none ∧
      (∀ t0 t1, readWindow ((traced window calls).file.take k) t0 t1 = none) ∧
      ∀ part, iterChunks ((traced window calls).file.take k) part = none) ∧
    (24 ≤ k → (k - 8) % 32 = 0 ∨ ((traced window calls).file.take k).drop (k - 8) ≠ traceMagic →
      readAll ((traced window calls).file.take k) = some ((kept window calls).take ((k - 8) / 32)) ∧
      (∀ t0 t1, readWindow ((traced window calls).file.take k) t0 t1 =
        some (((kept window calls).take ((k - 8) / 32)).filter (inWindow t0 t1))) ∧
      ∀ part, ∃ pieces, iterChunks ((traced window calls).file.take k) part = some pieces ∧
        Pieces (trim part ((kept window calls).take ((k - 8) / 32))) pieces) := by
  constructor
  · intro hshort
    have hindex : readIndex ((traced window calls).file.take k) = .error :=
      readIndex_of_short (Nat.lt_of_le_of_lt (List.length_take_le ..) hshort)
    refine ⟨by rw [readAll, hindex], fun t0 t1 => by rw [readWindow, hindex], fun part => by rw [iterChunks, hindex]⟩
  · intro hk hcut
    exact read_truncated window calls k hk hlength hcut

/-- A run that was killed when two of its records stood in the file, and one that was killed before any did. -/
theorem read_killed_two :
    readAll ((traced none (List.replicate 65536 (.trace 300 ⟨7, 64, 1, 2⟩ .l1 3 .enter 0))).file.take 72) =
      some (List.replicate 2 ⟨4, 7, 64, 1, 0, 1, 2, 3, 0⟩) ∧
    readAll ((traced none []).file.take 8) = none := by
  have hkept : kept none (List.replicate 65536 (.trace 300 ⟨7, 64, 1, 2⟩ .l1 3 .enter 0)) =
      List.replicate 65536 ⟨4, 7, 64, 1, 0, 1, 2, 3, 0⟩ := by
    rw [kept, List.map_replicate]
    exact List.filter_replicate_of_pos (by decide)
  have hlength : 72 ≤ (traced none (List.replicate 65536 (.trace 300 ⟨7, 64, 1, 2⟩ .l1 3 .enter 0))).file.length := by
    rw [traced_length, hkept, List.length_replicate]
    decide
  have hread := (read_killed none (List.replicate 65536 (.trace 300 ⟨7, 64, 1, 2⟩ .l1 3 .enter 0)) 72 hlength).2
    (by decide) (Or.inl (by decide))
  have hempty := (read_killed none [] 8 (by decide)).1 (by decide)
  refine ⟨?_, hempty.1⟩
  rw [hread.1, hkept, List.take_replicate, show min ((72 - 8) / 32) 65536 = 2 by decide]

end Octopus.Trace
