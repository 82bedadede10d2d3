import Octopus.MCsim.DDR4
import Mathlib.Data.Nat.Bitwise
import Mathlib.Data.List.Nodup

/-!
# The address mapping

`AddressMapping`: a scheme names the units of the memory from the highest bits of an address to the lowest, and each
unit takes as many bits as it has places. The six lowest bits, the byte of a block, are dropped first, and what is
left is cut to 32 bits.
-/

namespace Octopus.MCsim

/-- `memOrg`: the units that an address is cut into. -/
inductive MemOrg
  | rank | bankGroup | bank | subArray | row | column
  deriving DecidableEq, Repr

/-- `log2`, rounded up. -/
def log2 (value : Nat) : Nat := if 1 <<< Nat.log2 value < value then Nat.log2 value + 1 else Nat.log2 value

/-- `memTable`, for one rank: how many places a unit has. -/
def memTable (org : OrgEntry) : MemOrg → Nat
  | .rank => 1
  | .bankGroup => org.bankGroups
  | .bank => org.banks
  | .subArray => 1
  | .row => org.rows
  | .column => org.columns

/-- The constructor: the units of a scheme with their bits; a column is read in bursts of eight. -/
def decodeIndex (format : List MemOrg) (memTable : MemOrg → Nat) : List (MemOrg × Nat) :=
  format.map fun unit => (unit, if unit = .column then log2 (memTable unit) - 3 else log2 (memTable unit))

/-- The loop of `addressMapping`, from the last unit of a scheme to its first. -/
def decodeFields : List (MemOrg × Nat) → Nat → (MemOrg → Nat) → MemOrg → Nat
  | [], _, fields => fields
  | (unit, bits) :: rest, temp, fields =>
    let high := temp >>> bits <<< bits
    decodeFields rest (high >>> bits) (Function.update fields unit (high ^^^ temp))

/-- `addressMapping`: the fields of a request that are not in the scheme stay as they are. -/
def addressMapping (scheme : List (MemOrg × Nat)) (address : Nat) (fields : MemOrg → Nat) : MemOrg → Nat :=
  decodeFields scheme.reverse ((address >>> 6) % 2 ^ 32) fields

/-- The number that fields make up, from the lowest to the highest. -/
def encodeFields : List (MemOrg × Nat) → (MemOrg → Nat) → Nat
  | [], _ => 0
  | (unit, bits) :: rest, fields => fields unit + 2 ^ bits * encodeFields rest fields

/-- The bits that the units of a scheme take. -/
def schemeBits (scheme : List (MemOrg × Nat)) : Nat := (scheme.map Prod.snd).sum

/-- A unit takes its bits. -/
@[simp] theorem schemeBits_cons (p : MemOrg × Nat) (scheme : List (MemOrg × Nat)) :
    schemeBits (p :: scheme) = p.2 + schemeBits scheme := rfl

/-- Fields that fit into their bits. -/
def FieldsFit (scheme : List (MemOrg × Nat)) (fields : MemOrg → Nat) : Prop := ∀ p ∈ scheme, fields p.1 < 2 ^ p.2

/-- Shifting to the right and to the left again clears the low bits. -/
theorem high_xor (temp bits : Nat) : temp >>> bits <<< bits ^^^ temp = temp % 2 ^ bits := by
  apply Nat.eq_of_testBit_eq
  intro k
  rw [Nat.testBit_xor, Nat.testBit_shiftLeft, Nat.testBit_mod_two_pow]
  by_cases hk : bits ≤ k
  · rw [Nat.testBit_shiftRight, Nat.add_sub_cancel' hk]
    simp [hk, Nat.not_lt.2 hk]
  · simp [hk, Nat.lt_of_not_le hk]

/-- What is left for the other units. -/
theorem high_shiftRight (temp bits : Nat) : temp >>> bits <<< bits >>> bits = temp / 2 ^ bits := by
  rw [Nat.shiftLeft_shiftRight, Nat.shiftRight_eq_div_pow]

/-- A field is read off the low bits, and the rest decodes the others. -/
theorem decodeFields_cons (unit : MemOrg) (bits : Nat) (rest : List (MemOrg × Nat)) (temp : Nat)
    (fields : MemOrg → Nat) :
    decodeFields ((unit, bits) :: rest) temp fields =
      decodeFields rest (temp / 2 ^ bits) (Function.update fields unit (temp % 2 ^ bits)) := by
  rw [decodeFields, high_xor, high_shiftRight]

/-- The loop writes only the units of the scheme. -/
theorem decodeFields_of_not_mem {scheme : List (MemOrg × Nat)} {unit : MemOrg} (h : unit ∉ scheme.map Prod.fst)
    (temp : Nat) (fields : MemOrg → Nat) : decodeFields scheme temp fields unit = fields unit := by
  induction scheme generalizing temp fields with
  | nil => rfl
  | cons p rest ih =>
    rw [List.map_cons, List.mem_cons, not_or] at h
    rw [decodeFields_cons, ih h.2, Function.update_of_ne h.1]

/-- The number that fields make up depends on the units of the scheme only. -/
theorem encodeFields_congr {scheme : List (MemOrg × Nat)} {fields fields' : MemOrg → Nat}
    (h : ∀ unit ∈ scheme.map Prod.fst, fields unit = fields' unit) :
    encodeFields scheme fields = encodeFields scheme fields' := by
  induction scheme with
  | nil => rfl
  | cons p rest ih =>
    rw [List.map_cons, List.forall_mem_cons] at h
    rw [encodeFields, encodeFields, h.1, ih h.2]

/-- The fields of a number fit, and make up its low bits again. -/
theorem encode_decodeFields {scheme : List (MemOrg × Nat)} (hnodup : (scheme.map Prod.fst).Nodup) (temp : Nat)
    (fields : MemOrg → Nat) :
    FieldsFit scheme (decodeFields scheme temp fields) ∧
      encodeFields scheme (decodeFields scheme temp fields) = temp % 2 ^ schemeBits scheme := by
  induction scheme generalizing temp fields with
  | nil => exact ⟨fun p hp => absurd hp List.not_mem_nil, (Nat.mod_one temp).symm⟩
  | cons p rest ih =>
    rw [List.map_cons, List.nodup_cons] at hnodup
    rw [decodeFields_cons]
    have hrest := ih hnodup.2 (temp / 2 ^ p.2) (Function.update fields p.1 (temp % 2 ^ p.2))
    have hfield := decodeFields_of_not_mem hnodup.1 (temp / 2 ^ p.2)
      (Function.update fields p.1 (temp % 2 ^ p.2))
    rw [Function.update_self] at hfield
    refine ⟨?_, ?_⟩
    · intro q hq
      cases List.mem_cons.1 hq with
      | inl hq =>
        rw [hq, hfield]
        exact Nat.mod_lt _ (Nat.two_pow_pos p.2)
      | inr hq => exact hrest.1 q hq
    · rw [encodeFields, hfield, hrest.2, schemeBits_cons, pow_add, Nat.mod_mul]

/-- A number whose fields fit decodes to them. -/
theorem decode_encodeFields {scheme : List (MemOrg × Nat)} (hnodup : (scheme.map Prod.fst).Nodup)
    {fields : MemOrg → Nat} (hfit : FieldsFit scheme fields) (start : MemOrg → Nat) {unit : MemOrg}
    (hunit : unit ∈ scheme.map Prod.fst) :
    decodeFields scheme (encodeFields scheme fields) start unit = fields unit := by
  induction scheme generalizing start with
  | nil => exact absurd hunit List.not_mem_nil
  | cons p rest ih =>
    rw [List.map_cons, List.nodup_cons] at hnodup
    rw [FieldsFit, List.forall_mem_cons] at hfit
    rw [decodeFields_cons, encodeFields, Nat.add_mul_mod_self_left, Nat.mod_eq_of_lt hfit.1,
      Nat.add_mul_div_left _ _ (Nat.two_pow_pos p.2), Nat.div_eq_of_lt hfit.1, Nat.zero_add]
    by_cases hmem : unit ∈ rest.map Prod.fst
    · exact ih hnodup.2 hfit.2 _ hmem
    · rw [List.map_cons, List.mem_cons] at hunit
      rw [decodeFields_of_not_mem hmem, hunit.resolve_right hmem, Function.update_self]

/-- A number whose fields fit takes no more bits than its scheme. -/
theorem encodeFields_lt {scheme : List (MemOrg × Nat)} {fields : MemOrg → Nat} (hfit : FieldsFit scheme fields) :
    encodeFields scheme fields < 2 ^ schemeBits scheme := by
  induction scheme with
  | nil => exact Nat.one_pos
  | cons p rest ih =>
    rw [FieldsFit, List.forall_mem_cons] at hfit
    rw [encodeFields, schemeBits_cons, pow_add]
    have hrest : encodeFields rest fields + 1 ≤ 2 ^ schemeBits rest := ih hfit.2
    calc fields p.1 + 2 ^ p.2 * encodeFields rest fields
        < 2 ^ p.2 + 2 ^ p.2 * encodeFields rest fields := Nat.add_lt_add_right hfit.1 _
      _ = 2 ^ p.2 * (encodeFields rest fields + 1) := by rw [Nat.mul_add_one, Nat.add_comm]
      _ ≤ 2 ^ p.2 * 2 ^ schemeBits rest := Nat.mul_le_mul_left _ hrest

/-- The fields of an address fit. -/
theorem addressMapping_fit {scheme : List (MemOrg × Nat)} (hnodup : (scheme.map Prod.fst).Nodup) (address : Nat)
    (start : MemOrg → Nat) : FieldsFit scheme (addressMapping scheme address start) := by
  have hreverse : (scheme.reverse.map Prod.fst).Nodup := by rwa [List.map_reverse, List.nodup_reverse]
  intro p hp
  exact (encode_decodeFields hreverse ((address >>> 6) % 2 ^ 32) start).1 p (List.mem_reverse.2 hp)

/-- The mapping is exact for every scheme that names no unit twice and takes no more than 32 bits: the fields of an
address fit, two addresses have the same fields if and only if they agree in the bits that the scheme reads, and all
fields that fit are those of an address. -/
theorem addressMapping_exact (scheme : List (MemOrg × Nat)) (hnodup : (scheme.map Prod.fst).Nodup)
    (hbits : schemeBits scheme ≤ 32) (start : MemOrg → Nat) :
    (∀ address, FieldsFit scheme (addressMapping scheme address start)) ∧
      (∀ address address', (∀ unit ∈ scheme.map Prod.fst,
          addressMapping scheme address start unit = addressMapping scheme address' start unit) ↔
        address / 64 % 2 ^ schemeBits scheme = address' / 64 % 2 ^ schemeBits scheme) ∧
      ∀ fields, FieldsFit scheme fields → ∃ address, ∀ unit ∈ scheme.map Prod.fst,
        addressMapping scheme address start unit = fields unit := by
  have hreverse : (scheme.reverse.map Prod.fst).Nodup := by rwa [List.map_reverse, List.nodup_reverse]
  have hsum : schemeBits scheme.reverse = schemeBits scheme := by
    rw [schemeBits, List.map_reverse, List.sum_reverse, schemeBits]
  have hunits : ∀ unit, unit ∈ scheme.reverse.map Prod.fst ↔ unit ∈ scheme.map Prod.fst := by
    intro unit
    rw [List.map_reverse, List.mem_reverse]
  have hfit : ∀ fields, FieldsFit scheme.reverse fields ↔ FieldsFit scheme fields := by
    intro fields
    simp only [FieldsFit, List.mem_reverse]
  have hlow : ∀ address, (address >>> 6) % 2 ^ 32 % 2 ^ schemeBits scheme = address / 64 % 2 ^ schemeBits scheme := by
    intro address
    rw [Nat.mod_mod_of_dvd _ (Nat.pow_dvd_pow 2 hbits), Nat.shiftRight_eq_div_pow]
  have hdecode := fun temp => encode_decodeFields hreverse temp start
  refine ⟨fun address => addressMapping_fit hnodup address start, fun address address' => ?_, fun fields hfields => ?_⟩
  · constructor
    · intro hsame
      rw [← hlow, ← hlow, ← hsum, ← (hdecode _).2, ← (hdecode _).2]
      exact encodeFields_congr fun unit hunit => hsame unit ((hunits unit).1 hunit)
    · intro heq unit hunit
      rw [← hlow, ← hlow, ← hsum, ← (hdecode _).2, ← (hdecode _).2] at heq
      have hfirst := decode_encodeFields hreverse (hdecode ((address >>> 6) % 2 ^ 32)).1 start ((hunits unit).2 hunit)
      have hsecond := decode_encodeFields hreverse (hdecode ((address' >>> 6) % 2 ^ 32)).1 start
        ((hunits unit).2 hunit)
      rw [addressMapping, addressMapping, ← hfirst, heq, hsecond]
  · refine ⟨64 * encodeFields scheme.reverse fields, fun unit hunit => ?_⟩
    have hless := encodeFields_lt ((hfit fields).2 hfields)
    rw [hsum] at hless
    have haddress : (64 * encodeFields scheme.reverse fields) >>> 6 = encodeFields scheme.reverse fields := by
      rw [Nat.shiftRight_eq_div_pow]
      exact Nat.mul_div_cancel_left _ (by decide)
    rw [addressMapping, haddress, Nat.mod_eq_of_lt (hless.trans_le (Nat.pow_le_pow_right (by decide) hbits))]
    exact decode_encodeFields hreverse ((hfit fields).2 hfields) start ((hunits unit).2 hunit)

/-- The scheme of the FR-FCFS system. -/
def frfcfsFormat : List MemOrg := [.row, .rank, .bankGroup, .bank, .subArray, .column]

/-- Its scheme on an organization. -/
def frfcfsScheme (org : Org) : List (MemOrg × Nat) := decodeIndex frfcfsFormat (memTable (orgTable org))

/-- It names every unit. -/
theorem mem_frfcfsScheme (org : Org) (unit : MemOrg) : unit ∈ (frfcfsScheme org).map Prod.fst := by
  cases org <;> cases unit <;> decide

/-- On each of the nine organizations the mapping of the FR-FCFS system is a bijection between the bits that it reads
and the fields that fit. -/
theorem addressMapping_exact_organizations :
    (∀ org address, FieldsFit (frfcfsScheme org) (addressMapping (frfcfsScheme org) address fun _ => 0)) ∧
      (∀ org address address', (∀ unit, addressMapping (frfcfsScheme org) address (fun _ => 0) unit =
          addressMapping (frfcfsScheme org) address' (fun _ => 0) unit) ↔
        address / 64 % 2 ^ schemeBits (frfcfsScheme org) = address' / 64 % 2 ^ schemeBits (frfcfsScheme org)) ∧
      ∀ org fields, FieldsFit (frfcfsScheme org) fields →
        ∃ address, addressMapping (frfcfsScheme org) address (fun _ => 0) = fields := by
  have hnodup : ∀ org, ((frfcfsScheme org).map Prod.fst).Nodup := by
    intro org
    cases org <;> decide
  have hbits : ∀ org, schemeBits (frfcfsScheme org) ≤ 32 := by
    intro org
    cases org <;> decide
  have hexact := fun org => addressMapping_exact (frfcfsScheme org) (hnodup org) (hbits org) fun _ => 0
  refine ⟨fun org => (hexact org).1, fun org address address' => ?_, fun org fields hfit => ?_⟩
  · rw [← (hexact org).2.1]
    exact ⟨fun hsame unit _ => hsame unit, fun hsame unit => hsame unit (mem_frfcfsScheme org unit)⟩
  · obtain ⟨address, haddress⟩ := (hexact org).2.2 fields hfit
    exact ⟨address, funext fun unit => haddress unit (mem_frfcfsScheme org unit)⟩

end Octopus.MCsim
