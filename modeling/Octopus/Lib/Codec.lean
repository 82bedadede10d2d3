import Mathlib.Algebra.Order.Group.Nat
import Mathlib.Data.List.Basic
import Mathlib.Tactic.Ring

/-!
# Codecs of a fixed width

A codec writes every value of a type as the same number of bytes and reads it back. Numbers are written
little-endian; products are written side by side. A list of values is written block by block, and what is
read back from a prefix of it are the values whose blocks are whole.
-/

namespace Octopus.Lib

/-- The lowest bytes of a number, least significant first. -/
def leBytes : Nat → Nat → List UInt8
  | 0, _ => []
  | w + 1, n => UInt8.ofNat n :: leBytes w (n / 256)

/-- The number that bytes stand for, least significant first. -/
def leNat : List UInt8 → Nat
  | [] => 0
  | b :: bytes => b.toNat + 256 * leNat bytes

/-- A number is written as so many bytes. -/
@[simp] theorem leBytes_length (w n : Nat) : (leBytes w n).length = w := by
  induction w generalizing n with
  | zero => rfl
  | succ w ih => simp [leBytes, ih]

/-- A number that fits is read back. -/
theorem leNat_leBytes (w n : Nat) (hn : n < 256 ^ w) : leNat (leBytes w n) = n := by
  induction w generalizing n with
  | zero =>
    simp only [leBytes, leNat]
    omega
  | succ w ih =>
    have hquotient : n / 256 < 256 ^ w := by
      apply Nat.div_lt_of_lt_mul
      rwa [Nat.pow_succ, Nat.mul_comm] at hn
    simp only [leBytes, leNat, ih _ hquotient, UInt8.toNat_ofNat']
    omega

/-- A codec of a fixed width. -/
structure Codec (α : Type*) where
  width : Nat
  encode : α → List UInt8
  decode : List UInt8 → α
  width_pos : 0 < width
  encode_length : ∀ a, (encode a).length = width
  decode_encode : ∀ a, decode (encode a) = a

namespace Codec

variable {α β : Type*}

/-- A type of numbers below a bound that the width can hold. -/
def number (w : Nat) (hw : 0 < w) (toNat : α → Nat) (ofNat : Nat → α) (hlt : ∀ a, toNat a < 256 ^ w)
    (hof : ∀ a, ofNat (toNat a) = a) : Codec α where
  width := w
  encode a := leBytes w (toNat a)
  decode bytes := ofNat (leNat bytes)
  width_pos := hw
  encode_length a := leBytes_length w (toNat a)
  decode_encode a := by rw [leNat_leBytes w (toNat a) (hlt a), hof]

/-- A byte. -/
def uint8 : Codec UInt8 :=
  number 1 Nat.one_pos UInt8.toNat UInt8.ofNat (fun a => by simpa using a.toNat_lt) fun a => by simp

/-- A number of 16 bits. -/
def uint16 : Codec UInt16 :=
  number 2 Nat.two_pos UInt16.toNat UInt16.ofNat (fun a => by simpa using a.toNat_lt) fun a => by simp

/-- A number of 64 bits. -/
def uint64 : Codec UInt64 :=
  number 8 (Nat.succ_pos 7) UInt64.toNat UInt64.ofNat (fun a => by simpa using a.toNat_lt) fun a => by simp

/-- Two values side by side. -/
def pair (c : Codec α) (d : Codec β) : Codec (α × β) where
  width := c.width + d.width
  encode p := c.encode p.1 ++ d.encode p.2
  decode bytes := (c.decode (bytes.take c.width), d.decode (bytes.drop c.width))
  width_pos := Nat.add_pos_left c.width_pos _
  encode_length p := by simp [c.encode_length, d.encode_length]
  decode_encode p := by
    have hlength := c.encode_length p.1
    rw [List.take_left' hlength, List.drop_left' hlength, c.decode_encode, d.decode_encode]

/-- A type whose values are those of another. -/
def equiv (c : Codec α) (f : α → β) (g : β → α) (hfg : ∀ b, f (g b) = b) : Codec β where
  width := c.width
  encode b := c.encode (g b)
  decode bytes := f (c.decode bytes)
  width_pos := c.width_pos
  encode_length b := c.encode_length (g b)
  decode_encode b := by rw [c.decode_encode, hfg]

variable (c : Codec α)

/-- Values written block by block. -/
def encodeAll (values : List α) : List UInt8 := values.flatMap c.encode

/-- Read up to so many blocks; bytes that are no whole block are not read. -/
def decodeMany : Nat → List UInt8 → List α
  | 0, _ => []
  | count + 1, bytes =>
    if bytes.length < c.width then []
    else c.decode (bytes.take c.width) :: decodeMany count (bytes.drop c.width)

/-- Nothing is written for no value. -/
@[simp] theorem encodeAll_nil : c.encodeAll [] = [] := rfl

/-- The first value is written first. -/
@[simp] theorem encodeAll_cons (a : α) (values : List α) :
    c.encodeAll (a :: values) = c.encode a ++ c.encodeAll values := rfl

/-- Lists of values are written side by side. -/
@[simp] theorem encodeAll_append (values values' : List α) :
    c.encodeAll (values ++ values') = c.encodeAll values ++ c.encodeAll values' :=
  List.flatMap_append

/-- A block for each value. -/
@[simp] theorem encodeAll_length (values : List α) : (c.encodeAll values).length = c.width * values.length := by
  induction values with
  | nil => rfl
  | cons a values ih =>
    rw [encodeAll_cons, List.length_append, c.encode_length, ih, List.length_cons]
    ring

/-- The values that are asked for are read back from the blocks they were written to. -/
theorem decodeMany_encodeAll (values : List α) (rest : List UInt8) :
    c.decodeMany values.length (c.encodeAll values ++ rest) = values := by
  induction values with
  | nil => rfl
  | cons a values ih =>
    have hlength := c.encode_length a
    have henough : ¬ (c.encodeAll (a :: values) ++ rest).length < c.width := by
      simp only [encodeAll_cons, List.length_append, hlength]
      omega
    rw [List.length_cons, decodeMany, if_neg henough, encodeAll_cons, List.append_assoc,
      List.take_left' hlength, List.drop_left' hlength, c.decode_encode, ih]

/-- The blocks that are whole in a prefix of what was written are read back. -/
theorem decodeMany_take (values : List α) (count k : Nat) :
    c.decodeMany count ((c.encodeAll values).take k) = (values.take (k / c.width)).take count := by
  induction count generalizing values k with
  | zero => simp [decodeMany]
  | succ count ih =>
    cases values with
    | nil => simp [decodeMany, c.width_pos]
    | cons a values =>
      have hlength := c.encode_length a
      by_cases hk : k < c.width
      · have hshort : ((c.encodeAll (a :: values)).take k).length < c.width := by
          rw [List.length_take]
          omega
        rw [decodeMany, if_pos hshort, Nat.div_eq_of_lt hk, List.take_zero, List.take_nil]
      · have hwhole : ¬ ((c.encodeAll (a :: values)).take k).length < c.width := by
          simp only [encodeAll_cons, List.length_take, List.length_append, hlength]
          omega
        have htake : ((c.encodeAll (a :: values)).take k).take c.width = c.encode a := by
          rw [List.take_take, Nat.min_eq_left (by omega), encodeAll_cons, List.take_left' hlength]
        have hdrop : ((c.encodeAll (a :: values)).take k).drop c.width = (c.encodeAll values).take (k - c.width) := by
          rw [List.drop_take, encodeAll_cons, List.drop_left' hlength]
        have hquotient : k / c.width = (k - c.width) / c.width + 1 :=
          Nat.div_eq_sub_div c.width_pos (by omega)
        rw [decodeMany, if_neg hwhole, htake, hdrop, c.decode_encode, ih, hquotient, List.take_succ_cons,
          List.take_succ_cons]

end Codec

end Octopus.Lib
