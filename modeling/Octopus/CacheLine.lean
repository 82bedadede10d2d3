import Octopus.Fsm

/-!
# One line in a controller's data handler

The part of `CacheDataHandler_COTS` that concerns a single line. The line is absent, in the
cache array, in a miss status holding register or in the pending write-back buffer; bits and
bytes are updated separately. The array is always ready (data-array latency 0).
-/

namespace Octopus

/-- Where the data handler keeps a line. -/
inductive LineLocation
  | array
  | mshr
  | pwb
  deriving DecidableEq, Repr

/-- The bits of a line as a protocol reads and writes them; the owner `-1` is `none`. -/
structure GenericCacheLine (σ : Type) where
  valid : Bool
  state : σ
  ownerId : Option Nat
  deriving DecidableEq, Repr

/-- A line the data handler finds: its location, bits and bytes. -/
structure Resident (σ : Type) where
  location : LineLocation
  state : σ
  ownerId : Option Nat
  data : Option (List UInt8)
  deriving DecidableEq, Repr

/-- The place of one line in the data handler: absent, or resident somewhere. -/
abbrev Slot (σ : Type) := Option (Resident σ)

/-- Overwrite the bytes from an offset on. -/
def overwrite (block : List UInt8) (offset : Nat) (bytes : List UInt8) : List UInt8 :=
  block.take offset ++ bytes ++ block.drop (offset + bytes.length)

namespace Slot

variable {σ : Type}

/-- The bits of the line; an absent line reads as the default line in the table's first state. -/
def readLineBits (slot : Slot σ) (initial : σ) : GenericCacheLine σ :=
  match slot with
  | none => { valid := false, state := initial, ownerId := none }
  | some r => { valid := true, state := r.state, ownerId := r.ownerId }

/-- Update the bits of a line that is found; a line whose bits turn invalid is found no more. -/
def updateLineBits (slot : Slot σ) (line : GenericCacheLine σ) : Option (Slot σ) :=
  slot.map fun r =>
    if line.valid then some { r with state := line.state, ownerId := line.ownerId } else none

/-- Enter a valid line in the miss status holding registers. -/
def writeLine2MSHR (slot : Slot σ) (line : GenericCacheLine σ) : Slot σ :=
  if line.valid then
    some { location := .mshr, state := line.state, ownerId := line.ownerId, data := none }
  else slot

/-- Write a block into a line that is found; a line in a holding register moves to the array. -/
def updateLineData (slot : Slot σ) (blockSize : Nat) (bytes : List UInt8) : Option (Slot σ) :=
  slot.map fun r =>
    some { r with
      location := if r.location = .mshr then .array else r.location
      data := some (bytes.take blockSize) }

/-- The bytes of a line that is found. -/
def readCacheLine (slot : Slot σ) : Option (List UInt8) :=
  slot.bind fun r => r.data

/-- Move the line from the array to the pending write-back buffer. -/
def moveLine2WB (slot : Slot σ) : Slot σ :=
  slot.map fun r => { r with location := .pwb }

end Slot

end Octopus
