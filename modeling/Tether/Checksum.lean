import Tether.Bytes

/-!
# The checksum of a frame

The cyclic redundancy check CRC-32C: the remainder of the message as a binary
polynomial modulo `0x1EDC6F41`, with the bits of a byte taken from the least
significant one. The remainder starts with all bits set and is complemented at
the end, so zero bytes before or after a message count.

The remainder is carried from one piece of the message to the next, so the
checksum of a message in pieces is that of the pieces joined (`remainder_append`).
-/

namespace Tether.Checksum

/-- The polynomial `0x1EDC6F41` with its bits reversed. -/
def polynomial : UInt32 := 0x82F63B78

/-- One bit: the lowest bit leaves, and takes the polynomial away if it was set. -/
def shift (r : UInt32) : UInt32 :=
  if r &&& 1 = 1 then (r >>> 1) ^^^ polynomial else r >>> 1

/-- Some bits. -/
def shifts : Nat → UInt32 → UInt32
  | 0, r => r
  | n + 1, r => shifts n (shift r)

/-- One byte. -/
def absorb (r : UInt32) (b : UInt8) : UInt32 := shifts 8 (r ^^^ b.toUInt32)

/-- The remainder after some bytes, from the remainder before them. -/
def remainder (r : UInt32) (bs : Bytes) : UInt32 := bs.foldl absorb r

/-- The checksum of a header and a payload: that of the one followed by the other. -/
def checksum (header payload : Bytes) : UInt32 :=
  remainder (remainder 0xFFFFFFFF header) payload ^^^ 0xFFFFFFFF

theorem remainder_append (r : UInt32) (as bs : Bytes) :
    remainder r (as ++ bs) = remainder (remainder r as) bs :=
  List.foldl_append

end Tether.Checksum
