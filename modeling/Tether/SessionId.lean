import Tether.Hex

/-!
# Session ids

A session is named by 128 bits, sixteen bytes on the wire. Its text has the
thirty-two digits in groups of eight, four, four, four and twelve.
-/

namespace Tether

/-- The name of a session. -/
structure SessionId where
  /-- The number that the sixteen bytes spell. -/
  bits : BitVec 128
  deriving DecidableEq

namespace SessionId

/-- How many bytes an id has. -/
def width : Nat := 16

/-- The id with a number. -/
def ofNat (n : Nat) : SessionId := ⟨BitVec.ofNat 128 n⟩

/-- The number of an id, which also orders ids. -/
def toNat (id : SessionId) : Nat := id.bits.toNat

/-- The bytes of an id. -/
def toBytes (id : SessionId) : Bytes := BigEndian.encode width id.toNat

/-- The id with sixteen bytes. -/
def ofBytes (bs : Bytes) : SessionId := ofNat (BigEndian.decode bs)

@[simp] theorem length_toBytes (id : SessionId) : id.toBytes.length = 16 := by
  simp [toBytes, width]

@[simp] theorem ofBytes_toBytes (id : SessionId) : ofBytes id.toBytes = id := by
  have h : id.bits.toNat < Nat.pow 256 16 := id.bits.isLt
  simp only [ofBytes, toBytes, ofNat, toNat, width, BigEndian.decode_encode, Nat.mod_eq_of_lt h,
    BitVec.ofNat_toNat, BitVec.setWidth_eq]

theorem toBytes_ofBytes {bs : Bytes} (h : bs.length = 16) : (ofBytes bs).toBytes = bs := by
  have hdec := BigEndian.encode_decode bs
  have hmod := BigEndian.decode_encode 16 (BigEndian.decode bs)
  rw [h] at hdec
  rw [hdec] at hmod
  have : Nat.pow 256 16 = 2 ^ 128 := by decide
  rw [this] at hmod
  simp only [toBytes, ofBytes, ofNat, toNat, width, BitVec.toNat_ofNat, ← hmod]
  exact hdec

/-! ### Text -/

/-- The lengths of the groups of digits. -/
def groups : List Nat := [8, 4, 4, 4, 12]

/-- Cut a text into groups, with a hyphen between two of them. -/
def hyphenate : List Nat → List Char → List Char
  | [], _ => []
  | [n], text => text.take n
  | n :: rest, text => text.take n ++ '-' :: hyphenate rest (text.drop n)

/-- The text of an id. -/
def text (id : SessionId) : String := String.ofList (hyphenate groups (Hex.digits id.toBytes))

/-- The id that a text names. -/
def ofText? (text : String) : Option SessionId := do
  let bs ← Hex.bytes? (text.toList.filter (· ≠ '-'))
  let id := ofBytes bs
  if id.text = text then some id else none

end SessionId

end Tether
