import Tether.Bytes

/-!
# Hexadecimal text

Bytes written with two lower-case digits each. Reading accepts exactly what
writing produces.
-/

namespace Tether.Hex

/-- The digit of a number below sixteen. -/
def digit (n : Nat) : Char :=
  if n < 10 then Char.ofNat ('0'.toNat + n) else Char.ofNat ('a'.toNat + (n - 10))

/-- The number that a lower-case digit stands for. -/
def value? (c : Char) : Option Nat :=
  if '0' ≤ c ∧ c ≤ '9' then some (c.toNat - '0'.toNat)
  else if 'a' ≤ c ∧ c ≤ 'f' then some (c.toNat - 'a'.toNat + 10)
  else none

/-- The digits of some bytes. -/
def digits (bs : Bytes) : List Char :=
  bs.flatMap fun b => [digit (b.toNat / 16), digit (b.toNat % 16)]

/-- The bytes that some digits spell, two digits a byte. -/
def bytes? : List Char → Option Bytes
  | [] => some []
  | [_] => none
  | hi :: lo :: rest => do
    let h ← value? hi
    let l ← value? lo
    let bs ← bytes? rest
    return UInt8.ofNat (16 * h + l) :: bs

/-- The text of some bytes. -/
def encode (bs : Bytes) : String := String.ofList (digits bs)

/-- The bytes that a text spells. -/
def decode? (text : String) : Option Bytes := bytes? text.toList

end Tether.Hex
