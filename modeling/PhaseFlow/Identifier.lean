import PhaseFlow.Text

/-!
# Random identifiers

An identifier of version 4 is made of sixteen random bytes, of which the upper half of
the seventh is set to 4 and the two upper bits of the ninth to 10. It is written in
lower-case hexadecimal, in groups of 8, 4, 4, 4 and 12 digits.
-/

namespace PhaseFlow

namespace Identifier

/-- The two digits of a byte. -/
def byteDigits (byte : UInt8) : List Char :=
  [Text.hexDigit (byte.toNat / 16), Text.hexDigit (byte.toNat % 16)]

/-- The byte at a position with the version or the variant put in. -/
def stamped (position : Nat) (byte : UInt8) : UInt8 :=
  if position = 6 then (byte &&& 0x0F) ||| 0x40
  else if position = 8 then (byte &&& 0x3F) ||| 0x80
  else byte

/-- Whether a group of digits starts at a byte position, the first group apart. -/
def startsGroup (position : Nat) : Bool :=
  position = 4 || position = 6 || position = 8 || position = 10

/-- The digits of the bytes from a position on. -/
def digitsFrom (position : Nat) : List UInt8 → List Char
  | [] => []
  | byte :: rest =>
      (if startsGroup position then ['-'] else []) ++ byteDigits (stamped position byte) ++
        digitsFrom (position + 1) rest

/-- The identifier made of random bytes, of which the first sixteen count. -/
def version4 (bytes : List UInt8) : String :=
  String.ofList (digitsFrom 0 (bytes.take 16))

/-- Whether a character is a hexadecimal digit in lower case. -/
def isHexDigit (c : Char) : Bool :=
  ('0' ≤ c && c ≤ '9') || ('a' ≤ c && c ≤ 'f')

/-- Whether a text has the shape of an identifier of version 4, whatever its variant. -/
def hasVersion4Shape (text : String) : Bool :=
  let groups := text.splitOn "-"
  groups.map String.length = [8, 4, 4, 4, 12] &&
    groups.all (fun group => group.all isHexDigit) &&
    (groups.getD 2 "").toList.head? = some '4'

/-- Whether the variant digit of an identifier is one of `8`, `9`, `a` and `b`. -/
def hasStandardVariant (text : String) : Bool :=
  match ((text.splitOn "-").getD 3 "").toList.head? with
  | some c => c = '8' || c = '9' || c = 'a' || c = 'b'
  | none => false

end Identifier

end PhaseFlow
