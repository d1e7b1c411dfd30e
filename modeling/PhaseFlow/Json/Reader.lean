import PhaseFlow.Json.Value

/-!
# Reading JSON

A strict reader: no comments, no trailing commas, no raw control characters in texts,
surrogate escapes only in pairs. A byte order mark at the start is skipped, and of two
fields with one key the later one stays.

There are two ways not to be read (`ReadFault`): a text that is not JSON is malformed,
and a number that no binary64 number is close to is out of range. Whichever of the two
is met first ends the reading, so a text that is malformed behind such a number is out
of range.

`parse` reads a byte string. Whether a NUL character behind the value ends the text is
up to the library that reads it (`nulEnds`); without it, `read` and `readBytes` tell
only whether there is a value.

Each reader takes the characters that are left and returns what follows the part it has
read. The value readers carry a bound on the nesting, which `Json.read` takes from the
length of the text; a value never nests deeper than it is long.
-/

namespace PhaseFlow

namespace Json

/-- Space, tab, line feed and carriage return. -/
def isBlank (c : Char) : Bool :=
  c = ' ' || c = '\t' || c = '\n' || c = '\r'

/-- The text after its leading blanks. -/
def skipBlanks (s : List Char) : List Char :=
  s.dropWhile isBlank

/-- The value of a hexadecimal digit. -/
def hexValue? (c : Char) : Option Nat :=
  if '0' ≤ c ∧ c ≤ '9' then some (c.toNat - 48)
  else if 'a' ≤ c ∧ c ≤ 'f' then some (c.toNat - 87)
  else if 'A' ≤ c ∧ c ≤ 'F' then some (c.toNat - 55)
  else none

/-- The value of four hexadecimal digits. -/
def hexQuad? (a b c d : Char) : Option Nat := do
  some ((((← hexValue? a) * 16 + (← hexValue? b)) * 16 + (← hexValue? c)) * 16 +
      (← hexValue? d))

/-- Whether a code unit is the first of a surrogate pair. -/
def isHighSurrogate (n : Nat) : Bool :=
  0xD800 ≤ n && n < 0xDC00

/-- Whether a code unit is the second of a surrogate pair. -/
def isLowSurrogate (n : Nat) : Bool :=
  0xDC00 ≤ n && n < 0xE000

/-- The character of a one-letter escape. -/
def shortEscape? (c : Char) : Option Char :=
  if c = '"' then some '"'
  else if c = '\\' then some '\\'
  else if c = '/' then some '/'
  else if c = 'b' then some (Char.ofNat 8)
  else if c = 'f' then some (Char.ofNat 12)
  else if c = 'n' then some '\n'
  else if c = 'r' then some '\r'
  else if c = 't' then some '\t'
  else none

/-- The rest of a text after its opening quote: its characters, and what follows the
closing quote. -/
def readText : List Char → Option (List Char × List Char)
  | [] => none
  | '"' :: rest => some ([], rest)
  | '\\' :: 'u' :: a :: b :: c :: d :: rest =>
      match hexQuad? a b c d with
      | none => none
      | some unit =>
          if isHighSurrogate unit then
            match rest with
            | '\\' :: 'u' :: e :: f :: g :: h :: rest' =>
                match hexQuad? e f g h with
                | none => none
                | some second =>
                    if isLowSurrogate second then
                      (readText rest').map fun p =>
                        (Char.ofNat (0x10000 + (unit - 0xD800) * 0x400 +
                          (second - 0xDC00)) :: p.1,
                          p.2)
                    else none
            | _ => none
          else if isLowSurrogate unit then none
          else (readText rest).map fun p => (Char.ofNat unit :: p.1, p.2)
  | '\\' :: c :: rest =>
      match shortEscape? c with
      | none => none
      | some plain => (readText rest).map fun p => (plain :: p.1, p.2)
  | c :: rest =>
      if c.toNat < 32 || c = '\\' then none
      else (readText rest).map fun p => (c :: p.1, p.2)

/-- The value of a run of decimal digits. -/
def digitsValue (digits : List Char) : Nat :=
  digits.foldl (fun n c => n * 10 + (c.toNat - 48)) 0

/-- The digits at the front and what follows them. -/
def takeDigits (s : List Char) : List Char × List Char :=
  (s.takeWhile Char.isDigit, s.dropWhile Char.isDigit)

/-- The fraction of a number: its digits, if a point stands here. -/
def readFraction (s : List Char) : Option (Option (List Char) × List Char) :=
  match s with
  | '.' :: rest =>
      let (digits, rest) := takeDigits rest
      if digits.isEmpty then none else some (some digits, rest)
  | _ => some (none, s)

/-- The exponent of a number, if one stands here. -/
def readExponent (s : List Char) : Option (Option Int × List Char) :=
  match s with
  | e :: rest =>
      if e = 'e' || e = 'E' then
        let (negative, rest) :=
          match rest with
          | '-' :: rest => (true, rest)
          | '+' :: rest => (false, rest)
          | rest => (false, rest)
        let (digits, rest) := takeDigits rest
        if digits.isEmpty then none
        else
          let value : Int := digitsValue digits
          some (some (if negative then -value else value), rest)
      else some (none, s)
  | [] => some (none, s)

/-- Why a text is not read. -/
inductive ReadFault where
  | malformed
  | outOfRange
  deriving DecidableEq

/-- A part that has to be there. -/
def required {α : Type} : Option α → Except ReadFault α
  | some part => .ok part
  | none => .error .malformed

/-- The number with given parts: an integer if it has neither fraction nor exponent and
fits a 64-bit word. -/
def numberOf
    (negative : Bool)
    (whole : List Char)
    (fraction : Option (List Char))
    (exponent : Option Int) :
    Except ReadFault Json :=
  let plain := fraction.isNone && exponent.isNone
  let value : Int := if negative then -(digitsValue whole : Int) else digitsValue whole
  let signedBound : Int := Nat.pow 2 63
  let wordBound : Int := Nat.pow 2 64
  if plain && decide (-signedBound ≤ value) && decide (value < wordBound) then .ok
    (int value)
  else
    let places := fraction.getD []
    match Binary64.ofDecimal negative (digitsValue (whole ++ places))
        (exponent.getD 0 - places.length) with
    | some number => .ok (float number)
    | none => .error .outOfRange

/-- Whether a minus sign stands at the front, and what follows it. -/
def takeMinus : List Char → Bool × List Char
  | '-' :: rest => (true, rest)
  | s => (false, s)

/-- A number and what follows it. -/
def readNumber (s : List Char) : Except ReadFault (Json × List Char) :=
  let (negative, s) := takeMinus s
  let (whole, rest) := takeDigits s
  match whole with
  | [] => .error .malformed
  | '0' :: _ :: _ => .error .malformed
  | whole => do
      let (fraction, rest) ← required (readFraction rest)
      let (exponent, rest) ← required (readExponent rest)
      let value ← numberOf negative whole fraction exponent
      .ok (value, rest)

mutual
/-- A value and what follows it. -/
def readValue : Nat → List Char → Except ReadFault (Json × List Char)
  | 0, _ => .error .malformed
  | depth + 1, s =>
      match s with
      | 'n' :: 'u' :: 'l' :: 'l' :: rest => .ok (null, rest)
      | 't' :: 'r' :: 'u' :: 'e' :: rest => .ok (bool true, rest)
      | 'f' :: 'a' :: 'l' :: 's' :: 'e' :: rest => .ok (bool false, rest)
      | '"' :: rest =>
          (required (readText rest)).map fun p => (str (String.ofList p.1), p.2)
      | '[' :: rest =>
          match skipBlanks rest with
          | ']' :: rest => .ok (arr [], rest)
          | rest => (readItems depth rest).map fun p => (arr p.1, p.2)
      | '{' :: rest =>
          match skipBlanks rest with
          | '}' :: rest => .ok (obj [], rest)
          | rest => (readFields depth rest).map fun p => (object p.1, p.2)
      | s => readNumber s

/-- The items of an array up to its closing bracket. -/
def readItems : Nat → List Char → Except ReadFault (List Json × List Char)
  | 0, _ => .error .malformed
  | depth + 1, s =>
      match readValue depth s with
      | .error fault => .error fault
      | .ok (item, rest) =>
          match skipBlanks rest with
          | ']' :: rest => .ok ([item], rest)
          | ',' :: rest =>
              (readItems depth (skipBlanks rest)).map fun p => (item :: p.1, p.2)
          | _ => .error .malformed

/-- The fields of an object up to its closing brace. -/
def readFields :
    Nat → List Char → Except ReadFault (List (String × Json) × List Char)
  | 0, _ => .error .malformed
  | depth + 1, s =>
      match s with
      | '"' :: rest =>
          match readText rest with
          | none => .error .malformed
          | some (key, rest) =>
              match skipBlanks rest with
              | ':' :: rest =>
                  match readValue depth (skipBlanks rest) with
                  | .error fault => .error fault
                  | .ok (value, rest) =>
                      match skipBlanks rest with
                      | '}' :: rest => .ok ([(String.ofList key, value)], rest)
                      | ',' :: rest =>
                          (readFields depth (skipBlanks rest)).map fun p =>
                            ((String.ofList key, value) :: p.1, p.2)
                      | _ => .error .malformed
              | _ => .error .malformed
      | _ => .error .malformed
end

/-- The characters after a byte order mark. -/
def skipMark : List Char → List Char
  | c :: rest => if c.toNat = 0xFEFF then rest else c :: rest
  | [] => []

/-- The value that a list of characters writes, `ends` telling what may follow it. -/
def parseChars
    (ends : List Char → Bool)
    (s : List Char) :
    Except ReadFault Json :=
  match readValue (s.length + 1) (skipBlanks (skipMark s)) with
  | .error fault => .error fault
  | .ok (value, rest) => if ends (skipBlanks rest) then .ok value else .error .malformed

/-- A NUL character stands here. -/
def startsWithNul (s : List Char) : Bool :=
  s.head? = some (Char.ofNat 0)

/-- The longest start of a byte string that is UTF-8. -/
def readableStart (bytes : ByteArray) : List Char :=
  ((List.range (bytes.size + 1)).reverse.findSome? fun size =>
    (String.fromUTF8? (bytes.extract 0 size)).map String.toList).getD []

/-- **The value that a byte string writes**, or why it is not read. What follows the
value may be blanks and the end of the text, and with `nulEnds` a NUL character, which
stands for the end. -/
def parse (nulEnds : Bool) (bytes : ByteArray) : Except ReadFault Json :=
  match String.fromUTF8? bytes with
  | some text =>
      parseChars (fun rest => rest.isEmpty || nulEnds && startsWithNul rest)
        text.toList
  | none => parseChars (fun rest => nulEnds && startsWithNul rest) (readableStart bytes)

/-! ## Texts that are read to their end -/

/-- The value that a list of characters writes, blanks around it allowed. -/
def readChars (s : List Char) : Option Json :=
  (parseChars List.isEmpty s).toOption

/-- The value that a text writes; none when the text is not JSON. -/
def read (text : String) : Option Json :=
  readChars text.toList

/-- The value that a byte string writes; bytes that are not UTF-8 write none. -/
def readBytes (bytes : ByteArray) : Option Json :=
  (parse false bytes).toOption

theorem parse_toUTF8
    (nulEnds : Bool)
    (text : String) :
    parse nulEnds text.toUTF8 =
      parseChars (fun rest => rest.isEmpty || nulEnds && startsWithNul rest)
        text.toList := by
  have htext : String.fromUTF8? text.toUTF8 = some text := dif_pos text.isValidUTF8
  rw [parse, htext]

/-- Bytes that end only where they are UTF-8 are read as the text that they are. -/
theorem readBytes_eq
    (bytes : ByteArray) :
    readBytes bytes = (String.fromUTF8? bytes).bind read := by
  unfold readBytes parse
  cases String.fromUTF8? bytes with
  | some text => simp [read, readChars]
  | none =>
      unfold parseChars
      cases readValue _ _ <;> rfl

theorem readBytes_toUTF8 (text : String) : readBytes text.toUTF8 = read text := by
  have htext : String.fromUTF8? text.toUTF8 = some text := dif_pos text.isValidUTF8
  rw [readBytes_eq, htext, Option.bind_some]

end Json

end PhaseFlow
