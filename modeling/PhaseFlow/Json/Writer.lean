import PhaseFlow.Json.Value
import PhaseFlow.Number.Shortest
import PhaseFlow.Text

/-!
# Writing JSON

Two layouts: compact, without any space, and indented, with one element a line and `":
"` after a key. Empty containers are written closed in both. A text escapes the quote,
the backslash and the control characters below the space; every other character stands
for itself.

A binary64 number is written with the fewest digits that read back: positional while the
decimal point stands among or after at most fifteen digits or at most three zeros follow
it, in exponent form otherwise, and always recognisable as no integer.
-/

namespace PhaseFlow

namespace Json

/-- How one character stands inside a quoted text. -/
def escapeChar (c : Char) : List Char :=
  if c = '"' then ['\\', '"']
  else if c = '\\' then ['\\', '\\']
  else if c = Char.ofNat 8 then ['\\', 'b']
  else if c = Char.ofNat 12 then ['\\', 'f']
  else if c = '\n' then ['\\', 'n']
  else if c = '\r' then ['\\', 'r']
  else if c = '\t' then ['\\', 't']
  else if c.toNat < 32 then
    ['\\', 'u', '0', '0', Text.hexDigit (c.toNat / 16), Text.hexDigit (c.toNat % 16)]
  else [c]

/-- A text in quotes. -/
def quoted (s : String) : List Char :=
  '"' :: s.toList.flatMap escapeChar ++ ['"']

/-- The digits of an exponent, at least two. -/
def exponentDigits (n : Nat) : List Char :=
  Text.padLeft 2 '0' (Text.decimal n)

/-- The magnitude of a binary64 number that is not zero. -/
def magnitudeText (x : Binary64) : List Char :=
  let found := x.shortest
  let digits := Text.decimal found.digits
  let count : Int := digits.length
  let point := found.point
  if count ≤ point ∧ point ≤ 15 then
    digits ++ List.replicate (point - count).toNat '0' ++ ['.', '0']
  else if 0 < point ∧ point ≤ 15 then
    digits.take point.toNat ++ '.' :: digits.drop point.toNat
  else if -4 < point ∧ point ≤ 0 then
    '0' :: '.' :: List.replicate (-point).toNat '0' ++ digits
  else
    let exponent := point - 1
    let head := digits.take 1
    let tail := digits.drop 1
    let fraction := if tail.isEmpty then [] else '.' :: tail
    let sign := if exponent < 0 then '-' else '+'
    head ++ fraction ++ 'e' :: sign :: exponentDigits exponent.natAbs

/-- A binary64 number. -/
def floatText (x : Binary64) : List Char :=
  let body := if x.mantissa = 0 then ['0', '.', '0'] else magnitudeText x
  if x.negative then '-' :: body else body

mutual
/-- The compact text of a value. -/
def compactChars : Json → List Char
  | null => ['n', 'u', 'l', 'l']
  | bool true => ['t', 'r', 'u', 'e']
  | bool false => ['f', 'a', 'l', 's', 'e']
  | int n => Text.signedDecimal n
  | float x => floatText x
  | str s => quoted s
  | arr items => '[' :: compactItems items ++ [']']
  | obj fields => '{' :: compactFields fields ++ ['}']

/-- The items of an array, separated by commas. -/
def compactItems : List Json → List Char
  | [] => []
  | [item] => item.compactChars
  | item :: rest => item.compactChars ++ ',' :: compactItems rest

/-- The fields of an object, separated by commas. -/
def compactFields : List (String × Json) → List Char
  | [] => []
  | [(key, value)] => quoted key ++ ':' :: value.compactChars
  | (key, value) :: rest =>
      quoted key ++ ':' :: value.compactChars ++ ',' :: compactFields rest
end

/-- The start of a line at a given depth. -/
def newline (step depth : Nat) : List Char :=
  '\n' :: List.replicate (step * depth) ' '

mutual
/-- The indented text of a value that stands at a given depth. -/
def indentedChars (step : Nat) (depth : Nat) : Json → List Char
  | arr [] => ['[', ']']
  | arr items =>
      '[' :: newline step (depth + 1) ++ indentedItems step (depth + 1) items ++
        newline step depth ++ [']']
  | obj [] => ['{', '}']
  | obj fields =>
      '{' :: newline step (depth + 1) ++ indentedFields step (depth + 1) fields ++
        newline step depth ++ ['}']
  | null => ['n', 'u', 'l', 'l']
  | bool true => ['t', 'r', 'u', 'e']
  | bool false => ['f', 'a', 'l', 's', 'e']
  | int n => Text.signedDecimal n
  | float x => floatText x
  | str s => quoted s

/-- The items of an array, one a line. -/
def indentedItems (step : Nat) (depth : Nat) : List Json → List Char
  | [] => []
  | [item] => indentedChars step depth item
  | item :: rest =>
      indentedChars step depth item ++ ',' :: newline step depth ++ indentedItems step
        depth rest

/-- The fields of an object, one a line. -/
def indentedFields (step : Nat) (depth : Nat) : List (String × Json) → List Char
  | [] => []
  | [(key, value)] => quoted key ++ ':' :: ' ' :: indentedChars step depth value
  | (key, value) :: rest =>
      quoted key ++ ':' :: ' ' :: indentedChars step depth value ++ ',' :: newline
        step depth ++
        indentedFields step depth rest
end

/-- The compact text of a value. -/
def compact (value : Json) : String :=
  String.ofList value.compactChars

/-- The text of a value with elements on lines of their own, each level indented by
`step` spaces. -/
def indented (value : Json) (step : Nat) : String :=
  String.ofList (indentedChars step 0 value)

/-- The text of a value: compact for a negative indentation, indented otherwise. -/
def text (value : Json) (indentation : Int) : String :=
  if indentation < 0 then value.compact else value.indented indentation.toNat

/-- The number of bytes of the compact text. -/
def byteSize (value : Json) : Nat :=
  value.compact.utf8ByteSize

/-! ## Values that are not written -/

/-- What the JSON library objects to when it is to write a value, in its own words; a
value without an objection has the texts above. The library objects to texts that are
not UTF-8. -/
structure Writer where
  objection : Json → Option String := fun _ => none

instance : Inhabited Writer :=
  ⟨{}⟩

/-- The library writes the value. -/
def Writer.Writes (writer : Writer) (value : Json) : Prop :=
  writer.objection value = none

end Json

end PhaseFlow
