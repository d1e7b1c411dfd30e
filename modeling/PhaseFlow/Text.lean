/-!
# Rules of text

Conventions that several formats share: hexadecimal digits, decimal numbers, padding,
the cut at the first NUL character, joining with a separator, and the bytes of a text.

`Text.joinShown` puts the separator only after text that is not empty, so empty items at
the front leave no trace.
-/

namespace PhaseFlow

namespace Text

/-- The lower-case hexadecimal digit of a number below sixteen. -/
def hexDigit (n : Nat) : Char :=
  if n < 10 then Char.ofNat (48 + n) else Char.ofNat (87 + n)

/-- The decimal digits of a natural number. -/
def decimal (n : Nat) : List Char :=
  Nat.toDigits 10 n

/-- The decimal digits of an integer, with a minus sign if it is negative. -/
def signedDecimal (n : Int) : List Char :=
  if n < 0 then '-' :: decimal n.natAbs else decimal n.natAbs

/-- A natural number in decimal. -/
def ofNat (n : Nat) : String :=
  String.ofList (decimal n)

/-- A text filled up on the left to a given width. -/
def padLeft (width : Nat) (fill : Char) (text : List Char) : List Char :=
  List.replicate (width - text.length) fill ++ text

/-- The text before its first NUL character. -/
def beforeNul (text : String) : String :=
  String.ofList (text.toList.takeWhile fun c => c ≠ Char.ofNat 0)

/-- A text in single quotes. -/
def inQuotes (text : String) : String :=
  "'" ++ text ++ "'"

/-- The items with a separator between any two. -/
def join (separator : String) (items : List String) : String :=
  String.intercalate separator items

/-- The items one after another, each preceded by a separator unless nothing has been
written yet. -/
def joinShown (separator : String) (items : List String) : String :=
  items.foldl (fun text item => if text = "" then item else text ++ separator ++ item) ""

/-- The bytes of a text. -/
def utf8 (text : String) : List UInt8 :=
  text.toList.flatMap String.utf8EncodeChar

/-- The text that some bytes write, if they are valid. -/
def ofUtf8? (bytes : List UInt8) : Option String :=
  String.fromUTF8? (ByteArray.mk bytes.toArray)

end Text

end PhaseFlow
