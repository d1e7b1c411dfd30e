import PhaseFlow.Json.Value

/-!
# Reading fields of JSON values

Conversions accept one kind of value each, except that a number of either kind converts
to every number type: a fraction is dropped, and an integer outside the range of a
64-bit word is taken modulo `2 ^ 64`. A value of another kind, and a required field that
is absent, is an `AccessError`.
-/

namespace PhaseFlow

namespace Json

/-- Why a value could not be read as asked. -/
inductive AccessError where
  | wrongKind (expected : String) (found : String)
  | missingField (key : String)
  deriving DecidableEq

/-- The wording of a reading error. -/
def AccessError.message : AccessError → String
  | .wrongKind expected found => "[json] expected " ++ expected ++ " but found " ++ found
  | .missingField key => "[json] field '" ++ key ++ "' is missing"

/-- The wording used for a text that is not JSON. -/
def malformedText : String :=
  "[json] the text is not a JSON value"

/-- The wording of a number that is out of range. -/
def outOfRangeText : String :=
  "[json] number out of range"

/-- The name of a value's kind. -/
def kindName : Json → String
  | null => "null"
  | bool _ => "a boolean"
  | int _ => "an integer"
  | float _ => "a number"
  | str _ => "a string"
  | arr _ => "an array"
  | obj _ => "an object"

/-- The error of a value that is not of the expected kind. -/
def mismatch
    {α : Type}
    (expected : String)
    (value : Json) :
    Except AccessError α :=
  .error (.wrongKind expected value.kindName)

/-- A text. -/
def asText : Json → Except AccessError String
  | str s => .ok s
  | value => mismatch "a string" value

/-- A truth value. -/
def asBool : Json → Except AccessError Bool
  | bool b => .ok b
  | value => mismatch "a boolean" value

/-- A number without its fraction. -/
def asInt : Json → Except AccessError Int
  | int n => .ok n
  | float x => .ok x.truncate
  | value => mismatch "a number" value

/-- A number as an unsigned 64-bit word. -/
def asWord (value : Json) : Except AccessError UInt64 :=
  value.asInt.map UInt64.ofInt

/-- A number as a signed 64-bit word. -/
def asSignedWord (value : Json) : Except AccessError Int64 :=
  value.asInt.map Int64.ofInt

/-- The items of an array. -/
def asArray : Json → Except AccessError (List Json)
  | arr items => .ok items
  | value => mismatch "an array" value

/-- An array of texts. -/
def asTexts (value : Json) : Except AccessError (List String) := do
  (← value.asArray).mapM asText

/-- Any value, as it is. -/
def asAny (value : Json) : Except AccessError Json :=
  .ok value

/-- A required field of an object. -/
def field
    {α : Type}
    (value : Json)
    (key : String)
    (read : Json → Except AccessError α) :
    Except AccessError α :=
  match value with
  | obj fields =>
      match Entries.find? key fields with
      | some found => read found
      | none => .error (.missingField key)
  | other => mismatch "an object" other

/-- A field of an object, with a substitute for an absent one. -/
def fieldOr
    {α : Type}
    (value : Json)
    (key : String)
    (fallback : α)
    (read : Json → Except AccessError α) :
    Except AccessError α :=
  match value with
  | obj fields =>
      match Entries.find? key fields with
      | some found => read found
      | none => .ok fallback
  | other => mismatch "an object" other

end Json

end PhaseFlow
