import PhaseFlow.Json.Value
import PhaseFlow.Text

/-!
# Variable references in texts

A reference is a dollar sign followed by a name, or by a name in braces. Names are made
of ASCII letters, digits and underscores. The bytes of a text are edited in place: from
left to right, each reference is overwritten with the value of its variable, and the
search goes on behind the value. A variable without a value stands for the empty text,
and a dollar sign that starts no reference stays.
-/

namespace PhaseFlow

/-- The values of variables. -/
abbrev Environment :=
  KeyMap String

namespace Environment

/-! ## References -/

/-- Whether a byte may stand in a name: a digit, a letter or the underscore. -/
def isNameByte (byte : UInt8) : Bool :=
  (48 ≤ byte && byte ≤ 57) || (65 ≤ byte && byte ≤ 90) || byte = 95 ||
    (97 ≤ byte && byte ≤ 122)

/-- The reference that follows a dollar sign: its name, and how many bytes it takes
up. -/
def reference? (s : List UInt8) : Option (List UInt8 × Nat) :=
  if s.head? = some 123 then
    let name := s.tail.takeWhile isNameByte
    if name ≠ [] ∧ s[name.length + 1]? = some 125 then some (name, name.length + 2) else none
  else
    let name := s.takeWhile isNameByte
    if name ≠ [] then some (name, name.length) else none

/-- The place of the first dollar sign from a given place on. -/
def nextDollar? (text : List UInt8) (pos : Nat) : Option Nat :=
  ((text.drop pos).findIdx? (· = 36)).map (pos + ·)

theorem bounds_of_nextDollar?
    {text : List UInt8} {pos start : Nat}
    (h : nextDollar? text pos = some start) :
    pos ≤ start ∧ start < text.length := by
  obtain ⟨index, hindex, rfl⟩ := Option.map_eq_some_iff.1 h
  obtain ⟨hlt, -⟩ := List.findIdx?_eq_some_iff_getElem.1 hindex
  rw [List.length_drop] at hlt
  omega

/-! ## Replacement -/

/-- A text whose references are replaced from a given place on. What stands before this
place, the values of earlier references included, is not looked at again. -/
def replaceFrom
    (lookUp : List UInt8 → Option (List UInt8))
    (text : List UInt8)
    (pos : Nat) :
    List UInt8 :=
  match _hdollar : nextDollar? text pos with
  | none => text
  | some start =>
      match reference? (text.drop (start + 1)) with
      | none => replaceFrom lookUp text (start + 1)
      | some (name, width) =>
          let value := (lookUp name).getD []
          replaceFrom lookUp (text.take start ++ value ++ text.drop (start + 1 + width))
            (start + value.length)
termination_by text.length - pos
decreasing_by
  · have := bounds_of_nextDollar? _hdollar
    omega
  · have := bounds_of_nextDollar? _hdollar
    simp only [List.length_append, List.length_take, List.length_drop]
    omega

/-- **A text with its references replaced**, as bytes. -/
def replaceReferences
    (lookUp : List UInt8 → Option (List UInt8))
    (text : List UInt8) :
    List UInt8 :=
  replaceFrom lookUp text 0

/-- The text of a name, which is ASCII. -/
def nameText (name : List UInt8) : String :=
  String.ofList (name.map Char.ofUInt8)

/-- The value of a variable, as bytes. -/
def lookUp
    (environment : Environment)
    (name : List UInt8) :
    Option (List UInt8) :=
  (environment.get? (nameText name)).map Text.utf8

/-- A text with its references replaced. -/
def expand (environment : Environment) (text : String) : String :=
  (Text.ofUtf8? (replaceReferences environment.lookUp (Text.utf8 text))).getD ""

mutual
/-- A JSON value with the references in all its texts replaced; keys are kept. -/
def expandJson (environment : Environment) : Json → Json
  | .str text => .str (environment.expand text)
  | .arr items => .arr (expandItems environment items)
  | .obj fields => .obj (expandFields environment fields)
  | other => other

/-- The items of an array with their references replaced. -/
def expandItems (environment : Environment) : List Json → List Json
  | [] => []
  | item :: rest => expandJson environment item :: expandItems environment rest

/-- The fields of an object with the references in their values replaced. -/
def expandFields
    (environment : Environment) :
    List (String × Json) → List (String × Json)
  | [] => []
  | (key, value) :: rest =>
      (key, expandJson environment value) :: expandFields environment rest
end

/-! ## The variables that a value mentions -/

/-- The names of the references in a text. -/
def namesIn (s : List UInt8) : List String :=
  match s with
  | [] => []
  | byte :: rest =>
      if byte = 36 then
        match reference? rest with
        | some (name, _) => nameText name :: namesIn rest
        | none => namesIn rest
      else namesIn rest

mutual
/-- The names of the references in the texts of a JSON value. -/
def mentioned : Json → List String
  | .str text => namesIn (Text.utf8 text)
  | .arr items => mentionedInItems items
  | .obj fields => mentionedInFields fields
  | _ => []

/-- The names of the references in the items of an array. -/
def mentionedInItems : List Json → List String
  | [] => []
  | item :: rest => mentioned item ++ mentionedInItems rest

/-- The names of the references in the values of fields. -/
def mentionedInFields : List (String × Json) → List String
  | [] => []
  | (_, value) :: rest => mentioned value ++ mentionedInFields rest
end

end Environment

end PhaseFlow
