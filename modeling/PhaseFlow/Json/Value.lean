import PhaseFlow.KeyMap
import PhaseFlow.Number.Binary64

/-!
# JSON values

A number written without fraction and exponent is an integer when it fits 64 bits
(signed or unsigned); any other number is a binary64 number. An object is the list of
its fields in ascending key order, so that two objects with the same fields are the same
value.

`Json.object` builds an object from fields in any order; `Json.IsCanonical` says that
every object inside a value is in order and that its numbers are what a word or a
binary64 number can be.
-/

namespace PhaseFlow

/-- A JSON value. A number with a fraction or an exponent, or too large for an integer,
is a binary64 number. The fields of an object ascend by key. -/
inductive Json where
  | null
  | bool (value : Bool)
  | int (value : Int)
  | float (value : Binary64)
  | str (value : String)
  | arr (items : List Json)
  | obj (fields : List (String × Json))

namespace Json

instance : Inhabited Json :=
  ⟨null⟩

/-- The object with given fields; of two fields with one key the later one stays. -/
def object (fields : List (String × Json)) : Json :=
  obj (fields.foldl (fun entries field => Entries.insert field.1 field.2 entries) [])

/-- The object without fields. -/
def emptyObject : Json :=
  obj []

/-- The array of a list of texts. -/
def texts (items : List String) : Json :=
  arr (items.map str)

/-- The object that holds the entries of a map. -/
def ofMap {α : Type} (map : KeyMap α) (value : α → Json) : Json :=
  obj (map.entries.map fun entry => (entry.1, value entry.2))

/-- Whether a value is null. -/
def isNull : Json → Bool
  | null => true
  | _ => false

theorem isNull_iff {value : Json} : value.isNull = true ↔ value = null := by
  cases value <;> simp [isNull]

/-- Whether a value is an object. -/
def isObject : Json → Bool
  | obj _ => true
  | _ => false

/-- Whether a value is a given text. -/
def isText (value : Json) (text : String) : Bool :=
  match value with
  | str s => s = text
  | _ => false

/-- The value of a field; a value that is no object has no fields. -/
def field? (value : Json) (key : String) : Option Json :=
  match value with
  | obj fields => Entries.find? key fields
  | _ => none

/-- Whether a value is an object with a given field. -/
def hasField (value : Json) (key : String) : Bool :=
  (value.field? key).isSome

/-- What a walk over a value visits: the items of an array, the field values of an
object, nothing of null, and any other value itself. -/
def elements : Json → List Json
  | null => []
  | arr items => items
  | obj fields => fields.map Prod.snd
  | other => [other]

/-- An integer that is signed or unsigned in 64 bits. -/
def FitsWord (n : Int) : Prop :=
  -0x8000000000000000 ≤ n ∧ n < 0x10000000000000000

mutual
/-- Every object inside the value has its keys in strictly ascending order, and every
number inside it is in range. -/
def IsCanonical : Json → Prop
  | int n => FitsWord n
  | float x => x.IsNormal
  | arr items => AllCanonical items
  | obj fields => Entries.Ascending fields ∧ FieldsCanonical fields
  | _ => True

/-- Every value of a list is canonical. -/
def AllCanonical : List Json → Prop
  | [] => True
  | item :: rest => item.IsCanonical ∧ AllCanonical rest

/-- Every field value of a list of fields is canonical. -/
def FieldsCanonical : List (String × Json) → Prop
  | [] => True
  | (_, value) :: rest => value.IsCanonical ∧ FieldsCanonical rest
end

end Json

end PhaseFlow
