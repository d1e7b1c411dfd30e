import PhaseFlow.Log.Event

/-!
# Log lines

An event is written as one JSON object whose values are texts, or as a plain line. The
JSON object holds the fields of the event together with `timestamp`, `level` and
`message`, which replace fields of these names. The plain line shows the time, the
severity, the message and then the fields in braces.

`Config` says which events are written and how; `Config.line` writes one.
-/

namespace PhaseFlow

namespace Log

/-! ## Objects with text values -/

/-- The bytes of an ASCII text. -/
def ascii (chars : List Char) : List UInt8 :=
  chars.map fun c => UInt8.ofNat c.toNat

/-- How one byte stands inside a quoted text: the quote, the backslash and the control
characters are escaped. -/
def escapeByte (byte : UInt8) : List UInt8 :=
  if byte = 34 then ascii ['\\', '"']
  else if byte = 92 then ascii ['\\', '\\']
  else if byte = 10 then ascii ['\\', 'n']
  else if byte = 13 then ascii ['\\', 'r']
  else if byte = 9 then ascii ['\\', 't']
  else if byte < 32 then
    ascii ['\\', 'u', '0', '0', Text.hexDigit (byte.toNat / 16),
      Text.hexDigit (byte.toNat % 16)]
  else [byte]

/-- A byte string in quotes. -/
def quoted (bytes : List UInt8) : List UInt8 :=
  34 :: bytes.flatMap escapeByte ++ [34]

/-- The bytes between the items of a list, set between any two. -/
def separated (separator : List UInt8) : List (List UInt8) → List UInt8
  | [] => []
  | [item] => item
  | item :: rest => item ++ separator ++ separated separator rest

/-- One field of a JSON object. -/
def jsonField (entry : String × List UInt8) : List UInt8 :=
  quoted (Text.utf8 entry.1) ++ 58 :: quoted entry.2

/-- The fields as a JSON object. -/
def jsonObject (fields : Fields) : List UInt8 :=
  123 :: separated [44] (fields.entries.map jsonField) ++ [125]

/-! ## Lines -/

/-- The JSON line of an event. -/
def jsonLine
    (timestamp : String)
    (level : Level)
    (message : String)
    (fields : Fields) :
    List UInt8 :=
  jsonObject (((fields.insert "timestamp" (Text.utf8 timestamp)).insert "level"
    (Text.utf8 level.name)).insert "message" (Text.utf8 message))

/-- One field of a plain line. -/
def plainField (entry : String × List UInt8) : List UInt8 :=
  Text.utf8 entry.1 ++ 61 :: entry.2

/-- The plain line of an event. -/
def plainLine
    (timestamp : String)
    (level : Level)
    (message : String)
    (fields : Fields) :
    List UInt8 :=
  Text.utf8 (timestamp ++ " [" ++ level.name ++ "] " ++ message) ++
    if fields.entries.isEmpty then []
    else ascii [' ', '{'] ++ separated (ascii [',', ' '])
      (fields.entries.map plainField) ++ [125]

/-- What is written, and where to. Lines below the least severity are left out, and a
preview has `previewLimit` bytes at most. -/
structure Config where
  minLevel : Level := .info
  console : Bool := true
  toFile : Bool := false
  path : String := "phasegraph.log"
  json : Bool := true
  previews : Bool := false
  previewLimit : Nat := 512

namespace Config

/-- Whether an event is written. Previews need to be switched on and the finest
severity. -/
def admits (config : Config) (event : Event) : Bool :=
  match event with
  | .preview .. => config.previews && config.minLevel = .debug
  | event => !event.level.isBelow config.minLevel

/-- The line of an event. -/
def line (config : Config) (timestamp : String) (event : Event) : List UInt8 :=
  let fields := event.fields config.previewLimit
  if config.json then jsonLine timestamp event.level event.message fields
  else plainLine timestamp event.level event.message fields

/-- The lines of a list of events. -/
def lines
    (config : Config)
    (timestamp : String)
    (events : List Event) :
    List (List UInt8) :=
  (events.filter config.admits).map (config.line timestamp)

end Config

end Log

end PhaseFlow
