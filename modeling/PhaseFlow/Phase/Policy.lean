import PhaseFlow.Error
import PhaseFlow.Json.Reader

/-!
# Retry settings

A phase is attempted a limited number of times, with a fixed delay between two attempts
and optionally a time limit for each. The configuration of a node overrides the defaults
setting by setting; a setting is a number that is not negative, or a text that denotes
one.

`RetryPolicy.ofConfig` reads the settings. `naturalOfText?` is the grammar of the texts.
-/

namespace PhaseFlow

/-- How often a phase is attempted at most, the milliseconds between two attempts, and
the milliseconds allowed for one, of which zero is no limit. -/
structure RetryPolicy where
  retries : Nat := 3
  delay : Nat := 1000
  timeout : Nat := 0
  deriving DecidableEq

instance : Inhabited RetryPolicy :=
  ⟨{}⟩

/-- The blank characters that may stand before a number: space, tab, line feed, vertical
tab, form feed and carriage return. -/
def isSpace (c : Char) : Bool :=
  c = ' ' || (9 ≤ c.toNat && c.toNat ≤ 13)

/-- The sign in front of a number and what follows it. -/
def splitSign : List Char → Bool × List Char
  | '-' :: rest => (true, rest)
  | '+' :: rest => (false, rest)
  | rest => (false, rest)

/-- The natural number below `2 ^ 63` that a text denotes: leading blanks, an optional
sign and decimal digits to the end. -/
def naturalOfText? (text : String) : Option Nat :=
  let (negative, digits) := splitSign (text.toList.dropWhile isSpace)
  if digits.isEmpty || !digits.all Char.isDigit then none
  else
    let value := Json.digitsValue digits
    if value < Nat.pow 2 63 && (!negative || value = 0) then some value else none

namespace RetryPolicy

/-- The setting under a key. -/
def setting
    (config : Json)
    (key : String)
    (fallback : Nat) :
    Except ConfigurationFault Nat :=
  match config.field? key with
  | none => .ok fallback
  | some .null => .ok fallback
  | some (.int n) => if n < 0 then .error (.negativeSetting key) else .ok n.toNat
  | some (.float x) =>
      if x.isBelowZero then .error (.negativeSetting key) else .ok x.truncate.toNat
  | some (.str text) =>
      match naturalOfText? text with
      | some n => .ok n
      | none => .error (.settingText key text)
  | some _ => .error (.settingNotNumber key)

/-- The settings of a configuration, over defaults. A configuration that is no object
changes nothing; one that is an object asks for one attempt at least. -/
def ofConfig
    (config : Json)
    (defaults : RetryPolicy) :
    Except ConfigurationFault RetryPolicy :=
  if config.isObject then do
    let retries ← setting config "retries" defaults.retries
    let delay ← setting config "restart_delay" defaults.delay
    let timeout ← setting config "timeout" defaults.timeout
    .ok ⟨max retries 1, delay, timeout⟩
  else .ok defaults

end RetryPolicy

end PhaseFlow
