/-!
# Severities

The four severities of the log, from the finest to the gravest.
-/

namespace PhaseFlow

namespace Log

/-- A severity. -/
inductive Level where
  | debug
  | info
  | warn
  | error
  deriving DecidableEq

namespace Level

instance : Inhabited Level :=
  ⟨info⟩

/-- The place of a severity in the ascending order. -/
def rank : Level → Nat
  | debug => 0
  | info => 1
  | warn => 2
  | error => 3

/-- Whether one severity is below another. -/
def isBelow (a b : Level) : Bool :=
  a.rank < b.rank

/-- The name of a severity. -/
def name : Level → String
  | debug => "DEBUG"
  | info => "INFO"
  | warn => "WARN"
  | error => "ERROR"

/-- The severity of a name. -/
def ofName? (name : String) : Option Level :=
  if name = "DEBUG" then some debug
  else if name = "INFO" then some info
  else if name = "WARN" then some warn
  else if name = "ERROR" then some error
  else none

/-- The severity of a name; an unknown name stands for the course of a run. -/
def ofName (name : String) : Level :=
  (ofName? name).getD info

@[simp] theorem ofName?_name
    (level : Level) :
    ofName? level.name = some level := by
  cases level <;> decide

end Level

end Log

end PhaseFlow
