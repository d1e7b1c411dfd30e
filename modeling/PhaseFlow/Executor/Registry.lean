import PhaseFlow.Executor.Capability
import PhaseFlow.KeyMap

/-!
# Executors by name

A registry maps names to functions. The identity needs no function: its entry only makes
the name known, and it is resolved before the functions are looked at. Every other entry
has a function, so resolving a known name cannot fail; the table of the functions
carries this in its type. Names are bound once: a second registration is refused.
-/

namespace PhaseFlow

/-- The functions that are known by name. An entry that is none stands for a name that
is known without a function, which is the identity and nothing else. -/
structure FunctionTable where
  entries : KeyMap (Option Executor)
  get?_eq_some_none_iff : ∀ name,
    entries.get? name = some none ↔ name = Capability.passThroughName

namespace FunctionTable

/-- The table that knows the identity only. -/
def identity : FunctionTable where
  entries := KeyMap.empty.insert Capability.passThroughName none
  get?_eq_some_none_iff name := by
    rw [KeyMap.get?_insert]
    by_cases hname : name = Capability.passThroughName
    · simp [hname]
    · simp [hname, Ne.symm hname]

/-- The table with a function under a name, which is not the identity's. -/
def bind
    (table : FunctionTable)
    (name : String)
    (hname : name ≠ Capability.passThroughName)
    (executor : Executor) :
    FunctionTable where
  entries := table.entries.insert name (some executor)
  get?_eq_some_none_iff other := by
    rw [KeyMap.get?_insert]
    by_cases hother : name = other
    · subst hother
      simp [hname]
    · rw [if_neg hother, table.get?_eq_some_none_iff]

/-- The table with a function under any name; the identity is never given one. -/
def insert
    (table : FunctionTable)
    (name : String)
    (executor : Executor) :
    FunctionTable :=
  if hname : name = Capability.passThroughName then table else table.bind name hname executor

/-- What is known under another name than the identity has a function. -/
theorem get?_of_ne
    (table : FunctionTable)
    {name : String}
    (hne : name ≠ Capability.passThroughName) :
    table.entries.get? name = none ∨
    ∃ executor, table.entries.get? name = some (some executor) := by
  cases hfound : table.entries.get? name with
  | none => exact .inl rfl
  | some function =>
      cases function with
      | none => exact absurd ((table.get?_eq_some_none_iff name).1 hfound) hne
      | some executor => exact .inr ⟨executor, rfl⟩

end FunctionTable

/-- The executors that are known by name. -/
structure Registry where
  functions : FunctionTable

namespace Registry

/-- The name of the executor that returns the configured value. -/
def constantName : String :=
  "constant"

/-- The executor that returns the configured value. -/
def constant : Executor := fun _ config context =>
  match config.field? "value" with
  | some value => Reply.value value
  | none => Reply.failure (.error (.configuration (.constantWithoutValue context.nodeId)))

/-- The registry that knows the built-in executors only. -/
def builtin : Registry :=
  ⟨FunctionTable.identity.insert constantName constant⟩

instance : Inhabited Registry :=
  ⟨builtin⟩

/-- Whether a name is known. -/
def isRegistered (registry : Registry) (name : String) : Bool :=
  registry.functions.entries.contains name

theorem isRegistered_eq
    (registry : Registry)
    (name : String) :
    registry.isRegistered name = (registry.functions.entries.get? name).isSome :=
  rfl

/-- The identity is always known. -/
@[simp] theorem isRegistered_passThroughName
    (registry : Registry) :
    registry.isRegistered Capability.passThroughName = true := by
  rw [isRegistered_eq, (registry.functions.get?_eq_some_none_iff _).2 rfl]
  rfl

theorem ne_passThroughName
    {registry : Registry} {name : String}
    (h : ¬ registry.isRegistered name = true) :
    name ≠ Capability.passThroughName := by
  rintro rfl
  exact h registry.isRegistered_passThroughName

/-- The known names, ascending. -/
def names (registry : Registry) : List String :=
  registry.functions.entries.keys

/-- The registry with one more executor. -/
def register
    (registry : Registry)
    (name : String)
    (executor : Option Executor) :
    Result Registry :=
  if name = "" then refuse .executorWithoutName
  else
    match executor with
    | none => refuse (.registrationWithoutFunction name)
    | some executor =>
        if h : registry.isRegistered name = true then refuse (.executorTaken name)
        else .ok ⟨registry.functions.bind name (ne_passThroughName h) executor⟩

/-- The capability of a name; the empty name is the identity. -/
def resolve
    (registry : Registry)
    (name : String) :
    Except ConfigurationFault Capability :=
  if name = "" ∨ name = Capability.passThroughName then .ok .passThrough
  else
    match registry.functions.entries.get? name with
    | some function => Capability.forFunction name function
    | none => .error (.unknownExecutor name registry.names)

theorem resolve_of_identity
    (registry : Registry)
    {name : String}
    (h : name = "" ∨ name = Capability.passThroughName) :
    registry.resolve name = .ok .passThrough :=
  if_pos h

/-- A name other than the identity is resolved to its function, or it is not known. -/
theorem resolve_of_other
    (registry : Registry)
    {name : String}
    (h : ¬ (name = "" ∨ name = Capability.passThroughName)) :
    (registry.functions.entries.get? name = none ∧
      registry.resolve name = .error (.unknownExecutor name registry.names)) ∨
    ∃ executor,
      registry.functions.entries.get? name = some (some executor) ∧
      registry.resolve name = .ok (.custom name executor) := by
  unfold resolve
  rw [if_neg h]
  rcases registry.functions.get?_of_ne (not_or.1 h).2 with hnone | ⟨executor, hfound⟩
  · exact .inl ⟨hnone, by rw [hnone]⟩
  · exact .inr ⟨executor, hfound, by rw [hfound]; rfl⟩

end Registry

end PhaseFlow
