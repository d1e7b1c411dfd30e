/-!
# Cancellation flags

A token names a flag that starts lowered and, once raised, stays raised. Copies of a
token name the same flag. Waiting on a token ends early when its flag is raised, so a
wait tells whether it was.
-/

namespace PhaseFlow

/-- The name of a cancellation flag: its number. -/
structure CancellationToken where
  flag : Nat
  deriving DecidableEq

/-- All flags that have been handed out, and for each whether it is raised. -/
structure CancellationFlags where
  raised : List Bool

namespace CancellationFlags

/-- No flags. -/
def none : CancellationFlags :=
  ⟨[]⟩

/-- A token for a new flag, which is lowered. -/
def issue (flags : CancellationFlags) : CancellationToken × CancellationFlags :=
  (⟨flags.raised.length⟩, ⟨flags.raised ++ [false]⟩)

/-- Whether the flag of a token is raised. -/
def isCancelled (flags : CancellationFlags) (token : CancellationToken) : Bool :=
  flags.raised.getD token.flag false

/-- The flags with the one of a token raised. -/
def cancel
    (flags : CancellationFlags)
    (token : CancellationToken) :
    CancellationFlags :=
  ⟨flags.raised.set token.flag true⟩

/-- Whether a wait on a token, during which nobody cancels it, ends by cancellation. -/
def wait (flags : CancellationFlags) (token : CancellationToken) : Bool :=
  flags.isCancelled token

@[simp] theorem isCancelled_cancel
    (flags : CancellationFlags)
    (token other : CancellationToken)
    (h : token.flag < flags.raised.length) :
    (flags.cancel token).isCancelled other =
      (decide (token = other) || flags.isCancelled other) := by
  obtain ⟨i⟩ := token
  obtain ⟨j⟩ := other
  have hi : i < flags.raised.length := h
  by_cases hij : i = j
  · subst hij
    simp [cancel, isCancelled, hi]
  · simp [cancel, isCancelled, hij, List.getD, List.getElem?_set_ne hij]

end CancellationFlags

end PhaseFlow
