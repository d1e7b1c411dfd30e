import Mathlib.Data.List.Induction
import PhaseFlow.Executor.Registry
import PhaseFlow.Proofs.KeyMap

/-!
# Names of executors are bound once

A registry is filled in place, one registration after the other, and some of them are
refused (`Registry.after`). A registration checks everything before it writes
(`Registration.on_eq`), so a refused one leaves no trace, and a name keeps the function
that the first registration with a function gave it: `Registration.get?_afterwards` is
the step and `Registry.get?_after` the run.

A registration is accepted at a place of a history when its name is not bound there, so
no name is accepted twice (`Registry.Accepted.place_eq`).

Main statement: `names_bound_once`.
-/

namespace PhaseFlow

/-- An attempt to bind a name; the function may be missing. -/
structure Registration where
  name : String
  function : Option Executor

namespace Registration

/-- What a registration does to a registry in place. -/
def perform (call : Registration) : ExceptT Error (StateM Registry) Unit := do
  if call.name = "" then throw (.configuration .executorWithoutName)
  match call.function with
  | none => throw (.configuration (.registrationWithoutFunction call.name))
  | some executor =>
      let registry ← get
      if h : registry.isRegistered call.name = true then
        throw (.configuration (.executorTaken call.name))
      else
        set (Registry.mk
          (registry.functions.bind call.name (Registry.ne_passThroughName h) executor))

/-- The answer of a registration, and the registry that is left. -/
def on
    (call : Registration)
    (registry : Registry) :
    Except Error Unit × Registry :=
  call.perform.run.run registry

/-- The registry that is left. -/
def afterwards (call : Registration) (registry : Registry) : Registry :=
  (call.on registry).2

/-- A registration is refused. -/
def Refused (call : Registration) (registry : Registry) : Prop :=
  ∃ error, (call.on registry).1 = .error error

variable {call : Registration} {registry : Registry}

/-- **A registration is carried out in full or not at all.** -/
theorem on_eq (call : Registration) (registry : Registry) :
    call.on registry = match registry.register call.name call.function with
      | .ok next => (.ok (), next)
      | .error error => (.error error, registry) := by
  obtain ⟨name, function⟩ := call
  unfold on perform Registry.register
  by_cases hname : name = ""
  · simp only [if_pos hname]
    rfl
  · simp only [if_neg hname]
    cases function with
    | none => rfl
    | some executor =>
        change (dite (registry.isRegistered name = true) _ _ :
          ExceptT Error (StateM Registry) Unit).run.run registry = _
        by_cases htaken : registry.isRegistered name = true
        · simp only [dif_pos htaken]
          rfl
        · simp only [dif_neg htaken]
          rfl

theorem refused_iff :
    call.Refused registry ↔
      call.name = "" ∨
      call.function = none ∨
      registry.isRegistered call.name = true := by
  obtain ⟨name, function⟩ := call
  unfold Refused
  rw [on_eq]
  unfold Registry.register
  by_cases hname : name = ""
  · simp [hname, refuse]
  · cases function with
    | none => simp [hname, refuse]
    | some executor =>
        by_cases htaken : registry.isRegistered name = true
        · simp [hname, htaken, refuse]
        · simp [hname, htaken]

/-- A refused registration leaves no trace. -/
theorem Refused.afterwards_eq
    (h : call.Refused registry) :
    call.afterwards registry = registry := by
  obtain ⟨error, herror⟩ := h
  rw [on_eq] at herror
  unfold afterwards
  rw [on_eq]
  cases hregister : registry.register call.name call.function with
  | error _ => rfl
  | ok next =>
      rw [hregister] at herror
      cases herror

/-- What is not refused binds the name, which was free. -/
theorem afterwards_of_not_refused
    (h : ¬ call.Refused registry) :
    ∃ executor,
      call.function = some executor ∧
      registry.functions.entries.get? call.name = none ∧
      (call.afterwards registry).functions.entries =
        registry.functions.entries.insert call.name (some executor) := by
  obtain ⟨name, function⟩ := call
  rw [refused_iff, not_or, not_or] at h
  obtain ⟨hname, hfunction, htaken⟩ := h
  obtain ⟨executor, rfl⟩ := Option.ne_none_iff_exists'.1 hfunction
  have hregister : registry.register name (some executor) =
      .ok ⟨registry.functions.bind name (Registry.ne_passThroughName htaken) executor⟩ := by
    unfold Registry.register
    rw [if_neg hname]
    exact dif_neg htaken
  refine ⟨executor, rfl, Option.not_isSome_iff_eq_none.1 htaken, ?_⟩
  unfold afterwards
  rw [on_eq, hregister]
  rfl

/-- What a registration offers to a name; nothing is offered to the empty name. -/
def offered (call : Registration) (name : String) : Option Executor :=
  if call.name = name ∧ name ≠ "" then call.function else none

theorem offered_eq_some_iff
    {name : String} {executor : Executor} :
    call.offered name = some executor ↔ name ≠ "" ∧ call = ⟨name, some executor⟩ := by
  obtain ⟨target, function⟩ := call
  rw [offered, Option.ite_none_right_eq_some, mk.injEq]
  constructor
  · rintro ⟨⟨htarget, hname⟩, hfunction⟩
    exact ⟨hname, htarget, hfunction⟩
  · rintro ⟨hname, htarget, hfunction⟩
    exact ⟨⟨htarget, hname⟩, hfunction⟩

/-- **A name that is bound stays bound to its function**, and another one takes what it
is offered. -/
theorem get?_afterwards
    (call : Registration)
    (registry : Registry)
    (name : String) :
    (call.afterwards registry).functions.entries.get? name =
      (registry.functions.entries.get? name).or ((call.offered name).map some) := by
  by_cases hrefused : call.Refused registry
  · rw [hrefused.afterwards_eq, offered]
    split
    · next htarget =>
        obtain ⟨rfl, hname⟩ := htarget
        rcases refused_iff.1 hrefused with hempty | hfunction | htaken
        · exact absurd hempty hname
        · rw [hfunction, Option.map_none, Option.or_none]
        · exact (Option.or_of_isSome htaken).symm
    · rw [Option.map_none, Option.or_none]
  · obtain ⟨executor, hfunction, hfree, hentries⟩ := afterwards_of_not_refused hrefused
    have hname : call.name ≠ "" := fun hempty => hrefused (refused_iff.2 (.inl hempty))
    rw [hentries, KeyMap.get?_insert, offered]
    by_cases htarget : call.name = name
    · subst htarget
      rw [if_pos rfl, if_pos ⟨rfl, hname⟩, hfree, hfunction]
      rfl
    · rw [if_neg htarget, if_neg fun hboth => htarget hboth.1, Option.map_none,
        Option.or_none]

end Registration

namespace Registry

/-- A new registry after a history of registrations. -/
def after (calls : List Registration) : Registry :=
  calls.foldl (fun registry call => call.afterwards registry) builtin

theorem after_snoc
    (calls : List Registration)
    (call : Registration) :
    after (calls ++ [call]) = call.afterwards (after calls) := by
  rw [after, List.foldl_append]
  rfl

/-- The first function that a history offers to a name. -/
def firstOffered (calls : List Registration) (name : String) : Option Executor :=
  calls.findSome? fun call => call.offered name

/-- What is offered first is offered by a registration before which nothing was
offered. -/
theorem exists_of_firstOffered
    {calls : List Registration} {name : String} {executor : Executor}
    (h : firstOffered calls name = some executor) :
    ∃ before later,
      calls = before ++ ⟨name, some executor⟩ :: later ∧
      name ≠ "" ∧
      ∀ function, (⟨name, some function⟩ : Registration) ∉ before := by
  obtain ⟨before, call, later, rfl, hoffered, hearlier⟩ := List.findSome?_eq_some_iff.1 h
  obtain ⟨hname, rfl⟩ := Registration.offered_eq_some_iff.1 hoffered
  refine ⟨before, later, rfl, hname, fun function hmem => ?_⟩
  have hnone := hearlier _ hmem
  rw [Registration.offered_eq_some_iff.2 ⟨hname, rfl⟩] at hnone
  cases hnone

/-- **After a history, a name is bound to the first function that it was offered**,
unless it is the name of a built-in executor. -/
theorem get?_after
    (calls : List Registration)
    (name : String) :
    (after calls).functions.entries.get? name =
      (builtin.functions.entries.get? name).or
        ((firstOffered calls name).map some) := by
  induction calls using List.reverseRecOn with
  | nil => exact Option.or_none.symm
  | append_singleton calls call ih =>
      have hfirst : firstOffered (calls ++ [call]) name =
          (firstOffered calls name).or (call.offered name) := by
        unfold firstOffered
        rw [List.findSome?_append, List.findSome?_singleton]
      rw [after_snoc, Registration.get?_afterwards, ih, hfirst, Option.or_assoc,
        Option.map_or]

theorem get?_builtin
    (name : String) :
    builtin.functions.entries.get? name =
      if constantName = name then
        some (some constant)
      else if Capability.passThroughName = name then some none else none := by
  change ((KeyMap.empty.insert Capability.passThroughName none).insert constantName
    (some constant)).get? name = _
  rw [KeyMap.get?_insert, KeyMap.get?_insert, KeyMap.get?_empty]

theorem isRegistered_builtin_iff
    {name : String} :
    builtin.isRegistered name = true ↔
      name = Capability.passThroughName ∨ name = constantName := by
  rw [isRegistered_eq, get?_builtin, eq_comm (a := name), eq_comm (a := name)]
  by_cases hconstant : constantName = name
  · simp [hconstant]
  · by_cases hidentity : Capability.passThroughName = name <;> simp [hconstant, hidentity]

theorem isRegistered_after_iff
    {calls : List Registration} {name : String} :
    (after calls).isRegistered name = true ↔
      builtin.isRegistered name = true ∨
      name ≠ "" ∧ ∃ executor, ⟨name, some executor⟩ ∈ calls := by
  have hfirst : (firstOffered calls name).isSome = true ↔
      name ≠ "" ∧ ∃ executor, ⟨name, some executor⟩ ∈ calls := by
    unfold firstOffered
    rw [List.findSome?_isSome_iff]
    constructor
    · rintro ⟨call, hcall, hoffered⟩
      obtain ⟨executor, hexecutor⟩ := Option.isSome_iff_exists.1 hoffered
      obtain ⟨hname, rfl⟩ := Registration.offered_eq_some_iff.1 hexecutor
      exact ⟨hname, executor, hcall⟩
    · rintro ⟨hname, executor, hcall⟩
      exact ⟨_, hcall, Option.isSome_iff_exists.2
        ⟨executor, Registration.offered_eq_some_iff.2 ⟨hname, rfl⟩⟩⟩
  rw [isRegistered_eq, get?_after, Option.isSome_or, Option.isSome_map,
    Bool.or_eq_true, hfirst]
  rfl

/-! ## Accepted registrations -/

/-- The registration at a place of a history is accepted. -/
def Accepted
    (calls : List Registration)
    (place : Nat)
    (call : Registration) :
    Prop :=
  calls[place]? = some call ∧ (call.on (after (calls.take place))).1 = .ok ()

variable {calls : List Registration} {place other : Nat}
variable {call again : Registration}

theorem accepted_iff :
    Accepted calls place call ↔
      calls[place]? = some call ∧
      call.name ≠ "" ∧
      call.function ≠ none ∧
      (after (calls.take place)).isRegistered call.name = false := by
  refine and_congr_right fun _ => ?_
  have hrefused : (call.on (after (calls.take place))).1 = .ok () ↔
      ¬ call.Refused (after (calls.take place)) := by
    unfold Registration.Refused
    cases (call.on (after (calls.take place))).1 with
    | ok answer => simp
    | error error => simp
  rw [hrefused, Registration.refused_iff, not_or, not_or, Bool.not_eq_true]

/-- What is accepted takes its name for good. -/
theorem Accepted.not_lt
    (h : Accepted calls place call)
    (hagain : Accepted calls other again)
    (hname : again.name = call.name) :
    ¬ place < other := by
  intro hlt
  obtain ⟨hplace, hempty, hfunction, -⟩ := accepted_iff.1 h
  obtain ⟨-, -, -, hfree⟩ := accepted_iff.1 hagain
  obtain ⟨executor, hexecutor⟩ := Option.ne_none_iff_exists'.1 hfunction
  have hmem : (⟨call.name, some executor⟩ : Registration) ∈ calls.take other := by
    rw [← hexecutor, List.mem_iff_getElem?]
    exact ⟨place, (List.getElem?_take_of_lt hlt).trans hplace⟩
  have htaken := isRegistered_after_iff.2 (.inr ⟨hempty, executor, hmem⟩)
  rw [← hname, hfree] at htaken
  cases htaken

/-- **No name is accepted twice.** -/
theorem Accepted.place_eq
    (h : Accepted calls place call)
    (hagain : Accepted calls other again)
    (hname : again.name = call.name) :
    other = place :=
  Nat.le_antisymm (Nat.not_lt.1 (h.not_lt hagain hname))
    (Nat.not_lt.1 (hagain.not_lt h hname.symm))

/-- A registration is accepted if nobody has taken the name before. -/
theorem accepted_of_free
    {name : String} {before : List Registration}
    (hname : name ≠ "")
    (hfree : ¬ builtin.isRegistered name = true)
    (hbefore : ∀ function, (⟨name, some function⟩ : Registration) ∉ before)
    (executor : Executor)
    (later : List Registration) :
    Accepted (before ++ ⟨name, some executor⟩ :: later) before.length
      ⟨name, some executor⟩ := by
  refine accepted_iff.2 ⟨?_, hname, Option.some_ne_none _, ?_⟩
  · rw [List.getElem?_append_right (Nat.le_refl _), Nat.sub_self]
    rfl
  · rw [List.take_left, Bool.eq_false_iff]
    intro htaken
    rcases isRegistered_after_iff.1 htaken with hbuiltin | ⟨-, function, hmem⟩
    · exact hfree hbuiltin
    · exact hbefore function hmem

/-- Where the function of a name comes from: it is built in, and the name was never
given away, or it stands in the first and only registration of the name that was
accepted. -/
inductive BoundBy (calls : List Registration) (name : String) : Executor → Prop
  | builtin
      (hname : name = constantName)
      (hnever : ∀ place function, ¬ Accepted calls place ⟨name, function⟩) :
      BoundBy calls name constant
  | registration
      {place : Nat} {executor : Executor}
      (haccepted : Accepted calls place ⟨name, some executor⟩)
      (honly :
          ∀ other function, Accepted calls other ⟨name, function⟩ → other = place)
      (hfirst :
          ∀ earlier < place, ∀ function, calls[earlier]? ≠ some ⟨name, some function⟩) :
      BoundBy calls name executor

theorem boundBy_of_get?_after
    {name : String}
    (hidentity : name ≠ Capability.passThroughName)
    {executor : Executor}
    (h : (after calls).functions.entries.get? name = some (some executor)) :
    BoundBy calls name executor := by
  rw [get?_after, get?_builtin] at h
  by_cases hconstant : constantName = name
  · rw [if_pos hconstant, Option.some_or, Option.some.injEq, Option.some.injEq] at h
    subst h
    refine .builtin hconstant.symm fun place function haccepted => ?_
    obtain ⟨-, -, -, hfree⟩ := accepted_iff.1 haccepted
    have htaken : (after (calls.take place)).isRegistered name = true :=
      isRegistered_after_iff.2 (.inl (isRegistered_builtin_iff.2 (.inr hconstant.symm)))
    exact Bool.false_ne_true (hfree.symm.trans htaken)
  · rw [if_neg hconstant, if_neg hidentity.symm, Option.none_or, Option.map_eq_some_iff] at h
    obtain ⟨_, hfirst, hexecutor⟩ := h
    cases hexecutor
    obtain ⟨before, later, rfl, hname, hbefore⟩ := exists_of_firstOffered hfirst
    have hfree : ¬ builtin.isRegistered name = true := fun hbuiltin =>
      (isRegistered_builtin_iff.1 hbuiltin).elim hidentity (Ne.symm hconstant)
    have haccepted := accepted_of_free hname hfree hbefore executor later
    refine .registration haccepted
      (fun other function hother => haccepted.place_eq hother rfl) ?_
    intro earlier hlt function hfound
    rw [List.getElem?_append_left hlt] at hfound
    exact hbefore function (List.mem_of_getElem? hfound)

/-! ## Resolving a name -/

theorem resolve_eq_passThrough_iff
    {registry : Registry} {name : String} :
    registry.resolve name = .ok .passThrough ↔
      name = "" ∨ name = Capability.passThroughName := by
  refine ⟨fun h => ?_, resolve_of_identity registry⟩
  by_contra hother
  rcases resolve_of_other registry hother with ⟨-, hresolve⟩ | ⟨executor, -, hresolve⟩
  · cases hresolve.symm.trans h
  · cases hresolve.symm.trans h

/-- An executor is found if it has no name or is registered. -/
theorem resolve_cases
    (registry : Registry)
    (name : String) :
    ((name = "" ∨ registry.isRegistered name = true) ∧
      ∃ capability, registry.resolve name = .ok capability) ∨
    ((name ≠ "" ∧ registry.isRegistered name = false) ∧
      registry.resolve name = .error (.unknownExecutor name registry.names)) := by
  by_cases hidentity : name = "" ∨ name = Capability.passThroughName
  · refine .inl
      ⟨hidentity.imp_right fun hname => ?_, _, registry.resolve_of_identity hidentity⟩
    rw [hname]
    exact registry.isRegistered_passThroughName
  · rcases registry.resolve_of_other hidentity with ⟨hnone, hresolve⟩ |
      ⟨executor, hfound, hresolve⟩
    · refine .inr ⟨⟨(not_or.1 hidentity).1, ?_⟩, hresolve⟩
      rw [isRegistered_eq, hnone]
      rfl
    · refine .inl ⟨.inr ?_, _, hresolve⟩
      rw [isRegistered_eq, hfound]
      rfl

/-- **What cannot be resolved is not known.** -/
theorem resolve_eq_error_iff
    {registry : Registry} {name : String} {fault : ConfigurationFault} :
    registry.resolve name = .error fault ↔
      (name ≠ "" ∧ registry.isRegistered name = false) ∧
      fault = .unknownExecutor name registry.names := by
  rcases registry.resolve_cases name with ⟨hknown, capability, hresolve⟩ |
    ⟨hunknown, hresolve⟩
  · rw [hresolve]
    refine iff_of_false nofun ?_
    rintro ⟨⟨hname, hfree⟩, -⟩
    exact Bool.false_ne_true (hfree.symm.trans (hknown.resolve_left hname))
  · rw [hresolve, Except.error.injEq, eq_comm]
    exact (and_iff_right hunknown).symm

/-- What can be said of a registry after a history of registrations. -/
structure Bound (calls : List Registration) (registry : Registry) : Prop where
  ascending : Text.Ascending registry.names
  mem_names_iff : ∀ name, name ∈ registry.names ↔ registry.isRegistered name = true
  isRegistered_iff : ∀ name, registry.isRegistered name = true ↔
    (name = Capability.passThroughName ∨ name = constantName) ∨
      name ≠ "" ∧ ∃ executor, ⟨name, some executor⟩ ∈ calls
  refused_iff : ∀ call : Registration, call.Refused registry ↔
    call.name = "" ∨ call.function = none ∨ registry.isRegistered call.name = true
  unchanged :
    ∀ call : Registration, call.Refused registry → call.afterwards registry = registry
  passThrough_iff : ∀ name, registry.resolve name = .ok .passThrough ↔
    name = "" ∨ name = Capability.passThroughName
  unknown_iff :
    ∀ name fault,
      registry.resolve name = .error fault ↔
        (name ≠ "" ∧ registry.isRegistered name = false) ∧
        fault = .unknownExecutor name registry.names
  custom :
    ∀ name,
      name ≠ "" →
      name ≠ Capability.passThroughName →
      registry.isRegistered name = true →
      ∃ capability,
        registry.resolve name = .ok capability ∧
        capability.isPassThrough = false ∧
        capability.name = name ∧
        BoundBy calls name capability.invoke

/-- **Names of executors are bound once and for all.** -/
theorem names_bound_once
    (calls : List Registration) :
    Bound calls (after calls) where
  ascending := KeyMap.ascending_keys _
  mem_names_iff name := by rw [names, KeyMap.mem_keys_iff, isRegistered, KeyMap.contains_iff]
  isRegistered_iff name := by rw [isRegistered_after_iff, isRegistered_builtin_iff]
  refused_iff _ := Registration.refused_iff
  unchanged _ := Registration.Refused.afterwards_eq
  passThrough_iff _ := resolve_eq_passThrough_iff
  unknown_iff _ _ := resolve_eq_error_iff
  custom name hempty hidentity hregistered := by
    rcases resolve_of_other (after calls) (not_or.2 ⟨hempty, hidentity⟩) with
      ⟨hnone, -⟩ | ⟨executor, hfound, hresolve⟩
    · rw [isRegistered_eq, hnone] at hregistered
      cases hregistered
    · exact ⟨_, hresolve, rfl, rfl, boundBy_of_get?_after hidentity hfound⟩

end Registry

end PhaseFlow
