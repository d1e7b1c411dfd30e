/-!
# Answers

Most operations answer a value or an error, and they are composed by mapping, by
chaining and by folding. The first lemmas take a successful composition apart.

`Answer.Meets` promises something about either answer: about the value, and about the
error. A promise about a composition is made of promises about its parts (`Meets.bind`,
`Meets.foldlM`).
-/

namespace PhaseFlow

namespace Answer

universe u v w

variable {ε : Type u} {α : Type v} {β : Type w}

theorem map_eq_ok_iff
    {answer : Except ε α} {f : α → β} {result : β} :
    answer.map f = .ok result ↔ ∃ value, answer = .ok value ∧ f value = result := by
  cases answer <;> simp [Except.map]

theorem mapError_ok
    {ζ : Type w}
    (f : ε → ζ)
    (value : α) :
    (Except.ok value : Except ε α).mapError f = .ok value :=
  rfl

/-- Translating errors leaves values alone. -/
theorem mapError_eq_ok_iff
    {ζ : Type w} {answer : Except ε α} {f : ε → ζ} {value : α} :
    answer.mapError f = .ok value ↔ answer = .ok value := by
  cases answer with
  | error fault => exact iff_of_false nofun nofun
  | ok result => rw [mapError_ok, Except.ok.injEq, Except.ok.injEq]

/-- A sequence answers a value exactly if both of its parts do. -/
theorem bind_eq_ok_iff
    {β : Type v} {answer : Except ε α} {f : α → Except ε β} {result : β} :
    answer >>= f = .ok result ↔
      ∃ value, answer = .ok value ∧ f value = .ok result := by
  cases answer <;> simp [bind, Except.bind]

theorem map_eq_error_iff
    {answer : Except ε α} {f : α → β} {error : ε} :
    answer.map f = .error error ↔ answer = .error error := by
  cases answer <;> simp [Except.map]

/-- A sequence answers the error of its first part that fails. -/
theorem bind_eq_error_iff
    {β : Type v} {answer : Except ε α} {f : α → Except ε β} {error : ε} :
    answer >>= f = .error error ↔
      answer = .error error ∨
      ∃ value, answer = .ok value ∧ f value = .error error := by
  cases answer <;> simp [bind, Except.bind]

/-- What each accepted step keeps, an accepted fold keeps. -/
theorem foldlM_induction
    {β : Type v} {step : β → α → Except ε β} {keeps : β → Prop}
    (hstep : ∀ state item next, keeps state → step state item = .ok next → keeps next) :
    ∀ (items : List α) {start final : β},
      keeps start → items.foldlM step start = .ok final → keeps final
  | [], _, _, hstart, hfold => by
      cases hfold
      exact hstart
  | item :: rest, start, final, hstart, hfold => by
      rw [List.foldlM_cons] at hfold
      obtain ⟨next, hnext, hrest⟩ := bind_eq_ok_iff.1 hfold
      exact foldlM_induction hstep rest (hstep start item next hstart hnext) hrest

/-- A fold is accepted if all its steps are, and refused at the first step that is. What
the accepted steps keep speaks about the items that they have taken. -/
theorem foldlM_cases
    {β : Type v} {step : β → α → Except ε β} {items : List α}
    (keeps : List α → β → Prop)
    (refuses : α → ε → Prop)
    (hstep :
        ∀ before item later state,
          items = before ++ item :: later →
          keeps before state →
          (∃ next, step state item = .ok next ∧ keeps (before ++ [item]) next) ∨
          ∃ error, step state item = .error error ∧ refuses item error)
    {start : β}
    (hstart : keeps [] start) :
    (∃ final, items.foldlM step start = .ok final ∧ keeps items final) ∨
    ∃ error,
      items.foldlM step start = .error error ∧
      ∃ item ∈ items, refuses item error := by
  suffices hrest : ∀ later before state, items = before ++ later → keeps before state →
      (∃ final, later.foldlM step state = .ok final ∧ keeps items final) ∨
        ∃ error, later.foldlM step state = .error error ∧ ∃ item ∈ later, refuses item
          error from
    hrest items [] start rfl hstart
  intro later
  induction later with
  | nil =>
      intro before state heq hkeeps
      rw [List.append_nil] at heq
      exact .inl ⟨state, rfl, heq ▸ hkeeps⟩
  | cons item rest ih =>
      intro before state heq hkeeps
      rw [List.foldlM_cons]
      rcases hstep before item rest state heq hkeeps with
        ⟨next, hnext, hkept⟩ | ⟨error, herror, hrefuses⟩
      · rw [hnext]
        rcases ih (before ++ [item]) next (by rw [heq, List.append_assoc]; rfl) hkept with
          hfinal | ⟨error, herror, other, hother, hrefuses⟩
        · exact .inl hfinal
        · exact .inr ⟨error, herror, other, List.mem_cons_of_mem _ hother, hrefuses⟩
      · rw [herror]
        exact .inr ⟨error, rfl, item, List.mem_cons_self, hrefuses⟩

/-! ## Promises about both answers -/

/-- A value that is answered is as promised, and so is an error. -/
def Meets (promised : α → Prop) (expected : ε → Prop) : Except ε α → Prop
  | .ok value => promised value
  | .error error => expected error

variable {promised : α → Prop} {expected : ε → Prop} {answer : Except ε α}

theorem Meets.imp
    {promised' : α → Prop} {expected' : ε → Prop}
    (h : Meets promised expected answer)
    (hvalue : ∀ value, promised value → promised' value)
    (herror : ∀ error, expected error → expected' error) :
    Meets promised' expected' answer := by
  cases answer with
  | ok value => exact hvalue value h
  | error error => exact herror error h

theorem Meets.map
    {f : α → β} {result : β → Prop}
    (h : Meets promised expected answer)
    (hvalue : ∀ value, promised value → result (f value)) :
    Meets result expected (answer.map f) := by
  cases answer with
  | ok value => exact hvalue value h
  | error error => exact h

theorem Meets.mapError
    {ζ : Type w} {f : ε → ζ} {translated : ζ → Prop}
    (h : Meets promised expected answer)
    (herror : ∀ error, expected error → translated (f error)) :
    Meets promised translated (answer.mapError f) := by
  cases answer with
  | ok value => exact h
  | error error => exact herror error h

/-- A sequence meets an expectation if its parts do. -/
theorem Meets.bind
    {β : Type v} {f : α → Except ε β} {result : β → Prop}
    (h : Meets promised expected answer)
    (hnext : ∀ value, promised value → Meets result expected (f value)) :
    Meets result expected (answer >>= f) := by
  cases answer with
  | ok value => exact hnext value h
  | error error => exact h

/-- What the accepted steps of a fold promise speaks about the items that they have
taken. -/
theorem Meets.foldlM
    {β : Type v} {step : β → α → Except ε β} {items : List α}
    (keeps : List α → β → Prop)
    (hstep :
        ∀ before item later state,
          items = before ++ item :: later →
          keeps before state →
          Meets (keeps (before ++ [item])) expected (step state item))
    {start : β}
    (hstart : keeps [] start) :
    Meets (keeps items) expected (items.foldlM step start) := by
  have hsteps :
      ∀ before item later state,
        items = before ++ item :: later →
        keeps before state →
        (∃ next, step state item = .ok next ∧ keeps (before ++ [item]) next) ∨
        ∃ error, step state item = .error error ∧ expected error := by
    intro before item later state heq hkeeps
    have hmeets := hstep before item later state heq hkeeps
    cases hnext : step state item with
    | ok next =>
        rw [hnext] at hmeets
        exact .inl ⟨next, rfl, hmeets⟩
    | error error =>
        rw [hnext] at hmeets
        exact .inr ⟨error, rfl, hmeets⟩
  rcases foldlM_cases keeps (fun _ => expected) hsteps hstart with
    ⟨final, hfinal, hkept⟩ | ⟨error, herror, -, -, hexpected⟩
  · rw [hfinal]
    exact hkept
  · rw [herror]
    exact hexpected

end Answer

end PhaseFlow
