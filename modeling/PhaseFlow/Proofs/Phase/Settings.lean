import Mathlib.Data.List.TakeWhile
import PhaseFlow.Phase.Policy
import PhaseFlow.Proofs.Answer
import PhaseFlow.Proofs.Json.Number

/-!
# The grammar of the retry settings

A text denotes a natural number if it consists of white space, possibly a sign, and
decimal digits to its end, and the integer that they denote is neither negative nor too
large for a signed word (`Denotes`). The reader of texts accepts these texts and no
others (`naturalOfText?_eq_some_iff`).

`Reads` says which setting an entry of a configuration stands for, and `Unreadable`
which entries stand for none. Every entry is on one of the two sides
(`setting_eq_ok_iff`, `setting_eq_error_iff`), and the three settings are read
independently of each other.

Main statement: `settings_follow_grammar`.
-/

namespace PhaseFlow

/-! ## Texts that denote a natural number -/

/-- Space, tab, line feed, vertical tab, form feed and carriage return. -/
def whiteSpace : List Char :=
  [' ', '\t', '\n', Char.ofNat 11, Char.ofNat 12, '\r']

/-- The integer that a sign and some decimal digits denote. -/
def signedValue (sign digits : List Char) : Int :=
  if sign = ['-'] then -(Nat.ofDigitChars 10 digits 0 : Int)
  else (Nat.ofDigitChars 10 digits 0 : Int)

/-- A text consists of white space, possibly a sign, and decimal digits to its end, and
denotes a natural number below `2 ^ 63`. -/
def Denotes (text : String) (n : Nat) : Prop :=
  ∃ blanks sign digits, text.toList = blanks ++ (sign ++ digits) ∧
    (∀ c ∈ blanks, c ∈ whiteSpace) ∧
    sign ∈ [[], ['+'], ['-']] ∧ Json.IsDigits digits ∧ signedValue sign digits = n ∧ n
      < 2 ^ 63

theorem isSpace_iff {c : Char} : isSpace c = true ↔ c ∈ whiteSpace := by
  constructor
  · intro h
    have hcases : c = ' ' ∨ 9 ≤ c.toNat ∧ c.toNat ≤ 13 := by simpa [isSpace] using h
    rcases hcases with rfl | ⟨hlow, hhigh⟩
    · decide
    · have hcode :
          c.toNat = 9 ∨
          c.toNat = 10 ∨
          c.toNat = 11 ∨
          c.toNat = 12 ∨
          c.toNat = 13 := by
        omega
      rw [← Char.ofNat_toNat c]
      rcases hcode with hcode | hcode | hcode | hcode | hcode <;> rw [hcode] <;> decide
  · intro h
    have hall : (whiteSpace.all isSpace) = true := by decide
    exact List.all_eq_true.1 hall c h

/-- A digit or a sign is not skipped as a blank. -/
theorem isSpace_of_isDigit
    {c : Char}
    (h : c.isDigit = true) :
    isSpace c = false := by
  cases hspace : isSpace c with
  | false => rfl
  | true =>
      have hall : (whiteSpace.all fun c => !c.isDigit) = true := by decide
      have hnot := List.all_eq_true.1 hall c (isSpace_iff.1 hspace)
      rw [h] at hnot
      cases hnot

/-- What `splitSign` takes off is a sign. -/
theorem exists_of_splitSign
    {chars digits : List Char} {negative : Bool}
    (h : splitSign chars = (negative, digits)) :
    ∃ sign,
      sign ∈ [[], ['+'], ['-']] ∧
      chars = sign ++ digits ∧
      negative = decide (sign = ['-']) := by
  unfold splitSign at h
  split at h
  · cases h
    exact ⟨['-'], by decide, rfl, rfl⟩
  · cases h
    exact ⟨['+'], by decide, rfl, rfl⟩
  · cases h
    exact ⟨[], by decide, rfl, rfl⟩

theorem splitSign_append
    {sign digits : List Char}
    (hsign : sign ∈ [[], ['+'], ['-']])
    (hdigits : Json.IsDigits digits) :
    splitSign (sign ++ digits) = (decide (sign = ['-']), digits) := by
  obtain ⟨c, rest, rfl⟩ := List.exists_cons_of_ne_nil hdigits.ne_nil
  have hdigit := hdigits.isDigit c List.mem_cons_self
  simp only [List.mem_cons, List.not_mem_nil, or_false] at hsign
  rcases hsign with rfl | rfl | rfl
  · have hminus : c ≠ '-' := by
      rintro rfl
      exact absurd hdigit (by decide)
    have hplus : c ≠ '+' := by
      rintro rfl
      exact absurd hdigit (by decide)
    simp [splitSign, hminus, hplus]
  · rfl
  · rfl

/-- No blank stands between the blanks in front and the digits. -/
theorem dropWhile_isSpace_append
    {blanks sign digits : List Char}
    (hblanks : ∀ c ∈ blanks, c ∈ whiteSpace)
    (hsign : sign ∈ [[], ['+'], ['-']])
    (hdigits : Json.IsDigits digits) :
    (blanks ++ (sign ++ digits)).dropWhile isSpace = sign ++ digits := by
  rw [List.dropWhile_append_of_pos fun c hc => isSpace_iff.2 (hblanks c hc)]
  obtain ⟨c, rest, rfl⟩ := List.exists_cons_of_ne_nil hdigits.ne_nil
  have hspace := isSpace_of_isDigit (hdigits.isDigit c List.mem_cons_self)
  simp only [List.mem_cons, List.not_mem_nil, or_false] at hsign
  rcases hsign with rfl | rfl | rfl
  · exact List.dropWhile_cons_of_neg (by simp [hspace])
  · exact List.dropWhile_cons_of_neg (by decide)
  · exact List.dropWhile_cons_of_neg (by decide)

theorem not_isDigits_iff
    {digits : List Char} :
    (digits.isEmpty || !digits.all Char.isDigit) = true ↔ ¬ Json.IsDigits digits := by
  have hdigits :
      Json.IsDigits digits ↔
        digits.isEmpty = false ∧ digits.all Char.isDigit = true := by
    rw [List.isEmpty_eq_false_iff, List.all_eq_true]
    exact ⟨fun h => ⟨h.ne_nil, h.isDigit⟩, fun h => ⟨h.1, h.2⟩⟩
  rw [hdigits]
  cases digits.isEmpty <;> cases digits.all Char.isDigit <;> decide

/-- The value of digits with a sign is a natural number unless it is negative. -/
theorem signedValue_eq_iff
    {sign digits : List Char} {n : Nat} :
    signedValue sign digits = n ↔
      Json.digitsValue digits = n ∧ (sign = ['-'] → Json.digitsValue digits = 0) := by
  rw [Json.digitsValue_eq, signedValue]
  by_cases hminus : sign = ['-']
  · simp only [hminus, if_true, true_implies]
    omega
  · simp only [hminus, if_false, false_implies, and_true]
    omega

/-- A value is accepted if it is small enough, and zero behind a minus sign. -/
theorem accepted_iff
    {sign : List Char} {value : Nat} :
    (decide (value < Nat.pow 2 63) &&
        (!decide (sign = ['-']) || decide (value = 0))) =
      true ↔
      value < 2 ^ 63 ∧ (sign = ['-'] → value = 0) := by
  rw [Bool.and_eq_true, Bool.or_eq_true, Bool.not_eq_true', decide_eq_true_eq,
    decide_eq_true_eq, decide_eq_false_iff_not, ← imp_iff_not_or]
  rfl

/-- **The reader of texts accepts the texts that denote a natural number, and no
others.** -/
theorem naturalOfText?_eq_some_iff
    {text : String} {n : Nat} :
    naturalOfText? text = some n ↔ Denotes text n := by
  unfold naturalOfText?
  constructor
  · intro h
    cases hsplit : splitSign (text.toList.dropWhile isSpace) with
    | mk negative digits =>
        obtain ⟨sign, hsign, hrest, rfl⟩ := exists_of_splitSign hsplit
        rw [hsplit] at h
        dsimp only at h
        split at h
        · cases h
        · next hdigits =>
            rw [not_isDigits_iff, not_not] at hdigits
            obtain ⟨haccepted, hvalue⟩ := Option.ite_none_right_eq_some.1 h
            obtain ⟨hbound, hsigned⟩ := accepted_iff.1 haccepted
            rw [Option.some.injEq] at hvalue
            refine ⟨text.toList.takeWhile isSpace, sign, digits, ?_, ?_, hsign, hdigits,
              signedValue_eq_iff.2 ⟨hvalue, hsigned⟩, hvalue ▸ hbound⟩
            · rw [← hrest, List.takeWhile_append_dropWhile]
            · exact fun c hc => isSpace_iff.1 (List.mem_takeWhile_imp hc)
  · rintro ⟨blanks, sign, digits, htext, hblanks, hsign, hdigits, hvalue, hbound⟩
    obtain ⟨rfl, hsigned⟩ := signedValue_eq_iff.1 hvalue
    rw [htext, dropWhile_isSpace_append hblanks hsign hdigits,
      splitSign_append hsign hdigits]
    dsimp only
    rw [if_neg (fun hnot => not_isDigits_iff.1 hnot hdigits),
      if_pos (accepted_iff.2 ⟨hbound, hsigned⟩)]

/-! ## Settings -/

namespace Binary64

/-- The number lies below zero. -/
def IsNegative (x : Binary64) : Prop :=
  x.negative = true ∧ x.steps ≠ 0

/-- The whole part of a magnitude: the magnitude reaches this natural number and stays
below the next. -/
def HasWhole (x : Binary64) (n : Nat) : Prop :=
  n * stepsPerOne ≤ x.steps ∧ x.steps < (n + 1) * stepsPerOne

theorem isBelowZero_iff {x : Binary64} : x.isBelowZero = true ↔ x.IsNegative := by
  simp [isBelowZero, IsNegative, steps]

/-- Dropping the fraction of a number that is not negative leaves its whole part. -/
theorem toNat_truncate_eq_iff
    {x : Binary64}
    (h : ¬ x.IsNegative)
    {n : Nat} :
    x.truncate.toNat = n ↔ x.HasWhole n := by
  have hwhole : x.truncate.toNat = x.steps / stepsPerOne := by
    unfold truncate
    by_cases hsign : x.negative = true
    · have hzero : x.steps = 0 := by
        by_contra hsteps
        exact h ⟨hsign, hsteps⟩
      simp [hzero]
    · rw [if_neg hsign]
      exact Int.toNat_natCast _
  have hnext : (n + 1) * stepsPerOne = n * stepsPerOne + stepsPerOne :=
    Nat.succ_mul n stepsPerOne
  have hpos := stepsPerOne_pos
  rw [hwhole, HasWhole, Nat.div_eq_iff hpos, hnext]
  omega

end Binary64

namespace RetryPolicy

open Binary64 (isBelowZero_iff toNat_truncate_eq_iff)

/-- The setting that an entry of a configuration stands for: its default if it is absent
or null, and otherwise the natural number that it denotes, a fraction being dropped. -/
inductive Reads (fallback : Nat) : Option Json → Nat → Prop
  | absent : Reads fallback none fallback
  | null : Reads fallback (some .null) fallback
  | integer (n : Nat) : Reads fallback (some (.int n)) n
  | float
      {x : Binary64} {n : Nat}
      (hsign : ¬ x.IsNegative)
      (hwhole : x.HasWhole n) :
      Reads fallback (some (.float x)) n
  | text
      {text : String} {n : Nat}
      (htext : Denotes text n) :
      Reads fallback (some (.str text)) n

/-- A value that stands for no setting: a negative number, a truth value, an array, an
object, or a text that denotes no natural number. -/
inductive Unreadable : Json → Prop
  | integer {n : Int} (hsign : n < 0) : Unreadable (.int n)
  | float {x : Binary64} (hsign : x.IsNegative) : Unreadable (.float x)
  | bool (value : Bool) : Unreadable (.bool value)
  | array (items : List Json) : Unreadable (.arr items)
  | object (fields : List (String × Json)) : Unreadable (.obj fields)
  | text {text : String} (htext : ∀ n, ¬ Denotes text n) : Unreadable (.str text)

/-- The keys of the settings. -/
def keys : List String :=
  ["retries", "restart_delay", "timeout"]

variable {config : Json} {key : String} {fallback : Nat}

theorem reads_integer_iff
    {m : Int} {n : Nat} :
    Reads fallback (some (.int m)) n ↔ m = n := by
  constructor
  · rintro ⟨⟩
    rfl
  · rintro rfl
    exact .integer n

theorem reads_float_iff
    {x : Binary64} {n : Nat} :
    Reads fallback (some (.float x)) n ↔ ¬ x.IsNegative ∧ x.HasWhole n := by
  constructor
  · rintro (_ | _ | _ | ⟨hsign, hwhole⟩ | _)
    exact ⟨hsign, hwhole⟩
  · exact fun h => .float h.1 h.2

theorem reads_text_iff
    {text : String} {n : Nat} :
    Reads fallback (some (.str text)) n ↔ Denotes text n := by
  constructor
  · rintro (_ | _ | _ | _ | htext)
    exact htext
  · exact .text

/-- **One setting is what its entry stands for.** -/
theorem setting_eq_ok_iff
    {n : Nat} :
    setting config key fallback = .ok n ↔ Reads fallback (config.field? key) n := by
  unfold setting
  cases config.field? key with
  | none =>
      rw [Except.ok.injEq]
      exact ⟨fun h => h ▸ .absent, fun h => by cases h; rfl⟩
  | some value =>
      cases value with
      | null =>
          rw [Except.ok.injEq]
          exact ⟨fun h => h ▸ .null, fun h => by cases h; rfl⟩
      | int m =>
          rw [reads_integer_iff]
          by_cases hsign : m < 0
          · exact iff_of_false (by simp [hsign]) (by omega)
          · simp only [hsign, if_false, Except.ok.injEq]
            omega
      | float x =>
          rw [reads_float_iff, ← isBelowZero_iff]
          by_cases hsign : x.isBelowZero = true
          · simp [hsign]
          · have hnot : ¬ x.IsNegative := fun h => hsign (isBelowZero_iff.2 h)
            dsimp only
            rw [if_neg hsign, Except.ok.injEq, toNat_truncate_eq_iff hnot]
            exact (and_iff_right hsign).symm
      | str text =>
          rw [reads_text_iff, ← naturalOfText?_eq_some_iff]
          dsimp only
          cases naturalOfText? text with
          | none => exact iff_of_false nofun nofun
          | some m => rw [Except.ok.injEq, Option.some.injEq]
      | bool flag => exact iff_of_false nofun nofun
      | arr items => exact iff_of_false nofun nofun
      | obj fields => exact iff_of_false nofun nofun

/-- A value stands for no setting exactly if it is unreadable. -/
theorem unreadable_iff
    {value : Json} :
    Unreadable value ↔ ∀ n, ¬ Reads fallback (some value) n := by
  cases value with
  | null => exact iff_of_false nofun fun h => h fallback .null
  | int m =>
      simp only [reads_integer_iff]
      constructor
      · rintro ⟨hsign⟩ n
        omega
      · intro h
        refine .integer ?_
        by_contra hsign
        exact h m.toNat (by omega)
  | float x =>
      simp only [reads_float_iff]
      constructor
      · rintro (_ | ⟨hsign⟩) n h
        exact h.1 hsign
      · intro h
        refine .float ?_
        by_contra hsign
        exact h x.truncate.toNat ⟨hsign, (toNat_truncate_eq_iff hsign).1 rfl⟩
  | str text =>
      simp only [reads_text_iff]
      constructor
      · rintro (_ | _ | _ | _ | _ | htext)
        exact htext
      · exact .text
  | bool flag => exact iff_of_true (.bool flag) nofun
  | arr items => exact iff_of_true (.array items) nofun
  | obj fields => exact iff_of_true (.object fields) nofun

/-- **One setting is refused exactly if its entry is unreadable.** -/
theorem setting_eq_error_iff :
    (∃ fault, setting config key fallback = .error fault) ↔
      ∃ value, config.field? key = some value ∧ Unreadable value := by
  have hrefused : (∃ fault, setting config key fallback = .error fault) ↔
      ∀ n, ¬ Reads fallback (config.field? key) n := by
    simp only [← setting_eq_ok_iff]
    cases setting config key fallback <;> simp
  rw [hrefused]
  cases config.field? key with
  | none => exact iff_of_false (fun h => h fallback .absent) nofun
  | some value => simp only [← unreadable_iff, Option.some.injEq, exists_eq_left']

theorem ofConfig_obj_eq_ok_iff
    {fields : List (String × Json)} {defaults policy : RetryPolicy} :
    ofConfig (.obj fields) defaults = .ok policy ↔
      (∃ retries,
          Reads defaults.retries ((Json.obj fields).field? "retries") retries ∧
          policy.retries = max retries 1) ∧
      Reads defaults.delay ((Json.obj fields).field? "restart_delay")
        policy.delay ∧
      Reads defaults.timeout ((Json.obj fields).field? "timeout") policy.timeout := by
  have hobject : (Json.obj fields).isObject = true := rfl
  unfold ofConfig
  rw [if_pos hobject]
  simp only [Answer.bind_eq_ok_iff, setting_eq_ok_iff, Except.ok.injEq]
  constructor
  · rintro ⟨retries, hretries, delay, hdelay, timeout, htimeout, rfl⟩
    exact ⟨⟨retries, hretries, rfl⟩, hdelay, htimeout⟩
  · rintro ⟨⟨retries, hretries, hfloor⟩, hdelay, htimeout⟩
    exact ⟨retries, hretries, policy.delay, hdelay, policy.timeout, htimeout,
      by rw [← hfloor]⟩

/-- The settings are refused for the sake of one of them. -/
theorem exists_setting_of_ofConfig
    {defaults : RetryPolicy} {fault : ConfigurationFault}
    (h : ofConfig config defaults = .error fault) :
    ∃ key ∈ keys, ∃ fallback, setting config key fallback = .error fault := by
  unfold ofConfig at h
  split at h
  · rcases Answer.bind_eq_error_iff.1 h with h | ⟨retries, -, h⟩
    · exact ⟨"retries", by decide, _, h⟩
    rcases Answer.bind_eq_error_iff.1 h with h | ⟨delay, -, h⟩
    · exact ⟨"restart_delay", by decide, _, h⟩
    rcases Answer.bind_eq_error_iff.1 h with h | ⟨timeout, -, h⟩
    · exact ⟨"timeout", by decide, _, h⟩
    · cases h
  · cases h

/-- **The retry settings of an object follow a grammar.** They are refused exactly if
one of them is present and unreadable. Otherwise each of them is what its own entry and
its own default say, and the number of attempts is raised to one at least. -/
theorem settings_follow_grammar
    (fields : List (String × Json))
    (defaults : RetryPolicy) :
    ((∃ fault, ofConfig (.obj fields) defaults = .error fault) ↔
        ∃ key ∈ keys,
          ∃ value, (Json.obj fields).field? key = some value ∧ Unreadable value) ∧
    ∀ policy,
      ofConfig (.obj fields) defaults = .ok policy ↔
        (∃ retries,
            Reads defaults.retries ((Json.obj fields).field? "retries")
              retries ∧
            policy.retries = max retries 1) ∧
        Reads defaults.delay ((Json.obj fields).field? "restart_delay")
          policy.delay ∧
        Reads defaults.timeout ((Json.obj fields).field? "timeout")
          policy.timeout := by
  refine ⟨⟨?_, ?_⟩, fun policy => ofConfig_obj_eq_ok_iff⟩
  · rintro ⟨fault, hfault⟩
    obtain ⟨key, hkey, fallback, hsetting⟩ := exists_setting_of_ofConfig hfault
    exact ⟨key, hkey, setting_eq_error_iff.1 ⟨fault, hsetting⟩⟩
  · rintro ⟨key, hkey, value, hvalue, hunreadable⟩
    cases hpolicy : ofConfig (.obj fields) defaults with
    | error fault => exact ⟨fault, rfl⟩
    | ok policy =>
        -- Every entry of accepted settings is readable.
        obtain ⟨⟨retries, hretries, -⟩, hdelay, htimeout⟩ := ofConfig_obj_eq_ok_iff.1 hpolicy
        simp only [keys, List.mem_cons, List.not_mem_nil, or_false] at hkey
        rcases hkey with rfl | rfl | rfl
        · exact absurd (hvalue ▸ hretries) (unreadable_iff.1 hunreadable retries)
        · exact absurd (hvalue ▸ hdelay) (unreadable_iff.1 hunreadable policy.delay)
        · exact absurd (hvalue ▸ htimeout) (unreadable_iff.1 hunreadable policy.timeout)

end RetryPolicy

end PhaseFlow
