import PhaseFlow.Json.Reader
import PhaseFlow.Json.Writer
import PhaseFlow.Proofs.Number.Shortest

/-!
# Reading numbers back

A written number consists of a sign, the digits of a whole part, and possibly a fraction
and an exponent; `readNumber_parts` reads such parts, whatever follows that cannot
belong to a number. An integer of 64 bits is its digits (`readNumber_signedDecimal`). A
binary64 number is laid out in one of four ways, which all say the same decimal number
(`exists_layout`), so it is read back by `Binary64.shortest_readsAs`
(`readNumber_floatText`).
-/

namespace PhaseFlow

namespace Json

/-! ## Digits -/

/-- At least one digit, and nothing but digits. -/
structure IsDigits (chars : List Char) : Prop where
  ne_nil : chars ≠ []
  isDigit : ∀ c ∈ chars, c.isDigit = true

/-- Digits that may stand before a point: a zero at the front stands alone. -/
structure IsWhole (chars : List Char) : Prop extends IsDigits chars where
  no_leading_zero : ∀ c rest, chars ≠ '0' :: c :: rest

/-- What follows a number: nothing that could go on with it. -/
def EndsNumber (rest : List Char) : Prop :=
  ∀ c ∈ rest.head?, c.isDigit = false ∧ c ≠ '.' ∧ c ≠ 'e' ∧ c ≠ 'E'

theorem digitsValue_eq
    (digits : List Char) :
    digitsValue digits = Nat.ofDigitChars 10 digits 0 := by
  unfold digitsValue
  rw [Nat.ofDigitChars_eq_foldl]
  congr 1
  funext value c
  rw [Nat.mul_comm]
  rfl

theorem digitsValue_decimal (n : Nat) : digitsValue (Text.decimal n) = n := by
  rw [digitsValue_eq]
  exact Nat.ofDigitChars_ten_toDigits

/-- Digits behind shift the value in front by their number. -/
theorem digitsValue_append
    (digits more : List Char) :
    digitsValue (digits ++ more) =
      digitsValue digits * 10 ^ more.length + digitsValue more := by
  rw [digitsValue_eq, digitsValue_eq, digitsValue_eq, Nat.ofDigitChars_append,
    Nat.ofDigitChars_eq_ofDigitChars_zero, Nat.mul_comm]

theorem digitsValue_zeros (n : Nat) : digitsValue (List.replicate n '0') = 0 := by
  rw [digitsValue_eq, Nat.ofDigitChars_replicate_zero, Nat.mul_zero]

theorem isDigits_decimal (n : Nat) : IsDigits (Text.decimal n) where
  ne_nil := Nat.toDigits_ne_nil
  isDigit _ h := Nat.isDigit_of_mem_toDigits (by decide) (by decide) h

/-- A positive number has no zero in front. -/
theorem decimal_ne_zero_cons
    {n : Nat}
    (h : 0 < n) :
    ∀ rest, Text.decimal n ≠ '0' :: rest := by
  induction n using Nat.strongRecOn with
  | ind n ih =>
      intro rest heq
      unfold Text.decimal at heq
      by_cases hlt : n < 10
      · rw [Nat.toDigits_of_lt_base hlt] at heq
        have hzero : n.digitChar = '0' := (List.cons.inj heq).1
        have hall : ∀ m, m < 10 → 0 < m → m.digitChar ≠ '0' := by decide
        exact hall n hlt h hzero
      · rw [Nat.toDigits_of_base_le (by decide) (by omega)] at heq
        obtain ⟨c, tail, hhead⟩ :=
          List.exists_cons_of_ne_nil (isDigits_decimal (n / 10)).ne_nil
        unfold Text.decimal at hhead
        rw [hhead] at heq
        have hc : c = '0' := (List.cons.inj heq).1
        refine ih (n / 10) (by omega) (by omega) tail ?_
        unfold Text.decimal
        rw [hhead, hc]

theorem isWhole_decimal (n : Nat) : IsWhole (Text.decimal n) where
  toIsDigits := isDigits_decimal n
  no_leading_zero c rest := by
    rcases Nat.eq_zero_or_pos n with rfl | h
    · simp [Text.decimal, Nat.toDigits_zero]
    · exact decimal_ne_zero_cons h (c :: rest)

/-- Digits are taken up to the first character that is none. -/
theorem takeDigits_append
    {digits rest : List Char}
    (hdigits : ∀ c ∈ digits, c.isDigit = true)
    (hrest : ∀ c ∈ rest.head?, c.isDigit = false) :
    takeDigits (digits ++ rest) = (digits, rest) := by
  have htake : rest.takeWhile Char.isDigit = [] ∧ rest.dropWhile Char.isDigit = rest := by
    cases rest with
    | nil => exact ⟨rfl, rfl⟩
    | cons c tail =>
        have hc := hrest c rfl
        simp [hc]
  unfold takeDigits
  rw [List.takeWhile_append_of_pos hdigits, List.dropWhile_append_of_pos hdigits,
    htake.1, htake.2, List.append_nil]

/-! ## The parts of a number -/

/-- The sign of a number. -/
def signChars (negative : Bool) : List Char :=
  if negative then ['-'] else []

/-- The fraction of a number, if it has one. -/
def fractionChars : Option (List Char) → List Char
  | none => []
  | some digits => '.' :: digits

/-- The exponent of a number, if it has one: its sign and its digits. -/
def exponentChars : Option (Bool × List Char) → List Char
  | none => []
  | some (negative, digits) => 'e' :: (if negative then '-' else '+') :: digits

/-- The value of an exponent. -/
def exponentValue (exponent : Bool × List Char) : Int :=
  if exponent.1 then -(digitsValue exponent.2 : Int) else digitsValue exponent.2

theorem EndsNumber.not_digit
    {rest : List Char}
    (h : EndsNumber rest) :
    ∀ c ∈ rest.head?, c.isDigit = false :=
  fun c hc => (h c hc).1

theorem IsDigits.isEmpty_eq
    {digits : List Char}
    (h : IsDigits digits) :
    digits.isEmpty = false := by
  cases digits with
  | nil => exact absurd rfl h.ne_nil
  | cons c tail => rfl

/-- Nothing that ends a number is taken for an exponent. -/
theorem readExponent_none
    {rest : List Char}
    (h : EndsNumber rest) :
    readExponent rest = some (none, rest) := by
  cases rest with
  | nil => rfl
  | cons c tail =>
      obtain ⟨-, -, he, hE⟩ := h c rfl
      simp [readExponent, he, hE]

/-- An exponent is read back. -/
theorem readExponent_exponentChars
    {exponent : Option (Bool × List Char)} {rest : List Char}
    (hexponent : ∀ e ∈ exponent, IsDigits e.2)
    (hrest : EndsNumber rest) :
    readExponent (exponentChars exponent ++ rest) =
      some (exponent.map exponentValue, rest) := by
  cases exponent with
  | none => exact readExponent_none hrest
  | some e =>
      obtain ⟨negative, digits⟩ := e
      have hdigits : IsDigits digits := hexponent _ rfl
      have htake := takeDigits_append hdigits.isDigit hrest.not_digit
      cases negative with
      | true => simp [exponentChars, readExponent, exponentValue, htake, hdigits.isEmpty_eq]
      | false => simp [exponentChars, readExponent, exponentValue, htake, hdigits.isEmpty_eq]

/-- An exponent, or what ends a number, does not go on with digits. -/
theorem exponentChars_not_digit
    (exponent : Option (Bool × List Char))
    {rest : List Char}
    (hrest : EndsNumber rest) :
    ∀ c ∈ (exponentChars exponent ++ rest).head?, c.isDigit = false ∧ c ≠ '.' := by
  cases exponent with
  | none =>
      intro c hc
      obtain ⟨hdigit, hpoint, -⟩ := hrest c hc
      exact ⟨hdigit, hpoint⟩
  | some e =>
      intro c hc
      obtain rfl : 'e' = c := by simpa [exponentChars] using hc
      decide

/-- A fraction is read back. -/
theorem readFraction_fractionChars
    {fraction : Option (List Char)}
    (exponent : Option (Bool × List Char))
    {rest : List Char}
    (hfraction : ∀ digits ∈ fraction, IsDigits digits)
    (hrest : EndsNumber rest) :
    readFraction (fractionChars fraction ++ (exponentChars exponent ++ rest)) =
      some (fraction, exponentChars exponent ++ rest) := by
  have hnext := exponentChars_not_digit exponent hrest
  generalize exponentChars exponent ++ rest = tail at hnext ⊢
  cases fraction with
  | none =>
      cases tail with
      | nil => rfl
      | cons c more =>
          have hpoint : c ≠ '.' := (hnext c rfl).2
          simp [fractionChars, readFraction, hpoint]
  | some digits =>
      have hdigits : IsDigits digits := hfraction digits rfl
      have htake := takeDigits_append hdigits.isDigit fun c hc => (hnext c hc).1
      simp [fractionChars, readFraction, htake, hdigits.isEmpty_eq]

/-- The whole part of a number is not followed by a digit. -/
theorem fractionChars_not_digit
    (fraction : Option (List Char))
    (exponent : Option (Bool × List Char))
    {rest : List Char}
    (hrest : EndsNumber rest) :
    ∀ c ∈ (fractionChars fraction ++ (exponentChars exponent ++ rest)).head?,
      c.isDigit = false := by
  cases fraction with
  | none => exact fun c hc => (exponentChars_not_digit exponent hrest c hc).1
  | some digits =>
      intro c hc
      obtain rfl : '.' = c := by simpa [fractionChars] using hc
      decide

theorem takeMinus_signChars
    {negative : Bool} {whole tail : List Char}
    (hwhole : IsWhole whole) :
    takeMinus (signChars negative ++ (whole ++ tail)) =
      (negative, whole ++ tail) := by
  cases negative with
  | true => rfl
  | false =>
      obtain ⟨c, more, rfl⟩ := List.exists_cons_of_ne_nil hwhole.ne_nil
      have hdigit : c.isDigit = true := hwhole.isDigit c List.mem_cons_self
      have hminus : c ≠ '-' := by
        rintro rfl
        exact absurd hdigit (by decide)
      simp [signChars, takeMinus, hminus]

/-- **The parts of a number are read back**, whatever ends the number. -/
theorem readNumber_parts
    (negative : Bool)
    {whole : List Char}
    (fraction : Option (List Char))
    (exponent : Option (Bool × List Char))
    {rest : List Char}
    (hwhole : IsWhole whole)
    (hfraction : ∀ digits ∈ fraction, IsDigits digits)
    (hexponent : ∀ e ∈ exponent, IsDigits e.2)
    (hrest : EndsNumber rest) :
    readNumber (signChars negative ++
        (whole ++ (fractionChars fraction ++ (exponentChars exponent ++ rest)))) =
      (numberOf negative whole fraction (exponent.map exponentValue)).map fun
        value => (value, rest) := by
  have htake :=
    takeDigits_append hwhole.isDigit (fractionChars_not_digit fraction exponent hrest)
  have hread := readFraction_fractionChars exponent hfraction hrest
  generalize fractionChars fraction ++ (exponentChars exponent ++ rest) = tail
    at htake hread ⊢
  unfold readNumber
  simp only [takeMinus_signChars hwhole, htake]
  split
  · exact absurd rfl hwhole.ne_nil
  · exact absurd rfl (hwhole.no_leading_zero _ _)
  · have hafter := readExponent_exponentChars hexponent hrest
    simp only [hread, required, bind, Except.bind, hafter]
    cases numberOf negative whole fraction (exponent.map exponentValue) <;> rfl

/-! ## Integers -/

theorem signedDecimal_eq
    (n : Int) :
    Text.signedDecimal n = signChars (decide (n < 0)) ++ Text.decimal n.natAbs := by
  by_cases h : n < 0
  · simp [Text.signedDecimal, signChars, h]
  · simp [Text.signedDecimal, signChars, h]

/-- Digits alone that fit a word are an integer. -/
theorem numberOf_plain
    {n : Int}
    (h : FitsWord n) :
    numberOf (decide (n < 0)) (Text.decimal n.natAbs) none none = .ok (int n) := by
  have hvalue : (if decide (n < 0) = true then -(digitsValue (Text.decimal n.natAbs) : Int)
      else digitsValue (Text.decimal n.natAbs)) = n := by
    rw [digitsValue_decimal]
    split_ifs with hsign
    · have : n < 0 := by simpa using hsign
      omega
    · have : ¬ n < 0 := by simpa using hsign
      omega
  have hlow : -((Nat.pow 2 63 : Nat) : Int) ≤ n := h.1
  have hhigh : n < ((Nat.pow 2 64 : Nat) : Int) := h.2
  unfold numberOf
  simp only [hvalue, hlow, hhigh, Option.isNone_none, Bool.and_self, decide_true, if_true]

/-- **An integer of 64 bits is read back.** -/
theorem readNumber_signedDecimal
    {n : Int} {rest : List Char}
    (h : FitsWord n)
    (hrest : EndsNumber rest) :
    readNumber (Text.signedDecimal n ++ rest) = .ok (int n, rest) := by
  have hparts :=
    readNumber_parts (decide (n < 0)) none none (isWhole_decimal n.natAbs) (by simp)
    (by simp) hrest
  rw [Option.map_none, numberOf_plain h] at hparts
  rw [signedDecimal_eq, List.append_assoc]
  exact hparts

/-! ## Binary64 numbers -/

/-- The parts of a decimal number that is read as a binary64 number. -/
structure Layout
    (x : Binary64)
    (text whole : List Char)
    (fraction : Option (List Char))
    (exponent : Option (Bool × List Char)) : Prop where
  text_eq : text = whole ++ (fractionChars fraction ++ exponentChars exponent)
  isWhole : IsWhole whole
  isFraction : ∀ digits ∈ fraction, IsDigits digits
  isExponent : ∀ e ∈ exponent, IsDigits e.2
  not_plain : (fraction.isNone && exponent.isNone) = false
  reads : Binary64.ofDecimal x.negative (digitsValue (whole ++ fraction.getD []))
    ((exponent.map exponentValue).getD 0 - ((fraction.getD []).length : Int)) = some x

/-- A number that is laid out is read back. -/
theorem Layout.readNumber_eq
    {x : Binary64} {text whole rest : List Char} {fraction : Option (List Char)}
    {exponent : Option (Bool × List Char)}
    (h : Layout x text whole fraction exponent)
    (hrest : EndsNumber rest) :
    readNumber (signChars x.negative ++ (text ++ rest)) = .ok (float x, rest) := by
  have hplain : (fraction.isNone && (exponent.map exponentValue).isNone) = false := by
    rw [Option.isNone_map]
    exact h.not_plain
  have hnumber : numberOf x.negative whole fraction (exponent.map exponentValue) =
      .ok (float x) := by
    unfold numberOf
    simp only [hplain, Bool.false_and, Bool.false_eq_true, if_false, h.reads]
  have hparts :=
    readNumber_parts x.negative fraction exponent h.isWhole h.isFraction h.isExponent
      hrest
  rw [hnumber] at hparts
  rw [h.text_eq, List.append_assoc, List.append_assoc]
  exact hparts

theorem IsDigits.append
    {digits more : List Char}
    (h : IsDigits digits)
    (hmore : ∀ c ∈ more, c.isDigit = true) :
    IsDigits (digits ++ more) where
  ne_nil := List.append_ne_nil_of_left_ne_nil h.ne_nil _
  isDigit c hc := by
    rcases List.mem_append.1 hc with hc | hc
    · exact h.isDigit c hc
    · exact hmore c hc

theorem isDigit_zeros
    (n : Nat) :
    ∀ c ∈ List.replicate n '0', c.isDigit = true := by
  intro c hc
  rw [List.eq_of_mem_replicate hc]
  decide

theorem IsDigits.isWhole
    {digits : List Char}
    (h : IsDigits digits)
    (hhead : digits.head? ≠ some '0') :
    IsWhole digits where
  toIsDigits := h
  no_leading_zero c rest := by
    rintro rfl
    exact hhead rfl

theorem isDigits_zero : IsDigits ['0'] where
  ne_nil := List.cons_ne_nil _ _
  isDigit := isDigit_zeros 1

theorem isDigits_padLeft
    (width n : Nat) :
    IsDigits (Text.padLeft width '0' (Text.decimal n)) where
  ne_nil := List.append_ne_nil_of_right_ne_nil _ (isDigits_decimal n).ne_nil
  isDigit c hc := by
    rcases List.mem_append.1 hc with hc | hc
    · exact isDigit_zeros _ c hc
    · exact (isDigits_decimal n).isDigit c hc

/-- Zeros in front leave the value as it is. -/
theorem digitsValue_padLeft
    (width n : Nat) :
    digitsValue (Text.padLeft width '0' (Text.decimal n)) = n := by
  unfold Text.padLeft
  rw [digitsValue_append, digitsValue_zeros, Nat.zero_mul, Nat.zero_add, digitsValue_decimal]

theorem digitsValue_exponentDigits
    (n : Nat) :
    digitsValue (exponentDigits n) = n :=
  digitsValue_padLeft 2 n

section Layouts

variable {x : Binary64} {digits : List Char} {point : Int}

/-- Zeros up to the point, and one after it. -/
theorem layout_whole
    (hx : x.IsNormal)
    (hpos : 0 < x.mantissa)
    (hdigits : IsDigits digits)
    (hhead : digits.head? ≠ some '0')
    (hread : x.ReadsAs (digitsValue digits) (point - digits.length))
    (hpoint : (digits.length : Int) ≤ point) :
    Layout x
      (digits ++ List.replicate (point - digits.length).toNat '0' ++ ['.', '0'])
      (digits ++ List.replicate (point - digits.length).toNat '0') (some ['0'])
      none where
  text_eq := rfl
  isWhole := by
    refine (hdigits.append (isDigit_zeros _)).isWhole ?_
    obtain ⟨c, tail, rfl⟩ := List.exists_cons_of_ne_nil hdigits.ne_nil
    exact hhead
  isFraction := by
    rintro _ ⟨⟩
    exact isDigits_zero
  isExponent := by simp
  not_plain := rfl
  reads := by
    refine Binary64.ofDecimal_of_readsAs hx hpos ?_
    have hvalue :
        digitsValue
          (digits ++ List.replicate (point - digits.length).toNat '0' ++ ['0']) =
          digitsValue digits * 10 ^ ((point - digits.length).toNat + 1) := by
      rw [List.append_assoc, digitsValue_append]
      have hzeros := digitsValue_zeros ((point - digits.length).toNat + 1)
      rw [List.replicate_succ'] at hzeros
      rw [hzeros, List.length_append, List.length_replicate]
      rfl
    have hexponent : -1 + (((point - digits.length).toNat + 1 : Nat) : Int) =
        point - digits.length := by omega
    rw [Option.getD_some, hvalue]
    show x.ReadsAs _ (-1)
    rw [Binary64.readsAs_mul_pow, hexponent]
    exact hread

/-- The point among the digits. -/
theorem layout_among
    (hx : x.IsNormal)
    (hpos : 0 < x.mantissa)
    (hdigits : IsDigits digits)
    (hhead : digits.head? ≠ some '0')
    (hread : x.ReadsAs (digitsValue digits) (point - digits.length))
    (hlow : 0 < point)
    (hhigh : point < digits.length) :
    Layout x (digits.take point.toNat ++ '.' :: digits.drop point.toNat)
      (digits.take point.toNat) (some (digits.drop point.toNat)) none where
  text_eq := by simp [fractionChars, exponentChars]
  isWhole := by
    refine IsDigits.isWhole ⟨?_, fun c hc => hdigits.isDigit c (List.mem_of_mem_take hc)⟩ ?_
    · intro hnil
      rcases List.take_eq_nil_iff.1 hnil with hzero | hempty
      · omega
      · exact hdigits.ne_nil hempty
    · rw [List.head?_take, if_neg (by omega)]
      exact hhead
  isFraction := by
    rintro _ ⟨⟩
    refine ⟨?_, fun c hc => hdigits.isDigit c (List.mem_of_mem_drop hc)⟩
    rw [Ne, List.drop_eq_nil_iff]
    omega
  isExponent := by simp
  not_plain := rfl
  reads := by
    have hexponent : (0 : Int) - ((digits.drop point.toNat).length : Int) =
        point - digits.length := by
      rw [List.length_drop]
      omega
    rw [Option.getD_some, List.take_append_drop]
    refine Binary64.ofDecimal_of_readsAs hx hpos ?_
    show x.ReadsAs _ (0 - ((digits.drop point.toNat).length : Int))
    rw [hexponent]
    exact hread

/-- The digits after zeros that follow the point. -/
theorem layout_after
    (hx : x.IsNormal)
    (hpos : 0 < x.mantissa)
    (hdigits : IsDigits digits)
    (hread : x.ReadsAs (digitsValue digits) (point - digits.length))
    (hpoint : point ≤ 0) :
    Layout x ('0' :: '.' :: List.replicate (-point).toNat '0' ++ digits) ['0']
      (some (List.replicate (-point).toNat '0' ++ digits)) none where
  text_eq := by simp [fractionChars, exponentChars]
  isWhole := ⟨isDigits_zero, by simp⟩
  isFraction := by
    rintro _ ⟨⟩
    refine ⟨List.append_ne_nil_of_right_ne_nil _ hdigits.ne_nil, fun c hc => ?_⟩
    rcases List.mem_append.1 hc with hc | hc
    · exact isDigit_zeros _ c hc
    · exact hdigits.isDigit c hc
  isExponent := by simp
  not_plain := rfl
  reads := by
    have hvalue : digitsValue (['0'] ++ (List.replicate (-point).toNat '0' ++ digits)) =
        digitsValue digits := by
      have hzeros := digitsValue_zeros ((-point).toNat + 1)
      rw [List.replicate_succ] at hzeros
      rw [← List.append_assoc, digitsValue_append, List.singleton_append, hzeros,
        Nat.zero_mul, Nat.zero_add]
    have hexponent :
        (0 : Int) -
          ((List.replicate (-point).toNat '0' ++ digits).length : Int) =
          point - digits.length := by
      rw [List.length_append, List.length_replicate]
      omega
    rw [Option.getD_some, hvalue]
    refine Binary64.ofDecimal_of_readsAs hx hpos ?_
    show x.ReadsAs _ (0 - ((List.replicate (-point).toNat '0' ++ digits).length : Int))
    rw [hexponent]
    exact hread

theorem exponentValue_exponentDigits
    (n : Int) :
    exponentValue (decide (n < 0), exponentDigits n.natAbs) = n := by
  unfold exponentValue
  rw [digitsValue_exponentDigits]
  by_cases h : n < 0
  · rw [decide_eq_true h, if_pos rfl]
    omega
  · rw [decide_eq_false h, if_neg Bool.false_ne_true]
    omega

/-- The point after the first digit, and an exponent. -/
theorem layout_exponent
    (hx : x.IsNormal)
    (hpos : 0 < x.mantissa)
    (hdigits : IsDigits digits)
    (hhead : digits.head? ≠ some '0')
    (hread : x.ReadsAs (digitsValue digits) (point - digits.length)) :
    Layout x (digits.take 1 ++
        (if (digits.drop 1).isEmpty then [] else '.' :: digits.drop 1) ++
        'e' :: (if point - 1 < 0 then '-' else '+') ::
          exponentDigits (point - 1).natAbs) (digits.take 1)
      (if (digits.drop 1).isEmpty then none else some (digits.drop 1))
      (some (decide (point - 1 < 0), exponentDigits (point - 1).natAbs)) := by
  obtain ⟨c, tail, rfl⟩ := List.exists_cons_of_ne_nil hdigits.ne_nil
  have hlength : ((c :: tail).length : Int) = tail.length + 1 := by simp
  rw [List.take_succ_cons, List.take_zero, List.drop_succ_cons, List.drop_zero]
  have hwhole : IsWhole [c] := by
    refine IsDigits.isWhole ⟨List.cons_ne_nil _ _, ?_⟩ hhead
    intro d hd
    obtain rfl : d = c := by simpa using hd
    exact hdigits.isDigit d List.mem_cons_self
  have hexponent : ∀ e ∈ some (decide (point - 1 < 0), exponentDigits (point - 1).natAbs),
      IsDigits e.2 := by
    rintro _ ⟨⟩
    exact isDigits_padLeft 2 _
  cases tail with
  | nil =>
      refine ⟨?_, hwhole, by simp, hexponent, rfl, ?_⟩
      · simp [fractionChars, exponentChars]
      · refine Binary64.ofDecimal_of_readsAs hx hpos ?_
        have hvalue :
            point - 1 - (([] : List Char).length : Int) = point - [c].length := by
          simp
        show x.ReadsAs _ (exponentValue _ - (([] : List Char).length : Int))
        rw [exponentValue_exponentDigits, hvalue]
        exact hread
  | cons d more =>
      refine ⟨?_, hwhole, ?_, hexponent, rfl, ?_⟩
      · simp [fractionChars, exponentChars]
      · rintro _ ⟨⟩
        exact ⟨List.cons_ne_nil _ _,
          fun e he => hdigits.isDigit e (List.mem_cons_of_mem _ he)⟩
      · refine Binary64.ofDecimal_of_readsAs hx hpos ?_
        have hvalue :
            point - 1 - ((d :: more).length : Int) =
              point - (c :: d :: more).length := by
          rw [hlength]
          ring
        show x.ReadsAs _ (exponentValue _ - ((d :: more).length : Int))
        rw [exponentValue_exponentDigits, hvalue]
        exact hread

end Layouts

/-- Every magnitude is laid out as the number it belongs to. -/
theorem exists_layout
    {x : Binary64}
    (hx : x.IsNormal)
    (hpos : 0 < x.mantissa) :
    ∃ whole fraction exponent,
      Layout x (magnitudeText x) whole fraction exponent := by
  have hfound := Binary64.shortest_readsAs hx hpos
  unfold magnitudeText
  dsimp only
  generalize x.shortest.point = point at hfound ⊢
  generalize x.shortest.digits = found at hfound ⊢
  have hhead : (Text.decimal found).head? ≠ some '0' := by
    intro hzero
    obtain ⟨rest, hrest⟩ := List.head?_eq_some_iff.1 hzero
    exact decimal_ne_zero_cons (hfound.pos hpos) rest hrest
  have hread : x.ReadsAs (digitsValue (Text.decimal found))
      (point - (Text.decimal found).length) := by
    rw [digitsValue_decimal]
    exact hfound
  have hdigits := isDigits_decimal found
  generalize Text.decimal found = digits at hhead hread hdigits ⊢
  by_cases hwhole : (digits.length : Int) ≤ point ∧ point ≤ 15
  · rw [if_pos hwhole]
    exact ⟨_, _, _, layout_whole hx hpos hdigits hhead hread hwhole.1⟩
  rw [if_neg hwhole]
  by_cases hamong : 0 < point ∧ point ≤ 15
  · rw [if_pos hamong]
    exact ⟨_, _, _, layout_among hx hpos hdigits hhead hread hamong.1 (by omega)⟩
  rw [if_neg hamong]
  by_cases hafter : -4 < point ∧ point ≤ 0
  · rw [if_pos hafter]
    exact ⟨_, _, _, layout_after hx hpos hdigits hread hafter.2⟩
  · rw [if_neg hafter]
    exact ⟨_, _, _, layout_exponent hx hpos hdigits hhead hread⟩

theorem layout_zero
    {x : Binary64}
    (hx : x.IsNormal)
    (hzero : x.mantissa = 0) :
    Layout x ['0', '.', '0'] ['0'] (some ['0']) none where
  text_eq := rfl
  isWhole := ⟨isDigits_zero, by simp⟩
  isFraction := by
    rintro _ ⟨⟩
    exact isDigits_zero
  isExponent := by simp
  not_plain := rfl
  reads := by
    have hshift : x.shift = 0 := by
      rcases hx.2.2 with hshift | hmantissa
      · exact hshift
      · rw [hzero] at hmantissa
        exact absurd hmantissa (by decide)
    obtain ⟨negative, mantissa, shift⟩ := x
    obtain rfl : mantissa = 0 := hzero
    obtain rfl : shift = 0 := hshift
    rfl

/-- **A binary64 number is read back.** -/
theorem readNumber_floatText
    {x : Binary64} {rest : List Char}
    (hx : x.IsNormal)
    (hrest : EndsNumber rest) :
    readNumber (floatText x ++ rest) = .ok (float x, rest) := by
  have hlayout : ∃ whole fraction exponent, Layout x
      (if x.mantissa = 0 then ['0', '.', '0'] else magnitudeText x) whole fraction
        exponent := by
    split_ifs with hzero
    · exact ⟨_, _, _, layout_zero hx hzero⟩
    · exact exists_layout hx (Nat.pos_of_ne_zero hzero)
  obtain ⟨whole, fraction, exponent, hlayout⟩ := hlayout
  have hread := hlayout.readNumber_eq hrest
  have htext : floatText x = signChars x.negative ++
      (if x.mantissa = 0 then ['0', '.', '0'] else magnitudeText x) := by
    unfold floatText signChars
    cases x.negative <;> rfl
  rw [htext, List.append_assoc]
  exact hread

end Json

end PhaseFlow
