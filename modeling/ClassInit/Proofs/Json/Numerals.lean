import ClassInit.Json.Reader
import ClassInit.Json.Writer

/-!
# Numbers in documents

A written decimal is read as the decimal, or as the integer that it is (`Json.readNumber?_chars`).
-/

set_option autoImplicit false

namespace ClassInit

namespace Number

/-! ## Digits -/

theorem head?_toDigits_ne_zero {n : Nat} (pos : 0 < n) : (Nat.toDigits 10 n).head? ≠ some '0' := by
  induction n using Nat.strongRecOn with
  | ind n ih =>
    by_cases small : n < 10
    · rw [Nat.toDigits_of_lt_base small]
      have all : ∀ n < 10, 0 < n → [Nat.digitChar n].head? ≠ some '0' := by decide
      exact all n small pos
    · have first :=
        ih (n / 10) (Nat.div_lt_self pos (by decide))
          (Nat.div_pos (Nat.le_of_not_lt small) (by decide))
      obtain ⟨c, cs, digits⟩ :=
        List.exists_cons_of_ne_nil (Nat.toDigits_ne_nil (n := n / 10) (b := 10))
      rw [Nat.toDigits_of_base_le (by decide) (Nat.le_of_not_lt small), digits]
      rw [digits] at first
      exact first

end Number

namespace Json

open Number (Decimal)

theorem digitsValue_eq (cs : List Char) : digitsValue cs = Nat.ofDigitChars 10 cs 0 := by
  have step : (fun (n : Nat) (c : Char) => n * 10 + (c.toNat - '0'.toNat)) =
      fun n c => 10 * n + (c.toNat - '0'.toNat) := by
    funext n c
    rw [Nat.mul_comm]
  rw [digitsValue, Nat.ofDigitChars_eq_foldl, step]

/-- The digits of a number are read as the number. -/
theorem digitsValue_toDigits (n : Nat) : digitsValue (Nat.toDigits 10 n) = n := by
  rw [digitsValue_eq, Nat.ofDigitChars_ten_toDigits]

/-- A number is written in digits. -/
theorem isDigit_toDigits (n : Nat) : ∀ c ∈ Nat.toDigits 10 n, c.isDigit = true :=
  fun _ hc => Nat.isDigit_of_mem_toDigits (by decide) (by decide) hc

/-- A run of digits ends where no digit follows. -/
theorem takeWhile_digits {ds rest : List Char} (digits : ∀ c ∈ ds, c.isDigit = true)
    (stop : ∀ c ∈ rest.head?, c.isDigit = false) :
    (ds ++ rest).takeWhile Char.isDigit = ds ∧ (ds ++ rest).dropWhile Char.isDigit = rest := by
  rw [List.takeWhile_append_of_pos digits, List.dropWhile_append_of_pos digits]
  cases rest with
  | nil => exact ⟨List.append_nil ds, rfl⟩
  | cons c cs =>
    have noDigit : ¬c.isDigit = true := by
      rw [stop c rfl]
      exact Bool.false_ne_true
    rw [List.takeWhile_cons_of_neg noDigit, List.dropWhile_cons_of_neg noDigit, List.append_nil]
    exact ⟨rfl, rfl⟩

/-! ## The digits around a point -/

/-- The digits before and after the point of a number with the given number of places. -/
structure IsPointed (n places : Nat) (whole fraction : List Char) : Prop where
  written : Decimal.pointed n places = whole ++ if places = 0 then [] else '.' :: fraction
  length : fraction.length = places
  nonempty : whole ≠ []
  digits : ∀ c ∈ whole ++ fraction, c.isDigit = true
  noLeadingZero : whole.head? = some '0' → whole.length = 1
  value : digitsValue (whole ++ fraction) = n

/-- Without places there is no fraction. -/
theorem isPointed_zero (n : Nat) : IsPointed n 0 (Nat.toDigits 10 n) [] where
  written := (List.append_nil _).symm
  length := rfl
  nonempty := Nat.toDigits_ne_nil
  digits := by
    rw [List.append_nil]
    exact isDigit_toDigits n
  noLeadingZero zero := by
    obtain rfl : n = 0 := Nat.eq_zero_of_not_pos fun pos => Number.head?_toDigits_ne_zero pos zero
    rfl
  value := by rw [List.append_nil, digitsValue_toDigits]

namespace IsPointed

variable {n places : Nat} {whole fraction : List Char} (pointed : IsPointed n places whole fraction)

include pointed

/-- The digits before the point start a number. -/
theorem start : ¬(whole.isEmpty = true ∨ whole.head? = some '0' ∧ whole.length ≠ 1) := by
  rintro (empty | ⟨zero, longer⟩)
  · exact pointed.nonempty (List.isEmpty_iff.mp empty)
  · exact longer (pointed.noLeadingZero zero)

theorem isEmpty_fraction_iff : fraction.isEmpty = true ↔ places = 0 := by
  rw [List.isEmpty_iff, ← List.length_eq_zero_iff, pointed.length]

/-- There is a digit before the point. -/
theorem exists_first : ∃ c cs, whole = c :: cs ∧ c.isDigit = true := by
  obtain ⟨c, cs, first⟩ := List.exists_cons_of_ne_nil pointed.nonempty
  exact ⟨c, cs, first, pointed.digits c (by rw [first]; exact List.mem_cons_self)⟩

theorem ne_minus {rest tail : List Char} : whole ++ rest = '-' :: tail → False := by
  intro minus
  obtain ⟨c, cs, rfl, digit⟩ := pointed.exists_first
  cases minus
  cases digit

end IsPointed

/-- Every decimal can be split at its point. -/
theorem exists_isPointed (n places : Nat) :
    ∃ whole fraction, IsPointed n places whole fraction := by
  by_cases none : places = 0
  · subst none
    exact ⟨_, _, isPointed_zero n⟩
  obtain ⟨padded, defined⟩ : ∃ padded, padded =
    List.replicate (places + 1 - (Nat.toDigits 10 n).length) '0' ++ Nat.toDigits 10 n := ⟨_, rfl⟩
  have long : places + 1 ≤ padded.length := by
    rw [defined, List.length_append, List.length_replicate]
    omega
  have digits : ∀ c ∈ padded, c.isDigit = true := by
    intro c hc
    rw [defined] at hc
    rcases List.mem_append.mp hc with hc | hc
    · rw [List.eq_of_mem_replicate hc]
      rfl
    · exact isDigit_toDigits n c hc
  refine ⟨padded.take (padded.length - places), padded.drop (padded.length - places),
    ⟨?_, ?_, ?_, ?_, ?_, ?_⟩⟩
  · rw [Decimal.pointed, if_neg none, if_neg none, defined]
  · rw [List.length_drop]
    omega
  · refine fun empty => absurd (congrArg List.length empty) ?_
    rw [List.length_take, List.length_nil]
    omega
  · rw [List.take_append_drop]
    exact digits
  · -- The digits are as many as before padding only if the number has no leading zero.
    intro zero
    rw [List.length_take]
    by_cases short : (Nat.toDigits 10 n).length ≤ places
    · have length : padded.length = places + 1 := by
        rw [defined, List.length_append, List.length_replicate]
        omega
      omega
    · have same : padded = Nat.toDigits 10 n := by
        rw [defined, Nat.sub_eq_zero_of_le (by omega)]
        rfl
      rw [List.head?_take, if_neg (by omega), same] at zero
      obtain rfl : n = 0 := Nat.eq_zero_of_not_pos fun pos => Number.head?_toDigits_ne_zero pos zero
      exact absurd (show 1 ≤ places by omega) short
  · rw [List.take_append_drop, digitsValue_eq, defined, Nat.ofDigitChars_append,
      Nat.ofDigitChars_replicate_zero, Nat.mul_zero, Nat.ofDigitChars_ten_toDigits]

/-! ## Exponents -/

/-- A number ends before the text: it starts with nothing that would belong to a number. -/
def Ends (rest : List Char) : Prop :=
  ∀ c ∈ rest.head?, c.isDigit = false ∧ c ≠ '.' ∧ c ≠ 'e' ∧ c ≠ 'E'

theorem Ends.noDigit {rest : List Char} (ends : Ends rest) : ∀ c ∈ rest.head?, c.isDigit = false :=
  fun c hc => (ends c hc).1

/-- The exponent of a decimal as it is written. -/
def exponentChars (e : Option Int) : List Char :=
  match e with
  | none => []
  | some e => Number.Decimal.ExponentStyle.document.chars e

/-- Where no exponent is written none is read. -/
theorem readExponent?_none {rest : List Char} (ends : Ends rest) :
    readExponent? rest = some (none, rest) := by
  cases rest with
  | nil => rfl
  | cons c cs =>
    obtain ⟨-, -, lower, upper⟩ := ends c rfl
    unfold readExponent?
    exact if_neg (not_or.mpr ⟨lower, upper⟩)

/-- A written exponent is read with its sign. -/
theorem readExponent?_some (e : Int) {rest : List Char} (ends : Ends rest) :
    readExponent? (Decimal.ExponentStyle.document.chars e ++ rest) = some (some e, rest) := by
  have digits := takeWhile_digits (isDigit_toDigits e.natAbs) ends.noDigit
  have some : ((Nat.toDigits 10 e.natAbs).isEmpty) = false :=
    List.isEmpty_eq_false_iff.mpr Nat.toDigits_ne_nil
  by_cases negative : e < 0
  · have written : Decimal.ExponentStyle.document.chars e ++ rest =
        'e' :: '-' :: (Nat.toDigits 10 e.natAbs ++ rest) := by
      rw [Decimal.ExponentStyle.chars, if_neg (by simp only [not_and]; omega), Decimal.integer,
        if_pos negative]
      rfl
    rw [written, readExponent?, if_pos (.inl rfl)]
    simp only [digits.1, digits.2, some, digitsValue_toDigits, Bool.false_eq_true, if_false,
      if_true]
    rw [show -(e.natAbs : Int) = e by omega]
  · have written : Decimal.ExponentStyle.document.chars e ++ rest =
        'e' :: '+' :: (Nat.toDigits 10 e.natAbs ++ rest) := by
      rw [Decimal.ExponentStyle.chars, if_pos ⟨rfl, by omega⟩, Decimal.integer, if_neg negative]
      rfl
    rw [written, readExponent?, if_pos (.inl rfl)]
    simp only [digits.1, digits.2, some, digitsValue_toDigits, Bool.false_eq_true, if_false]
    rw [show (e.natAbs : Int) = e by omega]

/-! ## Numbers -/

/-- What a written decimal is read as. -/
def ofDecimal (d : Decimal) : Json :=
  if d.places = 0 ∧ d.exponent.isNone ∧ ¬(d.negative ∧ d.digits = 0) then
    int (if d.negative then -d.digits else d.digits)
  else decimal d

/-- What follows the digits of a number. -/
theorem head?_exponentChars {e : Option Int} {rest : List Char} (ends : Ends rest) :
    ∀ c ∈ (exponentChars e ++ rest).head?, c.isDigit = false ∧ c ≠ '.' := by
  cases e with
  | none => exact fun c hc => ⟨(ends c hc).1, (ends c hc).2.1⟩
  | some e =>
    intro c hc
    cases hc
    decide

theorem readExponent?_exponentChars (e : Option Int) {rest : List Char} (ends : Ends rest) :
    readExponent? (exponentChars e ++ rest) = some (e, rest) := by
  cases e with
  | none => exact readExponent?_none ends
  | some e => exact readExponent?_some e ends

/-- The digits after the point are read as the places. -/
theorem readPlaces?_fraction {n places : Nat} {whole fraction tail : List Char}
    (pointed : IsPointed n places whole fraction)
    (stop : ∀ c ∈ tail.head?, c.isDigit = false ∧ c ≠ '.') :
    readPlaces? ((if places = 0 then [] else '.' :: fraction) ++ tail) = some (fraction, tail) := by
  have noDigit : ∀ c ∈ tail.head?, c.isDigit = false := fun c hc => (stop c hc).1
  have length := pointed.length
  split
  next none =>
    obtain rfl : fraction = [] := List.eq_nil_of_length_eq_zero (length.trans none)
    cases tail with
    | nil => rfl
    | cons c cs =>
      rw [List.nil_append]
      unfold readPlaces?
      split
      · rename_i point
        exact absurd (List.cons.inj point).1 (stop c rfl).2
      · rfl
  next some =>
    have digits :=
      takeWhile_digits (fun c hc => pointed.digits c (List.mem_append_right _ hc)) noDigit
    have nonempty : fraction.isEmpty = false := by
      rw [List.isEmpty_eq_false_iff]
      rintro rfl
      exact some length.symm
    rw [List.cons_append, readPlaces?]
    simp only [digits.1, digits.2, nonempty, Bool.false_eq_true, if_false]

/-- A written decimal is read whatever value follows it. -/
theorem readNumber?_chars (d : Decimal) {rest : List Char} (ends : Ends rest) :
    readNumber? (d.chars .document ++ rest) = some (ofDecimal d, rest) := by
  obtain ⟨negative, digits, places, exponent⟩ := d
  obtain ⟨whole, fraction, pointed⟩ := exists_isPointed digits places
  -- What follows the digits is read from the back: exponent, fraction, whole part, sign. Each part
  -- ends where the next one starts.
  obtain ⟨tail, follows⟩ : ∃ tail, tail = exponentChars exponent ++ rest := ⟨_, rfl⟩
  have stop : ∀ c ∈ tail.head?, c.isDigit = false ∧ c ≠ '.' := follows ▸ head?_exponentChars ends
  have readsExponent : readExponent? tail = some (exponent, rest) :=
    follows ▸ readExponent?_exponentChars exponent ends
  have readsPlaces := readPlaces?_fraction pointed stop
  obtain ⟨point, defined⟩ : ∃ point, point = (if places = 0 then [] else '.' :: fraction) ++ tail :=
    ⟨_, rfl⟩
  rw [← defined] at readsPlaces
  have written : Decimal.chars .document ⟨negative, digits, places, exponent⟩ ++ rest =
      (if negative then ['-'] else []) ++ (whole ++ point) := by
    rw [Decimal.chars, pointed.written, defined, follows]
    simp only [List.append_assoc]
    rfl
  have ended : ∀ c ∈ point.head?, c.isDigit = false := by
    rw [defined]
    split
    · exact fun c hc => (stop c hc).1
    · intro c hc
      cases hc
      rfl
  have run := takeWhile_digits (fun c hc => pointed.digits c (List.mem_append_left _ hc)) ended
  have result : ∀ negative : Bool,
      (if fraction.isEmpty = true ∧ exponent.isNone = true ∧
        ¬(negative = true ∧ digitsValue (whole ++ fraction) = 0) then
        some
          (int (if negative = true then -digitsValue (whole ++ fraction)
            else digitsValue (whole ++ fraction)), rest)
      else some (decimal ⟨negative, digitsValue (whole ++ fraction), fraction.length, exponent⟩,
        rest)) =
        some (ofDecimal ⟨negative, digits, places, exponent⟩, rest) := by
    intro negative
    rw [pointed.value, pointed.length]
    simp only [ofDecimal, pointed.isEmpty_fraction_iff]
    split <;> rfl
  rw [written]
  cases negative with
  | false =>
    rw [if_neg Bool.false_ne_true, List.nil_append, readNumber?]
    · dsimp only
      rw [run.1, run.2, if_neg pointed.start, readsPlaces, Option.bind_eq_bind, Option.bind_some,
        readsExponent]
      exact result false
    · exact fun _ => pointed.ne_minus
  | true =>
    rw [if_pos rfl, List.singleton_append, readNumber?]
    dsimp only
    rw [run.1, run.2, if_neg pointed.start, readsPlaces, Option.bind_eq_bind, Option.bind_some,
      readsExponent]
    exact result true

/-- An integer is written as a decimal. -/
theorem integer_eq_chars (n : Int) : Decimal.integer n = (Decimal.ofInt n).chars .document := by
  rw [Decimal.chars, Decimal.integer, Decimal.ofInt, List.append_nil]
  by_cases negative : n < 0
  · rw [if_pos negative, if_pos (decide_eq_true negative)]
    rfl
  · rw [if_neg negative, if_neg (by rw [decide_eq_false negative]; exact Bool.false_ne_true)]
    rfl

/-- An integer is not read as a decimal. -/
theorem ofDecimal_ofInt (n : Int) : ofDecimal (Decimal.ofInt n) = int n := by
  rw [ofDecimal, Decimal.ofInt, if_pos ⟨rfl, rfl, by simp only [decide_eq_true_eq]; omega⟩]
  by_cases negative : n < 0
  · rw [if_pos (decide_eq_true negative), show -(n.natAbs : Int) = n by omega]
  · rw [if_neg (by rw [decide_eq_false negative]; exact Bool.false_ne_true), show (n.natAbs : Int) =
      n by omega]

/-- A decimal starts with a minus sign or a digit. -/
theorem exists_first_chars (d : Decimal) (rest : List Char) :
    ∃ c cs, d.chars .document ++ rest = c :: cs ∧ (c = '-' ∨ c.isDigit = true) := by
  obtain ⟨whole, fraction, pointed⟩ := exists_isPointed d.digits d.places
  obtain ⟨c, cs, rfl, digit⟩ := pointed.exists_first
  rw [Decimal.chars, pointed.written]
  cases d.negative with
  | false => exact ⟨c, _, rfl, .inr digit⟩
  | true => exact ⟨'-', _, rfl, .inl rfl⟩

end Json

end ClassInit
