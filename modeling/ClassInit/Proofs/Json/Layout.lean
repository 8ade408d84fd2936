import ClassInit.Proofs.Json.Numerals
import ClassInit.Proofs.Json.Strings

/-!
# Layouts of documents

A document is written compactly or with indentation, and the two differ in the blanks between the
tokens only. `Json.written` writes a value in any layout, which is a choice of such blanks, and both
ways of writing are cases of it (`Json.compact_eq_written`, `Json.indented_eq_written`).
-/

set_option autoImplicit false

namespace ClassInit.Json

open Number (Decimal)

/-! ## Layouts -/

/-- The blanks of a written form. -/
structure Layout where
  /-- What stands before the items and fields of a level, and before the bracket that closes
  them. -/
  line : Nat → List Char
  afterColon : List Char
  line_blank : ∀ level, ∀ c ∈ line level, isBlank c = true
  afterColon_blank : ∀ c ∈ afterColon, isBlank c = true

namespace Layout

def compact : Layout := ⟨fun _ => [], [], nofun, nofun⟩

/-- Every item and field on a line of its own, with two blanks a level. -/
def indented : Layout where
  line level := '\n' :: List.replicate (2 * level) ' '
  afterColon := [' ']
  line_blank level := by
    refine List.forall_mem_cons.mpr ⟨rfl, fun c hc => ?_⟩
    rw [List.eq_of_mem_replicate hc]
    rfl
  afterColon_blank := List.forall_mem_singleton.mpr rfl

end Layout

mutual

/-- The value in a layout, before a text that follows. -/
def written (l : Layout) (level : Nat) : Json → List Char → List Char
  | arr (j :: js), rest =>
    '[' :: (l.line (level + 1) ++
      j.written l (level + 1) (writtenItems l level js (l.line level ++ ']' :: rest)))
  | obj ((name, j) :: fs), rest =>
    '\x7b' :: (l.line (level + 1) ++ quote name (':' :: (l.afterColon ++
      j.written l (level + 1) (writtenFields l level fs (l.line level ++ '\x7d' :: rest)))))
  | j, rest => j.writeScalar rest

def writtenItems (l : Layout) (level : Nat) : List Json → List Char → List Char
  | [], rest => rest
  | j :: js, rest =>
    ',' :: (l.line (level + 1) ++ j.written l (level + 1) (writtenItems l level js rest))

def writtenFields (l : Layout) (level : Nat) : List (String × Json) → List Char → List Char
  | [], rest => rest
  | (name, j) :: fs, rest =>
    ',' :: (l.line (level + 1) ++ quote name (':' :: (l.afterColon ++
      j.written l (level + 1) (writtenFields l level fs rest))))

end

mutual

/-- The compact text is the one of the compact layout, at any level. -/
theorem compact_eq_written (level : Nat) : ∀ (j : Json) (rest : List Char),
    j.compact rest = j.written .compact level rest
  | arr (j :: js), rest => by
    rw [compact, written, compact_eq_written (level + 1) j, compactItems_eq_written level js]
    rfl
  | obj ((name, j) :: fs), rest => by
    rw [compact, written, compact_eq_written (level + 1) j, compactFields_eq_written level fs]
    rfl
  | arr [], _ => rfl
  | obj [], _ => rfl
  | null, _ => rfl
  | bool _, _ => rfl
  | int _, _ => rfl
  | decimal _, _ => rfl
  | float32 _, _ => rfl
  | float64 _, _ => rfl
  | str _, _ => rfl
  | unreadable, _ => rfl

theorem compactItems_eq_written (level : Nat) : ∀ (js : List Json) (rest : List Char),
    compactItems js rest = writtenItems .compact level js rest
  | [], _ => rfl
  | j :: js, rest => by
    rw [compactItems, writtenItems, compact_eq_written (level + 1) j,
      compactItems_eq_written level js]
    rfl

theorem compactFields_eq_written (level : Nat) : ∀ (fs : List (String × Json)) (rest : List Char),
    compactFields fs rest = writtenFields .compact level fs rest
  | [], _ => rfl
  | (name, j) :: fs, rest => by
    rw [compactFields, writtenFields, compact_eq_written (level + 1) j,
      compactFields_eq_written level fs]
    rfl

end

mutual

/-- The indented text is the one of the indented layout. -/
theorem indented_eq_written (level : Nat) : ∀ (j : Json) (rest : List Char),
    j.indented level rest = j.written .indented level rest
  | arr (j :: js), rest => by
    rw [indented, written, indented_eq_written (level + 1) j, indentedItems_eq_written level js]
    rfl
  | obj ((name, j) :: fs), rest => by
    rw [indented, written, indented_eq_written (level + 1) j, indentedFields_eq_written level fs]
    rfl
  | arr [], _ => rfl
  | obj [], _ => rfl
  | null, _ => rfl
  | bool _, _ => rfl
  | int _, _ => rfl
  | decimal _, _ => rfl
  | float32 _, _ => rfl
  | float64 _, _ => rfl
  | str _, _ => rfl
  | unreadable, _ => rfl

theorem indentedItems_eq_written (level : Nat) : ∀ (js : List Json) (rest : List Char),
    indentedItems level js rest = writtenItems .indented level js rest
  | [], _ => rfl
  | j :: js, rest => by
    rw [indentedItems, writtenItems, indented_eq_written (level + 1) j,
      indentedItems_eq_written level js]
    rfl

theorem indentedFields_eq_written (level : Nat) : ∀ (fs : List (String × Json)) (rest : List Char),
    indentedFields level fs rest = writtenFields .indented level fs rest
  | [], _ => rfl
  | (name, j) :: fs, rest => by
    rw [indentedFields, writtenFields, indented_eq_written (level + 1) j,
      indentedFields_eq_written level fs]
    rfl

end

section

variable (l : Layout)

/-! ## Blanks and first characters -/

/-- A character that is not blank stays. -/
theorem skipBlanks_cons {c : Char} (cs : List Char) (notBlank : isBlank c = false) :
    skipBlanks (c :: cs) = c :: cs :=
  List.dropWhile_cons_of_neg (by rw [notBlank]; exact Bool.false_ne_true)

/-- The break and the indentation before an item are blank. -/
theorem skipBlanks_line (level : Nat) (cs : List Char) :
    skipBlanks (l.line level ++ cs) = skipBlanks cs := by
  rw [skipBlanks, List.dropWhile_append_of_pos (l.line_blank level)]
  rfl

theorem length_skipBlanks (cs : List Char) : (skipBlanks cs).length ≤ cs.length :=
  (List.dropWhile_suffix _).length_le

theorem notBlank_of_number {c : Char} (number : c = '-' ∨ c.isDigit = true) :
    isBlank c = false ∧ c ≠ ']' := by
  have other : ∀ d : Char, d.isDigit = false → c.isDigit = true → c ≠ d := by
    rintro d noDigit digit rfl
    rw [digit] at noDigit
    cases noDigit
  rcases number with rfl | digit
  · decide
  · refine ⟨?_, other _ rfl digit⟩
    rw [isBlank, beq_false_of_ne (other _ rfl digit), beq_false_of_ne (other _ rfl digit),
      beq_false_of_ne (other _ rfl digit), beq_false_of_ne (other _ rfl digit)]
    rfl

/-- A written number starts with a digit, a sign or the `n` of `null`. -/
theorem exists_first_writeDecimal (d : Option Decimal) (rest : List Char) :
    ∃ c cs, writeDecimal d rest = c :: cs ∧ isBlank c = false ∧ c ≠ ']' := by
  cases d with
  | none => exact ⟨'n', _, rfl, by decide⟩
  | some d =>
    obtain ⟨c, cs, first, number⟩ := exists_first_chars d rest
    exact ⟨c, cs, first, notBlank_of_number number⟩

/-- A value starts neither with a blank nor with the end of an array. -/
theorem exists_first_written (j : Json) (level : Nat) (rest : List Char) :
    ∃ c cs, j.written l level rest = c :: cs ∧ isBlank c = false ∧ c ≠ ']' := by
  cases j with
  | null | unreadable => exact ⟨'n', _, rfl, by decide⟩
  | bool b => cases b <;> exact ⟨_, _, rfl, by decide⟩
  | int n =>
    obtain ⟨c, cs, first, number⟩ := exists_first_chars (.ofInt n) rest
    rw [← integer_eq_chars] at first
    exact ⟨c, cs, first, notBlank_of_number number⟩
  | decimal d => exact exists_first_writeDecimal (some d) rest
  | float32 x => exact exists_first_writeDecimal _ rest
  | float64 x => exact exists_first_writeDecimal _ rest
  | str s => exact ⟨'"', _, rfl, by decide⟩
  | arr js => cases js <;> exact ⟨'[', _, rfl, by decide⟩
  | obj fs => cases fs <;> exact ⟨'\x7b', _, rfl, by decide⟩

/-- A written value does not start with blanks. -/
theorem skipBlanks_written (j : Json) (level : Nat) (rest : List Char) :
    skipBlanks (j.written l level rest) = j.written l level rest := by
  obtain ⟨c, cs, first, notBlank, -⟩ := exists_first_written l j level rest
  rw [first, skipBlanks_cons cs notBlank]

/-! ## Written forms of values with parts -/

section

variable (level : Nat) (rest : List Char)

/-- The first item of an array, after its bracket. -/
theorem written_arr (j : Json) (js : List Json) :
    (arr (j :: js)).written l level rest = '[' :: (l.line (level + 1) ++
      j.written l (level + 1) (writtenItems l level js (l.line level ++ ']' :: rest))) := by
  rw [written]

/-- The next item of an array, after a comma. -/
theorem writtenItems_cons (j : Json) (js : List Json) :
    writtenItems l level (j :: js) rest =
      ',' :: (l.line (level + 1) ++ j.written l (level + 1) (writtenItems l level js rest)) := by
  rw [writtenItems]

/-- A field with those that follow it. -/
def writtenField (name : String) (j : Json) (fs : List (String × Json)) : List Char :=
  quote name (':' :: (l.afterColon ++ j.written l (level + 1) (writtenFields l level fs rest)))

/-- The first field of an object, after its brace. -/
theorem written_obj (name : String) (j : Json) (fs : List (String × Json)) :
    (obj ((name, j) :: fs)).written l level rest =
      '\x7b' ::
      (l.line (level + 1) ++ writtenField l level (l.line level ++ '\x7d' :: rest) name j fs) := by
  rw [written]
  rfl

/-- The next field of an object, after a comma. -/
theorem writtenFields_cons (name : String) (j : Json) (fs : List (String × Json)) :
    writtenFields l level ((name, j) :: fs) rest =
      ',' :: (l.line (level + 1) ++ writtenField l level rest name j fs) := by
  rw [writtenFields]
  rfl

end

/-! ## Lengths -/

/-- A quoted string takes up characters. -/
theorem length_quote (s : String) (rest : List Char) : rest.length < (quote s rest).length := by
  have all : ∀ cs : List Char, rest.length <
      (cs.foldr (fun c out => escapeChar c ++ out) ('"' :: rest)).length := by
    intro cs
    induction cs with
    | nil => exact Nat.lt_succ_self _
    | cons c cs ih =>
      rw [List.foldr_cons, List.length_append]
      exact Nat.lt_add_left _ ih
  exact Nat.lt_succ_of_lt (all _)

theorem length_word (word : String) (nonempty : 0 < word.toList.length) (rest : List Char) :
    rest.length < (word.toList ++ rest).length := by
  rw [List.length_append]
  exact Nat.lt_add_of_pos_left nonempty

theorem length_writeDecimal (d : Option Decimal) (rest : List Char) :
    rest.length < (writeDecimal d rest).length := by
  cases d with
  | none => exact length_word "null" (by decide) rest
  | some d =>
    obtain ⟨c, cs, first, -⟩ := exists_first_chars d []
    rw [List.append_nil] at first
    rw [writeDecimal, first, List.length_append]
    exact Nat.lt_add_of_pos_left (Nat.succ_pos _)

/-- A value without parts takes up characters. -/
theorem length_writeScalar (j : Json) (rest : List Char) :
    rest.length < (j.writeScalar rest).length := by
  cases j with
  | null | unreadable => exact length_word "null" (by decide) rest
  | bool b =>
    cases b with
    | false => exact length_word "false" (by decide) rest
    | true => exact length_word "true" (by decide) rest
  | int n =>
    have length := length_writeDecimal (some (.ofInt n)) rest
    rw [writeDecimal, ← integer_eq_chars] at length
    exact length
  | decimal d => exact length_writeDecimal (some d) rest
  | float32 x =>
    exact length_writeDecimal (Number.documentDecimal? .single .document32 x.toBits.toNat) rest
  | float64 x =>
    exact length_writeDecimal (Number.documentDecimal? .double .document64 x.toBits.toNat) rest
  | str s => exact length_quote s rest
  | arr _ | obj _ => exact Nat.lt_succ_of_lt (Nat.lt_succ_self _)

theorem length_writtenField (name : String) (fs : List (String × Json)) (rest : List Char)
    {level : Nat} {j : Json}
    (item : ∀ rest : List Char, rest.length < (j.written l (level + 1) rest).length) :
    (writtenFields l level fs rest).length < (writtenField l level rest name j fs).length := by
  have item := item (writtenFields l level fs rest)
  have key :=
    length_quote name
      (':' :: (l.afterColon ++ j.written l (level + 1) (writtenFields l level fs rest)))
  rw [List.length_cons, List.length_append] at key
  rw [writtenField]
  omega

mutual

/-- Every written value takes up characters, so that reading it uses up input. -/
theorem length_written (level : Nat) :
    ∀ (j : Json) (rest : List Char), rest.length < (j.written l level rest).length
  | arr (j :: js), rest => by
    have items := length_writtenItems level js (l.line level ++ ']' :: rest)
    have item :=
      length_written (level + 1) j (writtenItems l level js (l.line level ++ ']' :: rest))
    rw [List.length_append, List.length_cons] at items
    rw [written_arr, List.length_cons, List.length_append]
    omega
  | obj ((name, j) :: fs), rest => by
    have fields := length_writtenFields level fs (l.line level ++ '\x7d' :: rest)
    have field :=
      length_writtenField l name fs (l.line level ++ '\x7d' :: rest) (length_written (level + 1) j)
    rw [List.length_append, List.length_cons] at fields
    rw [written_obj, List.length_cons, List.length_append]
    omega
  | arr [], rest => length_writeScalar (arr []) rest
  | obj [], rest => length_writeScalar (obj []) rest
  | null, rest => length_writeScalar null rest
  | bool b, rest => length_writeScalar (bool b) rest
  | int n, rest => length_writeScalar (int n) rest
  | decimal d, rest => length_writeScalar (decimal d) rest
  | float32 x, rest => length_writeScalar (float32 x) rest
  | float64 x, rest => length_writeScalar (float64 x) rest
  | str s, rest => length_writeScalar (str s) rest
  | unreadable, rest => length_writeScalar unreadable rest

/-- The items after the first take up characters where there are any. -/
theorem length_writtenItems (level : Nat) : ∀ (js : List Json) (rest : List Char),
    rest.length ≤ (writtenItems l level js rest).length
  | [], _ => Nat.le_refl _
  | j :: js, rest => by
    have items := length_writtenItems level js rest
    have item := length_written (level + 1) j (writtenItems l level js rest)
    rw [writtenItems_cons, List.length_cons, List.length_append]
    omega

theorem length_writtenFields (level : Nat) : ∀ (fs : List (String × Json)) (rest : List Char),
    rest.length ≤ (writtenFields l level fs rest).length
  | [], _ => Nat.le_refl _
  | (name, j) :: fs, rest => by
    have fields := length_writtenFields level fs rest
    have field := length_writtenField l name fs rest (length_written (level + 1) j)
    rw [writtenFields_cons, List.length_cons, List.length_append]
    omega

end

end

end ClassInit.Json
