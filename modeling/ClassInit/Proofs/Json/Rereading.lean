import ClassInit.Proofs.Json.Layout

/-!
# Documents are read again

A value that is written is read again, in compact form (`Json.ofText?_text`) and in indented form
(`Json.ofText?_prettyText`): the blanks between the tokens, which are all that makes a layout, do
not matter. What is read differs from what was written in numbers only: a floating-point number
comes back as its decimal, or as null if it has none.
-/

set_option autoImplicit false

namespace ClassInit.Json

open Number (Decimal)

/-! ## What is read again -/

/-- What a floating-point number is read as, from its decimal if it has one. -/
def ofDecimal? : Option Decimal → Json
  | none => null
  | some d => ofDecimal d

mutual

/-- What is read when the value was written. -/
def reread : Json → Json
  | null => null
  | bool b => bool b
  | int n => int n
  | decimal d => ofDecimal d
  | float32 x => ofDecimal? (Number.documentDecimal? .single .document32 x.toBits.toNat)
  | float64 x => ofDecimal? (Number.documentDecimal? .double .document64 x.toBits.toNat)
  | str s => str s
  | arr js => arr (rereadItems js)
  | obj fs => obj (rereadFields fs)
  | unreadable => null

def rereadItems : List Json → List Json
  | [] => []
  | j :: js => j.reread :: rereadItems js

def rereadFields : List (String × Json) → List (String × Json)
  | [] => []
  | (name, j) :: fs => (name, j.reread) :: rereadFields fs

end

section

variable (l : Layout)

/-! ## Reading what was written -/

/-- Where a blank, a comma or a closing bracket follows, a value has ended. -/
theorem ends_of_first {c : Char} {rest : List Char}
    (first : isBlank c = true ∨ c = ',' ∨ c = ']' ∨ c = '\x7d') : Ends (c :: rest) := by
  intro d hd
  cases hd
  rcases first with blank | rfl | rfl | rfl
  · rw [isBlank, Bool.or_eq_true, Bool.or_eq_true, Bool.or_eq_true, beq_iff_eq, beq_iff_eq,
      beq_iff_eq, beq_iff_eq] at blank
    rcases blank with ((rfl | rfl) | rfl) | rfl <;> decide
  · decide
  · decide
  · decide

/-- A value ends where the brackets around it are closed. -/
theorem ends_line (level : Nat) {c : Char} (rest : List Char) (close : c = ']' ∨ c = '\x7d') :
    Ends (l.line level ++ c :: rest) := by
  cases line : l.line level with
  | nil => exact ends_of_first (.inr (.inr close))
  | cons b bs => exact ends_of_first (.inl (l.line_blank level b (line ▸ List.mem_cons_self)))

/-- After an item comes a comma or the bracket. -/
theorem ends_writtenItems (level : Nat) (js : List Json) (rest : List Char) :
    Ends (writtenItems l level js (l.line level ++ ']' :: rest)) := by
  cases js with
  | nil => exact ends_line l level rest (.inl rfl)
  | cons j js => exact ends_of_first (.inr (.inl rfl))

theorem ends_writtenFields (level : Nat) (fs : List (String × Json)) (rest : List Char) :
    Ends (writtenFields l level fs (l.line level ++ '\x7d' :: rest)) := by
  cases fs with
  | nil => exact ends_line l level rest (.inr rfl)
  | cons f fs => exact ends_of_first (.inr (.inl rfl))

section

variable {fuel : Nat} {cs rest : List Char}

/-- What starts with a minus sign or a digit is read as a number. -/
theorem readValue_number {c : Char} {tail : List Char} (starts : skipBlanks cs = c :: tail)
    (number : c = '-' ∨ c.isDigit = true) : readValue (fuel + 1) cs = readNumber? (c :: tail) := by
  have other : ∀ d : Char, d ≠ '-' → d.isDigit = false → c ≠ d := by
    rintro d noMinus noDigit rfl
    rcases number with minus | digit
    · exact noMinus minus
    · rw [digit] at noDigit
      cases noDigit
  rw [readValue, starts]
  split
  next first => exact absurd (List.cons.inj first).1 (other '"' (by decide) rfl)
  next first => exact absurd (List.cons.inj first).1 (other '[' (by decide) rfl)
  next first => exact absurd (List.cons.inj first).1 (other '\x7b' (by decide) rfl)
  next first => exact absurd (List.cons.inj first).1 (other 'n' (by decide) rfl)
  next first => exact absurd (List.cons.inj first).1 (other 't' (by decide) rfl)
  next first => exact absurd (List.cons.inj first).1 (other 'f' (by decide) rfl)
  next => rfl

theorem readValue_chars {d : Decimal} (ends : Ends rest)
    (starts : skipBlanks cs = d.chars .document ++ rest) :
    readValue (fuel + 1) cs = some (ofDecimal d, rest) := by
  obtain ⟨c, tail, first, number⟩ := exists_first_chars d rest
  rw [readValue_number (starts.trans first) number, ← first, readNumber?_chars d ends]

theorem readValue_null (starts : skipBlanks cs = "null".toList ++ rest) :
    readValue (fuel + 1) cs = some (null, rest) := by
  rw [readValue, starts]
  rfl

/-- A written number is read again, and a missing one as null. -/
theorem readValue_writeDecimal {d : Option Decimal} (ends : Ends rest)
    (starts : skipBlanks cs = writeDecimal d rest) :
    readValue (fuel + 1) cs = some (ofDecimal? d, rest) := by
  cases d with
  | none => exact readValue_null starts
  | some d => exact readValue_chars ends starts

/-- A value without parts is read again in one step. -/
theorem readValue_writeScalar {j : Json} (ends : Ends rest)
    (starts : skipBlanks cs = j.writeScalar rest) (noItems : ∀ i is, j ≠ arr (i :: is))
    (noFields : ∀ f fs, j ≠ obj (f :: fs)) :
    readValue (fuel + 1) cs = some (j.reread, rest) := by
  cases j with
  | null => exact readValue_null starts
  | unreadable => exact readValue_null starts
  | bool b =>
    cases b <;>
    · rw [readValue, starts]
      rfl
  | int n =>
    have starts : skipBlanks cs = Decimal.integer n ++ rest := starts
    rw [integer_eq_chars] at starts
    rw [readValue_chars ends starts, ofDecimal_ofInt]
    rfl
  | decimal d => exact readValue_chars ends starts
  | float32 x => exact readValue_writeDecimal ends starts
  | float64 x => exact readValue_writeDecimal ends starts
  | str s =>
    obtain ⟨tail, quoted, reads⟩ := readString_quote s rest
    rw [readValue, starts.trans quoted]
    show (readString (.text []) tail).map _ = _
    rw [reads]
    rfl
  | arr js =>
    cases js with
    | nil =>
      rw [readValue, starts]
      rfl
    | cons i is => exact absurd rfl (noItems i is)
  | obj fs =>
    cases fs with
    | nil =>
      rw [readValue, starts]
      rfl
    | cons f fs => exact absurd rfl (noFields f fs)

/-! ### Items and fields -/

/-- After a bracket that does not close at once, items are read. -/
theorem readValue_items {c : Char} {tail inner : List Char} (starts : skipBlanks cs = '[' :: inner)
    (first : skipBlanks inner = c :: tail) (more : c ≠ ']') :
    readValue (fuel + 1) cs = (readItems fuel (c :: tail)).map fun (js, rest) =>
      (arr js, rest) := by
  simp only [readValue, starts, first]
  split
  next close => exact absurd (List.cons.inj close).1 more
  next => rfl

/-- After a brace and a quote, fields are read. -/
theorem readValue_fields {tail inner : List Char} (starts : skipBlanks cs = '\x7b' :: inner)
    (first : skipBlanks inner = '"' :: tail) :
    readValue (fuel + 1) cs = (readFields fuel ('"' :: tail)).map fun (fs, rest) =>
    (ofFields fs, rest) := by
  simp [readValue, starts, first]

/-- An item with a bracket after it is the last. -/
theorem readItems_last {j : Json} {tail : List Char} (item : readValue fuel cs = some (j, tail))
    (close : skipBlanks tail = ']' :: rest) : readItems (fuel + 1) cs = some ([j], rest) := by
  rw [readItems, item]
  dsimp only
  rw [close]
  rfl

/-- An item with a comma after it is followed by others. -/
theorem readItems_more {j : Json} {js : List Json} {tail : List Char}
    (item : readValue fuel cs = some (j, ',' :: tail))
    (others : readItems fuel tail = some (js, rest)) :
    readItems (fuel + 1) cs = some (j :: js, rest) := by
  rw [readItems, item]
  show (readItems fuel tail).map _ = _
  rw [others]
  rfl

theorem readFields_last {name : String} {j : Json} {inner tail : List Char}
    (starts : skipBlanks cs = quote name (':' :: inner))
    (value : readValue fuel inner = some (j, tail)) (close : skipBlanks tail = '\x7d' :: rest) :
    readFields (fuel + 1) cs = some (some [(name, j)], rest) := by
  obtain ⟨text, quoted, reads⟩ := readString_quote name (':' :: inner)
  have colon : skipBlanks (':' :: inner) = ':' :: inner := skipBlanks_cons _ rfl
  simp [readFields, starts, quoted, reads, colon, value, close, consField]

theorem readFields_more {name : String} {j : Json} {fs : List (String × Json)}
    {inner tail : List Char} (starts : skipBlanks cs = quote name (':' :: inner))
    (value : readValue fuel inner = some (j, ',' :: tail))
    (others : readFields fuel tail = some (some fs, rest)) :
    readFields (fuel + 1) cs = some (some ((name, j) :: fs), rest) := by
  obtain ⟨text, quoted, reads⟩ := readString_quote name (':' :: inner)
  have colon : skipBlanks (':' :: inner) = ':' :: inner := skipBlanks_cons _ rfl
  have comma : skipBlanks (',' :: tail) = ',' :: tail := skipBlanks_cons _ rfl
  simp [readFields, starts, quoted, reads, colon, value, comma, others, consField]

end

/-! ### Whole values -/

theorem skipBlanks_close {c : Char} (level : Nat) (rest : List Char)
    (notBlank : isBlank c = false) :
    skipBlanks (l.line level ++ c :: rest) = c :: rest := by
  rw [skipBlanks_line, skipBlanks_cons rest notBlank]

theorem skipBlanks_writtenField (level : Nat) (rest : List Char) (name : String) (j : Json)
    (fs : List (String × Json)) :
    skipBlanks (writtenField l level rest name j fs) = writtenField l level rest name j fs :=
  skipBlanks_cons _ rfl

/-- The value of a field stands after a colon and perhaps blanks. -/
theorem readValue_field {name : String} {j : Json} {fs : List (String × Json)} {level fuel : Nat}
    {rest cs : List Char} (starts : skipBlanks cs = writtenField l level rest name j fs)
    (enough : 2 * cs.length < fuel + 1)
    (reads : ∀ cs, skipBlanks cs = j.written l (level + 1) (writtenFields l level fs rest) →
    2 * cs.length ≤ fuel → readValue fuel cs = some (j.reread, writtenFields l level fs rest)) :
    readValue fuel (l.afterColon ++ j.written l (level + 1) (writtenFields l level fs rest)) =
      some (j.reread, writtenFields l level fs rest) := by
  have shorter := length_skipBlanks cs
  have written :=
    length_quote name
      (':' :: (l.afterColon ++ j.written l (level + 1) (writtenFields l level fs rest)))
  rw [starts, writtenField] at shorter
  rw [List.length_cons] at written
  refine reads _ ?_ (by omega)
  rw [skipBlanks, List.dropWhile_append_of_pos l.afterColon_blank]
  exact skipBlanks_written l j _ _

mutual

/-- A written value is read again, up to what reading changes. The induction is on the fuel, of
which twice the length of the input is enough: reading a value and reading what is in it each take
some. -/
theorem readValue_written :
    ∀ (j : Json) (level : Nat) (rest cs : List Char) (fuel : Nat), Ends rest →
      skipBlanks cs = j.written l level rest → 2 * cs.length ≤ fuel →
      readValue fuel cs = some (j.reread, rest)
  | j, level, rest, cs, 0, _, starts, enough => by
    have written := length_written l level j rest
    -- A value takes a character at least, which pays for two levels: one for the list of items and
    -- one for the item.
    have shorter := length_skipBlanks cs
    rw [starts] at shorter
    omega
  | arr (j :: js), level, rest, cs, fuel + 1, _, starts, enough => by
    have shorter := length_skipBlanks cs
    obtain ⟨c, tail, first, notBlank, more⟩ := exists_first_written l j (level + 1)
      (writtenItems l level js (l.line level ++ ']' :: rest))
    rw [written_arr] at starts
    rw [starts, List.length_cons, List.length_append] at shorter
    have items := readItems_written j js level rest _ fuel (skipBlanks_written l _ _ _) (by omega)
    rw [first] at items
    rw [readValue_items starts (by rw [skipBlanks_line, first, skipBlanks_cons tail notBlank])
      more, items]
    rfl
  | obj ((name, j) :: fs), level, rest, cs, fuel + 1, _, starts, enough => by
    have shorter := length_skipBlanks cs
    rw [written_obj] at starts
    rw [starts, List.length_cons, List.length_append] at shorter
    have fields :=
      readFields_written name j fs level rest _ fuel (skipBlanks_writtenField l _ _ _ _ _)
        (by omega)
    obtain ⟨tail, first⟩ :
        ∃ tail, writtenField l level (l.line level ++ '\x7d' :: rest) name j fs = '"' :: tail :=
      ⟨_, rfl⟩
    rw [first] at fields
    rw [readValue_fields starts (by rw [skipBlanks_line, first, skipBlanks_cons tail rfl]), fields]
    rfl
  | arr [], level, rest, cs, fuel + 1, ends, starts, _ =>
    readValue_writeScalar ends starts nofun nofun
  | obj [], level, rest, cs, fuel + 1, ends, starts, _ =>
    readValue_writeScalar ends starts nofun nofun
  | null, level, rest, cs, fuel + 1, ends, starts, _ =>
    readValue_writeScalar ends starts nofun nofun
  | bool b, level, rest, cs, fuel + 1, ends, starts, _ =>
    readValue_writeScalar ends starts nofun nofun
  | int n, level, rest, cs, fuel + 1, ends, starts, _ =>
    readValue_writeScalar ends starts nofun nofun
  | decimal d, level, rest, cs, fuel + 1, ends, starts, _ =>
    readValue_writeScalar ends starts nofun nofun
  | float32 x, level, rest, cs, fuel + 1, ends, starts, _ =>
    readValue_writeScalar ends starts nofun nofun
  | float64 x, level, rest, cs, fuel + 1, ends, starts, _ =>
    readValue_writeScalar ends starts nofun nofun
  | str s, level, rest, cs, fuel + 1, ends, starts, _ =>
    readValue_writeScalar ends starts nofun nofun
  | unreadable, level, rest, cs, fuel + 1, ends, starts, _ =>
    readValue_writeScalar ends starts nofun nofun

/-- The items of an array are read again up to the bracket. -/
theorem readItems_written :
    ∀ (j : Json) (js : List Json) (level : Nat) (rest cs : List Char) (fuel : Nat),
    skipBlanks cs = j.written l (level + 1)
      (writtenItems l level js (l.line level ++ ']' :: rest)) →
    2 * cs.length < fuel → readItems fuel cs = some (j.reread :: rereadItems js, rest)
  | _, _, _, _, _, 0, _, enough => absurd enough (Nat.not_lt_zero _)
  | j, [], level, rest, cs, fuel + 1, starts, enough => by
    have item := readValue_written j (level + 1) _ cs fuel (ends_writtenItems l level [] _) starts
      (by omega)
    exact readItems_last item (skipBlanks_close l level rest rfl)
  | j, i :: is, level, rest, cs, fuel + 1, starts, enough => by
    have item := readValue_written j (level + 1) _ cs fuel (ends_writtenItems l level (i :: is) _)
      starts (by omega)
    have shorter := length_skipBlanks cs
    have written :=
      length_written l (level + 1) j (writtenItems l level (i :: is) (l.line level ++ ']' :: rest))
    rw [writtenItems_cons] at item written
    rw [starts, writtenItems_cons] at shorter
    rw [List.length_cons] at written
    have others := readItems_written i is level rest
      (l.line (level + 1) ++ i.written l (level + 1)
        (writtenItems l level is (l.line level ++ ']' :: rest))) fuel
      (by rw [skipBlanks_line, skipBlanks_written]) (by omega)
    exact readItems_more item others

/-- The fields of an object are read again up to the brace. -/
theorem readFields_written : ∀ (name : String) (j : Json) (fs : List (String × Json)) (level : Nat)
    (rest cs : List Char) (fuel : Nat),
    skipBlanks cs = writtenField l level (l.line level ++ '\x7d' :: rest) name j fs →
    2 * cs.length < fuel →
      readFields fuel cs = some (some ((name, j.reread) :: rereadFields fs), rest)
  | _, _, _, _, _, _, 0, _, enough => absurd enough (Nat.not_lt_zero _)
  | name, j, [], level, rest, cs, fuel + 1, starts, enough => by
    have value := readValue_field l starts enough fun cs =>
      readValue_written j (level + 1) _ cs fuel (ends_writtenFields l level [] _)
    exact readFields_last starts value (skipBlanks_close l level rest rfl)
  | name, j, (key, i) :: fs, level, rest, cs, fuel + 1, starts, enough => by
    have value := readValue_field l starts enough fun cs =>
      readValue_written j (level + 1) _ cs fuel (ends_writtenFields l level ((key, i) :: fs) _)
    have shorter := length_skipBlanks cs
    have written := length_writtenField l name ((key, i) :: fs) (l.line level ++ '\x7d' :: rest)
      (length_written l (level + 1) j)
    rw [starts] at shorter
    rw [writtenFields_cons, List.length_cons] at written
    have others := readFields_written key i fs level rest
      (l.line (level + 1) ++ writtenField l level (l.line level ++ '\x7d' :: rest) key i fs) fuel
      (by rw [skipBlanks_line, skipBlanks_writtenField]) (by omega)
    rw [writtenField, writtenFields_cons] at starts
    rw [writtenFields_cons] at value
    exact readFields_more starts value others

end

/-- A value that is written is read again, whatever the layout. -/
theorem ofText?_written (j : Json) :
    ofText? (String.ofList (j.written l 0 [])) = some j.reread := by
  have value :=
    readValue_written l j 0 [] _ (2 * (j.written l 0 []).length + 2) (fun _ none => nomatch none)
    (skipBlanks_written l j 0 []) (by omega)
  rw [ofText?, String.toList_ofList, value]
  rfl

end

/-- A compact text is read as the value it was written from, up to what reading changes. -/
theorem ofText?_text (j : Json) : ofText? j.text = some j.reread := by
  rw [text, compact_eq_written 0]
  exact ofText?_written .compact j

/-- An indented text is read as the value it was written from, up to what reading changes. -/
theorem ofText?_prettyText (j : Json) : ofText? j.prettyText = some j.reread := by
  rw [prettyText, indented_eq_written]
  exact ofText?_written .indented j

end ClassInit.Json
