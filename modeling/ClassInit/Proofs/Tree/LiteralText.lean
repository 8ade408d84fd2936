import ClassInit.Proofs.Folding.Concatenation
import ClassInit.Tree.ExprText

/-!
# The text of string and character literals

The text between the quotes of a literal is read in two steps: first each unicode escape becomes the
code unit that it names, then the literal itself is read, with its simple escapes. Whatever the
literal, its text is printable ASCII, its quotes stand at its ends only, and reading gives its code
units back (`Literal.text_reads_back`).
-/

set_option autoImplicit false

namespace ClassInit

namespace Literal

/-! ## Reading -/

/-- The code unit of an ASCII character. -/
def unitOf (c : Char) : UInt16 := c.toNat.toUInt16

/-- The code units of a source text, its unicode escapes translated. A backslash begins an escape if
an even number of backslashes stands directly before it; the flag says that the number is odd. -/
def translate : Bool → List Char → Option (List UInt16)
  | _, [] => some []
  | false, '\\' :: 'u' :: a :: b :: c :: d :: rest => do
    let value ← Text.hexNumber? [a, b, c, d]
    let units ← translate false rest
    return value.toUInt16 :: units
  | false, '\\' :: 'u' :: _ => none
  | odd, '\\' :: rest => (unitOf '\\' :: ·) <$> translate (!odd) rest
  | _, c :: rest => (Text.unitsOfChar c ++ ·) <$> translate false rest

/-- What a backslash and a further unit stand for. -/
def simpleEscapes : List (UInt16 × UInt16) :=
  [(unitOf 'b', 0x08), (unitOf 't', 0x09), (unitOf 'n', 0x0A), (unitOf 'f', 0x0C),
    (unitOf 'r', 0x0D),
   (unitOf '"', unitOf '"'), (unitOf '\'', unitOf '\''), (unitOf '\\', unitOf '\\')]

/-- The units that the text after an opening quote stands for. The text ends with the first quote
that is not escaped and has no line break. -/
def content? (quote : UInt16) : List UInt16 → Option (List UInt16)
  | [] => none
  | [u] => if u = quote then some [] else none
  | u :: next :: rest =>
    if u = unitOf '\\' then do
      let value ← simpleEscapes.lookup next
      let values ← content? quote rest
      return value :: values
    else if u = quote ∨ u = 0x0A ∨ u = 0x0D then none
    else (u :: ·) <$> content? quote (next :: rest)

/-- The units that a literal in the given quotes stands for, if the text is such a literal. -/
def read? (quote : Char) (text : String) : Option (List UInt16) :=
  match translate false text.toList with
  | some (first :: rest) => if first = unitOf quote then content? (unitOf quote) rest else none
  | _ => none

/-! ## Quotes in a text -/

/-- Printable ASCII. -/
def IsPrintable (c : Char) : Prop := ' ' ≤ c ∧ c ≤ '~'

instance (c : Char) : Decidable (IsPrintable c) := inferInstanceAs (Decidable (_ ∧ _))

/-- Whether the character after the given ones is escaped: an odd number of backslashes stands
directly before it. -/
def Escapes (before : List Char) : Prop := (before.reverse.takeWhile (· = '\\')).length % 2 = 1

/-- A text of printable ASCII that has an unescaped quote at either end, and no other one. -/
structure IsQuoted (quote : Char) (text : String) : Prop where
  printable : ∀ c ∈ text.toList, IsPrintable c
  ends : ∃ body, text.toList = quote :: (body ++ [quote]) ∧ ¬Escapes (quote :: body)
  within : ∀ before after, text.toList = before ++ quote :: after → before = [] ∨ after = [] ∨
    Escapes before

/-! ## Writing one unit -/

variable {quote c : Char} {u : UInt16} {cs before after : List Char}

theorem IsPrintable.toNat (printable : IsPrintable c) : 0x20 ≤ c.toNat ∧ c.toNat ≤ 0x7E := printable

/-- A quote of a character or of a string. -/
def IsQuote (c : Char) : Prop := c = '\'' ∨ c = '"'

theorem IsQuote.printable (isQuote : IsQuote quote) : IsPrintable quote := by
  rcases isQuote with rfl | rfl <;> decide

/-- A quote is not the escape character. -/
theorem IsQuote.ne_backslash (isQuote : IsQuote quote) : quote ≠ '\\' := by
  rcases isQuote with rfl | rfl <;> decide

/-- The three ways to write a unit between quotes. -/
inductive Writes (quote : Char) : UInt16 → List Char → Prop where
  | plain {c : Char} (printable : IsPrintable c) (noQuote : c ≠ quote) (noEscape : c ≠ '\\') :
      Writes quote (unitOf c) [c]
  | simple {e : Char} {u : UInt16} (printable : IsPrintable e) (noMarker : e ≠ 'u')
      (known : simpleEscapes.lookup (unitOf e) = some u) : Writes quote u ['\\', e]
  | coded {u : UInt16} (noQuote : u ≠ unitOf quote) (noEscape : u ≠ unitOf '\\')
    (noBreak : u ≠ 0x0A ∧ u ≠ 0x0D) :
      Writes quote u ('\\' :: 'u' :: Text.hex4 u.toNat)

theorem toNat_unitOf (printable : IsPrintable c) : (unitOf c).toNat = c.toNat := by
  have bounds := printable.toNat
  exact Nat.mod_eq_of_lt (by omega)

/-- Printable characters have different units. -/
theorem unitOf_inj {d : Char} (printable : IsPrintable c) (printable' : IsPrintable d)
    (same : unitOf c = unitOf d) : c = d := by
  have numbers := congrArg UInt16.toNat same
  rw [toNat_unitOf printable, toNat_unitOf printable'] at numbers
  exact Char.toNat_inj.mp numbers

theorem unitsOfChar_printable (printable : IsPrintable c) : Text.unitsOfChar c = [unitOf c] := by
  have bounds := printable.toNat
  rw [Text.unitsOfChar, if_pos (by omega)]
  rfl

/-- A printable unit is the unit of a printable character. -/
theorem printable_ofNat (low : 0x20 ≤ u) (high : u ≤ 0x7E) :
    IsPrintable (Char.ofNat u.toNat) ∧ unitOf (Char.ofNat u.toNat) = u := by
  rw [UInt16.le_iff_toNat_le] at low high
  have valid : u.toNat.isValidChar := .inl (Nat.lt_of_le_of_lt high (by decide))
  have code : (Char.ofNat u.toNat).toNat = u.toNat := by
    rw [Char.ofNat, dif_pos valid]
    rfl
  refine ⟨⟨?_, ?_⟩, ?_⟩
  · show ' '.toNat ≤ (Char.ofNat u.toNat).toNat
    rw [code]
    exact low
  · show (Char.ofNat u.toNat).toNat ≤ '~'.toNat
    rw [code]
    exact high
  · rw [unitOf, code]
    exact UInt16.ofNat_toNat

/-- Every unit is written plainly or as one of the two kinds of escapes. -/
theorem writes_escapeUnit (isQuote : IsQuote quote) (u : UInt16) :
    Writes quote u (escapeUnit quote u) := by
  have escape {e : Char} (printable : IsPrintable e) (noMarker : e ≠ 'u')
      (known : simpleEscapes.lookup (unitOf e) = some u) : Writes quote u ['\\', e] :=
        .simple printable noMarker known
  -- The named escapes, then the printable range with the quote taken out, then everything else by
  -- its code.
  unfold escapeUnit
  iterate 6
    split
    next is => subst is; exact escape (by decide) (by decide) (by decide)
  split
  next noFeed _ noReturn noEscape range =>
    obtain ⟨printable, same⟩ := printable_ofNat range.1 range.2
    dsimp only
    split
    next isQuoted =>
      have is : u = unitOf quote := by rw [← same, isQuoted]
      rw [isQuoted]
      subst is
      rcases isQuote with rfl | rfl
      · exact escape (by decide) (by decide) (by decide)
      · exact escape (by decide) (by decide) (by decide)
    next noQuote =>
      have plain := Writes.plain printable noQuote (by
        intro is
        rw [is] at same
        exact noEscape same.symm)
      rwa [same] at plain
  next _ _ noFeed _ noReturn noEscape range =>
    refine .coded ?_ noEscape ⟨noFeed, noReturn⟩
    intro is
    apply range
    rw [is]
    rcases isQuote with rfl | rfl <;> decide

/-! ## Reading one unit -/

/-- A backslash that does not start a marker changes the parity for the next character. -/
theorem translate_backslash (odd : Bool) {c : Char} (noMarker : c ≠ 'u') (rest : List Char) :
    translate odd ('\\' :: c :: rest) = (unitOf '\\' :: ·) <$> translate (!odd) (c :: rest) := by
  cases odd <;> simp [translate, noMarker]

/-- A coded unit after an even number of backslashes is taken for the unit. -/
theorem translate_coded (u : UInt16) (rest : List Char) :
    translate false ('\\' :: 'u' :: Text.hex4 u.toNat ++ rest) =
      (u :: ·) <$> translate false rest := by
  have value := Text.hexNumber?_hex4 u.toNat_lt
  rw [Text.hex4] at value ⊢
  show translate false ('\\' :: 'u' :: _ :: _ :: _ :: _ :: rest) = _
  rw [translate, value]
  show (translate false rest).bind _ = (translate false rest).map _
  rw [Option.map_eq_bind]
  congr 1
  funext units
  show some ((UInt16.ofNat u.toNat) :: units) = _
  rw [UInt16.ofNat_toNat]
  rfl

/-- A printable character stays as it is. -/
theorem translate_printable (odd : Bool) (printable : IsPrintable c) (noEscape : c ≠ '\\')
    (rest : List Char) :
    translate odd (c :: rest) = (unitOf c :: ·) <$> translate false rest := by
  rw [translate, unitsOfChar_printable printable]
  · rfl
  all_goals simp [noEscape]

/-- A unit that is no quote, escape or line break stands for itself. -/
theorem content?_plain {q : UInt16} {rest : List UInt16} (more : rest ≠ []) (noQuote : u ≠ q)
    (noEscape : u ≠ unitOf '\\') (noBreak : u ≠ 0x0A ∧ u ≠ 0x0D) :
    content? q (u :: rest) = (u :: ·) <$> content? q rest := by
  obtain ⟨next, rest, rfl⟩ := List.exists_cons_of_ne_nil more
  rw [content?, if_neg noEscape, if_neg (by simp [noQuote, noBreak])]

/-- A simple escape stands for its unit. -/
theorem content?_escape {q e : UInt16} {rest : List UInt16}
    (known : simpleEscapes.lookup e = some u) :
    content? q (unitOf '\\' :: e :: rest) = (u :: ·) <$> content? q rest := by
  rw [content?, if_pos rfl, known]
  exact Option.map_eq_bind.symm

/-- What is written for a unit translates to units that are read as that unit. -/
theorem Writes.reads (isQuote : IsQuote quote) (writes : Writes quote u cs) :
    ∃ raw, (∀ rest, translate false (cs ++ rest) = (raw ++ ·) <$> translate false rest) ∧
      ∀ rest ≠ [], content? (unitOf quote) (raw ++ rest) =
        (u :: ·) <$> content? (unitOf quote) rest := by
  cases writes with
  | plain printable noQuote noEscape =>
    refine ⟨[unitOf _], translate_printable false printable noEscape, ?_⟩
    intro rest more
    apply content?_plain more
    · intro same
      exact noQuote (unitOf_inj printable isQuote.printable same)
    · intro same
      exact noEscape (unitOf_inj printable (by decide) same)
    · have number := toNat_unitOf printable
      have bounds := printable.toNat
      constructor
      · intro same
        rw [same, show (0x0A : UInt16).toNat = 10 from rfl] at number
        omega
      · intro same
        rw [same, show (0x0D : UInt16).toNat = 13 from rfl] at number
        omega
  | @simple e _ printable noMarker known =>
    refine ⟨[unitOf '\\', unitOf e], ?_, ?_⟩
    · intro rest
      show translate false ('\\' :: e :: rest) = _
      rw [translate_backslash false noMarker]
      -- A backslash that is itself escaped ends the pair, so that it marks nothing.
      by_cases escape : e = '\\'
      · subst escape
        rw [translate]
        · exact Option.map_map _ _ _
        all_goals simp
      · rw [translate_printable _ printable escape]
        exact Option.map_map _ _ _
    · intro rest _
      exact content?_escape known
  | coded noQuote noEscape noBreak =>
    refine ⟨[u], translate_coded u, ?_⟩
    intro rest more
    exact content?_plain more noQuote noEscape noBreak

/-- What is written for a list of units, and the quote after it, is read as that list. -/
theorem reads_units (isQuote : IsQuote quote) (units : List UInt16) :
    ∃ raw, raw ≠ [] ∧ translate false (units.flatMap (escapeUnit quote) ++ [quote]) = some raw ∧
      content? (unitOf quote) raw = some units := by
  induction units with
  | nil =>
    refine ⟨[unitOf quote], by simp, ?_, ?_⟩
    · show translate false [quote] = _
      rw [translate_printable _ isQuote.printable isQuote.ne_backslash]
      rfl
    · rw [content?, if_pos rfl]
  | cons u units ih =>
    obtain ⟨rest, more, translated, content⟩ := ih
    obtain ⟨raw, translates, reads⟩ := (writes_escapeUnit isQuote u).reads isQuote
    refine ⟨raw ++ rest, by simp [more], ?_, ?_⟩
    · rw [List.flatMap_cons, List.append_assoc, translates, translated]
      rfl
    · rw [reads rest more, content]
      rfl

/-- Quoted units are read back. -/
theorem read?_quoted (isQuote : IsQuote quote) (units : List UInt16) :
    read? quote (String.ofList (quoted quote units)) = some units := by
  obtain ⟨raw, _, translated, content⟩ := reads_units isQuote units
  rw [read?, String.toList_ofList, quoted, translate_printable _ isQuote.printable
    isQuote.ne_backslash, translated]
  simpa using content

/-! ## Quotes in a written text -/

/-- A backslash escapes what follows unless it is escaped itself. -/
theorem escapes_concat (before : List Char) (c : Char) :
    Escapes (before ++ [c]) ↔ c = '\\' ∧ ¬Escapes before := by
  unfold Escapes
  rw [List.reverse_append, List.reverse_singleton, List.singleton_append, List.takeWhile_cons]
  by_cases escape : c = '\\'
  · simp only [escape, decide_true, if_true, List.length_cons, true_and]
    omega
  · simp [escape]

theorem not_escapes_append {c : Char} (noEscape : c ≠ '\\') (before : List Char) :
    ¬Escapes (before ++ [c]) := by
  rw [escapes_concat]
  exact fun escapes => noEscape escapes.1

/-- The digits of a code unit are printable, and none of them is a quote or a backslash. -/
theorem mem_hex4 (isQuote : IsQuote quote) {n : Nat} (mem : c ∈ Text.hex4 n) :
    IsPrintable c ∧ c ≠ quote ∧ c ≠ '\\' := by
  have digits : ∀ k < 16, IsPrintable (Nat.digitChar k) ∧
      (Nat.digitChar k ≠ '\'' ∧ Nat.digitChar k ≠ '"') ∧ Nat.digitChar k ≠ '\\' := by decide
  have digit (k : Nat) (is : c = Nat.digitChar (k % 16)) :
      IsPrintable c ∧ c ≠ quote ∧ c ≠ '\\' := by
    obtain ⟨printable, noQuote, noEscape⟩ := digits (k % 16) (Nat.mod_lt k (by decide))
    rw [is]
    refine ⟨printable, ?_, noEscape⟩
    rcases isQuote with rfl | rfl
    · exact noQuote.1
    · exact noQuote.2
  simp only [Text.hex4, List.mem_cons, List.not_mem_nil, or_false] at mem
  rcases mem with is | is | is | is <;> exact digit _ is

/-- What is written for a unit is printable. -/
theorem Writes.printable (isQuote : IsQuote quote) (writes : Writes quote u cs) :
    ∀ c ∈ cs, IsPrintable c := by
  intro c mem
  cases writes with
  | plain printable =>
    rw [List.mem_singleton] at mem
    exact mem ▸ printable
  | simple printable =>
    simp only [List.mem_cons, List.not_mem_nil, or_false] at mem
    rcases mem with rfl | rfl
    · decide
    · exact printable
  | coded =>
    simp only [List.mem_cons] at mem
    rcases mem with rfl | rfl | digit
    · decide
    · decide
    · exact (mem_hex4 isQuote digit).1

/-- After a text that escapes nothing, a unit is written without an unescaped quote, and escapes
nothing. -/
theorem Writes.escapes (isQuote : IsQuote quote) (writes : Writes quote u cs)
    (even : ¬Escapes before) :
    ¬Escapes (before ++ cs) ∧ ∀ a b, cs = a ++ quote :: b → Escapes (before ++ a) := by
  have inside {a b : List Char} (noQuote : quote ∉ cs) (is : cs = a ++ quote :: b) :
      Escapes (before ++ a) := by
    apply absurd _ noQuote
    rw [is]
    simp
  cases writes with
  | plain _ noQuote noEscape =>
    refine ⟨not_escapes_append noEscape before, ?_⟩
    intro a b
    apply inside
    simpa using noQuote.symm
  | @simple e =>
    have escapes : Escapes (before ++ ['\\']) := (escapes_concat _ _).mpr ⟨rfl, even⟩
    constructor
    · rw [List.append_cons, escapes_concat]
      exact fun escaped => escaped.2 escapes
    · intro a b is
      cases a with
      | nil => exact absurd (List.cons.inj is).1.symm isQuote.ne_backslash
      | cons first a =>
        obtain ⟨rfl, is⟩ := List.cons.inj is
        cases a with
        | nil => exact escapes
        | cons _ a => simp at is
  -- The last character is a digit, and no character of the form is the quote.
  | coded =>
    constructor
    · have split : ∀ d₁ d₂ d₃ d₄,
          before ++ ['\\', 'u', d₁, d₂, d₃, d₄] =
            before ++ ['\\', 'u', d₁, d₂, d₃] ++ [d₄] := by simp
      rw [Text.hex4, split]
      apply not_escapes_append
      exact (mem_hex4 isQuote (n := u.toNat) (by simp [Text.hex4])).2.2
    · intro a b
      apply inside
      intro mem
      simp only [List.mem_cons] at mem
      rcases mem with is | is | digit
      · exact isQuote.ne_backslash is
      · rcases isQuote with rfl | rfl <;> simp at is
      · exact (mem_hex4 isQuote digit).2.1 rfl

/-- Written units leave nothing escaped, and every quote among them is. -/
theorem escapes_units (isQuote : IsQuote quote) (units : List UInt16) (even : ¬Escapes before) :
    ¬Escapes (before ++ units.flatMap (escapeUnit quote)) ∧
      ∀ a b, units.flatMap (escapeUnit quote) = a ++ quote :: b → Escapes (before ++ a) := by
  induction units generalizing before with
  | nil =>
    refine ⟨by simpa using even, ?_⟩
    intro a b is
    simp at is
  | cons u units ih =>
    obtain ⟨even', first⟩ := (writes_escapeUnit isQuote u).escapes isQuote even
    obtain ⟨last, rest⟩ := ih even'
    refine ⟨by simpa using last, ?_⟩
    intro a b is
    rw [List.flatMap_cons, List.append_eq_append_iff] at is
    rcases is with ⟨a', rfl, is⟩ | ⟨b', is, is'⟩
    · rw [← List.append_assoc]
      exact rest a' b is
    · cases b' with
      | nil =>
        rw [List.append_nil] at is
        have escapes := rest [] b is'.symm
        rwa [List.append_nil, is] at escapes
      | cons q b' =>
        obtain ⟨rfl, _⟩ := List.cons.inj is'
        exact first a b' is

theorem isQuoted_quoted (isQuote : IsQuote quote) (units : List UInt16) :
    IsQuoted quote (String.ofList (quoted quote units)) := by
  have even : ¬Escapes [quote] := not_escapes_append isQuote.ne_backslash []
  obtain ⟨last, inner⟩ := escapes_units isQuote units even
  refine ⟨?_, ⟨units.flatMap (escapeUnit quote), String.toList_ofList, last⟩, ?_⟩
  · intro c mem
    rw [String.toList_ofList, quoted] at mem
    simp only [List.mem_cons, List.mem_append, List.mem_flatMap, List.not_mem_nil, or_false] at mem
    rcases mem with rfl | ⟨u, _, mem⟩ | rfl
    · exact isQuote.printable
    · exact (writes_escapeUnit isQuote u).printable isQuote c mem
    · exact isQuote.printable
  · intro before after is
    rw [String.toList_ofList, quoted] at is
    -- A quote is the first character or the last, or stands in between, where what is before it
    -- escapes it.
    cases before with
    | nil => exact .inl rfl
    | cons q before =>
      obtain ⟨rfl, tail⟩ := List.cons.inj is
      right
      rcases List.append_eq_append_iff.mp tail with ⟨a, _, is'⟩ | ⟨b, is', is''⟩
      · left
        cases a with
        | nil => exact (List.cons.inj is').2.symm
        | cons _ a => simp at is'
      · cases b with
        | nil =>
          left
          exact (List.cons.inj is'').2
        | cons r b =>
          right
          obtain ⟨rfl, _⟩ := List.cons.inj is''
          exact inner before b is'

end Literal

/-! ## Units determine the text -/

namespace Text

/-- The units of a text determine its first character and the rest. -/
theorem unitsOfChar_append_inj {c d : Char} {xs ys : List UInt16}
    (same : unitsOfChar c ++ xs = unitsOfChar d ++ ys) : c = d ∧ xs = ys := by
  have same_number {n m : Nat} (small : n < 0x10000) (small' : m < 0x10000) (same : n.toUInt16 =
      m.toUInt16) :
        n = m := by
    have numbers : n % 0x10000 = m % 0x10000 := congrArg UInt16.toNat same
    rwa [Nat.mod_eq_of_lt small, Nat.mod_eq_of_lt small'] at numbers
  have range : c.toNat < 0xD800 ∨ 0xDFFF < c.toNat ∧ c.toNat < 0x110000 := c.valid
  have range' : d.toNat < 0xD800 ∨ 0xDFFF < d.toNat ∧ d.toNat < 0x110000 := d.valid
  suffices numbers : c.toNat = d.toNat ∧ xs = ys from ⟨Char.toNat_inj.mp numbers.1, numbers.2⟩
  unfold unitsOfChar at same
  dsimp only at same
  by_cases small : c.toNat < 0x10000
  · by_cases small' : d.toNat < 0x10000
    · rw [if_pos small, if_pos small'] at same
      obtain ⟨units, rest⟩ := List.cons.inj same
      exact ⟨same_number small small' units, rest⟩
    · rw [if_pos small, if_neg small'] at same
      have units := same_number small (by omega) (List.cons.inj same).1
      omega
  · by_cases small' : d.toNat < 0x10000
    · rw [if_neg small, if_pos small'] at same
      have units := same_number (by omega) small' (List.cons.inj same).1
      omega
    · rw [if_neg small, if_neg small'] at same
      obtain ⟨high, same⟩ := List.cons.inj same
      obtain ⟨low, rest⟩ := List.cons.inj same
      have highs := same_number (by omega) (by omega) high
      have lows := same_number (by omega) (by omega) low
      refine ⟨?_, rest⟩
      omega

theorem utf16_injective : Function.Injective utf16 := by
  have lists : ∀ cs ds : List Char, cs.flatMap unitsOfChar = ds.flatMap unitsOfChar → cs = ds := by
    intro cs
    induction cs with
    | nil =>
      intro ds same
      cases ds with
      | nil => rfl
      | cons d ds =>
        have positive := length_unitsOfChar d
        have lengths := congrArg List.length same
        simp only [List.flatMap_nil, List.length_nil, List.flatMap_cons,
          List.length_append] at lengths
        omega
    | cons c cs ih =>
      intro ds same
      cases ds with
      | nil =>
        have positive := length_unitsOfChar c
        have lengths := congrArg List.length same
        simp only [List.flatMap_nil, List.length_nil, List.flatMap_cons,
          List.length_append] at lengths
        omega
      | cons d ds =>
        obtain ⟨rfl, rest⟩ := unitsOfChar_append_inj same
        rw [ih ds rest]
  intro s s' same
  exact String.toList_inj.mp (lists _ _ same)

end Text

namespace Literal

/-- For every text and every code unit: the literal is printed as printable ASCII with an unescaped
quote at either end and no other, reading it gives its code units, and no other literal of its kind
is printed in the same way. -/
theorem text_reads_back :
    (∀ s : String, IsQuoted '"' (string s).text ∧ read? '"' (string s).text = some (Text.utf16 s)) ∧
      (Function.Injective fun s : String => (string s).text) ∧
      (∀ u : UInt16, IsQuoted '\'' (char u).text ∧ read? '\'' (char u).text = some [u]) ∧
      Function.Injective fun u : UInt16 => (char u).text := by
  have strings (s : String) : read? '"' (string s).text = some (Text.utf16 s) :=
    read?_quoted (.inr rfl) _
  have chars (u : UInt16) : read? '\'' (char u).text = some [u] := read?_quoted (.inl rfl) _
  refine ⟨?_, ?_, ?_, ?_⟩
  · intro s
    exact ⟨isQuoted_quoted (.inr rfl) _, strings s⟩
  · intro s s' same
    apply Text.utf16_injective
    apply Option.some.inj
    rw [← strings s, ← strings s']
    exact congrArg (read? '"') same
  · intro u
    exact ⟨isQuoted_quoted (.inl rfl) _, chars u⟩
  · intro u u' same
    apply List.singleton_inj.mp
    apply Option.some.inj
    rw [← chars u, ← chars u']
    exact congrArg (read? '\'') same

/-- A backslash before the letter `u` is doubled, so that no unicode escape begins at it. -/
example :
    (string "\\u0041").text = "\"\\\\u0041\"" ∧
      read? '"' "\"\\\\u0041\"" = some (Text.utf16 "\\u0041") ∧
      read? '"' "\"\\u0041\"" = some (Text.utf16 "A") := by
  decide +kernel

end Literal

end ClassInit
