import ClassInit.Json.Basic
import ClassInit.Limits
import ClassInit.Text.Hex

/-!
Reading JSON: a text is one value with blanks around it. A number without fraction and exponent is
an integer, but minus zero is a decimal, since no integer is written so. A string in which the
surrogate escapes do not come in pairs is read as an unreadable value, and so is what stands too
deep in a document.
-/

set_option autoImplicit false

namespace ClassInit.Json

/-- The blanks that may stand between tokens. -/
def isBlank (c : Char) : Bool := c == ' ' || c == '\n' || c == '\t' || c == '\r'

def skipBlanks (cs : List Char) : List Char := cs.dropWhile isBlank

/-- The character that a one-letter escape stands for. -/
def simpleEscape? (c : Char) : Option Char :=
  match c with
  | '"' => some '"'
  | '\\' => some '\\'
  | '/' => some '/'
  | 'b' => some '\x08'
  | 'f' => some '\x0c'
  | 'n' => some '\n'
  | 'r' => some '\r'
  | 't' => some '\t'
  | _ => none

/-! ## Strings -/

/-- The first half of a pair of code units. -/
def isHighSurrogate (unit : Nat) : Bool := 0xD800 ≤ unit && unit ≤ 0xDBFF

/-- The second half of a pair of code units. -/
def isLowSurrogate (unit : Nat) : Bool := 0xDC00 ≤ unit && unit ≤ 0xDFFF

/-- The character that a pair of code units denotes. -/
def pairedChar (high low : Nat) : Char :=
  Char.ofNat (0x10000 + (high - 0xD800) * 0x400 + (low - 0xDC00))

/-- What the part of a string read so far amounts to; characters stand with the last one first. -/
inductive StringProgress where
  | text (read : List Char)
  /-- The last character is only half there. -/
  | half (read : List Char) (high : Nat)
  /-- A surrogate stands without its other half, so that the string is no text. -/
  | broken

namespace StringProgress

def addChar (p : StringProgress) (c : Char) : StringProgress :=
  match p with
  | text read => text (c :: read)
  | half _ _ | broken => broken

/-- Adds an escaped code unit. -/
def addUnit (p : StringProgress) (unit : Nat) : StringProgress :=
  match p with
  | text read =>
    if isHighSurrogate unit then half read unit
    else if isLowSurrogate unit then broken
    else text (Char.ofNat unit :: read)
  | half read high => if isLowSurrogate unit then text (pairedChar high unit :: read) else broken
  | broken => broken

def text? : StringProgress → Option String
  | text read => some (String.ofList read.reverse)
  | half _ _ | broken => none

end StringProgress

/-- The text of a string up to its closing quote, if it has one, and what follows it; `p` is what
the part before amounts to. -/
def readString (p : StringProgress) : List Char → Option (Option String × List Char)
  | [] => none
  | '"' :: rest => some (p.text?, rest)
  | '\\' :: 'u' :: a :: b :: c :: d :: rest =>
    match Text.hexNumber? [a, b, c, d] with
    | none => none
    | some unit => readString (p.addUnit unit) rest
  | '\\' :: c :: rest =>
    match simpleEscape? c with
    | none => none
    | some c => readString (p.addChar c) rest
  | c :: rest => if c.toNat < 0x20 then none else readString (p.addChar c) rest

/-! ## Numbers -/

/-- The number that a run of decimal digits denotes. -/
def digitsValue (cs : List Char) : Nat :=
  cs.foldl (fun n c => n * 10 + (c.toNat - '0'.toNat)) 0

/-- The digits after the point, if there is one. -/
def readPlaces? : List Char → Option (List Char × List Char)
  | '.' :: rest =>
    let digits := rest.takeWhile Char.isDigit
    if digits.isEmpty then none else some (digits, rest.dropWhile Char.isDigit)
  | rest => some ([], rest)

/-- The exponent, if there is one. -/
def readExponent? : List Char → Option (Option Int × List Char)
  | c :: rest =>
    if c = 'e' ∨ c = 'E' then
      let (negative, rest) := match rest with
        | '-' :: rest => (true, rest)
        | '+' :: rest => (false, rest)
        | _ => (false, rest)
      let digits := rest.takeWhile Char.isDigit
      if digits.isEmpty then none
      else
        let n : Int := digitsValue digits
        some (some (if negative then -n else n), rest.dropWhile Char.isDigit)
    else some (none, c :: rest)
  | [] => some (none, [])

/-- A number; its whole part has no leading zero. -/
def readNumber? (cs : List Char) : Option (Json × List Char) := do
  let (negative, rest) := match cs with
    | '-' :: rest => (true, rest)
    | _ => (false, cs)
  let whole := rest.takeWhile Char.isDigit
  if whole.isEmpty ∨ (whole.head? = some '0' ∧ whole.length ≠ 1) then none
  else
    let (places, rest) ← readPlaces? (rest.dropWhile Char.isDigit)
    let (exponent, rest) ← readExponent? rest
    let n := digitsValue (whole ++ places)
    if places.isEmpty ∧ exponent.isNone ∧ ¬(negative ∧ n = 0) then
      some (.int (if negative then -n else n), rest)
    else some (.decimal ⟨negative, n, places.length, exponent⟩, rest)

/-! ## Values -/

/-- Drops a word from the front of a text. -/
def dropWord? (word cs : List Char) : Option (List Char) :=
  if word.isPrefixOf cs then some (cs.drop word.length) else none

/-- A string of the given text. -/
def ofString : Option String → Json
  | none => unreadable
  | some s => str s

/-- An object of the given fields. -/
def ofFields : Option (List (String × Json)) → Json
  | none => unreadable
  | some fields => obj fields

/-- Puts a field before others. -/
def consField (name : Option String) (j : Json) (fields : Option (List (String × Json))) :
    Option (List (String × Json)) := do
  return (← name, j) :: (← fields)

mutual

/-- One value and what follows it. -/
def readValue : Nat → List Char → Option (Json × List Char)
  | 0, _ => none
  | fuel + 1, cs =>
    match skipBlanks cs with
    | '"' :: rest => (readString (.text []) rest).map fun (s, rest) => (ofString s, rest)
    | '[' :: rest =>
      match skipBlanks rest with
      | ']' :: rest => some (.arr [], rest)
      | rest => (readItems fuel rest).map fun (items, rest) => (.arr items, rest)
    | '\x7b' :: rest =>
      match skipBlanks rest with
      | '\x7d' :: rest => some (.obj [], rest)
      | rest => (readFields fuel rest).map fun (fields, rest) => (ofFields fields, rest)
    | 'n' :: rest => (dropWord? ['u', 'l', 'l'] rest).map fun rest => (.null, rest)
    | 't' :: rest => (dropWord? ['r', 'u', 'e'] rest).map fun rest => (.bool true, rest)
    | 'f' :: rest => (dropWord? ['a', 'l', 's', 'e'] rest).map fun rest => (.bool false, rest)
    | rest => readNumber? rest

/-- The items of an array up to its closing bracket. -/
def readItems : Nat → List Char → Option (List Json × List Char)
  | 0, _ => none
  | fuel + 1, cs =>
    match readValue fuel cs with
    | none => none
    | some (j, rest) =>
      match skipBlanks rest with
      | ',' :: rest => (readItems fuel rest).map fun (js, rest) => (j :: js, rest)
      | ']' :: rest => some ([j], rest)
      | _ => none

/-- The fields of an object up to its closing brace; none of them is kept if a name has no text. -/
def readFields : Nat → List Char → Option (Option (List (String × Json)) × List Char)
  | 0, _ => none
  | fuel + 1, cs =>
    match skipBlanks cs with
    | '"' :: rest =>
      match readString (.text []) rest with
      | none => none
      | some (name, rest) =>
        match skipBlanks rest with
        | ':' :: rest =>
          match readValue fuel rest with
          | none => none
          | some (j, rest) =>
            match skipBlanks rest with
            | ',' :: rest =>
              (readFields fuel rest).map fun (fs, rest) => (consField name j fs, rest)
            | '\x7d' :: rest => some (consField name j (some []), rest)
            | _ => none
        | _ => none
    | _ => none

end

/-- The value that a text holds, however deep its parts stand. Every two steps of the reader consume
a character, which bounds them. -/
def ofText? (s : String) : Option Json :=
  let cs := s.toList
  match readValue (2 * cs.length + 2) cs with
  | some (j, rest) => if (skipBlanks rest).isEmpty then some j else none
  | none => none

/-! ## Documents -/

mutual

/-- The value without the arrays and objects that stand in `room` others or more, empty ones too. -/
def limited (room : Nat) : Json → Json
  | arr items =>
    match room with
    | 0 => unreadable
    | room + 1 => arr (limitedItems room items)
  | obj fields =>
    match room with
    | 0 => unreadable
    | room + 1 => obj (limitedFields room fields)
  | j => j

def limitedItems (room : Nat) : List Json → List Json
  | [] => []
  | j :: js => j.limited room :: limitedItems room js

def limitedFields (room : Nat) : List (String × Json) → List (String × Json)
  | [] => []
  | (name, j) :: fs => (name, j.limited room) :: limitedFields room fs

end

/-- The value of a document. What stands too deep in it is not readable, so that a record with such
a field is refused if the field is asked for. -/
def ofDocument? (s : String) : Option Json := (ofText? s).map (limited Limits.documentNesting)

end ClassInit.Json
