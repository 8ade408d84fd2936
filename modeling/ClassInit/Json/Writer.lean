import ClassInit.Json.Basic
import ClassInit.Text.Hex

/-!
Writing JSON: a compact form without blanks, and an indented form with two spaces a level. Both
append to a text that follows, so that writing is linear in the size of the output.
-/

set_option autoImplicit false

namespace ClassInit.Json

/-- How a character stands in a string: quotes, backslashes and controls are escaped. -/
def escapeChar (c : Char) : List Char :=
  if c = '"' then ['\\', '"']
  else if c = '\\' then ['\\', '\\']
  else if c = '\x08' then ['\\', 'b']
  else if c = '\x0c' then ['\\', 'f']
  else if c = '\n' then ['\\', 'n']
  else if c = '\r' then ['\\', 'r']
  else if c = '\t' then ['\\', 't']
  else if c.toNat < 0x20 then '\\' :: 'u' :: Text.hex4 c.toNat
  else [c]

/-- A quoted string. -/
def quote (s : String) (rest : List Char) : List Char :=
  '"' :: s.toList.foldr (fun c out => escapeChar c ++ out) ('"' :: rest)

/-- A floating-point number as a decimal, or null. -/
def writeDecimal (d : Option Number.Decimal) (rest : List Char) : List Char :=
  match d with
  | none => "null".toList ++ rest
  | some d => d.chars .document ++ rest

/-- A value that has no parts, and the brackets of one that may have them. -/
def writeScalar (j : Json) (rest : List Char) : List Char :=
  match j with
  | null | unreadable => "null".toList ++ rest
  | bool true => "true".toList ++ rest
  | bool false => "false".toList ++ rest
  | int n => Number.Decimal.integer n ++ rest
  | decimal d => writeDecimal (some d) rest
  | float32 x =>
    writeDecimal (Number.documentDecimal? .single .document32 x.toBits.toNat) rest
  | float64 x =>
    writeDecimal (Number.documentDecimal? .double .document64 x.toBits.toNat) rest
  | str s => quote s rest
  | arr _ => '[' :: ']' :: rest
  | obj _ => '\x7b' :: '\x7d' :: rest

/-! ## Compact form -/

mutual

def compact : Json → List Char → List Char
  | arr (j :: js), rest => '[' :: j.compact (compactItems js (']' :: rest))
  | obj ((name, j) :: fs), rest =>
    '\x7b' :: quote name (':' :: j.compact (compactFields fs ('\x7d' :: rest)))
  | j, rest => j.writeScalar rest

/-- Further items, each after a comma. -/
def compactItems : List Json → List Char → List Char
  | [], rest => rest
  | j :: js, rest => ',' :: j.compact (compactItems js rest)

/-- Further fields, each after a comma. -/
def compactFields : List (String × Json) → List Char → List Char
  | [], rest => rest
  | (name, j) :: fs, rest => ',' :: quote name (':' :: j.compact (compactFields fs rest))

end

/-- The value in compact form. -/
def text (j : Json) : String := String.ofList (j.compact [])

/-! ## Indented form -/

/-- A line break and the indentation of a level. -/
def newLine (level : Nat) (rest : List Char) : List Char :=
  '\n' :: (List.replicate (2 * level) ' ' ++ rest)

mutual

def indented (level : Nat) : Json → List Char → List Char
  | arr (j :: js), rest =>
    '[' :: newLine (level + 1)
      (j.indented (level + 1) (indentedItems level js (newLine level (']' :: rest))))
  | obj ((name, j) :: fs), rest =>
    '\x7b' :: newLine (level + 1) (quote name (':' :: ' ' ::
      j.indented (level + 1) (indentedFields level fs (newLine level ('\x7d' :: rest)))))
  | j, rest => j.writeScalar rest

/-- Further items, each after a comma on a line of its own. -/
def indentedItems (level : Nat) : List Json → List Char → List Char
  | [], rest => rest
  | j :: js, rest =>
    ',' :: newLine (level + 1) (j.indented (level + 1) (indentedItems level js rest))

/-- Further fields, each after a comma on a line of its own. -/
def indentedFields (level : Nat) : List (String × Json) → List Char → List Char
  | [], rest => rest
  | (name, j) :: fs, rest =>
    ',' :: newLine (level + 1) (quote name (':' :: ' ' ::
      j.indented (level + 1) (indentedFields level fs rest)))

end

/-- The value in indented form, without a final line break. -/
def prettyText (j : Json) : String := String.ofList (j.indented 0 [])

end ClassInit.Json
