import ClassInit.Text.Hex
import ClassInit.Tree.Expr

/-!
The source text of expressions. Operators keep the shape of the tree, and parentheses stand only
where the tree has them. Characters and strings are escaped by code unit, so that the text of a
literal is printable ASCII.
-/

set_option autoImplicit false

namespace ClassInit

/-! ## Literals -/

namespace Literal

/-- How a code unit stands between quotes of the given kind. -/
def escapeUnit (quote : Char) (u : UInt16) : List Char :=
  if u = 0x08 then ['\\', 'b']
  else if u = 0x09 then ['\\', 't']
  else if u = 0x0A then ['\\', 'n']
  else if u = 0x0C then ['\\', 'f']
  else if u = 0x0D then ['\\', 'r']
  else if u = 0x5C then ['\\', '\\']
  else if 0x20 ≤ u ∧ u ≤ 0x7E then
    let c := Char.ofNat u.toNat
    if c = quote then ['\\', c] else [c]
  else '\\' :: 'u' :: Text.hex4 u.toNat

/-- Code units between quotes. -/
def quoted (quote : Char) (units : List UInt16) : List Char :=
  quote :: (units.flatMap (escapeUnit quote) ++ [quote])

/-- A floating-point literal. What is not finite has no literal and is written as a quotient. -/
def floatingText (suffix : String) (isNaN isInfinite isNegative : Bool) (text : String) : String :=
  if isNaN then "(0.0" ++ suffix ++ " / 0.0" ++ suffix ++ ")"
  else if isInfinite then
    "(" ++ (if isNegative then "-" else "") ++ "1.0" ++ suffix ++ " / 0.0" ++ suffix ++ ")"
  else text ++ suffix

def text : Literal → String
  | boolean b => if b then "true" else "false"
  | null => "null"
  | char c => String.ofList (quoted '\'' [c])
  | string s => String.ofList (quoted '"' (Text.utf16 s))
  | int i => (Constant.int i).concatText
  | long l => (Constant.long l).concatText ++ "L"
  | float f => floatingText "f" f.isNaN f.isInf (f < 0) (Constant.float f).concatText
  | double d => floatingText "" d.isNaN d.isInf (d < 0) (Constant.double d).concatText

end Literal

/-! ## Expressions -/

mutual

def Expr.text : Expr → String
  | .literal _ v => v.text
  | .name _ n _ => n
  | .this _ => "this"
  | .fieldAccess _ t n _ => t.text ++ "." ++ n
  | .unary _ op e => op.text ++ e.text
  | .step _ op e => e.text ++ op.text
  | .binary _ op l r => l.text ++ " " ++ op.text ++ " " ++ r.text
  | .conditional _ c t e => c.text ++ " ? " ++ t.text ++ " : " ++ e.text
  | .parenthesized _ e => "(" ++ e.text ++ ")"
  | .cast _ t e => "(" ++ t.text ++ ") " ++ e.text
  | .assignment _ op l r => l.text ++ " " ++ op.text ++ " " ++ r.text
  | .call _ none n as _ => n ++ "(" ++ ", ".intercalate (Expr.texts as) ++ ")"
  | .call _ (some r) n as _ =>
    r.text ++ "." ++ n ++ "(" ++ ", ".intercalate (Expr.texts as) ++ ")"
  | .new _ t as _ => "new " ++ t.simpleName ++ "(" ++ ", ".intercalate (Expr.texts as) ++ ")"

def Expr.texts : List Expr → List String
  | [] => []
  | e :: es => e.text :: Expr.texts es

end

/-- The arguments of a call, without the parentheses. -/
def Expr.argumentText (arguments : List Expr) : String := ", ".intercalate (Expr.texts arguments)

end ClassInit
