import ClassInit.Text.Utf16
import ClassInit.Number.Decimal
import ClassInit.Tree.TypeRef

/-!
Compile-time constants: their primitive types, conversion between these, and the text a constant
contributes to a string concatenation.
-/

set_option autoImplicit false

namespace ClassInit

/-- The value of a constant expression. A character is one UTF-16 code unit. -/
inductive Constant where
  | boolean (value : Bool)
  | char (value : UInt16)
  | byte (value : Int8)
  | short (value : Int16)
  | int (value : Int32)
  | long (value : Int64)
  | float (value : Float32)
  | double (value : Float)
  | string (value : String)
deriving Inhabited

namespace Constant

/-- The primitive type of a constant that is no string. -/
def primitiveType : Constant → Option PrimitiveType
  | boolean _ => some .boolean
  | char _ => some .char
  | byte _ => some .byte
  | short _ => some .short
  | int _ => some .int
  | long _ => some .long
  | float _ => some .float
  | double _ => some .double
  | string _ => none

def isString : Constant → Bool
  | string _ => true
  | _ => false

def asString : Constant → Option String
  | string s => some s
  | _ => none

def asBool : Constant → Option Bool
  | boolean b => some b
  | _ => none

/-! ## Numeric values

Narrowing an integer drops high bits. A floating-point number becomes the nearest integer towards
zero, the greatest or smallest one if it is out of range, and zero if it is not a number. -/

def asInt : Constant → Option Int32
  | char c => some (Int32.ofNat c.toNat)
  | byte b => some b.toInt32
  | short s => some s.toInt32
  | int i => some i
  | long l => some l.toInt32
  | float f => some f.toInt32
  | double d => some d.toInt32
  | boolean _ | string _ => none

def asLong : Constant → Option Int64
  | long l => some l
  | float f => some f.toInt64
  | double d => some d.toInt64
  | c => c.asInt.map Int32.toInt64

def asFloat : Constant → Option Float32
  | long l => some l.toFloat32
  | float f => some f
  | double d => some d.toFloat32
  | c => c.asInt.map Int32.toFloat32

def asDouble : Constant → Option Float
  | long l => some l.toFloat
  | float f => some f.toFloat
  | double d => some d
  | c => c.asInt.map Int32.toFloat

/-- Conversion to a primitive type. Strings never convert, and booleans only to `boolean`; the small
integer types go through `int`. -/
def convert (c : Constant) (target : PrimitiveType) : Option Constant :=
  match c, target with
  | string _, _ | _, .void => none
  | boolean b, .boolean => some (boolean b)
  | boolean _, _ | _, .boolean => none
  | c, .double => c.asDouble.map double
  | c, .float => c.asFloat.map float
  | c, .long => c.asLong.map long
  | c, .int => c.asInt.map int
  | c, .short => c.asInt.map fun i => short i.toInt16
  | c, .char => c.asInt.map fun i => char i.toUInt32.toUInt16
  | c, .byte => c.asInt.map fun i => byte i.toInt8

/-! ## Text -/

/-- The decimal numeral of an integer. -/
def integerText (n : Int) : String := String.ofList (Number.Decimal.integer n)

/-- What the constant contributes to a concatenation. A code unit that denotes no character
contributes U+FFFD. -/
def concatText : Constant → String
  | boolean b => if b then "true" else "false"
  | char c => String.singleton (Text.charOfUnit c)
  | byte b => integerText b.toInt
  | short s => integerText s.toInt
  | int i => integerText i.toInt
  | long l => integerText l.toInt
  | float f => Number.concatText .single f.toBits.toNat
  | double d => Number.concatText .double d.toBits.toNat
  | string s => s

end Constant

end ClassInit
