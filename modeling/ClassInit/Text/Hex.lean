/-!
Hexadecimal numerals. Reading takes digits of either case, writing gives lower case. The four digits
of a code unit are read as the unit (`hexNumber?_hex4`).
-/

set_option autoImplicit false

namespace ClassInit.Text

/-- The value of a hexadecimal digit of either case. -/
def hexValue? (c : Char) : Option Nat :=
  if '0' ≤ c ∧ c ≤ '9' then some (c.toNat - '0'.toNat)
  else if 'a' ≤ c ∧ c ≤ 'f' then some (c.toNat - 'a'.toNat + 10)
  else if 'A' ≤ c ∧ c ≤ 'F' then some (c.toNat - 'A'.toNat + 10)
  else none

/-- The number that a non-empty run of hexadecimal digits denotes. -/
def hexNumber? : List Char → Option Nat
  | [] => none
  | cs => cs.foldlM (fun n c => (hexValue? c).map (n * 16 + ·)) 0

/-- The digits of a number, without leading zeros. -/
def hexDigits (n : Nat) : List Char := Nat.toDigits 16 n

/-- The four digits of a code unit. -/
def hex4 (n : Nat) : List Char :=
  [Nat.digitChar (n / 0x1000 % 16), Nat.digitChar (n / 0x100 % 16), Nat.digitChar (n / 0x10 % 16),
   Nat.digitChar (n % 16)]

theorem hexValue?_digitChar : ∀ n < 16, hexValue? (Nat.digitChar n) = some n := by decide

/-- Four digits are read as the code unit that they were written for. -/
theorem hexNumber?_hex4 {n : Nat} (bound : n < 0x10000) : hexNumber? (hex4 n) = some n := by
  have digit (k : Nat) : hexValue? (Nat.digitChar (k % 16)) = some (k % 16) :=
    hexValue?_digitChar _ (Nat.mod_lt k (by decide))
  simp only [hexNumber?, hex4, List.foldlM_cons, List.foldlM_nil, digit, Option.map_some,
    Option.bind_eq_bind, Option.bind_some, Option.pure_def]
  congr 1
  omega

end ClassInit.Text
