import Mathlib.Data.Int.Bitwise
import Mathlib.Tactic.Ring

/-!
# Words as integers

What the operators on words of a fixed width do to the integers that the words stand for: the
bitwise operators act on the two's complement of unbounded length (`toInt_and`, `toInt_or`,
`toInt_xor`), and the shifts multiply and divide by powers of two (`Constant.toInt_shiftInt`,
`Constant.toInt_shiftLong`). Addition, multiplication, division and comparison are in the library.
-/

set_option autoImplicit false

namespace ClassInit.Words

variable {w : Nat} (x y : BitVec w)

/-! ## Bits -/

/-- Above its width, a word read as an integer repeats its sign. -/
theorem testBit_toInt (i : Nat) : x.toInt.testBit i = if i < w then x.getLsbD i else x.msb := by
  have below : x.toNat < 2 ^ w := x.isLt
  cases negative : x.msb with
  | false =>
    rw [BitVec.toInt_eq_toNat_of_msb negative]
    show x.toNat.testBit i = _
    split
    · rfl
    · rename_i outside
      exact BitVec.getLsbD_of_ge x i (by omega)
  | true =>
    have complement : x.toInt = Int.negSucc (2 ^ w - (x.toNat + 1)) := by
      rw [BitVec.toInt_eq_msb_cond, negative, if_pos rfl, Int.negSucc_eq]
      push_cast [show x.toNat + 1 ≤ 2 ^ w from below]
      ring
    rw [complement]
    show (!(2 ^ w - (x.toNat + 1)).testBit i) = _
    rw [Nat.testBit_two_pow_sub_succ below]
    split <;> rename_i place <;> simp [place, BitVec.getLsbD]

/-- The bits of an integer determine it, its sign included. -/
theorem eq_of_testBit_eq {m n : Int} (same : ∀ i, m.testBit i = n.testBit i) : m = n := by
  -- Far enough out, the bits of an integer are its sign.
  have far (a b : Nat) : a.testBit (a + b) = false :=
    Nat.testBit_eq_false_of_lt
      (Nat.lt_of_lt_of_le Nat.lt_two_pow_self (Nat.pow_le_pow_right (by decide) (by omega)))
  cases m with
  | ofNat m =>
    cases n with
    | ofNat n => exact congrArg _ (Nat.eq_of_testBit_eq same)
    | negSucc n =>
      have bits : m.testBit (m + n) = !n.testBit (m + n) := same (m + n)
      rw [far m n, Nat.add_comm, far n m] at bits
      cases bits
  | negSucc m =>
    cases n with
    | ofNat n =>
      have bits : (!m.testBit (m + n)) = n.testBit (m + n) := same (m + n)
      rw [far m n, Nat.add_comm, far n m] at bits
      cases bits
    | negSucc n => exact congrArg _ (Nat.eq_of_testBit_eq fun i => Bool.not_inj (same i))

/-- An operator that works bit by bit on two words, their signs included, does so on their
integers. -/
theorem toInt_bitwise {x y z : BitVec w} {n : Int} (f : Bool → Bool → Bool)
    (integers : ∀ i, n.testBit i = f (x.toInt.testBit i) (y.toInt.testBit i))
    (words : ∀ i, z.getLsbD i = f (x.getLsbD i) (y.getLsbD i)) (signs : z.msb = f x.msb y.msb) :
    z.toInt = n := by
  refine eq_of_testBit_eq fun i => ?_
  rw [integers, testBit_toInt, testBit_toInt, testBit_toInt, words, signs]
  split <;> rfl

/-- The conjunction of words is the one of the integers in two's complement. -/
theorem toInt_and : (x &&& y).toInt = Int.land x.toInt y.toInt :=
  toInt_bitwise (· && ·) (Int.testBit_land _ _) (fun _ => BitVec.getLsbD_and) (BitVec.msb_and)

theorem toInt_or : (x ||| y).toInt = Int.lor x.toInt y.toInt :=
  toInt_bitwise (· || ·) (Int.testBit_lor _ _) (fun _ => BitVec.getLsbD_or) (BitVec.msb_or)

theorem toInt_xor : (x ^^^ y).toInt = Int.xor x.toInt y.toInt :=
  toInt_bitwise (· ^^ ·) (Int.testBit_lxor _ _) (fun _ => BitVec.getLsbD_xor) (BitVec.msb_xor)

theorem toInt_and32 (a b : Int32) : (a &&& b).toInt = Int.land a.toInt b.toInt :=
  toInt_and a.toBitVec b.toBitVec
theorem toInt_or32 (a b : Int32) : (a ||| b).toInt = Int.lor a.toInt b.toInt :=
  toInt_or a.toBitVec b.toBitVec
theorem toInt_xor32 (a b : Int32) : (a ^^^ b).toInt = Int.xor a.toInt b.toInt :=
  toInt_xor a.toBitVec b.toBitVec
theorem toInt_and64 (a b : Int64) : (a &&& b).toInt = Int.land a.toInt b.toInt :=
  toInt_and a.toBitVec b.toBitVec
theorem toInt_or64 (a b : Int64) : (a ||| b).toInt = Int.lor a.toInt b.toInt :=
  toInt_or a.toBitVec b.toBitVec
theorem toInt_xor64 (a b : Int64) : (a ^^^ b).toInt = Int.xor a.toInt b.toInt :=
  toInt_xor a.toBitVec b.toBitVec

/-- The complement never leaves the range. -/
theorem toInt_not32 (a : Int32) : (~~~a).toInt = -a.toInt - 1 := by
  have lower := a.le_toInt
  have upper := a.toInt_lt
  rw [Int32.toInt_not, Int.bmod_eq_of_le] <;> omega

theorem toInt_not64 (a : Int64) : (~~~a).toInt = -a.toInt - 1 := by
  have lower := a.le_toInt
  have upper := a.toInt_lt
  rw [Int64.toInt_not, Int.bmod_eq_of_le] <;> omega

/-! ## Shifts -/

/-- The unsigned value is the remainder of the signed one. -/
theorem toNat_eq_emod : (x.toNat : Int) = x.toInt % (2 ^ w : Nat) := by
  rw [BitVec.toInt_eq_toNat_bmod, Int.bmod_emod, ← Int.natCast_emod, Nat.mod_eq_of_lt x.isLt]

/-- Shifting to the left multiplies, and wraps around. -/
theorem toInt_shiftLeft (k : Nat) : (x <<< k).toInt = (x.toInt * (2 ^ k : Nat)).bmod (2 ^ w) := by
  rw [BitVec.toInt_eq_toNat_bmod, BitVec.toInt_eq_toNat_bmod, BitVec.toNat_shiftLeft,
    Nat.shiftLeft_eq, Int.bmod_mul_bmod, Int.natCast_emod, Int.emod_bmod, Int.natCast_mul]

/-- Shifting to the right with the sign divides, rounding down. -/
theorem toInt_sshiftRight (k : Nat) : (x.sshiftRight k).toInt = x.toInt.fdiv (2 ^ k : Nat) := by
  rw [BitVec.toInt_sshiftRight, Int.shiftRight_eq_div_pow,
    Int.fdiv_eq_ediv_of_nonneg _ (Int.natCast_nonneg _)]

/-- Shifting to the right without the sign divides the unsigned value. -/
theorem toInt_ushiftRight (k : Nat) :
    (x >>> k).toInt = (x.toInt % (2 ^ w : Nat) / (2 ^ k : Nat)).bmod (2 ^ w) := by
  rw [BitVec.toInt_eq_toNat_bmod, BitVec.toNat_ushiftRight, ← toNat_eq_emod,
    Nat.shiftRight_eq_div_pow, Int.natCast_ediv]

/-- The low bits of a word are what remains of its integer. -/
theorem toNat_and_mask (k : Nat) (narrow : k ≤ w) :
    ((x &&& BitVec.ofNat w (2 ^ k - 1)).toNat : Int) = x.toInt % (2 ^ k : Nat) := by
  have fits : 2 ^ k - 1 < 2 ^ w :=
    Nat.lt_of_lt_of_le (Nat.sub_lt (Nat.two_pow_pos k) Nat.one_pos)
      (Nat.pow_le_pow_right (by decide) narrow)
  rw [BitVec.toNat_and, BitVec.toNat_ofNat, Nat.mod_eq_of_lt fits, Nat.and_two_pow_sub_one_eq_mod,
    Int.natCast_emod, toNat_eq_emod]
  exact Int.emod_emod_of_dvd _ (Int.natCast_dvd_natCast.mpr (Nat.pow_dvd_pow 2 narrow))

/-! A distance is taken modulo the number of bits twice, by the shift and by its caller. -/

section

variable {n bits : BitVec w} (positive : bits.msb = false) (few : n.toNat < bits.toNat)

include positive few in
/-- A distance below the number of bits is its own remainder. -/
theorem toNat_smod_of_lt : (n.smod bits).toNat = n.toNat := by
  have nonneg : n.msb = false := by
    rw [BitVec.msb_eq_decide, decide_eq_false_iff_not] at positive ⊢
    omega
  rw [BitVec.smod_eq, positive, nonneg]
  exact Nat.mod_eq_of_lt few

include positive few in
theorem toInt_shiftLeft_smod :
    (x <<< n.smod bits).toInt = (x.toInt * (2 ^ n.toNat : Nat)).bmod (2 ^ w) := by
  rw [BitVec.shiftLeft_eq', toNat_smod_of_lt positive few, toInt_shiftLeft]

include positive few in
theorem toInt_sshiftRight_smod :
    (x.sshiftRight' (n.smod bits)).toInt = x.toInt.fdiv (2 ^ n.toNat : Nat) := by
  rw [BitVec.sshiftRight_eq', toNat_smod_of_lt positive few, toInt_sshiftRight]

include few in
theorem toInt_ushiftRight_umod :
    (x >>> (n % bits)).toInt = (x.toInt % (2 ^ w : Nat) / (2 ^ n.toNat : Nat)).bmod (2 ^ w) := by
  rw [BitVec.ushiftRight_eq', BitVec.toNat_umod, Nat.mod_eq_of_lt few, toInt_ushiftRight]

end

end ClassInit.Words
