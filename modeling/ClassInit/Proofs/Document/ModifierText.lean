import Mathlib.Data.UInt
import ClassInit.Modifiers.Text

/-!
# The text form of a modifier set

The written form of a set of modifiers denotes the set, whatever its 32 bits are
(`Modifiers.ofText?_text`): its parts are found again between the bars, each of them denotes its
bits, and together these are all bits of the set.
-/

set_option autoImplicit false

namespace ClassInit

/-! ## Hexadecimal numerals -/

namespace Text

/-- The digits of a number denote the number. -/
theorem foldlM_hexDigits (n : Nat) :
    (hexDigits n).foldlM (fun m c => (hexValue? c).map (m * 16 + ·)) 0 = some n := by
  unfold hexDigits
  induction n using Nat.strongRecOn with
  | ind n ih =>
    by_cases small : n < 16
    · rw [Nat.toDigits_of_lt_base small, List.foldlM_cons, hexValue?_digitChar n small,
        Option.map_some, Nat.zero_mul, Nat.zero_add]
      rfl
    · rw [Nat.toDigits_of_base_le (by decide) (Nat.le_of_not_lt small), List.foldlM_append,
        ih (n / 16) (Nat.div_lt_self (by omega) (by decide)), Option.bind_eq_bind, Option.bind_some,
        List.foldlM_cons, 
        hexValue?_digitChar _ (Nat.mod_lt n (by decide)), Option.map_some]
      show some (n / 16 * 16 + n % 16) = some n
      rw [Nat.div_add_mod']

/-- A number is read back from its hexadecimal digits. -/
theorem hexNumber?_hexDigits (n : Nat) : hexNumber? (hexDigits n) = some n := by
  have value := foldlM_hexDigits n
  unfold hexNumber?
  split
  · rename_i empty
    exact absurd empty (Nat.toDigits_ne_nil)
  · exact value

theorem hexValue?_of_mem_hexDigits {n : Nat} {c : Char} (listed : c ∈ hexDigits n) :
    ∃ d < 16, c = Nat.digitChar d := by
  unfold hexDigits at listed
  induction n using Nat.strongRecOn with
  | ind n ih =>
    by_cases small : n < 16
    · rw [Nat.toDigits_of_lt_base small] at listed
      exact ⟨n, small, List.mem_singleton.mp listed⟩
    · rw [Nat.toDigits_of_base_le (by decide) (Nat.le_of_not_lt small)] at listed
      rcases List.mem_append.mp listed with listed | listed
      · exact ih (n / 16) (Nat.div_lt_self (by omega) (by decide)) listed
      · exact ⟨n % 16, Nat.mod_lt n (by decide), List.mem_singleton.mp listed⟩

/-! ## Parts between bars -/

/-- What stands between bars, without the blanks around it. -/
structure IsPart (p : List Char) : Prop where
  notEmpty : p ≠ []
  noBar : '|' ∉ p
  noBlank : ∀ c ∈ p, isBlank c = false

/-- Blanks before a part are dropped. -/
theorem dropWhile_blanks {bs p : List Char} (blanks : ∀ c ∈ bs, isBlank c = true) (rest : List Char)
    (notEmpty : p ≠ []) (noBlank : ∀ c ∈ p, isBlank c = false) :
    (bs ++ p ++ rest).dropWhile isBlank = p ++ rest := by
  obtain ⟨c, p, rfl⟩ := List.exists_cons_of_ne_nil notEmpty
  rw [List.append_assoc, List.dropWhile_append_of_pos blanks, List.cons_append,
    List.dropWhile_cons_of_neg (by rw [noBlank c List.mem_cons_self]; exact Bool.false_ne_true)]

/-- A part with blanks around it is trimmed to the part. -/
theorem trim_padded {bs bs' p : List Char} (before : ∀ c ∈ bs, isBlank c = true) (part : IsPart p)
    (after : ∀ c ∈ bs', isBlank c = true) : trim (bs ++ p ++ bs') = p := by
  have reversed : (bs'.reverse ++ p.reverse ++ []).dropWhile isBlank = p.reverse ++ [] :=
    dropWhile_blanks (fun c hc => after c (List.mem_reverse.mp hc)) []
      (List.reverse_eq_nil_iff.not.mpr part.notEmpty)
      (fun c hc => part.noBlank c (List.mem_reverse.mp hc))
  rw [List.append_nil, List.append_nil] at reversed
  rw [trim, dropWhile_blanks before bs' part.notEmpty part.noBlank, List.reverse_append, reversed,
    List.reverse_reverse]

/-- The parts of a text in which they are joined by bars with blanks. -/
theorem trim_splitOn {bs : List Char} (blanks : ∀ c ∈ bs, isBlank c = true) {p : List Char}
    {ps : List (List Char)} (parts : ∀ q ∈ p :: ps, IsPart q) :
    ((bs ++ [' ', '|', ' '].intercalate (p :: ps)).splitOn '|').map trim = p :: ps := by
  have noBar : ∀ bs : List Char, (∀ c ∈ bs, isBlank c = true) → ∀ c ∈ bs, (c == '|') = false := by
    intro bs blanks c hc
    refine beq_false_of_ne fun bar => ?_
    have blank := blanks c hc
    rw [bar] at blank
    exact absurd blank (by decide)
  -- The blanks before the next part come from the joint, so the induction is for any blanks in
  -- front.
  induction ps generalizing bs p with
  | nil =>
    have part := parts p List.mem_cons_self
    rw [List.intercalate_singleton, List.splitOn, List.splitOnP_eq_singleton fun c hc =>
      ?_, List.map_singleton]
    · have nothing : ∀ c ∈ ([] : List Char), isBlank c = true :=
        fun _ hc => absurd hc List.not_mem_nil
      have trimmed := trim_padded blanks part nothing
      rw [List.append_nil] at trimmed
      rw [trimmed]
    · rcases List.mem_append.mp hc with hc | hc
      · exact noBar bs blanks c hc
      · exact beq_false_of_ne fun bar => part.noBar (bar ▸ hc)
  | cons q ps ih =>
    have part := parts p List.mem_cons_self
    have space : ∀ c ∈ [' '], isBlank c = true := List.forall_mem_singleton.mpr rfl
    have joined : bs ++ [' ', '|', ' '].intercalate (p :: q :: ps) =
        (bs ++ p ++ [' ']) ++ '|' :: ([' '] ++ [' ', '|', ' '].intercalate (q :: ps)) := by
      rw [List.intercalate_cons_cons]
      simp only [List.append_assoc, List.cons_append, List.nil_append]
    have rest := ih space fun r hr => parts r (List.mem_cons_of_mem _ hr)
    rw [List.splitOn] at rest
    rw [joined, List.splitOn, List.splitOnP_append_cons _ _ (by decide), List.map_append, rest,
      List.splitOnP_eq_singleton fun c hc => ?_, List.map_singleton, trim_padded blanks part space]
    · rfl
    · rcases List.mem_append.mp hc with hc | hc
      · rcases List.mem_append.mp hc with hc | hc
        · exact noBar bs blanks c hc
        · exact beq_false_of_ne fun bar => part.noBar (bar ▸ hc)
      · exact noBar _ space c hc

end Text

namespace Modifiers

open Text

/-! ## The parts of a set -/

theorem toList_name (m : Modifier) : m.name.toList = m.keyword.toList.map Char.toUpper :=
  String.toList_map

/-- The name of a modifier is a part. -/
theorem isPart_name (m : Modifier) : IsPart m.name.toList := by
  have all :
      m.name.toList ≠ [] ∧ '|' ∉ m.name.toList ∧ m.name.toList.all (isBlank · == false) = true := by
    rw [toList_name]
    cases m <;> decide +kernel
  exact ⟨all.1, all.2.1, fun c hc => eq_of_beq (List.all_eq_true.mp all.2.2 c hc)⟩

theorem isPart_hex (n : Nat) : IsPart ('0' :: 'x' :: hexDigits n) := by
  have digits : ∀ c ∈ hexDigits n, c ≠ '|' ∧ isBlank c = false := by
    intro c hc
    obtain ⟨d, small, rfl⟩ := hexValue?_of_mem_hexDigits hc
    have all : ∀ d < 16, Nat.digitChar d ≠ '|' ∧ isBlank (Nat.digitChar d) = false := by decide
    exact all d small
  have all : ∀ c ∈ '0' :: 'x' :: hexDigits n, c ≠ '|' ∧ isBlank c = false :=
    List.forall_mem_cons.mpr ⟨by decide, List.forall_mem_cons.mpr ⟨by decide, digits⟩⟩
  exact ⟨List.cons_ne_nil _ _, fun bar => (all _ bar).1 rfl, fun c hc => (all c hc).2⟩

/-- A set is written in parts. -/
theorem isPart_of_mem_parts {s : Modifiers} {p : List Char} (listed : p ∈ s.parts) : IsPart p := by
  rcases List.mem_append.mp listed with listed | listed
  · obtain ⟨m, -, rfl⟩ := List.mem_map.mp listed
    exact isPart_name m
  · split at listed
    · exact absurd listed List.not_mem_nil
    · rw [List.mem_singleton.mp listed]
      exact isPart_hex _

/-- A modifier is read back from its name. -/
theorem ofPart?_name (m : Modifier) : ofPart? m.name.toList = some (of m) := by
  unfold ofPart?
  simp only [toList_name]
  cases m <;> decide +kernel

/-- Bits without a name are read back from their numeral. -/
theorem ofPart?_hex (n : UInt32) : ofPart? ('0' :: 'x' :: hexDigits n.toNat) = some ⟨n⟩ := by
  show bitsOfHex? (hexDigits n.toNat) = some ⟨n⟩
  have value := hexNumber?_hexDigits n.toNat
  unfold bitsOfHex?
  split
  · -- No digit is a plus sign.
    rename_i rest plus
    obtain ⟨d, small, digit⟩ := hexValue?_of_mem_hexDigits (n := n.toNat) (c := '+')
      (by rw [plus]; exact List.mem_cons_self)
    have all : ∀ d < 16, Nat.digitChar d ≠ '+' := by decide
    exact absurd digit.symm (all d small)
  · dsimp only
    rw [value, Option.bind_eq_bind, Option.bind_some, if_pos n.toNat_lt_size]
    exact congrArg (fun n => some (Modifiers.mk n)) n.ofNat_toNat

/-! ## The bits of a set -/

/-- A bit is set or it is not. -/
theorem and_bit (b : UInt32) (m : Modifier) : b &&& m.bit = m.bit ∨ b &&& m.bit = 0 := by
  obtain ⟨k, single⟩ : ∃ k, m.bit.toBitVec = BitVec.twoPow 32 k := by
    cases m
    · exact ⟨0, rfl⟩
    · exact ⟨1, rfl⟩
    · exact ⟨2, rfl⟩
    · exact ⟨3, rfl⟩
    · exact ⟨4, rfl⟩
    · exact ⟨5, rfl⟩
    · exact ⟨6, rfl⟩
    · exact ⟨7, rfl⟩
    · exact ⟨8, rfl⟩
    · exact ⟨10, rfl⟩
    · exact ⟨11, rfl⟩
    · exact ⟨16, rfl⟩
  have bits :
      (b &&& m.bit).toBitVec = if b.toBitVec.getLsbD k then BitVec.twoPow 32 k else 0#32 := by
    rw [UInt32.toBitVec_and, single, BitVec.and_twoPow]
  split at bits
  · exact .inl (UInt32.toBitVec_inj.mp (bits.trans single.symm))
  · exact .inr (UInt32.toBitVec_inj.mp bits)

theorem and_or_distrib (b x y : UInt32) : b &&& (x ||| y) = (b &&& x) ||| (b &&& y) := by
  apply UInt32.toBitVec_inj.mp
  rw [UInt32.toBitVec_and, UInt32.toBitVec_or, UInt32.toBitVec_or, UInt32.toBitVec_and,
    UInt32.toBitVec_and, BitVec.and_or_distrib_left]

/-- Bits that are split in two by a mask are put together again. -/
theorem and_or_and_not (b x : UInt32) : (b &&& x) ||| (b &&& ~~~x) = b := by
  rw [← and_or_distrib, UInt32.or_not_self, UInt32.and_neg_one]

/-- The union of several modifiers has the bits of each. -/
theorem foldl_union_bits (ms : List Modifier) (acc : Modifiers) :
    (ms.foldl (fun s m => s.union (of m)) acc).bits = acc.bits ||| (ofList ms).bits := by
  induction ms generalizing acc with
  | nil => exact UInt32.or_zero.symm
  | cons m ms ih =>
    show (ms.foldl _ (acc.union (of m))).bits = acc.bits ||| (ms.foldl _ (empty.union (of m))).bits
    rw [ih, ih, ← UInt32.or_assoc]
    show acc.bits ||| m.bit ||| _ = acc.bits ||| (0 ||| m.bit) ||| _
    rw [UInt32.zero_or]

/-- The flags of a set among those listed have the bits of the set among theirs. -/
theorem ofList_filter_bits (s : Modifiers) (ms : List Modifier) :
    (ofList (ms.filter s.contains)).bits = s.bits &&& (ofList ms).bits := by
  have cons : ∀ (m : Modifier) (ms : List Modifier), (ofList (m :: ms)).bits =
      m.bit ||| (ofList ms).bits := by
    intro m ms
    show (ms.foldl _ (empty.union (of m))).bits = _
    rw [foldl_union_bits]
    show 0 ||| m.bit ||| _ = _
    rw [UInt32.zero_or]
  induction ms with
  | nil => exact UInt32.and_zero.symm
  | cons m ms ih =>
    rw [cons, and_or_distrib, ← ih]
    by_cases has : s.contains m = true
    · rw [List.filter_cons_of_pos has, cons, show s.bits &&& m.bit = m.bit from beq_iff_eq.mp has]
    · have lacks := (and_bit s.bits m).resolve_left fun same => has (beq_iff_eq.mpr same)
      rw [List.filter_cons_of_neg has, lacks, UInt32.zero_or]

/-- The names of modifiers are read as their union. -/
theorem foldlM_names (ms : List Modifier) (acc : Modifiers) :
    (ms.map fun m => m.name.toList).foldlM (fun set part => (ofPart? part).map set.union) acc =
      some (ms.foldl (fun s m => s.union (of m)) acc) := by
  induction ms generalizing acc with
  | nil => rfl
  | cons m ms ih =>
    rw [List.map_cons, List.foldlM_cons, ofPart?_name, Option.map_some, Option.bind_eq_bind,
      Option.bind_some, ih]
    rfl

/-- The parts of a set denote the set. -/
theorem foldlM_parts (s : Modifiers) :
    s.parts.foldlM (fun set part => (ofPart? part).map set.union) empty = some s := by
  have named :
      (ofList (Modifier.all.filter s.contains)).bits = s.bits &&& (ofList Modifier.all).bits :=
    ofList_filter_bits s _
  have whole := and_or_and_not s.bits (ofList Modifier.all).bits
  rw [parts, List.foldlM_append, foldlM_names, Option.bind_eq_bind, Option.bind_some]
  show List.foldlM _ (ofList (Modifier.all.filter s.contains)) _ = _
  split
  · rename_i none
    rw [show s.bits &&& ~~~(ofList Modifier.all).bits = 0 from beq_iff_eq.mp none, UInt32.or_zero,
      ← named] at whole
    exact congrArg (fun bits => some (Modifiers.mk bits)) whole
  · rw [List.foldlM_cons, ofPart?_hex, Option.map_some, Option.bind_eq_bind, Option.bind_some]
    rw [← named] at whole
    exact congrArg (fun bits => some (Modifiers.mk bits)) whole

/-- The written form of a set denotes the set. -/
theorem ofText?_text (s : Modifiers) : ofText? s.text = some s := by
  have folded := foldlM_parts s
  have isPart : ∀ p ∈ s.parts, IsPart p := fun p hp => isPart_of_mem_parts hp
  unfold ofText? text
  rw [String.toList_ofList]
  cases listed : s.parts with
  | nil =>
    rw [listed] at folded
    exact folded
  | cons p ps =>
    rw [listed] at isPart folded
    have part := isPart p List.mem_cons_self
    have separated :
        (([] ++ [' ', '|', ' '].intercalate (p :: ps)).splitOn '|').map trim = p :: ps :=
      trim_splitOn (fun _ hc => absurd hc List.not_mem_nil) isPart
    obtain ⟨c, cs, rfl⟩ := List.exists_cons_of_ne_nil part.notEmpty
    -- The first character is no blank.
    rw [if_neg, ← List.nil_append ([' ', '|', ' '].intercalate _), separated, folded]
    intro blank
    have first := List.all_eq_true.mp blank c (by cases ps <;> exact List.mem_cons_self)
    rw [part.noBlank c List.mem_cons_self] at first
    cases first

/-- Flags and unnamed bits. -/
example : text ⟨0x40000019⟩ = "PUBLIC | STATIC | FINAL | 0x40000000" := by decide +kernel

end Modifiers

end ClassInit
