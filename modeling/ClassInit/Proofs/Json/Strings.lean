import ClassInit.Json.Reader
import ClassInit.Json.Writer

/-!
# Strings in documents

A quoted string is read as its text, whatever characters it has (`Json.readString_quote`).
-/

set_option autoImplicit false

namespace ClassInit.Json

/-- A control character stands as its code unit, which is no surrogate. -/
theorem addUnit_control (read : List Char) {c : Char} (control : c.toNat < 0x20) :
    StringProgress.addUnit (.text read) c.toNat = .text (c :: read) := by
  have notHigh : isHighSurrogate c.toNat = false := by
    rw [isHighSurrogate, decide_eq_false (by omega), Bool.false_and]
  have notLow : isLowSurrogate c.toNat = false := by
    rw [isLowSurrogate, decide_eq_false (by omega), Bool.false_and]
  rw [StringProgress.addUnit, notHigh, notLow, Char.ofNat_toNat]
  rfl

theorem readString_plain {p : StringProgress} {c : Char} {rest : List Char} (noQuote : c ≠ '"')
    (noEscape : c ≠ '\\') (noControl : ¬c.toNat < 0x20) :
    readString p (c :: rest) = readString (p.addChar c) rest := by
  rw [readString, if_neg noControl]
  · exact noQuote
  · exact fun _ _ _ _ _ escape _ => noEscape escape
  · exact fun _ _ escape _ => noEscape escape

/-- One character is read as it was written. -/
theorem readString_escapeChar (read : List Char) (c : Char) (rest : List Char) :
    readString (.text read) (escapeChar c ++ rest) = readString (.text (c :: read)) rest := by
  unfold escapeChar
  split
  next quote => subst quote; rfl
  split
  next escape => subst escape; rfl
  split
  next backspace => subst backspace; rfl
  split
  next feed => subst feed; rfl
  split
  next line => subst line; rfl
  split
  next carriage => subst carriage; rfl
  split
  next tab => subst tab; rfl
  next noQuote noEscape _ _ _ _ _ =>
    split
    next control =>
      have value := Text.hexNumber?_hex4 (n := c.toNat) (by omega)
      rw [Text.hex4] at value
      show readString _ ('\\' :: 'u' :: _ :: _ :: _ :: _ :: rest) = _
      rw [readString, value]
      show readString (StringProgress.addUnit _ _) rest = _
      rw [addUnit_control read control]
    next noControl => exact readString_plain noQuote noEscape noControl

/-- A quoted string is read as its text. -/
theorem readString_quote (s : String) (rest : List Char) :
    ∃ tail, quote s rest = '"' :: tail ∧ readString (.text []) tail = some (some s, rest) := by
  have all : ∀ cs read : List Char,
      readString (.text read) (cs.foldr (fun c out => escapeChar c ++ out) ('"' :: rest)) =
        some (some (String.ofList (read.reverse ++ cs)), rest) := by
    intro cs
    induction cs with
    | nil =>
      intro read
      rw [List.append_nil]
      rfl
    | cons c cs ih =>
      intro read
      rw [List.foldr_cons, readString_escapeChar, ih, List.reverse_cons, List.append_assoc,
        List.singleton_append]
  refine ⟨_, rfl, ?_⟩
  rw [all, List.reverse_nil, List.nil_append, String.ofList_toList]

end ClassInit.Json
