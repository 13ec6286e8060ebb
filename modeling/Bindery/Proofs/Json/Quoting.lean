import Bindery.Json.Token
import Mathlib.Data.Nat.Notation

/-!
# What is quoted is read back

Inside quotes a character is written as it is, after a backslash, or as a number. However it is
written, both readings of a string find it again and know where it ends
(`Bindery.Json.exists_spelled`). So a text in quotes is read back as that text, and what follows the
quotes is left (`Bindery.Json.readChars_quote`, `Bindery.Json.skipChars_quote`).
-/

namespace Bindery.Json

variable {c first letter : Char} {more : List Char}

/-! ### One character -/

/-- **A character is spelled** by a first character and some more: it is what a reader finds there,
whatever follows. -/
structure Spelled (c first : Char) (more : List Char) : Prop where
  ne_quote : first ≠ '\"'
  readUnit_eq : ∀ rest, readUnit first (more ++ rest) = .ok (c, more.length)
  skipUnit_eq : ∀ rest, skipUnit first (more ++ rest) = .ok more.length

/-- A letter after a backslash spells the character that it stands for. -/
theorem spelled_of_letter (h : simpleEscape? letter = some c) : Spelled c '\\' [letter] := by
  have hne : letter ≠ 'u' := by
    rintro rfl
    cases h
  exact ⟨by decide, fun rest => by simp [readUnit, h], fun rest => by simp [skipUnit, h]⟩

theorem hexValue?_hexDigit {n : ℕ} (h : n < 16) : hexValue? (hexDigit n) = some n := by
  have hall : ∀ n < 16, hexValue? (hexDigit n) = some n := by decide
  exact hall n h

section Control

variable (h : c.toNat < 0x20) (rest : List Char)

include h

/-- The digits of a control read back as its number. -/
theorem readHex_control :
    readHex ('0' :: '0' :: hexDigit (c.toNat / 16) :: hexDigit (c.toNat % 16) :: rest) =
      .ok c.toNat := by
  have hzero : hexValue? '0' = some 0 := rfl
  have hhigh : hexValue? (hexDigit (c.toNat / 16)) = some (c.toNat / 16) :=
    hexValue?_hexDigit (by omega)
  have hlow : hexValue? (hexDigit (c.toNat % 16)) = some (c.toNat % 16) :=
    hexValue?_hexDigit (by omega)
  have hvalue : ((0 * 16 + 0) * 16 + c.toNat / 16) * 16 + c.toNat % 16 = c.toNat := by omega
  simp only [readHex, hzero, hhigh, hlow, Option.bind_eq_bind, Option.bind_some, Option.pure_def,
    hvalue]

/-- The number of a control is no half of a surrogate pair. -/
theorem readCode_control :
    readCode ('0' :: '0' :: hexDigit (c.toNat / 16) :: hexDigit (c.toNat % 16) :: rest) =
      .ok (c, 4) := by
  have htrailing : isTrailing c.toNat = false := by
    simp [isTrailing]
    omega
  have hleading : isLeading c.toNat = false := by
    simp [isLeading]
    omega
  rw [readCode, readHex_control h]
  simp [bind, Except.bind, pure, Except.pure, htrailing, hleading]

end Control

theorem spelled_of_control (h : c.toNat < 0x20) :
    Spelled c '\\' ['u', '0', '0', hexDigit (c.toNat / 16), hexDigit (c.toNat % 16)] where
  ne_quote := by decide
  readUnit_eq rest := by simp [readUnit, readCode_control h, Except.map]
  skipUnit_eq rest := by simp [skipUnit, readHex_control h, Except.map]

/-- All other characters spell themselves. -/
theorem spelled_self (hquote : c ≠ '\"') (hbackslash : c ≠ '\\') (hcontrol : ¬ c.toNat < 0x20) :
    Spelled c c [] where
  ne_quote := hquote
  readUnit_eq rest := by simp [readUnit, hbackslash, hcontrol]
  skipUnit_eq rest := by simp [skipUnit, hbackslash, hcontrol]

/-- **What is written for a character** spells it. -/
theorem exists_spelled (c : Char) :
    ∃ first more, escapeChar c = first :: more ∧ Spelled c first more := by
  rw [escapeChar.eq_def]
  split
  · exact ⟨_, _, rfl, spelled_of_letter rfl⟩
  · exact ⟨_, _, rfl, spelled_of_letter rfl⟩
  · exact ⟨_, _, rfl, spelled_of_letter rfl⟩
  · exact ⟨_, _, rfl, spelled_of_letter rfl⟩
  · exact ⟨_, _, rfl, spelled_of_letter rfl⟩
  · exact ⟨_, _, rfl, spelled_of_letter rfl⟩
  · exact ⟨_, _, rfl, spelled_of_letter rfl⟩
  · next hquote hbackslash _ _ _ _ _ =>
    split
    · next hcontrol => exact ⟨_, _, rfl, spelled_of_control hcontrol⟩
    · next hcontrol => exact ⟨_, _, rfl, spelled_self hquote hbackslash hcontrol⟩

/-! ### A whole text -/

theorem readChars_of_spelled (h : Spelled c first more) (rest : List Char) :
    readChars (first :: (more ++ rest)) =
      (readChars rest).map fun (chars, rest) => (c :: chars, rest) := by
  rw [readChars, if_neg h.ne_quote, h.readUnit_eq]
  change (readChars ((more ++ rest).drop more.length) >>= _) = _
  rw [List.drop_left]
  rfl

theorem skipChars_of_spelled (h : Spelled c first more) (rest : List Char) :
    skipChars (first :: (more ++ rest)) = skipChars rest := by
  rw [skipChars, if_neg h.ne_quote, h.skipUnit_eq]
  change skipChars ((more ++ rest).drop more.length) = _
  rw [List.drop_left]

/-- **Characters in quotes are read back**, from the opening quote on. -/
theorem readChars_quote (chars rest : List Char) :
    readChars (chars.flatMap escapeChar ++ '\"' :: rest) = .ok (chars, rest) := by
  induction chars with
  | nil => rw [List.flatMap_nil, List.nil_append, readChars, if_pos rfl]
  | cons c chars ih =>
    obtain ⟨first, more, hescape, hspelled⟩ := exists_spelled c
    rw [List.flatMap_cons, hescape, List.append_assoc, List.cons_append,
      readChars_of_spelled hspelled, ih]
    rfl

theorem skipChars_quote (chars rest : List Char) :
    skipChars (chars.flatMap escapeChar ++ '\"' :: rest) = .ok rest := by
  induction chars with
  | nil => rw [List.flatMap_nil, List.nil_append, skipChars, if_pos rfl]
  | cons c chars ih =>
    obtain ⟨first, more, hescape, hspelled⟩ := exists_spelled c
    rw [List.flatMap_cons, hescape, List.append_assoc, List.cons_append,
      skipChars_of_spelled hspelled, ih]

/-- **A text in quotes is read back.** -/
theorem readString_quote (text : String) (rest : List Char) :
    readString (text.toList.flatMap escapeChar ++ '\"' :: rest) = ⟨.ok text, .ok rest⟩ := by
  rw [readString, readChars_quote, skipChars_quote]
  change Token.mk (.ok (String.ofList text.toList)) _ = _
  rw [String.ofList_toList]

end Bindery.Json
