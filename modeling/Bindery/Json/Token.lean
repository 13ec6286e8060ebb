import Bindery.Json.Fault

/-!
# Words, numbers and strings of a document

A token of a document can be looked at in two ways. A **strict** reading wants its
value. A **lax** one only wants to pass over it, as for a field that nobody asked
for, and forgives what has no bearing on where the token ends: numbers out of range
and halves of surrogate pairs. `Bindery.Json.Token` holds the outcome of both, and
what the lax reading leaves is where the text goes on.

Every reader here is a function on what is left of the text. A string is read one
written character at a time: `Bindery.Json.readUnit` says which character an escape
stands for and how much of the text it takes.
-/

namespace Bindery.Json

/-- **A token under both readings**. -/
structure Token (α : Type) where
  /-- The value, or what is wrong with it. -/
  strict : Except Fault α
  /-- What is left after the token, or why it has no end. -/
  lax : Except Fault (List Char)

/-! ### Blanks -/

/-- The characters that may stand between tokens. -/
def isBlank (c : Char) : Bool := c == ' ' || c == '\n' || c == '\t' || c == '\r'

/-- What is left after the blanks at the beginning. -/
def skipBlanks (text : List Char) : List Char := text.dropWhile isBlank

theorem length_skipBlanks_le (text : List Char) : (skipBlanks text).length ≤ text.length :=
  (List.dropWhile_suffix isBlank).length_le

/-! ### Words -/

/-- What is left after the remaining letters of a word. -/
def skipLetters : List Char → List Char → Except Fault (List Char)
  | [], text => .ok text
  | _ :: _, [] => .error (.here .endInValue [])
  | letter :: letters, c :: text =>
    if c = letter then skipLetters letters text
    else .error (.next .expectedLiteral (c :: text))

/-- A word that stands for a value, from its second letter on. -/
def readWord (value : Json) (letters text : List Char) : Token Json :=
  let lax := skipLetters letters text
  ⟨lax.map fun _ => value, lax⟩

/-! ### Numbers -/

/-- A number as it is written. -/
structure NumberText where
  negative : Bool
  /-- The digits before the point. -/
  whole : List Char
  /-- The digits after the point, if there is one. -/
  fraction : List Char
  /-- Whether the exponent is negative. -/
  exponentNegative : Bool
  /-- The digits of the exponent, if there is one. -/
  exponent : List Char
  /-- What is left from the first digit of the exponent on. -/
  exponentAt : List Char
  /-- What is left after the number. -/
  rest : List Char

/-- One or more digits, or the point where the first of them is missing. -/
def spanDigits (text : List Char) : Except (List Char) (List Char × List Char) :=
  match text.takeWhile Char.isDigit with
  | [] => .error text
  | digits => .ok (digits, text.dropWhile Char.isDigit)

/-- The sign of a number or an exponent, if it is this one. -/
def spanSign (sign : Char) : List Char → Bool × List Char
  | c :: text => if c = sign then (true, text) else (false, c :: text)
  | [] => (false, [])

/-- The digits before the point. A zero at the front stands alone. -/
def spanWhole (text : List Char) : Except (List Char) (List Char × List Char) :=
  match spanDigits text with
  | .ok ('0' :: digit :: digits, rest) => .error (digit :: digits ++ rest)
  | outcome => outcome

/-- The digits after the point. -/
def spanFraction : List Char → Except (List Char) (List Char × List Char)
  | '.' :: text => spanDigits text
  | text => .ok ([], text)

/-- The sign of the exponent, its digits, and what is left before and after them. -/
def spanExponent (text : List Char) :
    Except (List Char) (Bool × List Char × List Char × List Char) :=
  match text with
  | [] => .ok (false, [], [], [])
  | c :: rest =>
    if c = 'e' ∨ c = 'E' then do
      let (negative, start) := spanSign '-' rest
      let (_, start) := if negative then (true, start) else spanSign '+' start
      let (digits, rest) ← spanDigits start
      return (negative, digits, start, rest)
    else .ok (false, [], text, text)

/-- **The parts of a number**, or the point where it goes wrong. -/
def spanNumber (text : List Char) : Except (List Char) NumberText := do
  let (negative, afterSign) := spanSign '-' text
  let (whole, afterWhole) ← spanWhole afterSign
  let (fraction, afterFraction) ← spanFraction afterWhole
  let (exponentNegative, exponent, exponentAt, rest) ← spanExponent afterFraction
  return { negative, whole, fraction, exponentNegative, exponent, exponentAt, rest }

/-- Whether a number has neither a point nor an exponent. -/
def NumberText.isWhole (written : NumberText) : Bool :=
  written.fraction.isEmpty && written.exponent.isEmpty

/-- The digit that a character stands for. -/
def digitValue (c : Char) : Nat := c.toNat - '0'.toNat

/-- A significand and a power of ten. Digits that do not fit into 64 bits are
dropped, so the significand may be full. -/
structure Significand where
  value : Nat
  exponent : Int
  full : Bool

namespace Significand

/-- The largest significand. -/
def limit : Nat := Nat.pow 2 64 - 1

/-- One more digit before the point. One that is dropped still counts for the power
of ten. -/
def pushWhole (s : Significand) (digit : Char) : Significand :=
  let value := s.value * 10 + digitValue digit
  if s.full ∨ limit < value then { s with exponent := s.exponent + 1, full := true }
  else { s with value }

/-- One more digit after the point. -/
def pushFraction (s : Significand) (digit : Char) : Significand :=
  let value := s.value * 10 + digitValue digit
  if s.full ∨ limit < value then { s with full := true }
  else { s with value, exponent := s.exponent - 1 }

end Significand

/-- The largest exponent that is counted. -/
def exponentLimit : Nat := Nat.pow 2 31 - 1

/-- The value of the digits of an exponent, or, if it is too large, how many digits
it takes to see that. -/
def readExponent (digits : List Char) : Except Nat Nat :=
  go 0 0 digits
where
  /-- The value and the number of the digits so far, and those to come. -/
  go (value count : Nat) : List Char → Except Nat Nat
    | [] => .ok value
    | digit :: digits =>
      let value := value * 10 + digitValue digit
      if exponentLimit < value then .error (count + 1) else go value (count + 1) digits

/-- **The value of a number**, if it is in range. -/
def NumberText.value (written : NumberText) : Except Fault Number :=
  let whole := written.whole.foldl Significand.pushWhole ⟨0, 0, false⟩
  if written.isWhole ∧ ¬ whole.full ∧ ¬ written.negative then
    .ok (.integer whole.value)
  else if written.isWhole ∧ ¬ whole.full ∧ 0 < whole.value ∧ whole.value ≤ Nat.pow 2 63 then
    .ok (.integer (-whole.value))
  else
    let significand := written.fraction.foldl Significand.pushFraction { whole with full := false }
    match readExponent written.exponent with
    | .ok exponent =>
      let exponent : Int := if written.exponentNegative then -exponent else exponent
      let exponent := significand.exponent + exponent
      match Number.magnitude significand.value exponent with
      | some _ => .ok (.decimal written.negative significand.value exponent)
      | none => .error (.here .numberOutOfRange written.rest)
    | .error count =>
      if significand.value = 0 ∨ written.exponentNegative then .ok (.decimal written.negative 0 0)
      else .error ⟨.numberOutOfRange, .at written.exponentAt count⟩

/-- A number of a document. A strict reading takes the end of the text within a
number for a value that is cut off. -/
def readNumber (text : List Char) : Token Json :=
  match spanNumber text with
  | .ok written => ⟨written.value.map Json.number, .ok written.rest⟩
  | .error rest =>
    ⟨.error (.next (if rest.isEmpty then .endInValue else .invalidNumber) rest),
     .error (.next .invalidNumber rest)⟩

/-! ### Strings -/

/-- The digit that a hexadecimal character stands for. -/
def hexValue? (c : Char) : Option Nat :=
  if '0' ≤ c ∧ c ≤ '9' then some (c.toNat - '0'.toNat)
  else if 'a' ≤ c ∧ c ≤ 'f' then some (c.toNat - 'a'.toNat + 10)
  else if 'A' ≤ c ∧ c ≤ 'F' then some (c.toNat - 'A'.toNat + 10)
  else none

/-- The number that the next four hexadecimal digits stand for. What is looked at
are the next four bytes, whether or not they are digits. -/
def readHex (text : List Char) : Except Fault Nat :=
  let digits? :=
    match text with
    | a :: b :: c :: d :: _ => do
      return (((← hexValue? a) * 16 + (← hexValue? b)) * 16 + (← hexValue? c)) * 16
        + (← hexValue? d)
    | _ => none
  match digits? with
  | some value => .ok value
  | none =>
    if Position.byteLength text < 4 then .error (.here .endInString [])
    else .error ⟨.invalidEscape, .at text 4⟩

/-- The character that a letter after a backslash stands for. -/
def simpleEscape? (c : Char) : Option Char :=
  match c with
  | '\"' => some '\"'
  | '\\' => some '\\'
  | '/' => some '/'
  | 'b' => some '\x08'
  | 'f' => some '\x0c'
  | 'n' => some '\n'
  | 'r' => some '\r'
  | 't' => some '\t'
  | _ => none

/-- The first half of a surrogate pair. -/
def isLeading (code : Nat) : Bool := 0xd800 ≤ code && code ≤ 0xdbff

/-- The second half of a surrogate pair. -/
def isTrailing (code : Nat) : Bool := 0xdc00 ≤ code && code ≤ 0xdfff

/-- The character that two halves of a surrogate pair stand for. -/
def joinSurrogates (leading trailing : Nat) : Char :=
  Char.ofNat (0x10000 + (leading - 0xd800) * 0x400 + (trailing - 0xdc00))

/-- The character of a numeric escape, from its digits on, and how many characters of
the text it takes. A half of a surrogate pair needs the other one. -/
def readCode (text : List Char) : Except Fault (Char × Nat) := do
  let code ← readHex text
  let rest := text.drop 4
  if isTrailing code then .error (.here .loneSurrogate rest)
  else if isLeading code then
    match rest with
    | [] => .error (.here .endInString [])
    | ['\\'] => .error (.here .endInString [])
    | '\\' :: 'u' :: low =>
      let trailing ← readHex low
      if isTrailing trailing then return (joinSurrogates code trailing, 10)
      else .error (.here .loneSurrogate (low.drop 4))
    | '\\' :: rest => .error (.next .truncatedEscape rest)
    | rest => .error (.next .truncatedEscape rest)
  else return (Char.ofNat code, 4)

/-- **The character that is written at this point** of a string, and how many
characters it takes after the first one. -/
def readUnit (c : Char) (text : List Char) : Except Fault (Char × Nat) :=
  if c = '\\' then
    match text with
    | [] => .error (.here .endInString [])
    | 'u' :: digits => (readCode digits).map fun (c, taken) => (c, taken + 1)
    | letter :: _ =>
      match simpleEscape? letter with
      | some c => .ok (c, 1)
      | none => .error (.next .invalidEscape text)
  else if c.toNat < 0x20 then .error (.next .controlCharacter (c :: text))
  else .ok (c, 0)

/-- How many characters the one written at this point takes after the first, with no
regard to what it stands for. -/
def skipUnit (c : Char) (text : List Char) : Except Fault Nat :=
  if c = '\\' then
    match text with
    | [] => .error (.here .endInString [])
    | 'u' :: digits => (readHex digits).map fun _ => 5
    | letter :: _ =>
      if (simpleEscape? letter).isSome then .ok 1 else .error (.next .invalidEscape text)
  else if c.toNat < 0x20 then .error (.here .controlCharacter (c :: text))
  else .ok 0

/-- The characters of a string from its opening quote on, and what is left after the
closing one. -/
def readChars : List Char → Except Fault (List Char × List Char)
  | [] => .error (.here .endInString [])
  | c :: text =>
    if c = '\"' then .ok ([], text)
    else do
      let (unit, taken) ← readUnit c text
      let (units, rest) ← readChars (text.drop taken)
      return (unit :: units, rest)
termination_by text => text.length
decreasing_by simp only [List.length_drop, List.length_cons]; omega

/-- What is left after the closing quote of a string. -/
def skipChars : List Char → Except Fault (List Char)
  | [] => .error (.here .endInString [])
  | c :: text =>
    if c = '\"' then .ok text
    else do
      let taken ← skipUnit c text
      skipChars (text.drop taken)
termination_by text => text.length
decreasing_by simp only [List.length_drop, List.length_cons]; omega

/-- **A string of a document**, from its opening quote on. -/
def readString (text : List Char) : Token String :=
  ⟨(readChars text).map fun (chars, _) => String.ofList chars, skipChars text⟩

/-! ### A token takes at least one character -/

theorem skipLetters_length_le {letters text rest : List Char}
    (h : skipLetters letters text = .ok rest) : rest.length ≤ text.length := by
  induction letters generalizing text with
  | nil =>
    rw [skipLetters, Except.ok.injEq] at h
    exact h ▸ Nat.le_refl _
  | cons letter letters ih =>
    cases text with
    | nil => simp [skipLetters] at h
    | cons c text =>
      rw [skipLetters] at h
      split at h
      · exact Nat.le_succ_of_le (ih h)
      · cases h

theorem skipChars_length_lt {text rest : List Char} (h : skipChars text = .ok rest) :
    rest.length < text.length := by
  fun_induction skipChars text with
  | case1 => cases h
  | case2 text => cases h; exact Nat.lt_succ_self _
  | case3 c text hc ih =>
    cases hu : skipUnit c text with
    | error fault => rw [hu] at h; cases h
    | ok taken =>
      rw [hu] at h
      have := ih taken h
      rw [List.length_drop] at this
      rw [List.length_cons]
      omega

theorem spanDigits_length_lt {text digits rest : List Char}
    (h : spanDigits text = .ok (digits, rest)) : rest.length < text.length := by
  have hsplit := congrArg List.length (List.takeWhile_append_dropWhile (p := Char.isDigit) (l := text))
  rw [List.length_append] at hsplit
  rw [spanDigits] at h
  split at h
  · cases h
  · next hne =>
    obtain ⟨-, rfl⟩ := Prod.mk.inj (Except.ok.inj h)
    have := List.length_pos_iff.2 hne
    omega

theorem spanSign_length_le (sign : Char) (text : List Char) :
    (spanSign sign text).2.length ≤ text.length := by
  cases text with
  | nil => exact Nat.le_refl _
  | cons c text =>
    rw [spanSign]
    split
    · exact Nat.le_succ _
    · exact Nat.le_refl _

theorem spanWhole_length_lt {text digits rest : List Char}
    (h : spanWhole text = .ok (digits, rest)) : rest.length < text.length := by
  rw [spanWhole] at h
  split at h
  · cases h
  · exact spanDigits_length_lt h

theorem spanFraction_length_le {text digits rest : List Char}
    (h : spanFraction text = .ok (digits, rest)) : rest.length ≤ text.length := by
  rw [spanFraction.eq_def] at h
  split at h
  · exact Nat.le_succ_of_le (Nat.le_of_lt (spanDigits_length_lt h))
  · obtain ⟨-, rfl⟩ := Prod.mk.inj (Except.ok.inj h)
    exact Nat.le_refl _

theorem spanExponent_length_le {text : List Char} {negative : Bool}
    {digits start rest : List Char}
    (h : spanExponent text = .ok (negative, digits, start, rest)) :
    rest.length ≤ text.length := by
  rw [spanExponent.eq_def] at h
  split at h
  · obtain ⟨-, h⟩ := Prod.mk.inj (Except.ok.inj h)
    obtain ⟨-, h⟩ := Prod.mk.inj h
    obtain ⟨-, rfl⟩ := Prod.mk.inj h
    exact Nat.le_refl _
  · next c text =>
    split at h
    · simp only at h
      have hsign := spanSign_length_le '-' text
      have hplus := spanSign_length_le '+' (spanSign '-' text).2
      split at h <;> cases hd : spanDigits _ with
      | error fault => rw [hd] at h; cases h
      | ok found =>
        rw [hd] at h
        cases h
        have := spanDigits_length_lt hd
        simp only [List.length_cons] at this ⊢
        omega
    · obtain ⟨-, h⟩ := Prod.mk.inj (Except.ok.inj h)
      obtain ⟨-, h⟩ := Prod.mk.inj h
      obtain ⟨-, rfl⟩ := Prod.mk.inj h
      exact Nat.le_refl _

theorem spanNumber_length_lt {text : List Char} {written : NumberText}
    (h : spanNumber text = .ok written) : written.rest.length < text.length := by
  simp only [spanNumber, bind, Except.bind, pure, Except.pure] at h
  have hsign := spanSign_length_le '-' text
  split at h
  · cases h
  · next hwhole =>
    split at h
    · cases h
    · next hfraction =>
      split at h
      · cases h
      · next hexponent =>
        cases h
        have := spanWhole_length_lt hwhole
        have := spanFraction_length_le hfraction
        have := spanExponent_length_le hexponent
        simp only
        omega

end Bindery.Json
