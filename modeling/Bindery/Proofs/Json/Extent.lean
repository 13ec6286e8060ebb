import Bindery.Json.Node
import Mathlib.Data.List.TakeWhile

/-!
# How far a token reaches

A token is a stretch of the text. What a reader finds in it is found as well if something else
follows: a string or a word reaches to its last letter whatever comes then, and a number reaches as
far as its digits go, so only what can follow a value may follow it
(`Bindery.Json.Delimits`).

For each reader there is a lemma that cuts the text in two where the reader stops, and says that it
does the same whatever stands in place of the second part. A token that is read there is **moved**
(`Bindery.Json.Token.Moved`): it has the same value, or a fault where the other has one, and leaves
what is left there.
-/

namespace Bindery.Json

variable {c : Char} {text rest : List Char}

/-! ### Strings -/

/-- Four digits are a number whatever follows them. -/
theorem exists_of_readHex {value : ℕ} (h : readHex text = .ok value) :
    ∃ digits rest, text = digits ++ rest ∧ digits.length = 4 ∧
      ∀ next, readHex (digits ++ next) = .ok value := by
  match text with
  | a :: b :: c :: d :: rest =>
    refine ⟨[a, b, c, d], rest, rfl, rfl, fun next => ?_⟩
    simp only [readHex, List.cons_append, List.nil_append] at h ⊢
    split at h
    · next heq => simpa only [heq] using h
    · split at h <;> cases h
  | [] | [_] | [_, _] | [_, _, _] =>
    simp only [readHex] at h
    split at h <;> cases h

/-- **What is passed over as one character** is so whatever follows it. -/
theorem exists_of_skipUnit {taken : ℕ} (h : skipUnit c text = .ok taken) :
    ∃ more rest, text = more ++ rest ∧ more.length = taken ∧
      ∀ next, skipUnit c (more ++ next) = .ok taken := by
  rw [skipUnit.eq_def] at h
  split at h
  · next hescape =>
    split at h
    · cases h
    · next digits =>
      cases hcode : readHex digits with
      | error fault => rw [hcode] at h; cases h
      | ok code =>
        obtain ⟨four, rest, rfl, hlength, hread⟩ := exists_of_readHex hcode
        rw [hcode] at h
        cases h
        refine ⟨'u' :: four, rest, rfl, by simp [hlength], fun next => ?_⟩
        simp [skipUnit, hescape, hread, Except.map]
    · next letter rest hnumeric =>
      split at h
      · next hsimple =>
        cases h
        exact ⟨[letter], rest, rfl, rfl, fun next => by simp [skipUnit, hescape, hsimple]⟩
      · cases h
  · next hplain =>
    split at h
    · cases h
    · next hcontrol =>
      cases h
      exact ⟨[], text, rfl, rfl, fun next => by simp [skipUnit, hplain, hcontrol]⟩

/-- Passing over a string goes past its first character. -/
theorem skipChars_cons {more : List Char} (hquote : c ≠ '\"')
    (h : skipUnit c (more ++ rest) = .ok more.length) :
    skipChars (c :: (more ++ rest)) = skipChars rest := by
  rw [skipChars, if_neg hquote, h]
  change skipChars ((more ++ rest).drop more.length) = _
  rw [List.drop_left]

/-- **A string that is passed over** ends there whatever follows it. -/
theorem exists_of_skipChars (h : skipChars text = .ok rest) :
    ∃ chars, text = chars ++ rest ∧ ∀ next, skipChars (chars ++ next) = .ok next := by
  fun_induction skipChars text with
  | case1 => cases h
  | case2 text =>
    cases h
    exact ⟨['\"'], rfl, fun next => by simp [skipChars]⟩
  | case3 c text hquote ih =>
    cases hunit : skipUnit c text with
    | error fault => rw [hunit] at h; cases h
    | ok taken =>
      rw [hunit] at h
      obtain ⟨more, left, rfl, rfl, hskip⟩ := exists_of_skipUnit hunit
      obtain ⟨chars, hchars, hrest⟩ := ih more.length h
      rw [List.drop_left] at hchars
      refine ⟨c :: (more ++ chars), by simp [hchars], fun next => ?_⟩
      rw [List.cons_append, List.append_assoc, skipChars_cons hquote (hskip _), hrest]

/-- Passing over a string goes past a numeric escape. -/
theorem skipChars_code {digits : List Char} {code : ℕ} (hlength : digits.length = 4)
    (h : readHex (digits ++ rest) = .ok code) :
    skipChars ('\\' :: 'u' :: (digits ++ rest)) = skipChars rest := by
  have hskip : skipUnit '\\' (('u' :: digits) ++ rest) = .ok ('u' :: digits).length := by
    simp [skipUnit, h, Except.map, hlength]
  exact skipChars_cons (by decide) hskip

/-- The character of a numeric escape is the same whatever follows, and if two halves make it
up, these are passed over one after the other. -/
theorem exists_of_readCode {unit : Char} {taken : ℕ} (h : readCode text = .ok (unit, taken)) :
    ∃ more rest, text = more ++ rest ∧ more.length = taken ∧
      ∀ next, readCode (more ++ next) = .ok (unit, taken) ∧
        skipChars ('\\' :: 'u' :: (more ++ next)) = skipChars next := by
  cases hcode : readHex text with
  | error fault => rw [readCode, hcode] at h; cases h
  | ok code =>
    obtain ⟨digits, rest, rfl, hlength, hread⟩ := exists_of_readHex hcode
    have hdrop : ∀ next, (digits ++ next).drop 4 = next := fun next => hlength ▸ List.drop_left
    simp only [readCode, hread, hdrop, bind, Except.bind] at h
    split at h
    · cases h
    · next htrailing =>
      split at h
      · next hleading =>
        split at h
        · cases h
        · cases h
        · next low =>
          cases hlow : readHex low with
          | error fault => rw [hlow] at h; cases h
          | ok trailing =>
            obtain ⟨lowDigits, rest, rfl, hlowLength, hlowRead⟩ := exists_of_readHex hlow
            rw [hlow] at h
            dsimp only at h
            split at h
            · next hpair =>
              obtain ⟨rfl, rfl⟩ := Prod.mk.inj (Except.ok.inj h)
              refine ⟨digits ++ '\\' :: 'u' :: lowDigits, rest, by simp,
                by simp [hlength, hlowLength], fun next => ⟨?_, ?_⟩⟩
              · rw [List.append_assoc]
                simp only [readCode, hread, hdrop, List.cons_append, hlowRead, htrailing, hleading,
                  hpair, bind, Except.bind]
                rfl
              · rw [List.append_assoc, skipChars_code hlength (hread _), List.cons_append,
                  List.cons_append, skipChars_code hlowLength (hlowRead _)]
            · cases h
        · cases h
        · cases h
      · next hleading =>
        cases h
        refine ⟨digits, rest, rfl, hlength, fun next => ⟨?_, skipChars_code hlength (hread _)⟩⟩
        simp [readCode, hread, htrailing, hleading, bind, Except.bind, pure, Except.pure]

/-- **The character that is written at a point** is written so whatever follows it. Who passes over
the string goes past it as well. -/
theorem exists_of_readUnit {unit : Char} {taken : ℕ} (hquote : c ≠ '\"')
    (h : readUnit c text = .ok (unit, taken)) :
    ∃ more rest, text = more ++ rest ∧ more.length = taken ∧
      ∀ next, readUnit c (more ++ next) = .ok (unit, taken) ∧
        skipChars (c :: (more ++ next)) = skipChars next := by
  rw [readUnit.eq_def] at h
  split at h
  · next hescape =>
    split at h
    · cases h
    · next digits =>
      cases hcode : readCode digits with
      | error fault => rw [hcode] at h; cases h
      | ok code =>
        obtain ⟨more, rest, rfl, hlength, hread⟩ := exists_of_readCode hcode
        rw [hcode] at h
        cases h
        refine ⟨'u' :: more, rest, rfl, by simp [hlength], fun next => ⟨?_, ?_⟩⟩
        · simp [readUnit, hescape, hread, Except.map]
        · rw [hescape]
          exact (hread next).2
    · next letter rest hnumeric =>
      split at h
      · next hsimple =>
        cases h
        refine ⟨[letter], rest, rfl, rfl, fun next => ⟨?_, ?_⟩⟩
        · simp [readUnit, hescape, hsimple]
        · exact skipChars_cons hquote (by simp [skipUnit, hescape, hsimple])
      · cases h
  · next hplain =>
    split at h
    · cases h
    · next hcontrol =>
      cases h
      refine ⟨[], text, rfl, rfl, fun next => ⟨?_, ?_⟩⟩
      · simp [readUnit, hplain, hcontrol]
      · exact skipChars_cons hquote (by simp [skipUnit, hplain, hcontrol])

/-- **A string that is read** is the same whatever follows it, and ends where it does for who passes
over it. -/
theorem exists_of_readChars {units : List Char} (h : readChars text = .ok (units, rest)) :
    ∃ chars, text = chars ++ rest ∧ ∀ next, readChars (chars ++ next) = .ok (units, next) ∧
      skipChars (chars ++ next) = .ok next := by
  fun_induction readChars text generalizing units with
  | case1 => cases h
  | case2 text =>
    cases h
    exact ⟨['\"'], rfl, fun next => by simp [readChars, skipChars]⟩
  | case3 c text hquote ih =>
    cases hunit : readUnit c text with
    | error fault => rw [hunit] at h; cases h
    | ok found =>
      obtain ⟨unit, taken⟩ := found
      obtain ⟨more, left, rfl, rfl, hread⟩ := exists_of_readUnit hquote hunit
      rw [hunit] at h
      simp only [bind, Except.bind] at h
      cases htail : readChars ((more ++ left).drop more.length) with
      | error fault => rw [htail] at h; cases h
      | ok found =>
        rw [htail] at h
        cases h
        obtain ⟨chars, hchars, hrest⟩ := ih more.length htail
        rw [List.drop_left] at hchars
        refine ⟨c :: (more ++ chars), by simp [hchars], fun next => ⟨?_, ?_⟩⟩
        · rw [List.cons_append, List.append_assoc, readChars, if_neg hquote, (hread _).1]
          simp [bind, Except.bind, pure, Except.pure, (hrest next).1]
        · rw [List.cons_append, List.append_assoc, (hread _).2, (hrest next).2]

/-! ### Words -/

theorem eq_append_of_skipLetters {letters : List Char} (h : skipLetters letters text = .ok rest) :
    text = letters ++ rest := by
  fun_induction skipLetters letters text with
  | case1 text => exact Except.ok.inj h
  | case2 => cases h
  | case3 letter letters text ih => rw [ih h, List.cons_append]
  | case4 => cases h

theorem skipLetters_append (letters next : List Char) :
    skipLetters letters (letters ++ next) = .ok next := by
  induction letters with
  | nil => rfl
  | cons letter letters ih => rw [List.cons_append, skipLetters, if_pos rfl, ih]

/-! ### Numbers -/

/-- **What may follow a value**: a blank, a comma or a closing bracket, or nothing. -/
def Delimits (text : List Char) : Prop :=
  ∀ c ∈ text.head?, isBlank c = true ∨ c = ',' ∨ c = ']' ∨ c = '\x7d'

/-- No digit comes next. -/
def NoDigit (text : List Char) : Prop := ∀ c ∈ text.head?, c.isDigit = false

/-- A text begins with one of these characters, or there is nothing of it. -/
def BeginsIn (chars text : List Char) : Prop := ∀ c ∈ text.head?, c ∈ chars

variable {digits next : List Char}

theorem NoDigit.takeWhile_eq (h : NoDigit text) : text.takeWhile Char.isDigit = [] := by
  cases text with
  | nil => rfl
  | cons c text => rw [List.takeWhile_cons, h c rfl, if_neg Bool.false_ne_true]

theorem NoDigit.dropWhile_eq (h : NoDigit text) : text.dropWhile Char.isDigit = text := by
  have hsplit : text.takeWhile Char.isDigit ++ text.dropWhile Char.isDigit = text :=
    List.takeWhile_append_dropWhile
  rwa [h.takeWhile_eq, List.nil_append] at hsplit

/-- Digits are all there are before something else. -/
theorem spanDigits_eq_ok_iff : spanDigits text = .ok (digits, rest) ↔
    text = digits ++ rest ∧ digits ≠ [] ∧ (∀ c ∈ digits, c.isDigit = true) ∧ NoDigit rest := by
  rw [spanDigits]
  constructor
  · intro h
    split at h
    · cases h
    · next hne =>
      obtain ⟨rfl, rfl⟩ := Prod.mk.inj (Except.ok.inj h)
      refine ⟨List.takeWhile_append_dropWhile.symm, hne, fun c hc => List.mem_takeWhile_imp hc, ?_⟩
      intro c hc
      have hnot := List.head?_dropWhile_not Char.isDigit text
      rw [hc] at hnot
      exact hnot
  · rintro ⟨rfl, hne, hall, hrest⟩
    rw [List.takeWhile_append_of_pos hall, List.dropWhile_append_of_pos hall, hrest.takeWhile_eq,
      hrest.dropWhile_eq, List.append_nil]
    obtain ⟨c, more, rfl⟩ := List.exists_cons_of_ne_nil hne
    rfl

theorem spanDigits_append (h : spanDigits text = .ok (digits, rest)) (hnext : NoDigit next) :
    spanDigits (digits ++ next) = .ok (digits, next) := by
  obtain ⟨-, hne, hall, -⟩ := spanDigits_eq_ok_iff.mp h
  exact spanDigits_eq_ok_iff.mpr ⟨rfl, hne, hall, hnext⟩

theorem spanSign_of_ne {sign : Char} (h : text.head? ≠ some sign) :
    spanSign sign text = (false, text) := by
  cases text with
  | nil => rfl
  | cons c text => rw [spanSign, if_neg fun heq => h (congrArg some heq)]

/-- A sign is there or not, whatever follows that does not begin with it. -/
theorem exists_of_spanSign {sign : Char} {signed : Bool} (h : spanSign sign text = (signed, rest)) :
    ∃ chars, text = chars ++ rest ∧ (chars = [] ∨ chars = [sign]) ∧
      ∀ next, next.head? ≠ some sign → spanSign sign (chars ++ next) = (signed, next) := by
  cases text with
  | nil =>
    obtain ⟨rfl, rfl⟩ := Prod.mk.inj h
    exact ⟨[], rfl, Or.inl rfl, fun next hnext => spanSign_of_ne hnext⟩
  | cons c text =>
    rw [spanSign] at h
    split at h
    · next heq =>
      obtain ⟨rfl, rfl⟩ := Prod.mk.inj h
      exact ⟨[sign], by rw [heq]; rfl, Or.inr rfl, fun next _ => by simp [spanSign]⟩
    · obtain ⟨rfl, rfl⟩ := Prod.mk.inj h
      exact ⟨[], rfl, Or.inl rfl, fun next hnext => spanSign_of_ne hnext⟩

/-- The digits before the point are the same whatever follows that is not a digit. -/
theorem exists_of_spanWhole (h : spanWhole text = .ok (digits, rest)) :
    text = digits ++ rest ∧ (∃ c more, digits = c :: more ∧ c.isDigit = true) ∧
      ∀ next, NoDigit next → spanWhole (digits ++ next) = .ok (digits, next) := by
  rw [spanWhole] at h
  split at h
  · cases h
  · next hzero =>
    obtain ⟨htext, hne, hall, -⟩ := spanDigits_eq_ok_iff.mp h
    obtain ⟨c, more, rfl⟩ := List.exists_cons_of_ne_nil hne
    refine ⟨htext, ⟨c, more, rfl, hall c List.mem_cons_self⟩, fun next hnext => ?_⟩
    rw [spanWhole, spanDigits_append h hnext]
    split
    · next digit digits' heq =>
      cases heq
      exact absurd h (by simpa using hzero _ _ rest)
    · rfl

/-- The fraction is the same whatever follows that does not go on with it. -/
theorem exists_of_spanFraction (h : spanFraction text = .ok (digits, rest)) :
    ∃ chars, text = chars ++ rest ∧ BeginsIn ['.'] chars ∧
      ∀ next, NoDigit next → next.head? ≠ some '.' →
        spanFraction (chars ++ next) = .ok (digits, next) := by
  rw [spanFraction.eq_def] at h
  split at h
  · next text =>
    refine ⟨'.' :: digits, ?_, ?_, fun next hnext _ => spanDigits_append h hnext⟩
    · rw [(spanDigits_eq_ok_iff.mp h).1, List.cons_append]
    · rintro c ⟨⟩
      exact List.mem_cons_self
  · obtain ⟨rfl, rfl⟩ := Prod.mk.inj (Except.ok.inj h)
    have hnone : BeginsIn ['.'] [] := by rintro c ⟨⟩
    refine ⟨[], rfl, hnone, fun next _ hpoint => ?_⟩
    rw [List.nil_append, spanFraction.eq_def]
    split
    · exact absurd rfl hpoint
    · rfl

theorem isBlank_iff : isBlank c = true ↔ c = ' ' ∨ c = '\n' ∨ c = '\t' ∨ c = '\r' := by
  simp [isBlank, or_assoc]

theorem Delimits.notMem (h : Delimits next) :
    ∀ c ∈ next.head?, c.isDigit = false ∧ c ∉ ['.', 'e', 'E', '+', '-'] := by
  intro c hc
  rcases h c hc with hc | rfl | rfl | rfl
  · rcases isBlank_iff.mp hc with rfl | rfl | rfl | rfl <;> decide
  · decide
  · decide
  · decide

theorem Delimits.noDigit (h : Delimits next) : NoDigit next :=
  fun c hc => (h.notMem c hc).1

theorem Delimits.head?_ne (h : Delimits next) (hmem : c ∈ ['.', 'e', 'E', '+', '-']) :
    next.head? ≠ some c :=
  fun heq => (h.notMem c heq).2 hmem

/-- A text begins with its first part, or with the second if there is nothing of the first. -/
theorem mem_head?_append (h : c ∈ (text ++ next).head?) : c ∈ text.head? ∨ c ∈ next.head? := by
  rw [List.head?_append, Option.mem_def, Option.or_eq_some_iff] at h
  exact h.imp id And.right

/-- The sign of an exponent, which may also be a plus, is the same whatever digit follows. -/
theorem exists_of_signs {negative plus : Bool} {unsigned start : List Char}
    (hminus : spanSign '-' text = (negative, unsigned))
    (hplus : (if negative then (true, unsigned) else spanSign '+' unsigned) = (plus, start)) :
    ∃ chars, text = chars ++ start ∧ ∀ next, (∃ c ∈ next.head?, c.isDigit = true) →
      ∃ unsigned, spanSign '-' (chars ++ next) = (negative, unsigned) ∧
        (if negative then (true, unsigned) else spanSign '+' unsigned) = (plus, next) := by
  have hdigit : ∀ {sign : Char} {next : List Char}, sign.isDigit = false →
      (∃ c ∈ next.head?, c.isDigit = true) → next.head? ≠ some sign := by
    rintro sign next hsign ⟨c, hc, hdigit⟩ hhead
    rw [hhead] at hc
    cases hc
    exact absurd hdigit (by simp [hsign])
  obtain ⟨minus, rfl, -, hunsigned⟩ := exists_of_spanSign hminus
  cases negative with
  | true =>
    cases hplus
    exact ⟨minus, rfl, fun next hnext => ⟨next, hunsigned next (hdigit rfl hnext), rfl⟩⟩
  | false =>
    obtain ⟨chars, rfl, hchars, hplus⟩ := exists_of_spanSign hplus
    refine ⟨minus ++ chars, by simp, fun next hnext => ⟨chars ++ next, ?_, ?_⟩⟩
    · rw [List.append_assoc]
      refine hunsigned _ ?_
      rcases hchars with rfl | rfl
      · exact hdigit rfl hnext
      · simp
    · exact hplus next (hdigit rfl hnext)

/-- There is no exponent in what may follow a value. -/
theorem Delimits.spanExponent_eq (h : Delimits next) :
    spanExponent next = .ok (false, [], next, next) := by
  cases next with
  | nil => rfl
  | cons c next =>
    have hnot : ¬(c = 'e' ∨ c = 'E') := by
      rintro (rfl | rfl)
      · exact h.head?_ne (by simp) rfl
      · exact h.head?_ne (by simp) rfl
    rw [spanExponent, if_neg hnot]

/-- The exponent is the same whatever follows that may follow a value. -/
theorem exists_of_spanExponent {negative : Bool} {start : List Char}
    (h : spanExponent text = .ok (negative, digits, start, rest)) :
    ∃ chars, text = chars ++ rest ∧ BeginsIn ['e', 'E'] chars ∧
      ∀ next, Delimits next →
        ∃ start, spanExponent (chars ++ next) = .ok (negative, digits, start, next) := by
  rw [spanExponent.eq_def] at h
  split at h
  · cases h
    exact ⟨[], rfl, nofun, fun next hnext => ⟨next, hnext.spanExponent_eq⟩⟩
  · next c text =>
    split at h
    · next hletter =>
      rcases hminus : spanSign '-' text with ⟨signed, unsigned⟩
      simp only [hminus] at h
      rcases hplus : if signed then (true, unsigned) else spanSign '+' unsigned with ⟨plus, start'⟩
      simp only [hplus] at h
      cases hdigits : spanDigits start' with
      | error at' => rw [hdigits] at h; cases h
      | ok found =>
        obtain ⟨found, left⟩ := found
        rw [hdigits] at h
        cases h
        obtain ⟨signs, rfl, hsigns⟩ := exists_of_signs hminus hplus
        obtain ⟨rfl, hne, hall, -⟩ := spanDigits_eq_ok_iff.mp hdigits
        refine ⟨c :: (signs ++ found), by simp, ?_, fun next hnext => ?_⟩
        · rintro c' ⟨⟩
          simpa using hletter
        · have hhead : ∃ c ∈ (found ++ next).head?, c.isDigit = true := by
            obtain ⟨first, more, rfl⟩ := List.exists_cons_of_ne_nil hne
            exact ⟨first, rfl, hall first List.mem_cons_self⟩
          obtain ⟨unsigned, hminus, hplus⟩ := hsigns (found ++ next) hhead
          refine ⟨found ++ next, ?_⟩
          simp only [spanExponent, if_pos hletter, List.cons_append, List.append_assoc, hminus,
            hplus, spanDigits_append hdigits hnext.noDigit]
          rfl
    · cases h
      exact ⟨[], rfl, nofun, fun next hnext => ⟨next, hnext.spanExponent_eq⟩⟩

/-- The parts of a number stand one after the other. -/
theorem spanNumber_eq_ok_iff {written : NumberText} : spanNumber text = .ok written ↔
    ∃ afterSign afterWhole afterFraction, spanSign '-' text = (written.negative, afterSign) ∧
      spanWhole afterSign = .ok (written.whole, afterWhole) ∧
      spanFraction afterWhole = .ok (written.fraction, afterFraction) ∧
      spanExponent afterFraction = .ok (written.exponentNegative, written.exponent,
        written.exponentAt, written.rest) := by
  simp only [spanNumber, bind, Except.bind]
  constructor
  · intro h
    split at h
    · cases h
    · next hwhole =>
      split at h
      · cases h
      · next hfraction =>
        split at h
        · cases h
        · next hexponent =>
          cases h
          exact ⟨_, _, _, rfl, hwhole, hfraction, hexponent⟩
  · rintro ⟨afterSign, afterWhole, afterFraction, hsign, hwhole, hfraction, hexponent⟩
    simp only [hsign, hwhole, hfraction, hexponent]
    rfl

/-- **A number** has the same parts whatever follows that may follow a value. Only the points at
which it could be blamed are others. -/
theorem exists_of_spanNumber {written : NumberText} (h : spanNumber text = .ok written) :
    ∃ chars, text = chars ++ written.rest ∧ ∀ next, Delimits next →
      ∃ start, spanNumber (chars ++ next) =
        .ok { written with rest := next, exponentAt := start } := by
  obtain ⟨afterSign, afterWhole, afterFraction, hsign, hwhole, hfraction, hexponent⟩ :=
    spanNumber_eq_ok_iff.mp h
  obtain ⟨sign, rfl, -, hsigned⟩ := exists_of_spanSign hsign
  obtain ⟨rfl, ⟨first, more, hfirst, hdigit⟩, hwholes⟩ := exists_of_spanWhole hwhole
  obtain ⟨point, rfl, hpoint, hfractions⟩ := exists_of_spanFraction hfraction
  obtain ⟨letter, hletters, hletter, hexponents⟩ := exists_of_spanExponent hexponent
  refine ⟨sign ++ (written.whole ++ (point ++ letter)), by simp [hletters], fun next hnext => ?_⟩
  obtain ⟨start, hexponent⟩ := hexponents next hnext
  -- what follows a part begins with the next one that is there, or is what follows the number
  have hafterPoint : NoDigit (letter ++ next) ∧ (letter ++ next).head? ≠ some '.' := by
    have hhead : ∀ c ∈ (letter ++ next).head?, c.isDigit = false ∧ c ≠ '.' := fun c hc => by
      rcases mem_head?_append hc with hc | hc
      · rcases (by simpa using hletter c hc : c = 'e' ∨ c = 'E') with rfl | rfl <;> decide
      · exact ⟨hnext.noDigit c hc, fun heq => hnext.head?_ne (by simp) (heq ▸ hc)⟩
    exact ⟨fun c hc => (hhead c hc).1, fun heq => (hhead '.' heq).2 rfl⟩
  have hafterWhole : NoDigit (point ++ (letter ++ next)) := fun c hc => by
    rcases mem_head?_append hc with hc | hc
    · rw [List.mem_singleton.mp (hpoint c hc)]
      rfl
    · exact hafterPoint.1 c hc
  have hafterSign : (written.whole ++ (point ++ (letter ++ next))).head? ≠ some '-' := by
    rw [hfirst]
    rintro ⟨⟩
    cases hdigit
  refine ⟨start, spanNumber_eq_ok_iff.mpr ⟨_, _, _, ?_, hwholes _ hafterWhole,
    hfractions _ hafterPoint.1 hafterPoint.2, hexponent⟩⟩
  rw [List.append_assoc, List.append_assoc, List.append_assoc]
  exact hsigned _ hafterSign

/-- The value of a number is a matter of its digits. -/
theorem NumberText.value_eq_ok_iff (written : NumberText) (start rest : List Char)
    {number : Number} : { written with exponentAt := start, rest }.value = .ok number ↔
      written.value = .ok number := by
  obtain ⟨negative, wholeDigits, fraction, exponentNegative, exponent, -, -⟩ := written
  -- both sides ask the same of the digits, and put the blame on different points if they fail
  simp only [NumberText.value, NumberText.isWhole]
  generalize wholeDigits.foldl Significand.pushWhole ⟨0, 0, false⟩ = whole
  generalize fraction.foldl _ _ = significand
  by_cases hnatural : (fraction.isEmpty && exponent.isEmpty) = true ∧ ¬whole.full ∧ ¬negative
  · simp only [if_pos hnatural]
  by_cases hnegative : (fraction.isEmpty && exponent.isEmpty) = true ∧ ¬whole.full ∧
      0 < whole.value ∧ whole.value ≤ Nat.pow 2 63
  · simp only [if_neg hnatural, if_pos hnegative]
  simp only [if_neg hnatural, if_neg hnegative]
  cases readExponent exponent with
  | ok power =>
    dsimp only
    cases Number.magnitude significand.value _ with
    | some size => exact Iff.rfl
    | none => exact ⟨nofun, nofun⟩
  | error count =>
    by_cases hzero : significand.value = 0 ∨ exponentNegative
    · simp only [if_pos hzero]
    · simp only [if_neg hzero]
      exact ⟨nofun, nofun⟩

/-! ### Tokens -/

/-- **The same token in another place**: it can be read as the same, and this is left after it. -/
structure Token.Moved {α : Type} (token : Token α) (next : List Char) (found : Token α) : Prop where
  lax_eq : found.lax = .ok next
  strict_iff : ∀ value, found.strict = .ok value ↔ token.strict = .ok value

theorem map_eq_ok_iff {ε α β : Type} {outcome : Except ε α} {f : α → β} {found : β} :
    outcome.map f = .ok found ↔ ∃ value, outcome = .ok value ∧ f value = found := by
  cases outcome with
  | error fault => exact ⟨nofun, nofun⟩
  | ok value =>
    constructor
    · exact fun h => ⟨value, rfl, Except.ok.inj h⟩
    · rintro ⟨_, ⟨⟩, rfl⟩
      rfl

/-- A string ends where it does for who passes over it. -/
theorem skipChars_of_readChars {units left : List Char} (h : readChars text = .ok (units, left)) :
    skipChars text = .ok left := by
  obtain ⟨chars, rfl, hread⟩ := exists_of_readChars h
  exact (hread left).2

/-- **A string** is the same token wherever it stands. -/
theorem exists_of_readString (h : (readString text).lax = .ok rest) :
    ∃ chars, text = chars ++ rest ∧
      ∀ next, (readString text).Moved next (readString (chars ++ next)) := by
  obtain ⟨chars, rfl, hskip⟩ := exists_of_skipChars h
  have hmove : ∀ {units left : List Char} (first second : List Char),
      readChars (chars ++ first) = .ok (units, left) →
      readChars (chars ++ second) = .ok (units, second) := by
    intro units left first second hread
    obtain ⟨chars', hchars, hmoved⟩ := exists_of_readChars hread
    -- both readings leave the same, so they take the same
    obtain rfl : first = left :=
      Except.ok.inj ((hskip first).symm.trans (skipChars_of_readChars hread))
    rw [List.append_cancel_right hchars]
    exact (hmoved second).1
  refine ⟨chars, rfl, fun next => ⟨hskip next, fun value => ?_⟩⟩
  simp only [readString, map_eq_ok_iff]
  constructor
  · rintro ⟨⟨units, left⟩, hread, rfl⟩
    exact ⟨⟨units, rest⟩, hmove next rest hread, rfl⟩
  · rintro ⟨⟨units, left⟩, hread, rfl⟩
    exact ⟨⟨units, next⟩, hmove rest next hread, rfl⟩

theorem exists_of_readWord {value : Json} {letters : List Char}
    (h : (readWord value letters text).lax = .ok rest) :
    ∃ chars, text = chars ++ rest ∧ ∀ next,
      (readWord value letters text).Moved next (readWord value letters (chars ++ next)) := by
  have htext := eq_append_of_skipLetters h
  refine ⟨letters, htext, fun next => ⟨skipLetters_append letters next, fun found => ?_⟩⟩
  simp only [readWord, htext, skipLetters_append]
  exact Iff.rfl

theorem exists_of_readNumber (h : (readNumber text).lax = .ok rest) :
    ∃ chars, text = chars ++ rest ∧
      ∀ next, Delimits next → (readNumber text).Moved next (readNumber (chars ++ next)) := by
  cases hspan : spanNumber text with
  | error at' => rw [readNumber, hspan] at h; cases h
  | ok written =>
    rw [readNumber, hspan] at h
    obtain rfl := Except.ok.inj h
    obtain ⟨chars, htext, hmoved⟩ := exists_of_spanNumber hspan
    refine ⟨chars, htext, fun next hnext => ?_⟩
    obtain ⟨start, hspan'⟩ := hmoved next hnext
    rw [readNumber, readNumber, hspan, hspan']
    refine ⟨rfl, fun value => ?_⟩
    simp only [map_eq_ok_iff, written.value_eq_ok_iff start next]

theorem readScalar_number (h : c = '-' ∨ c.isDigit = true) (text : List Char) :
    readScalar c text = .scalar (c :: text) (readNumber (c :: text)) := by
  rw [readScalar.eq_def]
  split
  · exact absurd h (by decide)
  · exact absurd h (by decide)
  · exact absurd h (by decide)
  · exact absurd h (by decide)
  · rw [if_pos h]

/-- **A scalar** is the same token wherever it stands, as long as it ends there. -/
theorem exists_of_readScalar {start : List Char} {token : Token Json}
    (h : readScalar c text = .scalar start token) (hlax : token.lax = .ok rest) :
    ∃ chars, text = chars ++ rest ∧ ∀ next, Delimits next → ∃ found,
      readScalar c (chars ++ next) = .scalar (c :: (chars ++ next)) found ∧
        token.Moved next found := by
  rw [readScalar.eq_def] at h
  split at h
  · obtain ⟨-, rfl⟩ := Node.scalar.inj h
    obtain ⟨chars, htext, hmoved⟩ := exists_of_readWord hlax
    exact ⟨chars, htext, fun next _ => ⟨_, rfl, hmoved next⟩⟩
  · obtain ⟨-, rfl⟩ := Node.scalar.inj h
    obtain ⟨chars, htext, hmoved⟩ := exists_of_readWord hlax
    exact ⟨chars, htext, fun next _ => ⟨_, rfl, hmoved next⟩⟩
  · obtain ⟨-, rfl⟩ := Node.scalar.inj h
    obtain ⟨chars, htext, hmoved⟩ := exists_of_readWord hlax
    exact ⟨chars, htext, fun next _ => ⟨_, rfl, hmoved next⟩⟩
  · obtain ⟨-, rfl⟩ := Node.scalar.inj h
    obtain ⟨chars, htext, hmoved⟩ := exists_of_readString hlax
    refine ⟨chars, htext, fun next _ => ⟨_, rfl, (hmoved next).lax_eq, fun value => ?_⟩⟩
    simp only [map_eq_ok_iff, (hmoved next).strict_iff]
  · next hnull htrue hfalse hquote =>
    split at h
    · next hnumber =>
      obtain ⟨-, rfl⟩ := Node.scalar.inj h
      obtain ⟨chars, htext, hmoved⟩ := exists_of_readNumber hlax
      cases chars with
      | nil =>
        have hlt := readNumber_lax_length_lt hlax
        rw [htext, List.nil_append] at hlt
        exact absurd hlt (Nat.lt_irrefl _)
      | cons first chars =>
        obtain ⟨rfl, rfl⟩ := List.cons.inj htext
        exact ⟨chars, rfl, fun next hnext => ⟨_, readScalar_number hnumber _, hmoved next hnext⟩⟩
    · cases h

/-- What is passed over as a scalar is a token. -/
theorem exists_token (h : (readScalar c text).lax = .ok rest) :
    ∃ start token, readScalar c text = .scalar start token ∧ token.lax = .ok rest := by
  rw [readScalar.eq_def] at h ⊢
  split at h
  · exact ⟨_, _, rfl, h⟩
  · exact ⟨_, _, rfl, h⟩
  · exact ⟨_, _, rfl, h⟩
  · exact ⟨_, _, rfl, h⟩
  · split at h
    · next hnumber =>
      rw [if_pos hnumber]
      exact ⟨_, _, rfl, h⟩
    · cases h

/-- No scalar begins with a blank or a bracket. -/
theorem first_of_readScalar {start : List Char} {token : Token Json}
    (h : readScalar c text = .scalar start token) :
    isBlank c = false ∧ c ∉ ['[', ']', '\x7b'] := by
  rw [readScalar.eq_def] at h
  split at h
  · decide
  · decide
  · decide
  · decide
  · split at h
    · next hnumber =>
      constructor
      · refine Bool.eq_false_iff.mpr fun hblank => ?_
        rcases isBlank_iff.mp hblank with rfl | rfl | rfl | rfl <;> exact absurd hnumber (by decide)
      · intro hmem
        simp only [List.mem_cons, List.not_mem_nil, or_false] at hmem
        rcases hmem with rfl | rfl | rfl <;> exact absurd hnumber (by decide)
    · cases h

theorem readNode_scalar (hlist : c ≠ '[') (hobject : c ≠ '\x7b') (text : List Char) :
    (readNode (c :: text)).val = readScalar c text := by
  rw [readNode]
  · exact hlist
  · exact hobject

end Bindery.Json
