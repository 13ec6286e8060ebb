import Bindery.Proofs.Ident.Clashes
import Mathlib.Data.Nat.Notation
import Mathlib.Tactic.TFAE

/-!
# When a legal name is settled

A name that was made legal has no leading underscore and no two of them in a row; such a word is
**plain** (`Bindery.Ident.IsPlain`). To make it legal once more changes nothing but this: if it is
reserved it gets the mark `x`, and what is marked is plain again. So all depends on how the reserved
words stand to each other. If the marked form of a plain reserved word is reserved as well, it is a
legal name that is reserved, and it gets another mark the next time. If there is no such word, no
legal name is reserved, and all of them stay as they are (`Bindery.Ident.sanitize_settles`).

A mark makes a capital of the first character, which is never an underscore, and no other character
has an underscore in its upper-case form (`Bindery.Text.underscore_notMem_upperCase`).
-/

namespace Bindery

/-! ### Capitals are no underscores -/

namespace Text

theorem underscore_notMem_caseExpansions :
    ∀ expansion ∈ caseExpansions, '_' ∉ expansion.2.map Char.ofNat := by
  decide +kernel

/-- No run holds a character whose capital would be an underscore. -/
theorem not_covers_underscore : ∀ run ∈ caseShifts,
    run.covers ('_'.toNat - run.distance).toNat = false := by
  decide +kernel

/-- A code point that is not the one of an underscore is another character. -/
theorem ofNat_ne_underscore {code : Nat} (h : code ≠ '_'.toNat) : '_' ≠ Char.ofNat code := by
  intro heq
  by_cases hvalid : code.isValidChar
  · have hcode : Char.ofNat code = Char.ofNatAux code hvalid := dif_pos hvalid
    exact h (congrArg Char.toNat (heq.trans hcode)).symm
  · have hnull : Char.ofNat code = '\x00' := dif_neg hvalid
    exact absurd (heq.trans hnull) (by decide)

/-- **No other character has an underscore in its upper-case form.** -/
theorem underscore_notMem_upperCase {c : Char} (hc : c ≠ '_') : '_' ∉ upperCase c := by
  rw [upperCase]
  split
  · next codes hlookup =>
    obtain ⟨before, after, hlist, -⟩ := List.lookup_eq_some_iff.mp hlookup
    exact underscore_notMem_caseExpansions (c.toNat, codes) (by simp [hlist])
  · split
    · next run hfind =>
      have hcovers := List.find?_some hfind
      have hnone := not_covers_underscore run (List.mem_of_find?_eq_some hfind)
      rw [List.mem_singleton]
      refine ofNat_ne_underscore fun hcode => ?_
      -- the character would be the one that no run holds
      have hself : c.toNat = ('_'.toNat - run.distance).toNat := by
        have hunderscore : '_'.toNat = 95 := rfl
        omega
      rw [hself, hnone] at hcovers
      exact Bool.false_ne_true hcovers
    · exact fun hmem => hc (List.mem_singleton.mp hmem).symm

end Text

namespace Ident

variable {reserved : Std.TreeSet String} {word rest letters : List Char} {c mark : Char}
  {name : String}

/-! ### Plain words -/

/-- **A plain word** has no leading underscore, and no two of them in a row. -/
structure IsPlain (word : List Char) : Prop where
  head : word.head? ≠ some '_'
  apart : ¬ ['_', '_'] <:+: word

/-- Letters in front do not bring two underscores together. -/
theorem double_infix_append_iff (h : '_' ∉ letters) :
    ['_', '_'] <:+: letters ++ rest ↔ ['_', '_'] <:+: rest := by
  induction letters with
  | nil => rfl
  | cons letter letters ih =>
    rw [List.mem_cons, not_or] at h
    rw [List.cons_append, double_infix_cons_iff, ih h.2]
    exact or_iff_right fun hboth => h.1 hboth.1.symm

/-- A plain word is left as it is. -/
theorem plain_eq_self (h : IsPlain word) : plain word = word := by
  rw [plain, collapse_eq_self h.apart]
  split
  · exact absurd rfl h.head
  · rfl

/-- **A plain word with a mark is plain.** -/
theorem IsPlain.marked (h : IsPlain word) (hmark : mark ≠ '_') : IsPlain (marked mark word) := by
  rw [marked_eq_cons]
  refine ⟨fun hhead => hmark (Option.some.inj hhead), ?_⟩
  rw [double_infix_cons_iff, or_iff_right fun hboth => hmark hboth.1]
  cases word with
  | nil => exact h.apart
  | cons c rest =>
    have hc : c ≠ '_' := fun heq => h.head (congrArg some heq)
    rw [capital, double_infix_append_iff (Text.underscore_notMem_upperCase hc)]
    exact fun hrest => h.apart (double_infix_cons_iff.mpr (Or.inr hrest))

theorem isPlain_plain (word : List Char) : IsPlain (plain word) := by
  have hapart := not_double_infix_collapse word
  rw [plain]
  split
  · next rest heq =>
    -- after a leading underscore there is no other
    rw [heq, double_infix_cons_iff, not_or] at hapart
    exact IsPlain.marked ⟨fun hhead => hapart.1 ⟨rfl, hhead⟩, hapart.2⟩ (by decide)
  · next hne =>
    refine ⟨fun hhead => ?_, hapart⟩
    obtain ⟨rest, heq⟩ := List.head?_eq_some_iff.mp hhead
    exact hne rest heq

/-- Another mark makes another word. -/
theorem marked_marked_ne (word : List Char) :
    Ident.marked 'x' (Ident.marked 'x' word) ≠ Ident.marked 'x' word := by
  rw [marked_eq_cons 'x' word, marked_eq_cons]
  exact fun heq => List.cons_ne_self _ _ (List.cons.inj heq).2

/-! ### Legal names -/

theorem sanitize_of_mem (h : String.ofList (plain name.toList) ∈ reserved) :
    sanitize reserved name = String.ofList (marked 'x' (plain name.toList)) :=
  if_pos (Std.TreeSet.contains_iff_mem.mpr h)

theorem sanitize_of_notMem (h : String.ofList (plain name.toList) ∉ reserved) :
    sanitize reserved name = String.ofList (plain name.toList) :=
  if_neg fun hmem => h (Std.TreeSet.contains_iff_mem.mp hmem)

theorem isPlain_sanitize (reserved : Std.TreeSet String) (name : String) :
    IsPlain (sanitize reserved name).toList := by
  by_cases h : String.ofList (plain name.toList) ∈ reserved
  · rw [sanitize_of_mem h, String.toList_ofList]
    exact (isPlain_plain _).marked (by decide)
  · rw [sanitize_of_notMem h, String.toList_ofList]
    exact isPlain_plain _

/-- **A legal name is reserved** if its plain form is, and the marked form as well. -/
theorem sanitize_mem_iff : sanitize reserved name ∈ reserved ↔
    String.ofList (plain name.toList) ∈ reserved ∧
      String.ofList (marked 'x' (plain name.toList)) ∈ reserved := by
  by_cases h : String.ofList (plain name.toList) ∈ reserved
  · rw [sanitize_of_mem h, and_iff_right h]
  · rw [sanitize_of_notMem h, and_iff_left_of_imp fun hmem => absurd hmem h]

/-- **A legal name stays as it is** if it is not reserved. -/
theorem sanitize_sanitize_iff :
    sanitize reserved (sanitize reserved name) = sanitize reserved name ↔
      sanitize reserved name ∉ reserved := by
  have hplain := plain_eq_self (isPlain_sanitize reserved name)
  by_cases hmem : sanitize reserved name ∈ reserved
  · refine iff_of_false (fun heq => ?_) (not_not_intro hmem)
    -- it has a mark already, and it gets one more
    rw [sanitize_of_mem (by rwa [hplain, String.ofList_toList]), hplain,
      sanitize_of_mem (sanitize_mem_iff.mp hmem).1, String.toList_ofList] at heq
    exact marked_marked_ne _ (String.ofList_injective heq)
  · refine iff_of_true ?_ hmem
    rw [sanitize_of_notMem (by rwa [hplain, String.ofList_toList]), hplain, String.ofList_toList]

/-! ### Reserved words -/

theorem mem_reserved_standard_iff {word : String} :
    word ∈ Config.standard.reserved ↔ word ∈ Config.keywords := by
  rw [Config.standard, Config.reserve, Std.TreeSet.mem_insertMany_list, List.contains_iff_mem]
  exact or_iff_right Std.TreeSet.not_mem_emptyc

theorem keywords_of_head : ∀ word ∈ Config.keywords, word.toList.head? = some 'x' →
    word.toList = ['x', 'o', 'r'] := by
  decide +kernel

theorem marked_keywords_ne : ∀ word ∈ Config.keywords,
    marked 'x' word.toList ≠ ['x', 'o', 'r'] := by
  decide +kernel

/-- No keyword is another one with a mark. -/
theorem notMem_keywords_marked {word : String} (h : word ∈ Config.keywords) :
    String.ofList (marked 'x' word.toList) ∉ Config.keywords := by
  intro hmarked
  have hhead : (marked 'x' word.toList).head? = some 'x' := by rw [marked_eq_cons]; rfl
  have heq := keywords_of_head _ hmarked
  rw [String.toList_ofList] at heq
  exact marked_keywords_ne word h (heq hhead)

/-- **Legal names are settled** if no plain reserved word has a marked form that is reserved, and
only then: none of them is reserved, and to make them legal again changes nothing. The keywords of
an ordinary run are like this. -/
theorem sanitize_settles :
    (∀ reserved : Std.TreeSet String, List.TFAE
      [∀ name, sanitize reserved name ∉ reserved,
        ∀ name, sanitize reserved (sanitize reserved name) = sanitize reserved name,
        ¬ ∃ word ∈ reserved, IsPlain word.toList ∧
          String.ofList (marked 'x' word.toList) ∈ reserved]) ∧
    ¬ ∃ word ∈ Config.standard.reserved, IsPlain word.toList ∧
      String.ofList (marked 'x' word.toList) ∈ Config.standard.reserved := by
  refine ⟨fun reserved => ?_, ?_⟩
  · tfae_have 1 ↔ 2 := forall_congr' fun name => sanitize_sanitize_iff.symm
    tfae_have 1 → 3 := by
      rintro hnone ⟨word, hmem, hplain, hmarked⟩
      refine hnone word (sanitize_mem_iff.mpr ?_)
      rw [plain_eq_self hplain, String.ofList_toList]
      exact ⟨hmem, hmarked⟩
    tfae_have 3 → 1 := by
      intro hnone name hmem
      obtain ⟨hplain, hmarked⟩ := sanitize_mem_iff.mp hmem
      rw [← String.toList_ofList (l := plain name.toList)] at hmarked
      refine hnone ⟨_, hplain, ?_, hmarked⟩
      rw [String.toList_ofList]
      exact isPlain_plain _
    tfae_finish
  · rintro ⟨word, hmem, -, hmarked⟩
    have hkeyword := mem_reserved_standard_iff.mp hmem
    exact notMem_keywords_marked hkeyword (mem_reserved_standard_iff.mp hmarked)

/-- A word that is reserved together with its marked form gets one mark after the other. -/
example :
    let reserved := (Config.empty.reserve ["in", "xIn"]).reserved
    sanitize reserved "in" = "xIn" ∧ sanitize reserved "xIn" = "xXIn" := by
  decide +kernel

end Ident

end Bindery
