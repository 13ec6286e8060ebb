import Bindery.Decl.Render
import Mathlib.Algebra.Ring.Parity
import Mathlib.Data.List.Basic

/-!
# The foreign name survives rendering

The text of a declaration says which foreign symbol it links to. A reader who knows the generated
name finds the foreign one in the **pragma** after the head of the declaration
(`Bindery.Decl.Pragma.read`): a pragma that gives no name means the generated one, one that gives a
name in quotes means that name, and a call pattern has it between its fixed parts. What stands in
quotes ends at the first quote that is not escaped (`Bindery.Decl.quoted?`); the two escapes are
undone after that (`Bindery.Decl.unescape?`, `Bindery.Decl.undouble?`).

A foreign name may be any text, so it may hold whatever a reader looks for. That it is read back
(`Bindery.Decl.foreign_survives`) rests on what is written in quotes being **sealed**
(`Bindery.Decl.Sealed`): it is made of characters that mean nothing there and of escaped pairs, so
neither does a quote of it end it, nor does it take the quote after it for its own.
-/

namespace Bindery.Decl

/-! ### Undoing the escapes -/

/-- The characters that are escaped in quotes. -/
def IsSpecial (c : Char) : Prop := c = '\\' ∨ c = '\"'

instance (c : Char) : Decidable (IsSpecial c) := inferInstanceAs (Decidable (_ ∨ _))

/-- **The text that stands in quotes**, up to the first quote that is not escaped, and what is left
after that quote. -/
def quoted? : List Char → Option (List Char × List Char)
  | [] => none
  | '\"' :: rest => some ([], rest)
  | '\\' :: c :: rest => (quoted? rest).map fun (text, left) => ('\\' :: c :: text, left)
  | c :: rest => (quoted? rest).map fun (text, left) => (c :: text, left)

/-- **What a text in quotes stands for**, if all that has to be escaped in it is, and nothing
else. -/
def unescape? : List Char → Option (List Char)
  | [] => some []
  | '\\' :: c :: rest => if IsSpecial c then (unescape? rest).map (c :: ·) else none
  | c :: rest => if IsSpecial c then none else (unescape? rest).map (c :: ·)

/-- **What a pattern stands for**, if all dollar signs are doubled in it. -/
def undouble? : List Char → Option (List Char)
  | [] => some []
  | '$' :: '$' :: rest => (undouble? rest).map ('$' :: ·)
  | c :: rest => if c = '$' then none else (undouble? rest).map (c :: ·)

variable {c : Char} {text rest : List Char}

theorem escapeLinkChar_of_special (h : IsSpecial c) : escapeLinkChar c = ['\\', c] := if_pos h

theorem escapeLinkChar_of_plain (h : ¬ IsSpecial c) : escapeLinkChar c = [c] := if_neg h

theorem ne_backslash_of_plain (h : ¬ IsSpecial c) : c ≠ '\\' := fun heq => h (Or.inl heq)

theorem ne_quote_of_plain (h : ¬ IsSpecial c) : c ≠ '\"' := fun heq => h (Or.inr heq)

theorem unescape?_escaped (h : IsSpecial c) (rest : List Char) :
    unescape? ('\\' :: c :: rest) = (unescape? rest).map (c :: ·) := by
  rw [unescape?, if_pos h]

theorem unescape?_plain (h : ¬ IsSpecial c) (rest : List Char) :
    unescape? (c :: rest) = (unescape? rest).map (c :: ·) := by
  rw [unescape?, if_neg h]
  rintro _ _ heq
  exact absurd heq (ne_backslash_of_plain h)

theorem undouble?_plain (h : c ≠ '$') (rest : List Char) :
    undouble? (c :: rest) = (undouble? rest).map (c :: ·) := by
  rw [undouble?, if_neg h]
  rintro _ heq
  exact absurd heq h

/-- **Escaping is undone.** -/
theorem unescape?_flatMap (name : List Char) :
    unescape? (name.flatMap escapeLinkChar) = some name := by
  induction name with
  | nil => rfl
  | cons c name ih =>
    rw [List.flatMap_cons]
    by_cases h : IsSpecial c
    · rw [escapeLinkChar_of_special h, List.cons_append, List.singleton_append,
        unescape?_escaped h, ih, Option.map_some]
    · rw [escapeLinkChar_of_plain h, List.singleton_append, unescape?_plain h, ih, Option.map_some]

/-- **Doubling is undone.** -/
theorem undouble?_flatMap (text : List Char) :
    undouble? (text.flatMap escapePatternChar) = some text := by
  induction text with
  | nil => rfl
  | cons c text ih =>
    rw [List.flatMap_cons, escapePatternChar]
    split
    · next h =>
      subst h
      rw [List.cons_append, List.singleton_append, undouble?, ih, Option.map_some]
    · next h => rw [List.singleton_append, undouble?_plain h, ih, Option.map_some]

/-! ### What can stand in quotes -/

/-- **A text is sealed** against the quotes around it: it is made of escaped pairs and of characters
that mean nothing there. -/
inductive Sealed : List Char → Prop
  | nil : Sealed []
  /-- A character that has to be escaped, and is. -/
  | escaped {c : Char} {rest : List Char} (hc : IsSpecial c) (hrest : Sealed rest) :
    Sealed ('\\' :: c :: rest)
  /-- A character that stands for itself. -/
  | plain {c : Char} {rest : List Char} (hc : ¬ IsSpecial c) (hrest : Sealed rest) :
    Sealed (c :: rest)

theorem sealed_escape (name : List Char) : Sealed (name.flatMap escapeLinkChar) := by
  induction name with
  | nil => exact .nil
  | cons c name ih =>
    rw [List.flatMap_cons]
    by_cases h : IsSpecial c
    · rw [escapeLinkChar_of_special h]
      exact .escaped h ih
    · rw [escapeLinkChar_of_plain h]
      exact .plain h ih

/-- Dollar signs are not escaped, so they can be doubled. -/
theorem Sealed.doubled (h : Sealed text) : Sealed (text.flatMap escapePatternChar) := by
  have hdollar : ¬ IsSpecial '$' := by decide
  have hbackslash : escapePatternChar '\\' = ['\\'] := by decide
  induction h with
  | nil => exact .nil
  | @escaped c rest hc _ ih =>
    have hself : escapePatternChar c = [c] := if_neg fun heq : c = '$' => hdollar (heq ▸ hc)
    rw [List.flatMap_cons, List.flatMap_cons, hbackslash, hself]
    exact .escaped hc ih
  | @plain c rest hc _ ih =>
    rw [List.flatMap_cons, escapePatternChar]
    split
    · next heq => exact .plain (heq ▸ hdollar) (.plain (heq ▸ hdollar) ih)
    · exact .plain hc ih

/-- A sealed text between two others that a pattern begins and ends with. -/
theorem Sealed.append (h : Sealed text) (hrest : Sealed rest) : Sealed (text ++ rest) := by
  induction h with
  | nil => exact hrest
  | escaped hc _ ih => exact .escaped hc ih
  | plain hc _ ih => exact .plain hc ih

/-- **A sealed text ends where its quote stands**, whatever comes after it. -/
theorem Sealed.quoted?_eq (h : Sealed text) (rest : List Char) :
    quoted? (text ++ '\"' :: rest) = some (text, rest) := by
  induction h with
  | nil => rfl
  | escaped hc _ ih => rw [List.cons_append, List.cons_append, quoted?, ih, Option.map_some]
  | plain hc _ ih =>
    rw [List.cons_append, quoted?, ih, Option.map_some]
    · exact fun heq => ne_quote_of_plain hc heq
    · exact fun _ _ heq => absurd heq (ne_backslash_of_plain hc)

/-- How many backslashes a text ends with. -/
def backslashes (text : List Char) : ℕ := (text.reverse.takeWhile (· = '\\')).length

theorem backslashes_concat_self (text : List Char) :
    backslashes (text ++ ['\\']) = backslashes text + 1 := by
  simp [backslashes]

theorem backslashes_concat_of_ne (h : c ≠ '\\') (text : List Char) :
    backslashes (text ++ [c]) = 0 := by
  simp [backslashes, h]

/-- **What stands in quotes leaves them alone**: each quote in it is escaped, by the last of an odd
number of backslashes, and so is no quote after it. -/
structure Closed (text : List Char) : Prop where
  odd : ∀ before after, text = before ++ '\"' :: after → Odd (backslashes before)
  even : Even (backslashes text)

/-- The pairs and characters of a sealed text leave an even number of backslashes each time, so the
quotes among them have an odd number before them. -/
theorem Sealed.closed_of (h : Sealed text) (before : List Char)
    (heven : Even (backslashes before)) :
    (∀ front after, text = front ++ '\"' :: after → Odd (backslashes (before ++ front))) ∧
      Even (backslashes (before ++ text)) := by
  induction h generalizing before with
  | nil => exact ⟨fun front after h => by simp at h, by rwa [List.append_nil]⟩
  | @escaped c rest hc _ ih =>
    have hpair : Even (backslashes (before ++ ['\\', c])) := by
      rw [List.append_cons]
      rcases hc with rfl | rfl
      · rw [backslashes_concat_self, backslashes_concat_self]
        exact heven.add even_two
      · rw [backslashes_concat_of_ne (by decide)]
        exact .zero
    obtain ⟨hodd, hall⟩ := ih (before ++ ['\\', c]) hpair
    refine ⟨fun front after heq => ?_, by simpa using hall⟩
    match front with
    | [] => simp at heq
    | [d] =>
      obtain ⟨rfl, -⟩ : d = '\\' ∧ _ := by simpa [eq_comm] using heq
      rw [backslashes_concat_self]
      exact heven.add_one
    | d :: e :: front =>
      obtain ⟨rfl, rfl, htail⟩ : d = '\\' ∧ e = c ∧ rest = front ++ '\"' :: after := by
        simpa [eq_comm] using heq
      simpa using hodd front after htail
  | @plain c rest hc _ ih =>
    have hself : Even (backslashes (before ++ [c])) := by
      rw [backslashes_concat_of_ne (ne_backslash_of_plain hc)]
      exact .zero
    obtain ⟨hodd, hall⟩ := ih (before ++ [c]) hself
    refine ⟨fun front after heq => ?_, by simpa using hall⟩
    match front with
    | [] => exact absurd (List.cons.inj heq).1 (ne_quote_of_plain hc)
    | d :: front =>
      obtain ⟨rfl, htail⟩ := List.cons.inj heq
      simpa using hodd front after htail

theorem Sealed.closed (h : Sealed text) : Closed text := by
  obtain ⟨hodd, heven⟩ := h.closed_of [] .zero
  exact ⟨hodd, heven⟩

/-- **Dollar signs come in pairs**: wherever some of them stand together and no further one stands
next to them, they are even in number. -/
def Paired (text : List Char) : Prop :=
  ∀ before run after : List Char, text = before ++ run ++ after → (∀ c ∈ run, c = '$') →
    before.getLast? ≠ some '$' → after.head? ≠ some '$' → Even run.length

namespace Paired

theorem nil : Paired [] := by
  intro before run after heq
  obtain ⟨-, rfl, -⟩ : before = [] ∧ run = [] ∧ after = [] := by simpa using heq
  exact fun _ _ _ => .zero

/-- Another character does not lengthen a run. -/
theorem cons (hc : c ≠ '$') (h : Paired text) : Paired (c :: text) := by
  intro before run after heq hrun hbefore hafter
  match before, run with
  | [], [] => exact .zero
  | [], d :: run =>
    have hd := (List.cons.inj heq).1
    exact absurd (hd.trans (hrun d List.mem_cons_self)) hc
  | d :: before, run =>
    refine h before run after (List.cons.inj heq).2 hrun (fun hlast => hbefore ?_) hafter
    rw [List.getLast?_cons, hlast, Option.getD_some]

/-- A pair of dollar signs lengthens a run by two, or makes one. -/
theorem pair (h : Paired text) : Paired ('$' :: '$' :: text) := by
  intro before run after heq hrun hbefore hafter
  match before, run with
  | [], [] => exact .zero
  | [], [d] =>
    -- the second sign stands next to the run
    have hnext : '$' :: text = after := (List.cons.inj heq).2
    exact absurd (by rw [← hnext, List.head?_cons]) hafter
  | [], d :: e :: run =>
    have hrest := h [] run after (List.cons.inj (List.cons.inj heq).2).2
      (fun c hc => hrun c (List.mem_cons_of_mem _ (List.mem_cons_of_mem _ hc))) (by simp) hafter
    exact hrest.add even_two
  | [d], run => exact absurd (congrArg some (List.cons.inj heq).1.symm) hbefore
  | d :: e :: before, run =>
    refine h before run after (List.cons.inj (List.cons.inj heq).2).2 hrun
      (fun hlast => hbefore ?_) hafter
    rw [List.getLast?_cons, List.getLast?_cons, hlast, Option.getD_some, Option.getD_some]

/-- **Doubling makes pairs.** -/
theorem doubled (text : List Char) : Paired (text.flatMap escapePatternChar) := by
  induction text with
  | nil => exact .nil
  | cons c text ih =>
    rw [List.flatMap_cons, escapePatternChar]
    split
    · exact ih.pair
    · next hc => exact ih.cons hc

end Paired

/-! ### Reading a pragma -/

/-- **What a pragma says of the foreign name**. -/
inductive Pragma where
  /-- Nothing, so it is the generated one. -/
  | bare
  /-- It is this, in quotes. -/
  | link (text : List Char)
  /-- It is called by this, in quotes between the fixed parts of a call pattern. -/
  | call (text : List Char)
  deriving DecidableEq, Repr

namespace Pragma

/-- The name in the call pattern of a method or of a constructor. -/
def callee? (pattern : List Char) : Option (List Char) := do
  let rest ← (pattern.dropPrefix? ['#', '.']).or (pattern.dropPrefix? ['n', 'e', 'w', ' '])
  rest.dropSuffix? ['(', '@', ')']

/-- What a pragma says, from the point on where `importc` is left behind. -/
def readName (text : List Char) : Option (Pragma × List Char) :=
  match text with
  | ':' :: ' ' :: '\"' :: rest => do
    let (name, left) ← quoted? rest
    return (link name, left)
  | 'p' :: 'p' :: ':' :: ' ' :: '\"' :: rest => do
    let (pattern, left) ← quoted? rest
    return (call (← callee? pattern), left)
  | rest => some (bare, rest)

/-- **What the pragma that begins here says**, and what is left after it. -/
def read (text : List Char) : Option (Pragma × List Char) := do
  let rest ← text.dropPrefix? " \x7b.importc".toList
  let (pragma, rest) ← readName rest
  let rest := (rest.dropPrefix? ", nodecl".toList).getD rest
  return (pragma, ← rest.dropPrefix? ".\x7d".toList)

/-- The same for a field, which need not have a pragma. -/
def readOptional (text : List Char) : Option (Pragma × List Char) :=
  if text.head? = some ':' then some (bare, text) else read text

/-- **The foreign name that a pragma stands for** beside a generated one. -/
def target? (generated : String) : Pragma → Option String
  | bare => some generated
  | link text => (unescape? text).map String.ofList
  | call text => ((undouble? text).bind unescape?).map String.ofList

/-- **What a pragma has in quotes leaves them alone**, and in a pattern dollar signs come in
pairs. -/
def WellQuoted : Pragma → Prop
  | bare => True
  | link text => Closed text
  | call text => Closed text ∧ Paired text

end Pragma

/-- **A text links to a foreign name** beside a generated one: after the head comes a pragma that
stands for it, and this is left. -/
def Links (read : List Char → Option (Pragma × List Char)) (text head left : String)
    (generated foreign : String) : Prop :=
  ∃ tail pragma, text.toList = head.toList ++ tail ∧ read tail = some (pragma, left.toList) ∧
    pragma.target? generated = some foreign ∧ pragma.WellQuoted

section Read

variable {ident : Ident} {more left opening generated : String}

theorem dropPrefix?_append (front rest : List Char) :
    (front ++ rest).dropPrefix? front = some rest :=
  List.dropPrefix?_eq_some_iff.mpr ⟨front, rfl, beq_self_eq_true front⟩

theorem dropSuffix?_append (text back : List Char) :
    (text ++ back).dropSuffix? back = some text :=
  List.dropSuffix?_eq_some_iff.mpr ⟨back, rfl, beq_self_eq_true back⟩

namespace Pragma

/-- What the pragma of an identifier says. -/
def ofIdent (ident : Ident) : Pragma :=
  if ident.name = ident.foreign then bare else link (ident.foreign.toList.flatMap escapeLinkChar)

/-- What a call pattern says. -/
def ofCall (foreign : String) : Pragma :=
  call ((foreign.toList.flatMap escapeLinkChar).flatMap escapePatternChar)

theorem target?_ofIdent (ident : Ident) :
    (ofIdent ident).target? ident.name = some ident.foreign := by
  rw [ofIdent]
  split
  · next h => rw [target?, h]
  · rw [target?, unescape?_flatMap, Option.map_some, String.ofList_toList]

theorem wellQuoted_ofIdent (ident : Ident) : (ofIdent ident).WellQuoted := by
  rw [ofIdent]
  split
  · trivial
  · exact (sealed_escape _).closed

theorem target?_ofCall (generated foreign : String) :
    (ofCall foreign).target? generated = some foreign := by
  rw [ofCall, target?, undouble?_flatMap, Option.bind_some, unescape?_flatMap, Option.map_some,
    String.ofList_toList]

theorem wellQuoted_ofCall (foreign : String) : (ofCall foreign).WellQuoted :=
  ⟨(sealed_escape _).doubled.closed, .doubled _⟩

/-- A pragma is read once its name is, with or without more after the name. -/
theorem read_of_readName {name more left : List Char} {pragma : Pragma}
    (hmore : more = [] ∨ more = ", nodecl".toList)
    (hname : readName (name ++ (more ++ ".\x7d".toList ++ left)) =
      some (pragma, more ++ ".\x7d".toList ++ left)) :
    read (" \x7b.importc".toList ++ (name ++ (more ++ ".\x7d".toList ++ left))) =
      some (pragma, left) := by
  rw [read, dropPrefix?_append]
  simp only [Option.bind_eq_bind, Option.bind_some, hname, Option.pure_def]
  rcases hmore with rfl | rfl
  · have hother : (".\x7d".toList ++ left).dropPrefix? ", nodecl".toList = none := rfl
    rw [List.nil_append, hother, Option.getD_none, dropPrefix?_append, Option.bind_some]
  · rw [List.append_assoc, dropPrefix?_append, Option.getD_some, dropPrefix?_append,
      Option.bind_some]

theorem readName_link {name : List Char} (h : Sealed name) (left : List Char) :
    readName ([':', ' ', '\"'] ++ name ++ ['\"'] ++ left) = some (link name, left) := by
  simp only [List.cons_append, List.nil_append, List.append_assoc, readName, h.quoted?_eq]
  rfl

theorem readName_call {pattern name : List Char} (h : Sealed pattern)
    (hname : callee? pattern = some name) (left : List Char) :
    readName (['p', 'p', ':', ' ', '\"'] ++ pattern ++ ['\"'] ++ left) =
      some (call name, left) := by
  simp only [List.cons_append, List.nil_append, List.append_assoc, readName, h.quoted?_eq,
    Option.bind_eq_bind, Option.bind_some, hname]
  rfl

/-- **The pragma of an identifier is read.** -/
theorem read_importPragma (ident : Ident) (hmore : more = "" ∨ more = ", nodecl")
    (left : String) :
    read (" " ++ inPragma (importPragma ident ++ more) ++ left).toList =
      some (ofIdent ident, left.toList) := by
  have hmore' : more.toList = [] ∨ more.toList = ", nodecl".toList :=
    hmore.imp (congrArg String.toList) (congrArg String.toList)
  rw [importPragma, Ident.link?, ofIdent]
  by_cases h : ident.name = ident.foreign
  · have hname : readName ([] ++ (more.toList ++ ".\x7d".toList ++ left.toList)) =
        some (bare, more.toList ++ ".\x7d".toList ++ left.toList) := by
      rcases hmore' with heq | heq <;> rw [heq] <;> rfl
    rw [if_pos h, if_pos h, ← read_of_readName hmore' hname]
    simp [inPragma]
  · rw [if_neg h, if_neg h, ← read_of_readName hmore' (readName_link (sealed_escape _) _)]
    simp [inPragma, inQuotes, escapeLink]

/-- A call pattern begins in one of two ways. -/
def IsOpening (opening : List Char) : Prop := opening = ['#', '.'] ∨ opening = ['n', 'e', 'w', ' ']

/-- The name stands between the fixed parts of a call pattern. -/
theorem callee?_eq {opening : List Char} (hopening : IsOpening opening) (name : List Char) :
    callee? (opening ++ name ++ ['(', '@', ')']) = some name := by
  rw [callee?, List.append_assoc]
  rcases hopening with rfl | rfl
  · rw [dropPrefix?_append, Option.some_or]
    exact dropSuffix?_append name _
  · have hother :
        (['n', 'e', 'w', ' '] ++ (name ++ ['(', '@', ')'])).dropPrefix? ['#', '.'] = none := rfl
    rw [hother, Option.none_or, dropPrefix?_append]
    exact dropSuffix?_append name _

/-- The fixed parts of a call pattern are sealed as well as the name between them. -/
theorem sealed_pattern {opening : List Char} (hopening : IsOpening opening) (h : Sealed text) :
    Sealed (opening ++ text ++ ['(', '@', ')']) := by
  have hplain : ∀ {fixed : List Char}, (∀ c ∈ fixed, ¬ IsSpecial c) → Sealed fixed := by
    intro fixed hfixed
    induction fixed with
    | nil => exact .nil
    | cons c fixed ih =>
      obtain ⟨hc, hfixed⟩ := List.forall_mem_cons.mp hfixed
      exact .plain hc (ih hfixed)
  have hopen : Sealed opening := by
    rcases hopening with rfl | rfl <;> exact hplain (by simp [IsSpecial])
  exact (hopen.append h).append (hplain (by simp [IsSpecial]))

/-- **The call pattern of a method or a constructor is read.** -/
theorem read_callPattern (hopening : opening = "#." ∨ opening = "new ") (foreign left : String) :
    read (" " ++ inPragma ("importcpp: " ++
      inQuotes (opening ++ escapePattern foreign ++ "(@)")) ++ left).toList =
      some (ofCall foreign, left.toList) := by
  have hopening' : IsOpening opening.toList :=
    hopening.imp (congrArg String.toList) (congrArg String.toList)
  have hname := readName_call
    (sealed_pattern hopening' (sealed_escape foreign.toList).doubled) (callee?_eq hopening' _)
  rw [ofCall, ← read_of_readName (Or.inl rfl) (hname _)]
  simp [inPragma, inQuotes, escapePattern, escapeLink]

end Pragma

end Read

/-! ### What declarations link to -/

section Links

variable {ident : Ident} {read : List Char → Option (Pragma × List Char)} {text head left : String}

/-- A text links to the foreign name if the pragma of the identifier is read after the head. -/
theorem links_of_ofIdent (tail : String) (htext : text = head ++ tail)
    (hread : read tail.toList = some (.ofIdent ident, left.toList)) :
    Links read text head left ident.name ident.foreign :=
  ⟨tail.toList, _, by rw [htext, String.toList_append], hread, Pragma.target?_ofIdent ident,
    Pragma.wellQuoted_ofIdent ident⟩

/-- A text links to the foreign name if its call pattern is read after the head. -/
theorem links_of_ofCall (tail : String) (htext : text = head ++ tail)
    (hread : read tail.toList = some (.ofCall ident.foreign, left.toList)) :
    Links read text head left ident.name ident.foreign :=
  ⟨tail.toList, _, by rw [htext, String.toList_append], hread,
    Pragma.target?_ofCall ident.name ident.foreign, Pragma.wellQuoted_ofCall ident.foreign⟩

theorem links_global (type : TypeRef) : Links Pragma.read (Global.render ⟨ident, type⟩)
    ("var " ++ ident.name ++ "*") (": " ++ type.name) ident.name ident.foreign := by
  refine links_of_ofIdent _ ?_ (Pragma.read_importPragma ident (Or.inr rfl) (": " ++ type.name))
  simp only [Global.render, String.append_assoc]
  rfl

/-- A field whose name is the foreign one has no pragma. -/
theorem links_field (type : TypeRef) : Links Pragma.readOptional (Field.render ⟨ident, type⟩)
    (ident.name ++ "*") (": " ++ type.name) ident.name ident.foreign := by
  rw [Field.render]
  by_cases h : ident.name = ident.foreign
  · have hlink : ident.link? = none := if_pos h
    refine links_of_ofIdent (": " ++ type.name) ?_ ?_
    · simp only [hlink, String.append_assoc]
      rfl
    · rw [Pragma.ofIdent, if_pos h, String.toList_append]
      rfl
  · have hlink : ident.link? = some ident.foreign := if_neg h
    refine links_of_ofIdent
      (" " ++ inPragma (importPragma ident ++ "") ++ (": " ++ type.name)) ?_ ?_
    · simp only [hlink, String.append_empty, String.append_assoc]
      rfl
    · rw [Pragma.readOptional, if_neg (by simp), Pragma.read_importPragma ident (Or.inl rfl)]

theorem links_function (params : List Parameter) (returns : TypeRef) (overload : ℕ) :
    Links Pragma.read (Signature.render ⟨ident, params, returns, none, overload⟩)
      ("proc " ++ ident.name ++ "*(" ++ renderParams params ++ ")" ++ renderReturns returns) ""
      ident.name ident.foreign := by
  refine links_of_ofIdent _ ?_ (Pragma.read_importPragma ident (Or.inl rfl) "")
  simp only [Signature.render, String.append_empty, String.append_assoc]

theorem links_method (params : List Parameter) (returns : TypeRef) (owner : Ident) (overload : ℕ) :
    Links Pragma.read (Signature.render ⟨ident, params, returns, some owner, overload⟩)
      ("proc " ++ ident.name ++ "*(" ++
        String.intercalate ", " (renderReceiver owner :: params.map Parameter.render) ++ ")" ++
        renderReturns returns) "" ident.name ident.foreign := by
  refine links_of_ofCall _ ?_ (Pragma.read_callPattern (Or.inl rfl) ident.foreign "")
  simp only [Signature.render, String.append_empty, String.append_assoc]

theorem links_constructor (params : List Parameter) :
    Links Pragma.read (Constructor.render ⟨ident, params⟩)
      ("proc new" ++ ident.name ++ "*(" ++ renderParams params ++ "): " ++ ident.name) ""
      ident.name ident.foreign := by
  refine links_of_ofCall _ ?_ (Pragma.read_callPattern (Or.inr rfl) ident.foreign "")
  simp only [Constructor.render, Constructor.name, String.append_empty, String.append_assoc]
  rfl

/-- The header of a type is followed by the lines of its members. -/
theorem TypeDecl.exists_below (type : TypeDecl) :
    ∃ below, type.render = type.renderHeader ++ below := by
  rw [TypeDecl.render, TypeDecl.lines, List.cons_append, List.cons_append]
  cases type.body.fields.map _ ++ type.body.constructors.map _ ++ type.body.methods.map _ with
  | nil => exact ⟨"", by simp⟩
  | cons line lines => exact ⟨_, by rw [String.intercalate_cons_cons, String.append_assoc]⟩

theorem links_type (type : TypeDecl) (below : String)
    (hbelow : type.render = type.renderHeader ++ below) :
    Links Pragma.read type.render ("type " ++ type.ident.name ++ "*")
      (" = ref object of " ++ (type.parent?.map fun parent => parent.ident.name).getD "RootObj" ++
        below)
      type.ident.name type.ident.foreign := by
  rw [hbelow, TypeDecl.renderHeader]
  refine links_of_ofIdent _ ?_ (Pragma.read_importPragma type.ident (Or.inl rfl) _)
  simp only [String.append_empty, String.append_assoc]
  rfl

end Links

/-- **The foreign name survives rendering**, whatever it is and whatever is reserved: it is read
back from the text of a global variable, a field, a function, a method, a constructor and a type,
and what these have in quotes ends where it should. -/
theorem foreign_survives (reserved : Std.TreeSet String) (foreign : String) :
    let ident := Ident.ofForeign reserved foreign
    (∀ type, Links Pragma.read (Global.render ⟨ident, type⟩)
      ("var " ++ ident.name ++ "*") (": " ++ type.name) ident.name foreign) ∧
    (∀ type, Links Pragma.readOptional (Field.render ⟨ident, type⟩)
      (ident.name ++ "*") (": " ++ type.name) ident.name foreign) ∧
    (∀ params returns overload,
      Links Pragma.read (Signature.render ⟨ident, params, returns, none, overload⟩)
        ("proc " ++ ident.name ++ "*(" ++ renderParams params ++ ")" ++ renderReturns returns) ""
        ident.name foreign) ∧
    (∀ params returns owner overload,
      Links Pragma.read (Signature.render ⟨ident, params, returns, some owner, overload⟩)
        ("proc " ++ ident.name ++ "*(" ++
          String.intercalate ", " (renderReceiver owner :: params.map Parameter.render) ++ ")" ++
          renderReturns returns) "" ident.name foreign) ∧
    (∀ params, Links Pragma.read (Constructor.render ⟨ident, params⟩)
      ("proc new" ++ ident.name ++ "*(" ++ renderParams params ++ "): " ++ ident.name) ""
      ident.name foreign) ∧
    ∀ isAbstract fields constructors methods ancestors,
      let type : TypeDecl := ⟨⟨ident, isAbstract, fields, constructors, methods⟩, ancestors⟩
      ∃ below, type.render = type.renderHeader ++ below ∧
        Links Pragma.read type.render ("type " ++ ident.name ++ "*")
          (" = ref object of " ++
            (type.parent?.map fun parent => parent.ident.name).getD "RootObj" ++ below)
          ident.name foreign := by
  intro ident
  refine ⟨links_global, links_field, links_function, links_method, links_constructor, ?_⟩
  intro isAbstract fields constructors methods ancestors type
  obtain ⟨below, hbelow⟩ := type.exists_below
  exact ⟨below, hbelow, links_type type below hbelow⟩

/-- A name that a careless reader would take for the end of its pragma. -/
example :
    Global.render ⟨.ofForeign ∅ "_\".\x7d", .primitive .number⟩ =
      "var z\".\x7d* \x7b.importc: \"_\\\".\x7d\", nodecl.\x7d: float" := by
  decide +kernel

end Bindery.Decl
