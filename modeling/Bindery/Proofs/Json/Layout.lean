import Bindery.Json.Node
import Bindery.Proofs.Json.Quoting

/-!
# What is written is laid out as it was

A laid out value **holds** a JSON value (`Bindery.Json.Node.Holds`) if it has the same parts and
nothing is missing in it. What follows it in the text is part of the relation. There is nothing
about blanks in it, so two layouts of a value are not told apart.

A value is **legible** (`Bindery.Json.Legible`) if its text, whatever follows, is laid out as a node
that holds the value. Texts, lists and objects of legible values are legible; symbol tables need
nothing else.
-/

namespace Bindery.Json

/-! ### What a laid out value holds -/

mutual

/-- **A laid out value holds a value**, and this is left after it. -/
inductive Node.Holds : Node → Json → List Char → Prop
  | text {start rest : List Char} {text : String} :
    Node.Holds (.scalar ('\"' :: start) ⟨.ok (.string text), .ok rest⟩) (.string text) rest
  | array {start rest : List Char} {items : Items} {values : List Json}
    (hitems : items.Hold values rest) : Node.Holds (.array start items) (.array values) rest
  | object {start rest : List Char} {entries : Entries} {values : List (String × Json)}
    (hentries : entries.Hold values rest) : Node.Holds (.object start entries) (.object values) rest

/-- **The items of a list hold values**, and this is left after the list. -/
inductive Items.Hold : Items → List Json → List Char → Prop
  | done {rest : List Char} : Items.Hold (.done (.closed rest)) [] rest
  | more {head : Node} {tail : Items} {value : Json} {values : List Json} {next rest : List Char}
    (hhead : head.Holds value next) (htail : tail.Hold values rest) :
    Items.Hold (.more head tail) (value :: values) rest

/-- **The entries of an object hold values** under their keys, and this is left after the object. -/
inductive Entries.Hold : Entries → List (String × Json) → List Char → Prop
  | done {rest : List Char} : Entries.Hold (.done (.closed rest)) [] rest
  | more {key : Token String} {node : Node} {tail : Entries} {label : String} {value : Json}
    {values : List (String × Json)} {next rest : List Char} (hkey : key.strict = .ok label)
    (hvalue : node.Holds value next) (htail : tail.Hold values rest) :
    Entries.Hold (.more key node tail) ((label, value) :: values) rest

end

variable {c : Char} {text rest start : List Char} {value item : Json}

theorem Items.Hold.ending_eq {items : Items} {values : List Json} (h : items.Hold values rest) :
    items.ending = .closed rest := by
  induction values generalizing items with
  | nil =>
    cases h
    rfl
  | cons value values ih =>
    cases h with
    | more _ htail =>
      rw [Items.ending]
      exact ih htail

theorem Entries.Hold.ending_eq {entries : Entries} {values : List (String × Json)}
    (h : entries.Hold values rest) : entries.ending = .closed rest := by
  induction values generalizing entries with
  | nil =>
    cases h
    rfl
  | cons value values ih =>
    cases h with
    | more _ _ htail =>
      rw [Entries.ending]
      exact ih htail

theorem Node.Holds.lax_eq {node : Node} (h : node.Holds value rest) : node.lax = .ok rest := by
  cases h with
  | text => rfl
  | array hitems => exact congrArg Ending.laxList hitems.ending_eq
  | object hentries => exact congrArg Ending.laxObject hentries.ending_eq

/-! ### How a text is laid out -/

/-- The items of a list that goes on like this. -/
def Continuation.items : Continuation → Items
  | part text => (readItems text).val
  | ending last => .done last

/-- The entries of an object that goes on like this. -/
def Continuation.entries : Continuation → Entries
  | part text => (readEntries text).val
  | ending last => .done last

theorem readNode_text (text : List Char) : (readNode ('\"' :: text)).val =
    .scalar ('\"' :: text) ⟨(readString text).strict.map .string, (readString text).lax⟩ := by
  rw [readNode]
  · rfl
  · simp
  · simp

theorem readNode_array (text : List Char) :
    (readNode ('[' :: text)).val = .array ('[' :: text) (listBegin text).items := by
  rw [readNode]
  refine congrArg (Node.array _) ?_
  split
  · next heq => exact congrArg Continuation.items heq.symm
  · next heq => exact congrArg Continuation.items heq.symm

theorem readNode_object (text : List Char) :
    (readNode ('\x7b' :: text)).val = .object ('\x7b' :: text) (objectBegin text).entries := by
  rw [readNode]
  refine congrArg (Node.object _) ?_
  split
  · next heq => exact congrArg Continuation.entries heq.symm
  · next heq => exact congrArg Continuation.entries heq.symm

theorem readItems_eq (hlax : (readNode text).val.lax = .ok rest) :
    (readItems text).val = .more (readNode text).val (listContinue rest).items := by
  rw [readItems]
  split
  · next heq => cases hlax.symm.trans heq
  · next heq =>
    obtain rfl := Except.ok.inj (hlax.symm.trans heq)
    split
    · next heq => exact congrArg (fun next => Items.more _ next.items) heq.symm
    · next heq => exact congrArg (fun next => Items.more _ next.items) heq.symm

theorem readEntries_eq {afterKey : List Char} (hkey : (readString text).lax = .ok afterKey)
    (hcolon : skipColon afterKey = .ok start) (hlax : (readNode start).val.lax = .ok rest) :
    (readEntries text).val =
      .more (readString text) (readNode start).val (objectContinue rest).entries := by
  rw [readEntries]
  split
  · next heq => cases hkey.symm.trans heq
  · next heq =>
    obtain rfl := Except.ok.inj (hkey.symm.trans heq)
    split
    · next heq => cases hcolon.symm.trans heq
    · next heq =>
      obtain rfl := Except.ok.inj (hcolon.symm.trans heq)
      simp only
      split
      · next heq => cases hlax.symm.trans heq
      · next heq =>
        obtain rfl := Except.ok.inj (hlax.symm.trans heq)
        split
        · next heq => exact congrArg (fun next => Entries.more _ _ next.entries) heq.symm
        · next heq => exact congrArg (fun next => Entries.more _ _ next.entries) heq.symm

/-! ### Between the parts -/

theorem skipBlanks_cons (h : isBlank c = false) (text : List Char) :
    skipBlanks (c :: text) = c :: text := by
  rw [skipBlanks, List.dropWhile_cons, h]
  rfl

theorem listBegin_part (hblank : isBlank c = false) (hclose : c ≠ ']') (text : List Char) :
    listBegin (c :: text) = .part (c :: text) := by
  rw [listBegin, skipBlanks_cons hblank]
  simp

theorem listContinue_part (hblank : isBlank c = false) (hclose : c ≠ ']') (text : List Char) :
    listContinue (',' :: c :: text) = .part (c :: text) := by
  rw [listContinue, skipBlanks_cons rfl]
  simp [skipBlanks_cons hblank]

theorem skipColon_cons (hblank : isBlank c = false) (text : List Char) :
    skipColon (':' :: c :: text) = .ok (c :: text) := by
  rw [skipColon, skipBlanks_cons rfl]
  exact congrArg _ (skipBlanks_cons hblank text)

/-! ### Legible values -/

/-- **A value is legible**: whatever follows its text, this is laid out as a node that holds the
value, and what follows is left. No blank comes first, nor anything that could end a list. -/
structure Legible (value : Json) : Prop where
  begins : ∃ c text, value.chars = c :: text ∧ isBlank c = false ∧ c ≠ ']'
  holds : ∀ rest, (readNode (value.chars ++ rest)).val.Holds value rest

/-- A quoted text is what the reader of strings is handed from its second character on. -/
theorem quote_append (text : String) (rest : List Char) :
    quote text ++ rest = '\"' :: (text.toList.flatMap escapeChar ++ '\"' :: rest) := by
  simp [quote]

theorem Legible.string (text : String) : Legible (.string text) where
  begins := ⟨'\"', _, by rw [chars, quote], rfl, by decide⟩
  holds rest := by
    rw [chars, quote_append, readNode_text, readString_quote]
    exact .text

/-- The first item of a list. -/
theorem holds_readItems_of {values : List Json} {next : List Char} (hitem : item.Legible)
    (htail : (listContinue next).items.Hold values rest) :
    (readItems (item.chars ++ next)).val.Hold (item :: values) rest := by
  have hholds := hitem.holds next
  rw [readItems_eq hholds.lax_eq]
  exact .more hholds htail

/-- What follows an item of a list. -/
theorem holds_listContinue {items : List Json} (h : ∀ item ∈ items, item.Legible)
    (rest : List Char) : (listContinue (itemChars items ++ rest)).items.Hold items rest := by
  induction items with
  | nil => exact .done
  | cons item items ih =>
    obtain ⟨hitem, hitems⟩ := List.forall_mem_cons.mp h
    obtain ⟨c, text, hchars, hblank, hclose⟩ := hitem.begins
    have hfirst := holds_readItems_of hitem (ih hitems)
    rw [hchars, List.cons_append] at hfirst
    rw [itemChars, List.cons_append, List.append_assoc, hchars, List.cons_append,
      listContinue_part hblank hclose]
    exact hfirst

/-- **A list of legible values** is legible. -/
theorem Legible.array {items : List Json} (h : ∀ item ∈ items, item.Legible) :
    Legible (.array items) where
  begins := by
    cases items with
    | nil => exact ⟨'[', _, rfl, rfl, by decide⟩
    | cons item items => exact ⟨'[', _, rfl, rfl, by decide⟩
  holds rest := by
    cases items with
    | nil => exact readNode_array _ ▸ .array .done
    | cons item items =>
      obtain ⟨hitem, hitems⟩ := List.forall_mem_cons.mp h
      obtain ⟨c, text, hchars, hblank, hclose⟩ := hitem.begins
      have hfirst := holds_readItems_of hitem (holds_listContinue hitems rest)
      rw [hchars, List.cons_append] at hfirst
      rw [chars, List.cons_append, readNode_array, List.append_assoc, hchars, List.cons_append,
        listBegin_part hblank hclose]
      exact .array hfirst

/-- The first entry of an object, from the opening quote of its key on. -/
theorem holds_readEntries_of (label : String) {values : List (String × Json)} {next : List Char}
    (hvalue : value.Legible) (htail : (objectContinue next).entries.Hold values rest) :
    (readEntries (label.toList.flatMap escapeChar ++ '\"' :: ':' :: (value.chars ++ next))).val.Hold
      ((label, value) :: values) rest := by
  have hkey := readString_quote label (':' :: (value.chars ++ next))
  have hholds := hvalue.holds next
  obtain ⟨c, text, hchars, hblank, -⟩ := hvalue.begins
  have hcolon : skipColon (':' :: (value.chars ++ next)) = .ok (value.chars ++ next) := by
    rw [hchars, List.cons_append]
    exact skipColon_cons hblank _
  rw [readEntries_eq (congrArg Token.lax hkey) hcolon hholds.lax_eq]
  exact .more (congrArg Token.strict hkey) hholds htail

/-- What follows an entry of an object. -/
theorem holds_objectContinue {entries : List (String × Json)}
    (h : ∀ entry ∈ entries, entry.2.Legible) (rest : List Char) :
    (objectContinue (entryChars entries ++ rest)).entries.Hold entries rest := by
  induction entries with
  | nil => exact .done
  | cons entry entries ih =>
    obtain ⟨hentry, hentries⟩ := List.forall_mem_cons.mp h
    have hfirst := holds_readEntries_of entry.1 hentry (ih hentries)
    rw [entryChars, List.cons_append, List.append_assoc, List.append_assoc, quote_append]
    exact hfirst

/-- **An object of legible values** is legible. -/
theorem Legible.object {entries : List (String × Json)} (h : ∀ entry ∈ entries, entry.2.Legible) :
    Legible (.object entries) where
  begins := by
    cases entries with
    | nil => exact ⟨'\x7b', _, rfl, rfl, by decide⟩
    | cons entry entries => exact ⟨'\x7b', _, rfl, rfl, by decide⟩
  holds rest := by
    cases entries with
    | nil => exact readNode_object _ ▸ .object .done
    | cons entry entries =>
      obtain ⟨hentry, hentries⟩ := List.forall_mem_cons.mp h
      have hfirst :=
        holds_readEntries_of entry.1 hentry (holds_objectContinue hentries rest)
      rw [chars, List.cons_append, readNode_object, List.append_assoc, List.append_assoc,
        quote_append]
      exact .object hfirst

end Bindery.Json
