import Bindery.Proofs.Json.Extent
import Bindery.Proofs.Json.Layout

/-!
# Texts as they are written

A value can be written in many ways: with blanks between its tokens, with its strings escaped or
not, and with the entries of an object in any order. A **written** value (`Bindery.Json.Written`)
keeps all of that, so its text (`Bindery.Json.Written.chars`) is the text it was written in to the
letter, and it can be changed in one place while everything else stays as it is.

A laid out value **shows** a written one (`Bindery.Json.Node.Shows`) if it has the same parts.
Wherever a written value stands in a text, it is laid out as a node that shows it
(`Bindery.Json.Written.stands`), and whatever is passed over as a value was written in some way
(`Bindery.Json.exists_written`). The blanks are not to be seen in a node.
-/

namespace Bindery.Json

/-! ### Written values -/

/-- Blanks between two tokens. -/
structure Blanks where
  chars : List Char
  blank : ∀ c ∈ chars, isBlank c = true

/-- No blanks. -/
def Blanks.none : Blanks := ⟨[], nofun⟩

/-- **A word, a number or a string as it is written**, with what it is read as. -/
structure Scalar where
  first : Char
  more : List Char
  token : Token Json
  readScalar_eq : readScalar first more = .scalar (first :: more) token
  lax_eq : token.lax = .ok []

/-- A key as it is written, from its opening quote on. -/
structure Key where
  chars : List Char
  lax_eq : (readString chars).lax = .ok []

/-- The blanks before and after the comma before an item, or all before the first item. -/
structure Gap where
  before : Blanks
  after : Blanks

/-- What is written before the value of an entry: its key, with the blanks before and after it. -/
structure Lead extends Gap where
  key : Key
  beforeColon : Blanks
  afterColon : Blanks

/-- A text in quotes. -/
def Scalar.quoted (text : String) : Scalar where
  first := '\"'
  more := text.toList.flatMap escapeChar ++ ['\"']
  token := ⟨.ok (.string text), .ok []⟩
  readScalar_eq := by
    rw [readScalar, readString_quote]
    rfl
  lax_eq := rfl

/-- A label in quotes, with no blanks around it. -/
def Lead.quoted (label : String) : Lead where
  before := .none
  after := .none
  key := ⟨label.toList.flatMap escapeChar ++ ['\"'], by rw [readString_quote]⟩
  beforeColon := .none
  afterColon := .none

/-- **A value as it is written**, to the letter. -/
inductive Written where
  | scalar (scalar : Scalar)
  | array (items : List (Gap × Written)) (last : Blanks)
  | object (entries : List (Lead × Written)) (last : Blanks)

/-- The blanks before an item, with the comma if there is one. -/
def Gap.chars (gap : Gap) (comma : List Char) : List Char :=
  gap.before.chars ++ (comma ++ gap.after.chars)

/-- What is written before the value of an entry, with the comma if there is one. -/
def Lead.chars (lead : Lead) (comma : List Char) : List Char :=
  lead.toGap.chars comma ++
    '\"' :: (lead.key.chars ++ (lead.beforeColon.chars ++ ':' :: lead.afterColon.chars))

namespace Written

mutual

/-- **The text of a written value**. -/
def chars : Written → List Char
  | scalar written => written.first :: written.more
  | array items last => '[' :: (itemChars [] items ++ (last.chars ++ [']']))
  | object entries last => '\x7b' :: (entryChars [] entries ++ (last.chars ++ ['\x7d']))

/-- The text of some items. A comma stands between two of them, and before the first one as well if
others come before. -/
def itemChars (comma : List Char) : List (Gap × Written) → List Char
  | [] => []
  | (gap, item) :: items => gap.chars comma ++ (item.chars ++ itemChars [','] items)

/-- The text of some entries. -/
def entryChars (comma : List Char) : List (Lead × Written) → List Char
  | [] => []
  | (lead, value) :: entries => lead.chars comma ++ (value.chars ++ entryChars [','] entries)

end

/-- Induction over the values that a value is written with. -/
@[induction_eliminator]
theorem induction {motive : Written → Prop} (scalar : ∀ written, motive (.scalar written))
    (array : ∀ items last, (∀ item ∈ items, motive item.2) → motive (.array items last))
    (object : ∀ entries last, (∀ entry ∈ entries, motive entry.2) → motive (.object entries last))
    (written : Written) : motive written :=
  @Written.rec motive (fun items => ∀ item ∈ items, motive item.2)
    (fun entries => ∀ entry ∈ entries, motive entry.2) (fun item => motive item.2)
    (fun entry => motive entry.2) scalar (fun items last ih => array items last ih)
    (fun entries last ih => object entries last ih) nofun
    (fun _ _ hhead htail => List.forall_mem_cons.mpr ⟨hhead, htail⟩) nofun
    (fun _ _ hhead htail => List.forall_mem_cons.mpr ⟨hhead, htail⟩) (fun _ _ h => h)
    (fun _ _ h => h) written

end Written

/-! ### What a laid out value shows -/

mutual

/-- **A laid out value shows a written one**, and this is left after it. -/
inductive Node.Shows : Node → Written → List Char → Prop
  | scalar {written : Scalar} {start rest : List Char} {token : Token Json}
    (hstart : start.head? = some written.first) (hmoved : written.token.Moved rest token) :
    Node.Shows (.scalar start token) (.scalar written) rest
  | array {start rest : List Char} {items : Items} {written : List (Gap × Written)} {last : Blanks}
    (hitems : items.Show written rest) : Node.Shows (.array start items) (.array written last) rest
  | object {start rest : List Char} {entries : Entries} {written : List (Lead × Written)}
    {last : Blanks} (hentries : entries.Show written rest) :
    Node.Shows (.object start entries) (.object written last) rest

/-- **The items of a list show written ones**, and this is left after the list. -/
inductive Items.Show : Items → List (Gap × Written) → List Char → Prop
  | done {rest : List Char} : Items.Show (.done (.closed rest)) [] rest
  | more {head : Node} {tail : Items} {gap : Gap} {item : Written} {items : List (Gap × Written)}
    {next rest : List Char} (hhead : head.Shows item next) (htail : tail.Show items rest) :
    Items.Show (.more head tail) ((gap, item) :: items) rest

/-- **The entries of an object show written ones**, and this is left after the object. -/
inductive Entries.Show : Entries → List (Lead × Written) → List Char → Prop
  | done {rest : List Char} : Entries.Show (.done (.closed rest)) [] rest
  | more {key : Token String} {node : Node} {tail : Entries} {lead : Lead} {value : Written}
    {entries : List (Lead × Written)} {afterKey next rest : List Char}
    (hkey : (readString lead.key.chars).Moved afterKey key)
    (hvalue : node.Shows value next) (htail : tail.Show entries rest) :
    Entries.Show (.more key node tail) ((lead, value) :: entries) rest

end

variable {c : Char} {text rest next : List Char}

theorem Items.Show.ending_eq {items : Items} {written : List (Gap × Written)}
    (h : items.Show written rest) : items.ending = .closed rest := by
  induction written generalizing items with
  | nil =>
    cases h
    rfl
  | cons item written ih =>
    cases h with
    | more _ htail =>
      rw [Items.ending]
      exact ih htail

theorem Entries.Show.ending_eq {entries : Entries} {written : List (Lead × Written)}
    (h : entries.Show written rest) : entries.ending = .closed rest := by
  induction written generalizing entries with
  | nil =>
    cases h
    rfl
  | cons entry written ih =>
    cases h with
    | more _ _ htail =>
      rw [Entries.ending]
      exact ih htail

theorem Node.Shows.lax_eq {node : Node} {written : Written} (h : node.Shows written rest) :
    node.lax = .ok rest := by
  cases h with
  | scalar _ hmoved => exact hmoved.lax_eq
  | array hitems => exact congrArg Ending.laxList hitems.ending_eq
  | object hentries => exact congrArg Ending.laxObject hentries.ending_eq

/-! ### Blanks -/

theorem Blanks.skipBlanks_append (blanks : Blanks) (text : List Char) :
    skipBlanks (blanks.chars ++ text) = skipBlanks text :=
  List.dropWhile_append_of_pos blanks.blank

/-- The blanks at the beginning of a text are blanks. -/
theorem exists_blanks (text : List Char) :
    ∃ blanks : Blanks, text = blanks.chars ++ skipBlanks text :=
  ⟨⟨text.takeWhile isBlank, fun _ hc => List.mem_takeWhile_imp hc⟩,
    List.takeWhile_append_dropWhile.symm⟩

theorem Delimits.blanks (h : Delimits text) (blanks : Blanks) :
    Delimits (blanks.chars ++ text) := by
  intro c hc
  rcases mem_head?_append hc with hc | hc
  · exact Or.inl (blanks.blank c (List.mem_of_head? hc))
  · exact h c hc

/-! ### Where a value begins -/

/-- No value begins with a blank or a closing bracket. -/
theorem Written.begins (written : Written) :
    ∃ c text, written.chars = c :: text ∧ isBlank c = false ∧ c ≠ ']' := by
  cases written with
  | scalar written =>
    obtain ⟨hblank, hbracket⟩ := first_of_readScalar written.readScalar_eq
    exact ⟨_, _, rfl, hblank, fun hclose => hbracket (by simp [hclose])⟩
  | array items last => exact ⟨'[', _, rfl, rfl, by decide⟩
  | object entries last => exact ⟨'\x7b', _, rfl, rfl, by decide⟩

theorem Written.skipBlanks_append (written : Written) (text : List Char) :
    skipBlanks (written.chars ++ text) = written.chars ++ text := by
  obtain ⟨c, more, hchars, hblank, -⟩ := written.begins
  rw [hchars, List.cons_append, skipBlanks_cons hblank]

/-! ### Wherever a written value stands -/

/-- A comma comes next after the blanks, and it may follow a value. -/
theorem Gap.delimits (gap : Gap) (text : List Char) : Delimits (gap.chars [','] ++ text) := by
  have hcomma : Delimits (',' :: (gap.after.chars ++ text)) := by
    rintro c ⟨⟩
    exact Or.inr (Or.inl rfl)
  simpa [Gap.chars] using hcomma.blanks gap.before

theorem Gap.listBegin_eq (gap : Gap) (item : Written) (text : List Char) :
    listBegin (gap.chars [] ++ (item.chars ++ text)) = .part (item.chars ++ text) := by
  obtain ⟨c, more, hchars, hblank, hclose⟩ := item.begins
  simp only [Gap.chars, List.nil_append, List.append_assoc]
  rw [listBegin, gap.before.skipBlanks_append, gap.after.skipBlanks_append, hchars,
    List.cons_append, skipBlanks_cons hblank]
  simp

theorem Gap.listContinue_eq (gap : Gap) (item : Written) (text : List Char) :
    listContinue (gap.chars [','] ++ (item.chars ++ text)) = .part (item.chars ++ text) := by
  obtain ⟨c, more, hchars, hblank, hclose⟩ := item.begins
  simp only [Gap.chars, List.cons_append, List.nil_append, List.append_assoc]
  rw [listContinue, gap.before.skipBlanks_append, skipBlanks_cons rfl]
  simp [gap.after.skipBlanks_append, hchars, skipBlanks_cons hblank]

theorem Lead.objectBegin_eq (lead : Lead) (text : List Char) :
    objectBegin (lead.chars [] ++ text) = .part (lead.key.chars ++
      (lead.beforeColon.chars ++ ':' :: (lead.afterColon.chars ++ text))) := by
  simp only [Lead.chars, Gap.chars, List.nil_append, List.append_assoc, List.cons_append]
  rw [objectBegin, lead.before.skipBlanks_append, lead.after.skipBlanks_append,
    skipBlanks_cons rfl]
  rfl

theorem Lead.objectContinue_eq (lead : Lead) (text : List Char) :
    objectContinue (lead.chars [','] ++ text) = .part (lead.key.chars ++
      (lead.beforeColon.chars ++ ':' :: (lead.afterColon.chars ++ text))) := by
  simp only [Lead.chars, Gap.chars, List.nil_append, List.append_assoc, List.cons_append]
  rw [objectContinue, lead.before.skipBlanks_append, skipBlanks_cons rfl]
  simp [lead.after.skipBlanks_append, skipBlanks_cons (rfl : isBlank '\"' = false)]

theorem Blanks.listContinue_close (last : Blanks) (rest : List Char) :
    listContinue (last.chars ++ ']' :: rest) = .ending (.closed rest) := by
  rw [listContinue, last.skipBlanks_append, skipBlanks_cons rfl]
  rfl

theorem Blanks.listBegin_close (last : Blanks) (rest : List Char) :
    listBegin (last.chars ++ ']' :: rest) = .ending (.closed rest) := by
  rw [listBegin, last.skipBlanks_append, skipBlanks_cons rfl]
  rfl

theorem Blanks.objectContinue_close (last : Blanks) (rest : List Char) :
    objectContinue (last.chars ++ '\x7d' :: rest) = .ending (.closed rest) := by
  rw [objectContinue, last.skipBlanks_append, skipBlanks_cons rfl]
  rfl

theorem Blanks.objectBegin_close (last : Blanks) (rest : List Char) :
    objectBegin (last.chars ++ '\x7d' :: rest) = .ending (.closed rest) := by
  rw [objectBegin, last.skipBlanks_append, skipBlanks_cons rfl]
  rfl

theorem Key.moved (key : Key) (next : List Char) :
    (readString key.chars).Moved next (readString (key.chars ++ next)) := by
  obtain ⟨chars, hchars, hmoved⟩ := exists_of_readString key.lax_eq
  rw [List.append_nil] at hchars
  have hmove := hmoved next
  rwa [← hchars] at hmove

namespace Written

/-- A value is laid out as it was written, wherever it stands. -/
def Stands (written : Written) : Prop :=
  ∀ rest, Delimits rest → (readNode (written.chars ++ rest)).val.Shows written rest

theorem stands_scalar (written : Scalar) : Stands (.scalar written) := by
  intro rest hrest
  obtain ⟨more, hmore, hmoved⟩ := exists_of_readScalar written.readScalar_eq written.lax_eq
  obtain ⟨token, htoken, hmove⟩ := hmoved rest hrest
  obtain ⟨-, hbracket⟩ := first_of_readScalar written.readScalar_eq
  rw [List.append_nil] at hmore
  rw [← hmore] at htoken
  rw [chars, List.cons_append, readNode_scalar (fun heq => hbracket (by simp [heq]))
    (fun heq => hbracket (by simp [heq])), htoken]
  exact .scalar rfl hmove

section Parts

variable {item value : Written} {items : List (Gap × Written)} {entries : List (Lead × Written)}

/-- An item, and what follows it. -/
theorem show_readItems (gap : Gap) (hitem : item.Stands) (hnext : Delimits next)
    (htail : (listContinue next).items.Show items rest) :
    (readItems (item.chars ++ next)).val.Show ((gap, item) :: items) rest := by
  have hshows := hitem next hnext
  rw [readItems_eq hshows.lax_eq]
  exact .more hshows htail

/-- The value of an entry after its key, and what follows it. -/
theorem show_readEntries (lead : Lead) (hvalue : value.Stands) (hnext : Delimits next)
    (htail : (objectContinue next).entries.Show entries rest) :
    (readEntries (lead.key.chars ++ (lead.beforeColon.chars ++
      ':' :: (lead.afterColon.chars ++ (value.chars ++ next))))).val.Show
        ((lead, value) :: entries) rest := by
  have hshows := hvalue next hnext
  have hkey := lead.key.moved (lead.beforeColon.chars ++
    ':' :: (lead.afterColon.chars ++ (value.chars ++ next)))
  have hcolon : skipColon (lead.beforeColon.chars ++
      ':' :: (lead.afterColon.chars ++ (value.chars ++ next))) = .ok (value.chars ++ next) := by
    rw [skipColon, lead.beforeColon.skipBlanks_append, skipBlanks_cons rfl]
    simp [lead.afterColon.skipBlanks_append, value.skipBlanks_append]
  rw [readEntries_eq hkey.lax_eq hcolon hshows.lax_eq]
  exact .more hkey hshows htail

theorem delimits_items (items : List (Gap × Written)) (hrest : Delimits rest) :
    Delimits (itemChars [','] items ++ rest) := by
  cases items with
  | nil => exact hrest
  | cons item items =>
    rw [itemChars, List.append_assoc]
    exact item.1.delimits _

theorem delimits_entries (entries : List (Lead × Written)) (hrest : Delimits rest) :
    Delimits (entryChars [','] entries ++ rest) := by
  cases entries with
  | nil => exact hrest
  | cons entry entries =>
    rw [entryChars, Lead.chars, List.append_assoc, List.append_assoc]
    exact entry.1.toGap.delimits _

theorem delimits_close {close : Char} (hclose : close = ']' ∨ close = '\x7d') (last : Blanks)
    (rest : List Char) : Delimits (last.chars ++ close :: rest) := by
  have hdelimits : Delimits (close :: rest) := by
    rintro c ⟨⟩
    exact Or.inr (Or.inr hclose)
  exact hdelimits.blanks last

theorem show_listContinue (h : ∀ item ∈ items, item.2.Stands) (last : Blanks)
    (rest : List Char) :
    (listContinue (itemChars [','] items ++ (last.chars ++ ']' :: rest))).items.Show
      items rest := by
  induction items with
  | nil =>
    rw [itemChars, List.nil_append, last.listContinue_close]
    exact .done
  | cons item items ih =>
    obtain ⟨hitem, hitems⟩ := List.forall_mem_cons.mp h
    rw [itemChars, List.append_assoc, List.append_assoc, item.1.listContinue_eq]
    have hnext := delimits_items items (delimits_close (Or.inl rfl) last rest)
    exact show_readItems item.1 hitem hnext (ih hitems)

theorem show_objectContinue (h : ∀ entry ∈ entries, entry.2.Stands) (last : Blanks)
    (rest : List Char) :
    (objectContinue (entryChars [','] entries ++ (last.chars ++ '\x7d' :: rest))).entries.Show
      entries rest := by
  induction entries with
  | nil =>
    rw [entryChars, List.nil_append, last.objectContinue_close]
    exact .done
  | cons entry entries ih =>
    obtain ⟨hentry, hentries⟩ := List.forall_mem_cons.mp h
    rw [entryChars, List.append_assoc, List.append_assoc, entry.1.objectContinue_eq]
    have hnext := delimits_entries entries (delimits_close (Or.inr rfl) last rest)
    exact show_readEntries entry.1 hentry hnext (ih hentries)

theorem stands_array (h : ∀ item ∈ items, item.2.Stands) (last : Blanks) :
    Stands (.array items last) := by
  intro rest hrest
  rw [chars, List.cons_append, readNode_array]
  refine .array ?_
  cases items with
  | nil =>
    simp only [itemChars, List.nil_append, List.append_assoc, List.cons_append]
    rw [last.listBegin_close]
    exact .done
  | cons item items =>
    obtain ⟨hitem, hitems⟩ := List.forall_mem_cons.mp h
    simp only [itemChars, List.nil_append, List.append_assoc, List.cons_append]
    rw [item.1.listBegin_eq]
    have hnext := delimits_items items (delimits_close (Or.inl rfl) last rest)
    exact show_readItems item.1 hitem hnext (show_listContinue hitems last rest)

theorem stands_object (h : ∀ entry ∈ entries, entry.2.Stands) (last : Blanks) :
    Stands (.object entries last) := by
  intro rest hrest
  rw [chars, List.cons_append, readNode_object]
  refine .object ?_
  cases entries with
  | nil =>
    simp only [entryChars, List.nil_append, List.append_assoc, List.cons_append]
    rw [last.objectBegin_close]
    exact .done
  | cons entry entries =>
    obtain ⟨hentry, hentries⟩ := List.forall_mem_cons.mp h
    simp only [entryChars, List.nil_append, List.append_assoc, List.cons_append]
    rw [entry.1.objectBegin_eq]
    have hnext := delimits_entries entries (delimits_close (Or.inr rfl) last rest)
    exact show_readEntries entry.1 hentry hnext (show_objectContinue hentries last rest)

end Parts

/-- **Every written value** is laid out as it was written, wherever it stands. -/
theorem stands (written : Written) : written.Stands := by
  induction written with
  | scalar written => exact stands_scalar written
  | array items last ih => exact stands_array ih last
  | object entries last ih => exact stands_object ih last

end Written

/-! ### Whatever is passed over was written -/

/-- What is passed over as a value was written as one. -/
def FoundNode (text : List Char) : Prop :=
  ∀ rest, (readNode text).val.lax = .ok rest → ∃ written : Written, text = written.chars ++ rest

/-- What is passed over as the items of a list was written as such. -/
def FoundItems (text : List Char) : Prop :=
  ∀ rest, (readItems text).val.ending = .closed rest → ∃ (item : Written)
    (items : List (Gap × Written)) (last : Blanks), text =
      item.chars ++ (Written.itemChars [','] items ++ (last.chars ++ ']' :: rest))

/-- What is passed over as the entries of an object was written as such. -/
def FoundEntries (text : List Char) : Prop :=
  ∀ rest, (readEntries text).val.ending = .closed rest → ∃ (key : Key)
    (beforeColon afterColon : Blanks) (value : Written) (entries : List (Lead × Written))
    (last : Blanks), text =
      key.chars ++ (beforeColon.chars ++ ':' :: (afterColon.chars ++ (value.chars ++
        (Written.entryChars [','] entries ++ (last.chars ++ '\x7d' :: rest)))))

section Between

/-- What comes after an item, if the list is closed somewhere. -/
theorem exists_of_listContinue (h : (listContinue text).items.ending = .closed rest) :
    (∃ last : Blanks, text = last.chars ++ ']' :: rest) ∨
      ∃ (gap : Gap) (start : List Char), text = gap.chars [','] ++ start ∧
        (readItems start).val.ending = .closed rest := by
  obtain ⟨before, hbefore⟩ := exists_blanks text
  rw [listContinue] at h
  split at h
  · next close heq =>
    obtain rfl := Ending.closed.inj h
    exact Or.inl ⟨before, heq ▸ hbefore⟩
  · next afterComma heq =>
    obtain ⟨after, hafter⟩ := exists_blanks afterComma
    split at h
    · cases h
    · cases h
    · next c start hstart heq' =>
      refine Or.inr ⟨⟨before, after⟩, c :: start, ?_, h⟩
      rw [hbefore, heq, hafter, heq']
      simp [Gap.chars]
  · cases h

theorem exists_of_listBegin (h : (listBegin text).items.ending = .closed rest) :
    (∃ last : Blanks, text = last.chars ++ ']' :: rest) ∨
      ∃ (gap : Gap) (start : List Char), text = gap.chars [] ++ start ∧
        (readItems start).val.ending = .closed rest := by
  obtain ⟨before, hbefore⟩ := exists_blanks text
  rw [listBegin] at h
  split at h
  · cases h
  · next close heq =>
    obtain rfl := Ending.closed.inj h
    exact Or.inl ⟨before, heq ▸ hbefore⟩
  · next c start hclose heq =>
    refine Or.inr ⟨⟨before, .none⟩, c :: start, ?_, h⟩
    rw [hbefore, heq]
    simp [Gap.chars, Blanks.none]

theorem exists_of_objectContinue (h : (objectContinue text).entries.ending = .closed rest) :
    (∃ last : Blanks, text = last.chars ++ '\x7d' :: rest) ∨
      ∃ (gap : Gap) (start : List Char), text = gap.chars [','] ++ '\"' :: start ∧
        (readEntries start).val.ending = .closed rest := by
  obtain ⟨before, hbefore⟩ := exists_blanks text
  rw [objectContinue] at h
  split at h
  · next close heq =>
    obtain rfl := Ending.closed.inj h
    exact Or.inl ⟨before, heq ▸ hbefore⟩
  · next afterComma heq =>
    obtain ⟨after, hafter⟩ := exists_blanks afterComma
    split at h
    · next start heq' =>
      refine Or.inr ⟨⟨before, after⟩, start, ?_, h⟩
      rw [hbefore, heq, hafter, heq']
      simp [Gap.chars]
    · cases h
  · cases h

theorem exists_of_objectBegin (h : (objectBegin text).entries.ending = .closed rest) :
    (∃ last : Blanks, text = last.chars ++ '\x7d' :: rest) ∨
      ∃ (gap : Gap) (start : List Char), text = gap.chars [] ++ '\"' :: start ∧
        (readEntries start).val.ending = .closed rest := by
  obtain ⟨before, hbefore⟩ := exists_blanks text
  rw [objectBegin] at h
  split at h
  · next start heq =>
    refine Or.inr ⟨⟨before, .none⟩, start, ?_, h⟩
    rw [hbefore, heq]
    simp [Gap.chars, Blanks.none]
  · next close heq =>
    obtain rfl := Ending.closed.inj h
    exact Or.inl ⟨before, heq ▸ hbefore⟩
  · cases h

/-- A list that is closed has an item with an end before whatever comes next. -/
theorem exists_of_readItems (h : (readItems text).val.ending = .closed rest) :
    ∃ left, (readNode text).val.lax = .ok left ∧
      (listContinue left).items.ending = .closed rest := by
  have hitems := h
  rw [readItems] at hitems
  split at hitems
  · cases hitems
  · next left hlax =>
    rw [readItems_eq hlax] at h
    exact ⟨left, hlax, h⟩

/-- An object that is closed has a key, a colon and a value with an end before whatever comes
next. -/
theorem exists_of_readEntries (h : (readEntries text).val.ending = .closed rest) :
    ∃ afterKey start left, (readString text).lax = .ok afterKey ∧ skipColon afterKey = .ok start ∧
      (readNode start).val.lax = .ok left ∧
      (objectContinue left).entries.ending = .closed rest := by
  have hentries := h
  rw [readEntries] at hentries
  split at hentries
  · cases hentries
  · next afterKey hkey =>
    split at hentries
    · cases hentries
    · next start hcolon =>
      simp only at hentries
      split at hentries
      · cases hentries
      · next left hlax =>
        rw [readEntries_eq hkey hcolon hlax] at h
        exact ⟨afterKey, start, left, hkey, hcolon, hlax, h⟩

theorem exists_of_skipColon {start : List Char} (h : skipColon text = .ok start) :
    ∃ before after : Blanks, text = before.chars ++ ':' :: (after.chars ++ start) := by
  obtain ⟨before, hbefore⟩ := exists_blanks text
  rw [skipColon] at h
  split at h
  · next afterColon heq =>
    obtain rfl := Except.ok.inj h
    obtain ⟨after, hafter⟩ := exists_blanks afterColon
    refine ⟨before, after, ?_⟩
    rw [← hafter, ← heq]
    exact hbefore
  · cases h

theorem exists_key {afterKey : List Char} (h : (readString text).lax = .ok afterKey) :
    ∃ key : Key, text = key.chars ++ afterKey := by
  obtain ⟨chars, htext, hmoved⟩ := exists_of_readString h
  have hend := (hmoved []).lax_eq
  rw [List.append_nil] at hend
  exact ⟨⟨chars, hend⟩, htext⟩

end Between

/-- The rest of a list, if what is shorter was written. -/
theorem exists_items (hshorter : ∀ start, start.length < text.length → FoundItems start)
    (h : (listContinue text).items.ending = .closed rest) :
    ∃ (items : List (Gap × Written)) (last : Blanks),
      text = Written.itemChars [','] items ++ (last.chars ++ ']' :: rest) := by
  rcases exists_of_listContinue h with ⟨last, rfl⟩ | ⟨gap, start, rfl, hend⟩
  · exact ⟨[], last, rfl⟩
  · obtain ⟨item, items, last, rfl⟩ := hshorter start (by simp [Gap.chars]; omega) rest hend
    exact ⟨(gap, item) :: items, last, by simp [Written.itemChars]⟩

/-- The rest of an object, if what is shorter was written. -/
theorem exists_entries (hshorter : ∀ start, start.length < text.length → FoundEntries start)
    (h : (objectContinue text).entries.ending = .closed rest) :
    ∃ (entries : List (Lead × Written)) (last : Blanks),
      text = Written.entryChars [','] entries ++ (last.chars ++ '\x7d' :: rest) := by
  rcases exists_of_objectContinue h with ⟨last, rfl⟩ | ⟨gap, start, rfl, hend⟩
  · exact ⟨[], last, rfl⟩
  · obtain ⟨key, beforeColon, afterColon, value, entries, last, rfl⟩ :=
      hshorter start (by simp [Gap.chars]; omega) rest hend
    refine ⟨(⟨gap, key, beforeColon, afterColon⟩, value) :: entries, last, ?_⟩
    simp [Written.entryChars, Lead.chars]

theorem found_array (hshorter : ∀ start, start.length ≤ text.length → FoundItems start) :
    FoundNode ('[' :: text) := by
  intro rest hlax
  rw [readNode_array] at hlax
  rcases exists_of_listBegin (Ending.closed_of_laxList hlax) with
    ⟨last, rfl⟩ | ⟨gap, start, rfl, hend⟩
  · exact ⟨.array [] last, by simp [Written.chars, Written.itemChars]⟩
  · obtain ⟨item, items, last, rfl⟩ := hshorter start (by simp) rest hend
    exact ⟨.array ((gap, item) :: items) last, by simp [Written.chars, Written.itemChars]⟩

theorem found_object (hshorter : ∀ start, start.length ≤ text.length → FoundEntries start) :
    FoundNode ('\x7b' :: text) := by
  intro rest hlax
  rw [readNode_object] at hlax
  rcases exists_of_objectBegin (Ending.closed_of_laxObject hlax) with
    ⟨last, rfl⟩ | ⟨gap, start, rfl, hend⟩
  · exact ⟨.object [] last, by simp [Written.chars, Written.entryChars]⟩
  · obtain ⟨key, beforeColon, afterColon, value, entries, last, rfl⟩ :=
      hshorter start (by simp; omega) rest hend
    refine ⟨.object ((⟨gap, key, beforeColon, afterColon⟩, value) :: entries) last, ?_⟩
    simp [Written.chars, Written.entryChars, Lead.chars]

theorem found_scalar {c : Char} (hlist : c ≠ '[') (hobject : c ≠ '\x7b') (text : List Char) :
    FoundNode (c :: text) := by
  intro rest hlax
  rw [readNode_scalar hlist hobject] at hlax
  obtain ⟨start, token, hnode, hlax⟩ := exists_token hlax
  obtain ⟨more, rfl, hmoved⟩ := exists_of_readScalar hnode hlax
  obtain ⟨found, hfound, hmove⟩ := hmoved [] nofun
  rw [List.append_nil] at hfound
  exact ⟨.scalar ⟨c, more, found, hfound, hmove.lax_eq⟩, rfl⟩

theorem found_items (hnode : FoundNode text)
    (hshorter : ∀ start, start.length < text.length → FoundItems start) : FoundItems text := by
  intro rest hclosed
  obtain ⟨left, hlax, hend⟩ := exists_of_readItems hclosed
  have hlt := (readNode text).property left hlax
  obtain ⟨item, rfl⟩ := hnode left hlax
  obtain ⟨items, last, rfl⟩ := exists_items (fun start hle => hshorter start (hle.trans hlt)) hend
  exact ⟨item, items, last, rfl⟩

theorem found_entries (hnode : ∀ start, start.length < text.length → FoundNode start)
    (hshorter : ∀ start, start.length < text.length → FoundEntries start) : FoundEntries text := by
  intro rest hclosed
  obtain ⟨afterKey, start, left, hkey, hcolon, hlax, hend⟩ := exists_of_readEntries hclosed
  have hlt := (readNode start).property left hlax
  obtain ⟨key, rfl⟩ := exists_key hkey
  obtain ⟨beforeColon, afterColon, rfl⟩ := exists_of_skipColon hcolon
  obtain ⟨value, rfl⟩ := hnode start (by simp; omega) left hlax
  obtain ⟨entries, last, rfl⟩ :=
    exists_entries (fun next hle => hshorter next (by simp at *; omega)) hend
  exact ⟨key, beforeColon, afterColon, value, entries, last, rfl⟩

theorem found_node (hitems : ∀ start, start.length < text.length → FoundItems start)
    (hentries : ∀ start, start.length < text.length → FoundEntries start) : FoundNode text := by
  cases text with
  | nil => exact fun rest hlax => by rw [readNode] at hlax; cases hlax
  | cons c text =>
    by_cases hlist : c = '['
    · rw [hlist]
      exact found_array fun start hle => hitems start (Nat.lt_succ_of_le hle)
    by_cases hobject : c = '\x7b'
    · rw [hobject]
      exact found_object fun start hle => hentries start (Nat.lt_succ_of_le hle)
    exact found_scalar hlist hobject text

/-- **Whatever is passed over as a value was written**, in this way or another. -/
theorem exists_written (text : List Char) : FoundNode text := by
  -- by induction on the length, for the items of a list and the entries of an object as well
  have hall : FoundNode text ∧ FoundItems text ∧ FoundEntries text := by
    induction hlength : text.length using Nat.strong_induction_on generalizing text with
    | _ length ih =>
      subst hlength
      have hshorter : ∀ start, start.length < text.length →
          FoundNode start ∧ FoundItems start ∧ FoundEntries start :=
        fun start hlt => ih start.length hlt start rfl
      have hitems : ∀ start, start.length < text.length → FoundItems start :=
        fun start hlt => (hshorter start hlt).2.1
      have hentries : ∀ start, start.length < text.length → FoundEntries start :=
        fun start hlt => (hshorter start hlt).2.2
      have hnode := found_node hitems hentries
      exact ⟨hnode, found_items hnode hitems,
        found_entries (fun start hlt => (hshorter start hlt).1) hentries⟩
  exact hall.1

end Bindery.Json
