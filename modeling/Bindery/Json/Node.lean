import Bindery.Json.Token

/-!
# The layout of a document

A document is first laid out as a tree, whether or not anything is wrong with it,
and only then read for what it says. Every part of a `Bindery.Json.Node` remembers
what is left of the text where it begins, so a later reader can put the blame on the
right place, and the parts that are missing are in the tree as such: a value that is
absent, a list that is not closed.

Where a text breaks off the tree breaks off as well. `Bindery.Json.Ending` says how a
container ends; after a part that has no end, nothing can follow.

What is left after a part is `Bindery.Json.Node.lax`, which is also the verdict of a
reader who only wants to pass over it. `Bindery.Json.Node.ofText` lays out a text; the
tree is found by recursion on the length of what is left.
-/

namespace Bindery.Json

/-! ### Trees -/

/-- How a list or an object ends. -/
inductive Ending where
  /-- With its bracket; this is left after it. -/
  | closed (rest : List Char)
  /-- With its opening bracket, as no part can begin here. -/
  | opening (rest : List Char)
  /-- With a part after which there is neither a comma nor the bracket. -/
  | unseparated (rest : List Char)
  /-- With a comma, as no part can begin here. -/
  | dangling (rest : List Char)
  /-- With a part that has no end itself. -/
  | cut (fault : Fault)
  deriving Repr

mutual

/-- **A value laid out in a text**. -/
inductive Node where
  /-- There is no value here. -/
  | absent (start : List Char) (fault : Fault)
  /-- A word, a number or a string. -/
  | scalar (start : List Char) (token : Token Json)
  | array (start : List Char) (items : Items)
  | object (start : List Char) (entries : Entries)

/-- The items of a list. -/
inductive Items where
  | done (ending : Ending)
  | more (head : Node) (tail : Items)

/-- The entries of an object. -/
inductive Entries where
  | done (ending : Ending)
  | more (key : Token String) (value : Node) (tail : Entries)

end

/-! ### Endings -/

namespace Ending

/-- What is left after a list that ends like this, for a reader who passes over it. -/
def laxList : Ending → Except Fault (List Char)
  | closed rest => .ok rest
  | opening rest => .error (.next .endInList rest)
  | unseparated rest => .error (.next (if rest.isEmpty then .endInList else .expectedListComma) rest)
  | dangling rest => .error (.next (if rest.isEmpty then .endInValue else .expectedValue) rest)
  | cut fault => .error fault

/-- What is left after an object that ends like this, for a reader who passes over
it. -/
def laxObject : Ending → Except Fault (List Char)
  | closed rest => .ok rest
  | opening rest | dangling rest =>
    .error (.next (if rest.isEmpty then .endInObject else .keyNotString) rest)
  | unseparated rest =>
    .error (.next (if rest.isEmpty then .endInObject else .expectedObjectComma) rest)
  | cut fault => .error fault

/-- What is left after a list that ends like this. -/
def strictList : Ending → Except Fault (List Char)
  | dangling rest => .error (.next (if rest.isEmpty then .endInValue else .trailingComma) rest)
  | ending => ending.laxList

/-- What is left after an object that ends like this. -/
def strictObject : Ending → Except Fault (List Char)
  | dangling rest =>
    .error (.next (match rest with
      | [] => .endInValue
      | '\x7d' :: _ => .trailingComma
      | _ => .keyNotString) rest)
  | ending => ending.laxObject

end Ending

/-- How a list ends. -/
def Items.ending : Items → Ending
  | done ending => ending
  | more _ tail => tail.ending

/-- How an object ends. -/
def Entries.ending : Entries → Ending
  | done ending => ending
  | more _ _ tail => tail.ending

namespace Node

/-- What is left of the text where a value begins. -/
def start : Node → List Char
  | absent start _ | scalar start _ | array start _ | object start _ => start

/-- **What is left after a value**, for a reader who passes over it. -/
def lax : Node → Except Fault (List Char)
  | absent _ fault => .error fault
  | scalar _ token => token.lax
  | array _ items => items.ending.laxList
  | object _ entries => entries.ending.laxObject

/-- What is left after a value, or nothing if it has no end. -/
def after (node : Node) : List Char := node.lax.toOption.getD []

end Node

/-! ### Between the parts of a container -/

/-- What comes next in a container. -/
inductive Continuation where
  /-- A part that begins here. -/
  | part (text : List Char)
  /-- No further part. -/
  | ending (ending : Ending)

/-- What is left when the continuation begins. -/
def Continuation.remaining : Continuation → List Char
  | part text => text
  | ending (.closed rest) => rest
  | ending _ => []

/-- What comes after the opening bracket of a list. -/
def listBegin (text : List Char) : Continuation :=
  match skipBlanks text with
  | [] => .ending (.opening [])
  | ']' :: rest => .ending (.closed rest)
  | c :: rest => .part (c :: rest)

/-- What comes after an item of a list. -/
def listContinue (text : List Char) : Continuation :=
  match skipBlanks text with
  | ']' :: rest => .ending (.closed rest)
  | ',' :: text =>
    match skipBlanks text with
    | [] => .ending (.dangling [])
    | ']' :: rest => .ending (.dangling (']' :: rest))
    | c :: rest => .part (c :: rest)
  | rest => .ending (.unseparated rest)

/-- What comes after the opening bracket of an object. A part is what is left from the
opening quote of its key on. -/
def objectBegin (text : List Char) : Continuation :=
  match skipBlanks text with
  | '\"' :: rest => .part rest
  | '\x7d' :: rest => .ending (.closed rest)
  | rest => .ending (.opening rest)

/-- What comes after an entry of an object. A part is what is left from the opening
quote of its key on. -/
def objectContinue (text : List Char) : Continuation :=
  match skipBlanks text with
  | '\x7d' :: rest => .ending (.closed rest)
  | ',' :: text =>
    match skipBlanks text with
    | '\"' :: rest => .part rest
    | rest => .ending (.dangling rest)
  | rest => .ending (.unseparated rest)

/-- What is left from the value on that belongs to a key. -/
def skipColon (text : List Char) : Except Fault (List Char) :=
  match skipBlanks text with
  | ':' :: rest => .ok (skipBlanks rest)
  | rest => .error (.next (if rest.isEmpty then .endInObject else .expectedColon) rest)

/-! ### Laying out a text -/

/-- A value with the knowledge that passing over it leaves less of the text. -/
abbrev NodeAt (text : List Char) : Type :=
  { node : Node // ∀ rest, node.lax = .ok rest → rest.length < text.length }

/-- The items of a list with the knowledge that passing over them leaves less of the
text. -/
abbrev ItemsAt (text : List Char) : Type :=
  { items : Items // ∀ rest, items.ending = .closed rest → rest.length < text.length }

/-- The entries of an object with the knowledge that passing over them leaves less of
the text. -/
abbrev EntriesAt (text : List Char) : Type :=
  { entries : Entries // ∀ rest, entries.ending = .closed rest → rest.length < text.length }

/-- A value that is a single token. -/
def readScalar (c : Char) (text : List Char) : Node :=
  match c with
  | 'n' => .scalar (c :: text) (readWord .null ['u', 'l', 'l'] text)
  | 't' => .scalar (c :: text) (readWord (.boolean true) ['r', 'u', 'e'] text)
  | 'f' => .scalar (c :: text) (readWord (.boolean false) ['a', 'l', 's', 'e'] text)
  | '\"' =>
    let token := readString text
    .scalar (c :: text) ⟨token.strict.map .string, token.lax⟩
  | c =>
    if c = '-' ∨ c.isDigit then .scalar (c :: text) (readNumber (c :: text))
    else .absent (c :: text) (.next .expectedValue (c :: text))

section Length

theorem Ending.closed_of_laxList {ending : Ending} {rest : List Char}
    (h : ending.laxList = .ok rest) : ending = .closed rest := by
  cases ending <;> simp_all [Ending.laxList]

theorem Ending.closed_of_laxObject {ending : Ending} {rest : List Char}
    (h : ending.laxObject = .ok rest) : ending = .closed rest := by
  cases ending <;> simp_all [Ending.laxObject]

theorem listBegin_remaining_length_le (text : List Char) :
    (listBegin text).remaining.length ≤ text.length := by
  have hskip := length_skipBlanks_le text
  rw [listBegin]
  split
  · exact Nat.zero_le _
  · next rest heq =>
    rw [heq] at hskip
    exact Nat.le_of_succ_le hskip
  · next c rest _ heq =>
    rw [heq] at hskip
    exact hskip

theorem objectBegin_remaining_length_le (text : List Char) :
    (objectBegin text).remaining.length ≤ text.length := by
  have hskip := length_skipBlanks_le text
  rw [objectBegin]
  split
  · next rest heq =>
    rw [heq] at hskip
    exact Nat.le_of_succ_le hskip
  · next rest heq =>
    rw [heq] at hskip
    exact Nat.le_of_succ_le hskip
  · exact Nat.zero_le _

/-- What follows a comma is no longer than what the comma stands in. -/
theorem length_skipBlanks_le_of_comma {text rest : List Char} (h : skipBlanks text = ',' :: rest) :
    (skipBlanks rest).length ≤ text.length := by
  have hskip := length_skipBlanks_le text
  rw [h] at hskip
  exact Nat.le_trans (length_skipBlanks_le rest) (Nat.le_of_succ_le hskip)

theorem listContinue_remaining_length_le (text : List Char) :
    (listContinue text).remaining.length ≤ text.length := by
  have hskip := length_skipBlanks_le text
  rw [listContinue]
  split
  · next rest heq =>
    rw [heq] at hskip
    exact Nat.le_of_succ_le hskip
  · next rest heq =>
    have hrest := length_skipBlanks_le_of_comma heq
    split
    · exact Nat.zero_le _
    · exact Nat.zero_le _
    · next c more _ heq' =>
      rw [heq'] at hrest
      exact hrest
  · exact Nat.zero_le _

theorem objectContinue_remaining_length_le (text : List Char) :
    (objectContinue text).remaining.length ≤ text.length := by
  have hskip := length_skipBlanks_le text
  rw [objectContinue]
  split
  · next rest heq =>
    rw [heq] at hskip
    exact Nat.le_of_succ_le hskip
  · next rest heq =>
    have hrest := length_skipBlanks_le_of_comma heq
    split
    · next more heq' =>
      rw [heq'] at hrest
      exact Nat.le_of_succ_le hrest
    · exact Nat.zero_le _
  · exact Nat.zero_le _

theorem Continuation.length_le_of_closed {next : Continuation} {rest : List Char} {n : Nat}
    (hle : next.remaining.length ≤ n) (h : next = .ending (.closed rest)) : rest.length ≤ n := by
  subst h
  exact hle

theorem Continuation.length_le_of_part {next : Continuation} {text : List Char} {n : Nat}
    (hle : next.remaining.length ≤ n) (h : next = .part text) : text.length ≤ n := by
  subst h
  exact hle

theorem skipColon_length_le {text rest : List Char} (h : skipColon text = .ok rest) :
    rest.length ≤ text.length := by
  have hskip := length_skipBlanks_le text
  rw [skipColon] at h
  split at h
  · next after heq =>
    have := length_skipBlanks_le after
    cases h
    simp_all
    omega
  · cases h

theorem readNumber_lax_length_lt {text rest : List Char}
    (h : (readNumber text).lax = .ok rest) : rest.length < text.length := by
  rw [readNumber] at h
  split at h
  · next written hw =>
    cases h
    exact spanNumber_length_lt hw
  · cases h

theorem readScalar_lax_length_lt {c : Char} {text rest : List Char}
    (h : (readScalar c text).lax = .ok rest) : rest.length < (c :: text).length := by
  have word : ∀ {value : Json} {letters : List Char},
      (readWord value letters text).lax = .ok rest → rest.length < (c :: text).length :=
    fun h => Nat.lt_succ_of_le (skipLetters_length_le h)
  rw [readScalar.eq_def] at h
  split at h
  · exact word h
  · exact word h
  · exact word h
  · exact Nat.lt_succ_of_lt (skipChars_length_lt h)
  · split at h
    · exact readNumber_lax_length_lt h
    · cases h

end Length

mutual

/-- The value that begins here, where no blank is. -/
def readNode : (text : List Char) → NodeAt text
  | [] => ⟨.absent [] (.next .endInValue []), nofun⟩
  | '[' :: text =>
    have hle := listBegin_remaining_length_le text
    let items : ItemsAt ('[' :: text) :=
      match h : listBegin text with
      | .ending ending =>
        ⟨.done ending, fun _ he =>
          Nat.lt_succ_of_le (Continuation.length_le_of_closed hle (h.trans (congrArg _ he)))⟩
      | .part first =>
        have hfirst := Continuation.length_le_of_part hle h
        let items := readItems first
        ⟨items.val, fun rest he =>
          Nat.lt_succ_of_lt (Nat.lt_of_lt_of_le (items.property rest he) hfirst)⟩
    ⟨.array ('[' :: text) items.val,
      fun rest h => items.property rest (Ending.closed_of_laxList h)⟩
  | '\x7b' :: text =>
    have hle := objectBegin_remaining_length_le text
    let entries : EntriesAt ('\x7b' :: text) :=
      match h : objectBegin text with
      | .ending ending =>
        ⟨.done ending, fun _ he =>
          Nat.lt_succ_of_le (Continuation.length_le_of_closed hle (h.trans (congrArg _ he)))⟩
      | .part first =>
        have hfirst := Continuation.length_le_of_part hle h
        let entries := readEntries first
        ⟨entries.val, fun rest he =>
          Nat.lt_succ_of_lt (Nat.lt_of_lt_of_le (entries.property rest he) hfirst)⟩
    ⟨.object ('\x7b' :: text) entries.val,
      fun rest h => entries.property rest (Ending.closed_of_laxObject h)⟩
  | c :: text => ⟨readScalar c text, fun _ h => readScalar_lax_length_lt h⟩
termination_by text => 2 * text.length
decreasing_by all_goals (simp only [List.length_cons]; omega)

/-- The items of a list, the first of which begins here. -/
def readItems (text : List Char) : ItemsAt text :=
  let head := readNode text
  match hlax : head.val.lax with
  | .error fault => ⟨.more head.val (.done (.cut fault)), nofun⟩
  | .ok rest =>
    have hrest : rest.length < text.length := head.property rest hlax
    have hle := listContinue_remaining_length_le rest
    match h : listContinue rest with
    | .ending ending =>
      ⟨.more head.val (.done ending), fun _ he =>
        Nat.lt_of_le_of_lt
          (Continuation.length_le_of_closed hle (h.trans (congrArg _ he))) hrest⟩
    | .part next =>
      have hnext : next.length < text.length :=
        Nat.lt_of_le_of_lt (Continuation.length_le_of_part hle h) hrest
      let tail := readItems next
      ⟨.more head.val tail.val, fun rest he =>
        Nat.lt_trans (tail.property rest he) hnext⟩
termination_by 2 * text.length + 1
decreasing_by all_goals omega

/-- The entries of an object, from the opening quote of the first key on. -/
def readEntries (text : List Char) : EntriesAt text :=
  let key := readString text
  match hkey : key.lax with
  | .error fault => ⟨.more key (.absent [] fault) (.done (.cut fault)), nofun⟩
  | .ok rest =>
    have hrest : rest.length < text.length := skipChars_length_lt hkey
    match hcolon : skipColon rest with
    | .error fault => ⟨.more key (.absent (skipBlanks rest) fault) (.done (.cut fault)), nofun⟩
    | .ok start =>
      have hstart : start.length < text.length :=
        Nat.lt_of_le_of_lt (skipColon_length_le hcolon) hrest
      let value := readNode start
      match hlax : value.val.lax with
      | .error fault => ⟨.more key value.val (.done (.cut fault)), nofun⟩
      | .ok rest =>
        have hrest : rest.length < text.length :=
          Nat.lt_trans (value.property rest hlax) hstart
        have hle := objectContinue_remaining_length_le rest
        match h : objectContinue rest with
        | .ending ending =>
          ⟨.more key value.val (.done ending), fun _ he =>
            Nat.lt_of_le_of_lt
              (Continuation.length_le_of_closed hle (h.trans (congrArg _ he))) hrest⟩
        | .part next =>
          have hnext : next.length < text.length :=
            Nat.lt_of_le_of_lt (Continuation.length_le_of_part hle h) hrest
          let tail := readEntries next
          ⟨.more key value.val tail.val, fun rest he =>
            Nat.lt_trans (tail.property rest he) hnext⟩
termination_by 2 * text.length + 1
decreasing_by all_goals omega

end

/-- **The layout of a text**, from its first value on. -/
def Node.ofText (text : List Char) : Node := (readNode (skipBlanks text)).val

end Bindery.Json
