import Bindery.Json.Node

/-!
# Reading what a document says

The readers here turn a laid out value into what it stands for, or find the first
fault on the way, in the order of the text. `Bindery.Json.Node.value` accepts every
value; the others want one of a certain form: a text, a list, one of several words,
or a **record**.

A record (`Bindery.Json.Record`) is an object with known fields. Its entries come in
any order, fields that are not known are passed over, and no field comes twice. It may
also be written as a list of its fields in their own order. While it is read, what is
known of it is kept in a **draft**, and a record that is complete is made of the draft
at the end.

A **tagged** value (`Bindery.Json.Node.readTagged`) is an object, or a list, of which
one part says what the others mean. The others can be read only after that part, so
they are first taken as plain values.
-/

namespace Bindery.Json

/-! ### Containers -/

/-- The number of containers that may lie around each other. -/
def depthLimit : Nat := 127

/-- Whether a container may be opened inside so many others. -/
def checkDepth (depth : Nat) (start : List Char) : Except Fault Unit :=
  if depth < depthLimit then .ok () else .error (.next .nestedTooDeep start)

/-- The point that a fault in a list is blamed on: its end, if nothing else comes
before it. -/
def closeList (text : List Char) : List Char :=
  match skipBlanks text with
  | ']' :: rest => rest
  | ',' :: rest => skipBlanks rest
  | rest => rest

/-- The point that a fault in an object is blamed on: its end, if nothing else comes
before it. -/
def closeObject (text : List Char) : List Char :=
  match skipBlanks text with
  | '\x7d' :: rest => rest
  | rest => rest

/-- What is left after a token, or nothing if it has no end. -/
def Token.after {α : Type} (token : Token α) : List Char := token.lax.toOption.getD []

/-! ### Any value -/

mutual

/-- **The value at a node**, inside so many containers. -/
def Node.value (depth : Nat) : Node → Except Fault Json
  | .absent _ fault => .error fault
  | .scalar _ token => token.strict
  | .array start items => do
    checkDepth depth start
    return .array (← items.values (depth + 1))
  | .object start entries => do
    checkDepth depth start
    return .object (← entries.values (depth + 1))

/-- The values of a list. -/
def Items.values (depth : Nat) : Items → Except Fault (List Json)
  | .done ending => ending.strictList.map fun _ => []
  | .more head tail => do
    let value ← head.value depth
    return value :: (← tail.values depth)

/-- The values of an object with their keys. -/
def Entries.values (depth : Nat) : Entries → Except Fault (List (String × Json))
  | .done ending => ending.strictObject.map fun _ => []
  | .more key value tail => do
    let label ← key.strict
    let value ← value.value depth
    return (label, value) :: (← tail.values depth)

end

/-! ### Values of a certain form -/

namespace Node

/-- The fault of a value that is of another form than the one that is wanted. A list
or an object is not entered for this. -/
def mismatch (expected : String) : Node → Fault
  | absent _ fault => fault
  | scalar _ token =>
    match token.strict with
    | .ok value => .here (.invalidType value.shape expected) token.after
    | .error fault => fault
  | array start _ => .here (.invalidType .sequence expected) start
  | object start _ => .here (.invalidType .map expected) start

/-- A text, and what is left after it. -/
def readQuoted (expected : String) (node : Node) : Except Fault (String × List Char) :=
  match node with
  | scalar _ ⟨.ok (.string text), _⟩ => .ok (text, node.after)
  | node => .error (node.mismatch expected)

/-- A text. -/
def readText (node : Node) : Except Fault String :=
  (node.readQuoted "a string").map Prod.fst

/-- A value that may also be null. -/
def readOptional {α : Type} (read : Node → Except Fault α) (node : Node) :
    Except Fault (Option α) :=
  match node with
  | scalar _ ⟨.ok .null, _⟩ => .ok none
  | node => (read node).map some

/-- Null. -/
def readNull (node : Node) : Except Fault Unit :=
  match node with
  | scalar _ ⟨.ok .null, _⟩ => .ok ()
  | node => .error (node.mismatch "unit")

end Node

/-! ### Lists -/

/-- The items of a list, each read in the same way. -/
def Items.readAll {α : Type} (read : Node → Except Fault α) : Items → Except Fault (List α)
  | .done ending => ending.strictList.map fun _ => []
  | .more head tail => do
    let value ← read head
    return value :: (← tail.readAll read)

/-- A list, inside so many containers. -/
def Node.readList {α : Type} (read : Nat → Node → Except Fault α) (depth : Nat) :
    Node → Except Fault (List α)
  | .array start items => do
    checkDepth depth start
    (items.readAll (read (depth + 1))).mapError (Fault.settle closeList)
  | node => .error (node.mismatch "a sequence")

/-! ### Words -/

/-- A choice among words: what a word stands for, or what is wrong with it. -/
abbrev Choice (α : Type) : Type := String → Except Cause α

/-- The choice among the words of a list. -/
def Choice.among {α : Type} (known : List (String × α)) : Choice α := fun word =>
  match known.lookup word with
  | some value => .ok value
  | none => .error (.unknownVariant word (known.map Prod.fst))

/-- The choice among the words of a list, where every other word stands for the
same. -/
def Choice.amongOr {α : Type} (known : List (String × α)) (otherwise : α) : Choice α :=
  fun word => .ok ((known.lookup word).getD otherwise)

namespace Node

/-- A word that is one of several. -/
def readWord {α : Type} (choice : Choice α) (node : Node) : Except Fault α := do
  let (word, rest) ← node.readQuoted "variant identifier"
  (choice word).mapError fun cause => .here cause rest

/-- A word that is one of several, alone or as the only key of an object whose value
is null. -/
def readVariant {α : Type} (choice : Choice α) (depth : Nat) : Node → Except Fault α
  | absent _ fault => .error fault
  | scalar start token =>
    if start.head? = some '\"' then readWord choice (scalar start token)
    else .error (.next .expectedValue start)
  | array start _ => .error (.next .expectedValue start)
  | object start (.done ending) => do
    checkDepth depth start
    let _ ← ending.strictObject
    .error (.next .expectedValue (skipBlanks (start.drop 1)))
  | object start (.more key value tail) => do
    checkDepth depth start
    let word ← key.strict
    let variant ← (choice word).mapError fun cause => .here cause key.after
    value.readNull
    match tail with
    | .done (.closed _) => return variant
    | _ =>
      let rest := skipBlanks value.after
      .error (.here (if rest.isEmpty then .endInObject else .expectedValue) rest)

end Node

/-! ### Records -/

/-- A field of a record, with drafts in `δ`. -/
structure Field (δ : Type) where
  /-- The key of the field. -/
  label : String
  /-- What the field holds. -/
  Value : Type
  /-- How it is read, inside so many containers. -/
  read : Nat → Node → Except Fault Value
  /-- What a draft knows of the field. -/
  get : δ → Option Value
  /-- The draft in which the field is known. -/
  set : Value → δ → δ

/-- **How a record is read**. -/
structure Record (δ α : Type) where
  /-- The name of the record in messages. -/
  title : String
  /-- The fields, in the order in which they stand in a list. -/
  fields : List (Field δ)
  /-- The draft in which nothing is known. -/
  blank : δ
  /-- The record of a draft, or the label of a field that is missing. -/
  finish : δ → Except String α

namespace Record

variable {δ α : Type}

/-- The field with this label. -/
def field? (record : Record δ α) (label : String) : Option (Field δ) :=
  record.fields.find? fun field => field.label = label

/-- The entries of an object one after the other, and what is left after it. -/
def readEntries (record : Record δ α) (depth : Nat) :
    δ → Entries → Except Fault (δ × List Char)
  | draft, .done ending => ending.strictObject.map fun rest => (draft, rest)
  | draft, .more key value tail => do
    let label ← key.strict
    match record.field? label with
    | none =>
      let _ ← value.lax
      record.readEntries depth draft tail
    | some field =>
      match field.get draft with
      | some _ => .error (.pending (.duplicateField label) key.after)
      | none =>
        let known ← field.read depth value
        record.readEntries depth (field.set known draft) tail

/-- What is left after a list of which no further item is wanted. -/
def endItems : Ending → Except Fault (List Char)
  | .unseparated rest =>
    .error (.next (if rest.isEmpty then .endInList else .trailingCharacters) rest)
  | .dangling rest =>
    .error (.next (if rest.isEmpty then .trailingCharacters else .trailingComma) rest)
  | ending => ending.laxList

/-- The items of a list as the values of fields, in order, and what is left after it. -/
def readItems (depth : Nat) : List (Field δ) → δ → Items → Except Fault (δ × List Char)
  | [], draft, .done ending => (endItems ending).map fun rest => (draft, rest)
  | [], _, .more head _ => .error (.next .trailingCharacters head.start)
  | _ :: _, draft, .done ending => ending.strictList.map fun rest => (draft, rest)
  | field :: fields, draft, .more head tail => do
    let known ← field.read depth head
    readItems depth fields (field.set known draft) tail

/-- The number of the field with this label. -/
def number (record : Record δ α) (label : String) : Nat :=
  record.fields.findIdx fun field => field.label = label

/-- The length of a list that holds the record, in words. -/
def expectedLength (record : Record δ α) : String :=
  record.title ++ " with " ++ toString record.fields.length ++ " elements"

/-- **The record at a node**, inside so many containers. -/
def read (record : Record δ α) (depth : Nat) : Node → Except Fault α
  | .object start entries => do
    checkDepth depth start
    let (draft, rest) ← (record.readEntries (depth + 1) record.blank entries).mapError
      (Fault.settle closeObject)
    (record.finish draft).mapError fun label => .here (.missingField label) rest
  | .array start items => do
    checkDepth depth start
    let (draft, rest) ← (readItems (depth + 1) record.fields record.blank items).mapError
      (Fault.settle closeList)
    (record.finish draft).mapError fun label =>
      .here (.invalidLength (record.number label) record.expectedLength) rest
  | node => .error (node.mismatch record.title)

end Record

/-! ### Tagged values -/

/-- What a tagged value holds apart from its tag. -/
inductive Content where
  | entries (entries : List (String × Json))
  | items (items : List Json)
  deriving Repr

/-- The entries of an object, with the tag set apart. -/
def Entries.readTagged {α : Type} (tag : String) (choice : Choice α) (depth : Nat) :
    Option α → Entries → Except Fault (Option α × List (String × Json) × List Char)
  | found, .done ending => ending.strictObject.map fun rest => (found, [], rest)
  | found, .more key value tail => do
    let label ← key.strict
    if label = tag then
      match found with
      | some _ => .error (.pending (.duplicateField tag) key.after)
      | none => tail.readTagged tag choice depth (some (← value.readWord choice))
    else
      let value ← value.value depth
      let (found, entries, rest) ← tail.readTagged tag choice depth found
      return (found, (label, value) :: entries, rest)

/-- The items of a list, the first of which is the tag. -/
def Items.readTagged {α : Type} (choice : Choice α) (depth : Nat) :
    Items → Except Fault (Option α × List Json × List Char)
  | .done ending => ending.strictList.map fun rest => (none, [], rest)
  | .more head tail => do
    let found ← head.readWord choice
    let items ← tail.values depth
    return (some found, items, tail.ending.strictList.toOption.getD [])

/-- **A tagged value**: what the tag stands for, and the rest of it. -/
def Node.readTagged {α : Type} (title tag : String) (choice : Choice α) (depth : Nat) :
    Node → Except Fault (α × Content)
  | .object start entries => do
    checkDepth depth start
    let (found, entries, rest) ← (entries.readTagged tag choice (depth + 1) none).mapError
      (Fault.settle closeObject)
    match found with
    | some found => return (found, .entries entries)
    | none => .error (.here (.missingField tag) rest)
  | .array start items => do
    checkDepth depth start
    let (found, items, rest) ← (items.readTagged choice (depth + 1)).mapError
      (Fault.settle closeList)
    match found with
    | some found => return (found, .items items)
    | none => .error (.here (.missingField tag) rest)
  | node => .error (node.mismatch title)

end Bindery.Json
