import Bindery.Failure
import Bindery.Json.Reading
import Bindery.Symbol.Table

/-!
# Symbol tables as documents

A symbol table is stored as a JSON document. This file says how each part of it is
written (`Bindery.Symbol.toJson` and its like) and how it is read
(`Bindery.Symbol.record` and its like); `Bindery.SymbolTable.ofDocument` reads a whole
document, and `Bindery.SymbolTable.document` writes one.

What a symbol leaves open is not written, and need not be there to be read. The
order of the entries of an object is free, and entries that nobody asked for are
passed over. A kind of member that is not known is read as `other`.
-/

namespace Bindery

open Json (Cause Choice Content Fault Node Record)

/-! ### Foreign types -/

namespace ForeignType

/-- What the tag of a type says about it. -/
inductive Tag where
  /-- A primitive, which the tag says completely. -/
  | primitive (type : ForeignType)
  /-- A symbol; its name follows. -/
  | reference
  /-- A type of another form; its text follows. -/
  | opaqueText
  deriving DecidableEq, Repr

/-- The words for the tags. -/
def tags : List (String × Tag) :=
  [("number", .primitive .number), ("string", .primitive .string),
   ("boolean", .primitive .boolean), ("void", .primitive .void),
   ("reference", .reference), ("opaque", .opaqueText)]

/-- A type as it is written. -/
def toJson : ForeignType → Json
  | number => .object [("kind", .string "number")]
  | string => .object [("kind", .string "string")]
  | boolean => .object [("kind", .string "boolean")]
  | void => .object [("kind", .string "void")]
  | named name => .object [("kind", .string "reference"), ("name", .string name)]
  | other text => .object [("kind", .string "opaque"), ("text", .string text)]

/-- The text that a value holds. -/
def textOf : Json → Except Cause String
  | .string text => .ok text
  | value => .error (.invalidType value.shape "a string")

/-- The text of the one entry that is asked for, which may not come twice. -/
def textEntry (label : String) : Option String → List (String × Json) → Except Cause String
  | some text, [] => .ok text
  | none, [] => .error (.missingField label)
  | found, (key, value) :: entries =>
    if key = label then
      match found with
      | some _ => .error (.duplicateField label)
      | none => do textEntry label (some (← textOf value)) entries
    else textEntry label found entries

/-- The text that a tag leaves to be said, in an entry of this label or as the only
item of a list. -/
def textContent (label variant : String) : Content → Except Cause String
  | .entries entries => textEntry label none entries
  | .items [] => .error (.invalidLength 0 (variant ++ " with 1 element"))
  | .items (item :: items) => do
    let text ← textOf item
    if items.isEmpty then return text
    else .error (.invalidLength (items.length + 1) "1 element in sequence")

/-- The type that a tag and what is with it stand for. A primitive is said by its tag,
and a list must hold nothing more. -/
def ofContent : Tag → Content → Except Cause ForeignType
  | .primitive type, .entries _ => .ok type
  | .primitive type, .items items =>
    if items.isEmpty then .ok type
    else .error (.invalidLength items.length "0 elements in sequence")
  | .reference, content =>
    (textContent "name" "struct variant SourceType::Reference" content).map named
  | .opaqueText, content =>
    (textContent "text" "struct variant SourceType::Opaque" content).map other

/-- A type, inside so many containers. What is wrong with its content is known only
after the whole of it. -/
def read (depth : Nat) (node : Node) : Except Fault ForeignType := do
  let (tag, content) ← node.readTagged "internally tagged enum SourceType" "kind"
    (Choice.among tags) depth
  (ofContent tag content).mapError fun cause => .pending cause node.after

end ForeignType

/-! ### Signatures -/

/-- An entry for each part of a list that has any. -/
def listEntry {α : Type} (label : String) (toJson : α → Json) : List α → List (String × Json)
  | [] => []
  | items => [(label, .array (items.map toJson))]

/-- An entry for a part that is there. -/
def optionEntry {α : Type} (label : String) (toJson : α → Json) :
    Option α → List (String × Json)
  | none => []
  | some value => [(label, toJson value)]

/-- A field that holds a text. -/
def textField {δ : Type} (label : String) (get : δ → Option String) (set : String → δ → δ) :
    Json.Field δ :=
  { label, Value := String, read := fun _ node => node.readText, get, set }

namespace Symbol

/-- A parameter as it is written. -/
def Param.toJson (param : Param) : Json :=
  .object [("name", .string param.name), ("type", param.type.toJson)]

/-- What is known of a parameter. -/
structure Param.Draft where
  name : Option String := none
  type : Option ForeignType := none

/-- How a parameter is read. -/
def Param.record : Record Param.Draft Param where
  title := "struct ParamSymbol"
  fields :=
    [textField "name" (·.name) fun name draft => { draft with name := some name },
     { label := "type", Value := ForeignType, read := ForeignType.read
       get := (·.type), set := fun type draft => { draft with type := some type } }]
  blank := {}
  finish
    | { name := some name, type := some type } => .ok { name, type }
    | { name := none, .. } => .error "name"
    | { type := none, .. } => .error "type"

/-- A signature as it is written. -/
def Signature.toJson (signature : Signature) : Json :=
  .object [("params", .array (signature.params.map Param.toJson)),
    ("returns", signature.returns.toJson)]

/-- What is known of a signature. -/
structure Signature.Draft where
  params : Option (List Param) := none
  returns : Option ForeignType := none

/-- How a signature is read. One without parameters or without a result may leave
them out. -/
def Signature.record : Record Signature.Draft Signature where
  title := "struct CallSignature"
  fields :=
    [{ label := "params", Value := List Param, read := Node.readList Param.record.read
       get := (·.params), set := fun params draft => { draft with params := some params } },
     { label := "returns", Value := ForeignType, read := ForeignType.read
       get := (·.returns), set := fun returns draft => { draft with returns := some returns } }]
  blank := {}
  finish draft :=
    .ok { params := draft.params.getD [], returns := draft.returns.getD .void }

/-! ### Members -/

/-- A kind of member as it is written. -/
def Member.Kind.label : Member.Kind → String
  | constructor => "constructor"
  | field => "field"
  | method => "method"
  | other => "other"

/-- The words for the kinds of members that are told apart. -/
def Member.Kind.words : List (String × Member.Kind) :=
  [("constructor", .constructor), ("field", .field), ("method", .method)]

/-- A member as it is written. -/
def Member.toJson (member : Member) : Json :=
  .object ([("name", .string member.name), ("kind", .string member.kind.label)] ++
    optionEntry "type" ForeignType.toJson member.type ++
    listEntry "signatures" Signature.toJson member.signatures)

/-- What is known of a member. -/
structure Member.Draft where
  name : Option String := none
  kind : Option Member.Kind := none
  type : Option (Option ForeignType) := none
  signatures : Option (List Signature) := none

/-- How a member is read. -/
def Member.record : Record Member.Draft Member where
  title := "struct Member"
  fields :=
    [textField "name" (·.name) fun name draft => { draft with name := some name },
     { label := "kind", Value := Member.Kind
       read := Node.readVariant (Choice.amongOr Member.Kind.words .other)
       get := (·.kind), set := fun kind draft => { draft with kind := some kind } },
     { label := "type", Value := Option ForeignType
       read := fun depth => Node.readOptional (ForeignType.read depth)
       get := (·.type), set := fun type draft => { draft with type := some type } },
     { label := "signatures", Value := List Signature
       read := Node.readList Signature.record.read
       get := (·.signatures)
       set := fun signatures draft => { draft with signatures := some signatures } }]
  blank := {}
  finish draft :=
    match draft.name, draft.kind with
    | some name, some kind =>
      .ok { name, kind, type := draft.type.getD none, signatures := draft.signatures.getD [] }
    | none, _ => .error "name"
    | _, none => .error "kind"

/-! ### Symbols -/

/-- A kind of symbol as it is written. -/
def Kind.label : Kind → String
  | classType => "class"
  | interfaceType => "interface"
  | function => "function"
  | global => "variable"

/-- The words for the kinds of symbols. -/
def Kind.words : List (String × Kind) :=
  [("class", .classType), ("interface", .interfaceType), ("function", .function),
   ("variable", .global)]

/-- **A symbol as it is written**. -/
def toJson (symbol : Symbol) : Json :=
  .object ([("name", .string symbol.name), ("kind", .string symbol.kind.label)] ++
    optionEntry "namespace" .string symbol.scope ++
    optionEntry "type" ForeignType.toJson symbol.type ++
    listEntry "signatures" Signature.toJson symbol.signatures ++
    optionEntry "parent" ForeignType.toJson symbol.parent ++
    listEntry "members" Member.toJson symbol.members)

/-- What is known of a symbol. -/
structure Draft where
  name : Option String := none
  kind : Option Kind := none
  scope : Option (Option String) := none
  type : Option (Option ForeignType) := none
  signatures : Option (List Signature) := none
  parent : Option (Option ForeignType) := none
  members : Option (List Member) := none

/-- **How a symbol is read**. -/
def record : Record Draft Symbol where
  title := "struct Symbol"
  fields :=
    [textField "name" (·.name) fun name draft => { draft with name := some name },
     { label := "kind", Value := Kind, read := Node.readVariant (Choice.among Kind.words)
       get := (·.kind), set := fun kind draft => { draft with kind := some kind } },
     { label := "namespace", Value := Option String
       read := fun _ => Node.readOptional Node.readText
       get := (·.scope), set := fun scope draft => { draft with scope := some scope } },
     { label := "type", Value := Option ForeignType
       read := fun depth => Node.readOptional (ForeignType.read depth)
       get := (·.type), set := fun type draft => { draft with type := some type } },
     { label := "signatures", Value := List Signature
       read := Node.readList Signature.record.read
       get := (·.signatures)
       set := fun signatures draft => { draft with signatures := some signatures } },
     { label := "parent", Value := Option ForeignType
       read := fun depth => Node.readOptional (ForeignType.read depth)
       get := (·.parent), set := fun parent draft => { draft with parent := some parent } },
     { label := "members", Value := List Member, read := Node.readList Member.record.read
       get := (·.members), set := fun members draft => { draft with members := some members } }]
  blank := {}
  finish draft :=
    match draft.name, draft.kind with
    | some name, some kind =>
      .ok { name, kind
            scope := draft.scope.getD none
            type := draft.type.getD none
            signatures := draft.signatures.getD []
            parent := draft.parent.getD none
            members := draft.members.getD [] }
    | none, _ => .error "name"
    | _, none => .error "kind"

end Symbol

/-! ### Documents -/

namespace SymbolTable

/-- What a document says: the files and the symbols. -/
structure Contents where
  sources : List String
  symbols : List Symbol
  deriving DecidableEq, Repr

/-- What is known of a document. -/
structure Contents.Draft where
  sources : Option (List String) := none
  symbols : Option (List Symbol) := none

/-- How a document is read. -/
def Contents.record : Record Contents.Draft Contents where
  title := "struct SymbolTable"
  fields :=
    [{ label := "sources", Value := List String
       read := Node.readList fun _ node => node.readText
       get := (·.sources), set := fun sources draft => { draft with sources := some sources } },
     { label := "symbols", Value := List Symbol, read := Node.readList Symbol.record.read
       get := (·.symbols), set := fun symbols draft => { draft with symbols := some symbols } }]
  blank := {}
  finish draft :=
    match draft.symbols with
    | some symbols => .ok { sources := draft.sources.getD [], symbols }
    | none => .error "symbols"

/-- A document as it is written. -/
def Contents.toJson (contents : Contents) : Json :=
  .object [("sources", .array (contents.sources.map .string)),
    ("symbols", .array (contents.symbols.map Symbol.toJson))]

/-- **What a text says as a document**, or what is wrong with it. Nothing may follow
the document. -/
def Contents.ofText (text : List Char) : Except Fault Contents := do
  let node := Node.ofText text
  let contents ← Contents.record.read 0 node
  let rest := Json.skipBlanks node.after
  if rest.isEmpty then return contents else .error (.next .trailingCharacters rest)

/-- **The symbol table of a document**. One that names no files is taken to come from
the document itself. -/
def ofDocument (path : String) (document : String) : Except Failure SymbolTable :=
  let text := document.toList
  match Contents.ofText text with
  | .ok contents =>
    let sources := if contents.sources.isEmpty then [path] else contents.sources
    .ok (ofSymbols sources contents.symbols)
  | .error fault => .error (.load path (fault.message text))

/-- **The document of a symbol table**. -/
def document (table : SymbolTable) : String :=
  (Contents.toJson ⟨table.sources, table.symbols.toList⟩).write

end SymbolTable

end Bindery
