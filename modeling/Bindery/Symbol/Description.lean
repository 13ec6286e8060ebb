import Bindery.Symbol.Table
import Bindery.Text.Outline

/-!
# Describing symbols

To find out why a declaration came out the way it did, one looks at what the analysis
said of a symbol and at what its types mean to the symbol table.
`Bindery.SymbolTable.describe` tells this line by line. On request it adds the symbol
itself, as an outline of all its parts.
-/

namespace Bindery

open Text (Outline)

/-! ### Outlines -/

/-- The outline of a foreign type. -/
def ForeignType.outline : ForeignType → Outline
  | number => .word "Number"
  | string => .word "String"
  | boolean => .word "Boolean"
  | void => .word "Void"
  | named name => .record "Reference" [("name", .ofText name)]
  | other text => .record "Opaque" [("text", .ofText text)]

namespace Symbol

/-- A kind of symbol, as it is shown. -/
def Kind.title : Kind → String
  | classType => "Class"
  | interfaceType => "Interface"
  | function => "Function"
  | global => "Variable"

/-- A kind of member, as it is shown. -/
def Member.Kind.title : Member.Kind → String
  | constructor => "Constructor"
  | field => "Field"
  | method => "Method"
  | other => "Other"

/-- The outline of a parameter. -/
def Param.outline (param : Param) : Outline :=
  .record "ParamSymbol" [("name", .ofText param.name), ("ty", param.type.outline)]

/-- The outline of a signature. -/
def Signature.outline (signature : Signature) : Outline :=
  .record "CallSignature"
    [("params", .ofList Param.outline signature.params), ("ret", signature.returns.outline)]

/-- The outline of a member. -/
def Member.outline (member : Member) : Outline :=
  .record "Member"
    [("name", .ofText member.name), ("kind", .word member.kind.title),
     ("ty", .ofOption ForeignType.outline member.type),
     ("signatures", .ofList Signature.outline member.signatures)]

/-- The outline of a symbol. -/
def outline (symbol : Symbol) : Outline :=
  .record "Symbol"
    [("name", .ofText symbol.name), ("kind", .word symbol.kind.title),
     ("namespace", .ofOption .ofText symbol.scope),
     ("ty", .ofOption ForeignType.outline symbol.type),
     ("signatures", .ofList Signature.outline symbol.signatures),
     ("parent", .ofOption ForeignType.outline symbol.parent),
     ("members", .ofList Member.outline symbol.members)]

end Symbol

/-! ### Descriptions -/

namespace SymbolTable

/-- What a type means, in words. -/
def describeClass (table : SymbolTable) (type : ForeignType) : String :=
  match table.classify type with
  | .number => "number"
  | .string => "string"
  | .boolean => "boolean"
  | .void => "void"
  | .classLike ref =>
    let symbol := table.symbols[ref]
    "class-like(" ++ symbol.kind.title ++ " " ++ symbol.name ++ ")"
  | .unrepresentable => "unrepresentable"

/-- A type and what it means. -/
def describeType (table : SymbolTable) (type : ForeignType) : String :=
  type.text ++ " => " ++ table.describeClass type

/-- The line of a signature under a label. -/
def describeSignature (table : SymbolTable) (label : String) (signature : Symbol.Signature) :
    String :=
  let params := signature.params.map fun param => param.name ++ ": " ++ table.describeType param.type
  "  " ++ label ++ "(" ++ String.intercalate ", " params ++ ") -> " ++
    table.describeType signature.returns

/-- The lines of the overloads under a numbered label. -/
def describeSignatures (table : SymbolTable) (label : String)
    (signatures : List Symbol.Signature) : List String :=
  signatures.mapIdx fun i signature =>
    table.describeSignature (label ++ "#" ++ toString i) signature

/-- The lines of a member. -/
def describeMember (table : SymbolTable) (member : Symbol.Member) : List String :=
  ("  member " ++ member.name ++ " kind=" ++ member.kind.title) ::
    member.type.toList.map (fun type => "    type " ++ table.describeType type) ++
    table.describeSignatures "  " member.signatures

/-- The lines of a symbol. -/
def describeLines (table : SymbolTable) (symbol : Symbol) : List String :=
  ("debug: " ++ symbol.name ++ " kind=" ++ symbol.kind.title ++ " namespace=" ++
      symbol.scope.getD "-" ++ " members=" ++ toString symbol.members.length) ::
    symbol.type.toList.map (fun type => "  type " ++ table.describeType type) ++
    symbol.parent.toList.map (fun type => "  parent " ++ table.describeType type) ++
    table.describeSignatures "signature " symbol.signatures ++
    symbol.members.flatMap table.describeMember

/-- **What is known of a symbol**, one fact to a line. In full, the symbol itself
follows. -/
def describe (table : SymbolTable) (symbol : Symbol) (full : Bool) : String :=
  let lines := table.describeLines symbol ++ if full then [symbol.outline.render] else []
  String.join (lines.map (· ++ "\n"))

/-- The symbols whose names begin in this way. -/
def beginning (table : SymbolTable) (start : String) : List Symbol :=
  table.symbols.toList.filter fun symbol => start.toList.isPrefixOf symbol.name.toList

end SymbolTable

end Bindery
