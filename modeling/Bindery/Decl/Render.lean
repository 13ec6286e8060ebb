import Bindery.Decl.Basic

/-!
# Declarations as Nim code

Every declaration is written with a pragma that links it to what it stands for. A
variable, a free function and a type name the foreign symbol only where the generated
name differs (`Bindery.Decl.importPragma`); a field has no pragma at all where it does
not. A method and a constructor are written as a **call pattern**, in which the name
is always given.

A type is one line for its header, one for each field, and one for each constructor
and each method.
-/

namespace Bindery.Decl

/-- A text in plain quotes, which must not hold any quotes itself. -/
def inQuotes (text : String) : String := "\"" ++ text ++ "\""

/-- The link to the foreign symbol. -/
def importPragma (ident : Ident) : String :=
  match ident.link? with
  | some foreign => "importc: " ++ inQuotes (escapeLink foreign)
  | none => "importc"

/-- A pragma with its brackets. -/
def inPragma (content : String) : String := "\x7b." ++ content ++ ".\x7d"

/-- A parameter: its name and its type. -/
def Parameter.render (parameter : Parameter) : String :=
  parameter.ident.name ++ ": " ++ parameter.type.name

/-- A list of parameters. -/
def renderParams (params : List Parameter) : String :=
  String.intercalate ", " (params.map Parameter.render)

/-- The result type of a function, which is left out if there is none. -/
def renderReturns (returns : TypeRef) : String :=
  if returns.isVoid then "" else ": " ++ returns.name

/-- A global variable. -/
def Global.render (global : Global) : String :=
  "var " ++ global.ident.name ++ "* " ++ inPragma (importPragma global.ident ++ ", nodecl") ++
    ": " ++ global.type.name

/-- A field of a type. -/
def Field.render (field : Field) : String :=
  match field.ident.link? with
  | some _ =>
    field.ident.name ++ "* " ++ inPragma (importPragma field.ident) ++ ": " ++ field.type.name
  | none => field.ident.name ++ "*: " ++ field.type.name

/-- The first parameter of a method. -/
def renderReceiver (owner : Ident) : String := "self: " ++ owner.name

/-- A function, or a method with its owner as the first parameter. -/
def Signature.render (signature : Signature) : String :=
  match signature.owner with
  | none =>
    "proc " ++ signature.ident.name ++ "*(" ++ renderParams signature.params ++ ")" ++
      renderReturns signature.returns ++ " " ++ inPragma (importPragma signature.ident)
  | some owner =>
    "proc " ++ signature.ident.name ++ "*(" ++
      String.intercalate ", " (renderReceiver owner :: signature.params.map Parameter.render) ++
      ")" ++ renderReturns signature.returns ++ " " ++
      inPragma ("importcpp: " ++ inQuotes ("#." ++ escapePattern signature.ident.foreign ++ "(@)"))

/-- A constructor, which is a function that returns its owner. -/
def Constructor.render (constructor : Constructor) : String :=
  "proc " ++ constructor.name ++ "*(" ++ renderParams constructor.params ++ "): " ++
    constructor.owner.name ++ " " ++
    inPragma ("importcpp: " ++
      inQuotes ("new " ++ escapePattern constructor.owner.foreign ++ "(@)"))

/-- The first line of a type. One without a parent extends the root of all objects. -/
def TypeDecl.renderHeader (type : TypeDecl) : String :=
  let base := (type.parent?.map fun parent => parent.ident.name).getD "RootObj"
  "type " ++ type.ident.name ++ "* " ++ inPragma (importPragma type.ident) ++
    " = ref object of " ++ base

/-- The lines of a type. -/
def TypeDecl.lines (type : TypeDecl) : List String :=
  type.renderHeader :: type.body.fields.map (fun field => "  " ++ field.render) ++
    type.body.constructors.map Constructor.render ++ type.body.methods.map Signature.render

/-- A type. -/
def TypeDecl.render (type : TypeDecl) : String := String.intercalate "\n" type.lines

end Decl

/-- **A declaration as Nim code**. -/
def Decl.render : Decl → String
  | primitive p => p.name
  | global g => g.render
  | parameter p => p.render
  | field f => f.render
  | signature s => s.render
  | constructor c => c.render
  | type t => t.render

end Bindery
