import Bindery.Text.Quoted

/-!
# Values as indented outlines

A value of several parts can be shown to a reader as an outline, one part to a line and
the parts of a part indented further. `Bindery.Text.Outline` is what there is to show;
`Bindery.Text.Outline.render` lays it out.
-/

namespace Bindery.Text

/-- **A value to be shown** in parts. -/
inductive Outline where
  /-- A value that is shown in one word. -/
  | word (text : String)
  /-- A value with named parts. -/
  | record (name : String) (fields : List (String × Outline))
  /-- A value with a single part, which needs no name. -/
  | wrapped (name : String) (content : Outline)
  | list (items : List Outline)

namespace Outline

/-- The outline of a text. -/
def ofText (text : String) : Outline := word (quoted text)

/-- The outline of something that may be missing. -/
def ofOption {α : Type} (outline : α → Outline) : Option α → Outline
  | some value => wrapped "Some" (outline value)
  | none => word "None"

/-- The outline of a list. -/
def ofList {α : Type} (outline : α → Outline) (items : List α) : Outline :=
  list (items.map outline)

/-- The blanks at the beginning of a line. -/
def indent (depth : Nat) : String := String.ofList (List.replicate (4 * depth) ' ')

mutual

/-- The layout of a value whose first line is indented so far already. -/
def renderAt (depth : Nat) : Outline → String
  | word text => text
  | record name fields =>
    name ++ " \x7b\n" ++ renderFields (depth + 1) fields ++ indent depth ++ "\x7d"
  | wrapped name content =>
    name ++ "(\n" ++ indent (depth + 1) ++ content.renderAt (depth + 1) ++ ",\n" ++
      indent depth ++ ")"
  | list [] => "[]"
  | list (item :: items) =>
    "[\n" ++ renderItems (depth + 1) (item :: items) ++ indent depth ++ "]"

/-- The lines of named parts. -/
def renderFields (depth : Nat) : List (String × Outline) → String
  | [] => ""
  | (name, value) :: fields =>
    indent depth ++ name ++ ": " ++ value.renderAt depth ++ ",\n" ++ renderFields depth fields

/-- The lines of the items of a list. -/
def renderItems (depth : Nat) : List Outline → String
  | [] => ""
  | item :: items => indent depth ++ item.renderAt depth ++ ",\n" ++ renderItems depth items

end

/-- **The layout of a value**, without a line break at the end. -/
def render (outline : Outline) : String := outline.renderAt 0

end Outline

end Bindery.Text
