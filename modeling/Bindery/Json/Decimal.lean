import Bindery.Json.Basic
import Bindery.Text.Shortest

/-!
# Decimals as floating point numbers

A decimal of a document is rounded in two steps: its significand, and then the
product or quotient with a power of ten. `Bindery.Json.Number.scale` is the second
step. It fails for a decimal that is too large, and a decimal that is too small
becomes zero.
-/

namespace Bindery.Json.Number

/-- A power of ten as a floating point number. -/
def powTen (exponent : Nat) : Float := Float.ofScientific 1 false exponent

/-- A floating point number times a power of ten, if that is finite. Powers beyond
`10 ^ 308` are no floating point numbers, and are divided by in steps. -/
def scale (x : Float) (exponent : Int) : Option Float :=
  if exponent.natAbs ≤ 308 then
    if 0 ≤ exponent then
      let product := x * powTen exponent.natAbs
      if product.isInf then none else some product
    else some (x / powTen exponent.natAbs)
  else if x == 0 then some x
  else if 0 ≤ exponent then none
  else scale (x / powTen 308) (exponent + 308)
termination_by (-exponent).toNat
decreasing_by omega

/-- The size of a decimal as a floating point number, if it is not too large. -/
def magnitude (significand : Nat) (exponent : Int) : Option Float :=
  scale (UInt64.ofNat significand).toFloat exponent

/-- A decimal as it is shown to a reader. -/
def showDecimal (negative : Bool) (significand : Nat) (exponent : Int) : String :=
  let size := (magnitude significand exponent).getD 0
  Text.showFloat (if negative then -size else size)

end Bindery.Json.Number
