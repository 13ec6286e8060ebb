/-!
# The fewest digits that read back

A binary floating point number stands for every real number that rounds to it, an
interval around its value. Among the decimals in that interval,
`Bindery.Text.shortestDigits` finds one with the fewest digits and, of those, the
nearest to the value; of two equally near the one whose last digit is even.

The search is in exact arithmetic on natural numbers. For each count of digits it
looks at the two decimals with that many digits around the value, the one not above
it and the next one: if any decimal of that length lies in the interval, one of these
two does.

`Bindery.Text.showFloat` then lays the digits out: positionally as long as the point
stands near them, and with an exponent elsewhere.
-/

namespace Bindery.Text

/-! ### The interval of a floating point number -/

/-- A positive floating point number and the ends of its interval, all three as
counts of a common unit. -/
structure RoundingInterval where
  /-- The value. -/
  value : Nat
  /-- The lower end. -/
  lower : Nat
  /-- The upper end. -/
  upper : Nat
  /-- How many of the unit make up the number one. -/
  unit : Nat
  /-- Whether the ends belong to the interval. -/
  closed : Bool

namespace RoundingInterval

/-- The interval of the number with these bits. Below a power of two the numbers lie
twice as close, so the interval reaches only half as far down there. -/
def ofBits (bits : UInt64) : RoundingInterval :=
  let fraction := bits.toNat % Nat.pow 2 52
  let biased := bits.toNat / Nat.pow 2 52 % Nat.pow 2 11
  let significand := if biased = 0 then fraction else fraction + Nat.pow 2 52
  let exponent := max biased 1
  let factor := Nat.pow 2 (exponent - 1077)
  { value := 4 * significand * factor
    lower := (4 * significand - if fraction = 0 ∧ 1 < biased then 1 else 2) * factor
    upper := (4 * significand + 2) * factor
    unit := Nat.pow 2 (1077 - exponent)
    closed := significand % 2 == 0 }

/-- The number of digits before the point, or, for a number below one, the number of
zeros right after the point, negated. -/
def order (interval : RoundingInterval) : Int :=
  if interval.unit ≤ interval.value then
    (Nat.toDigits 10 (interval.value / interval.unit)).length
  else
    -(((List.range 400).find? fun zeros =>
      interval.unit ≤ interval.value * Nat.pow 10 (zeros + 1)).getD 400 : Nat)

/-- The interval with a power of ten for the number one. -/
def perPowTen (interval : RoundingInterval) (power : Int) : RoundingInterval :=
  let factor := Nat.pow 10 (-power).toNat
  { interval with
    value := interval.value * factor
    lower := interval.lower * factor
    upper := interval.upper * factor
    unit := interval.unit * Nat.pow 10 power.toNat }

/-- Whether a whole number lies in the interval. -/
def holds (interval : RoundingInterval) (count : Nat) : Bool :=
  let point := count * interval.unit
  if interval.closed then interval.lower ≤ point && point ≤ interval.upper
  else interval.lower < point && point < interval.upper

/-- The whole number in the interval that is nearest to the value, if there is one. -/
def nearest? (interval : RoundingInterval) : Option Nat :=
  let below := interval.value / interval.unit
  let above := below + 1
  let fromBelow := interval.value - below * interval.unit
  let fromAbove := above * interval.unit - interval.value
  let preferBelow := fromBelow < fromAbove || (fromBelow == fromAbove && below % 2 == 0)
  if interval.holds below && (preferBelow || !interval.holds above) then some below
  else if interval.holds above then some above
  else none

end RoundingInterval

/-! ### The search -/

/-- A decimal without zeros at its end. -/
def trimZeros (digits : Nat) (power : Int) : Nat × Int :=
  if digits ≠ 0 ∧ digits % 10 = 0 then trimZeros (digits / 10) (power + 1) else (digits, power)
termination_by digits
decreasing_by omega

/-- **The fewest digits that read back** as the positive number with these bits, and
the power of ten that the last of them counts. Seventeen digits are always enough. -/
def shortestDigits (bits : UInt64) : Nat × Int :=
  let interval := RoundingInterval.ofBits bits
  let found := (List.range 17).findSome? fun more =>
    let power := interval.order - (more + 1 : Nat)
    (interval.perPowTen power).nearest?.map fun digits => (digits, power)
  let (digits, power) := found.getD (0, 0)
  trimZeros digits power

/-! ### Layout -/

/-- An exponent, always with its sign. -/
def exponentText (exponent : Int) : List Char :=
  'e' :: (if exponent < 0 then '-' else '+') :: Nat.toDigits 10 exponent.natAbs

/-- Digits and the power of ten of the last one, laid out. The number is positional as
long as at most sixteen digits stand before the point, and at most four zeros between
the point and the first digit. -/
def layoutDigits (digits : Nat) (power : Int) : List Char :=
  let shown := Nat.toDigits 10 digits
  let point : Int := shown.length + power
  if 0 ≤ power ∧ point ≤ 16 then
    shown ++ List.replicate power.toNat '0' ++ ['.', '0']
  else if 0 < point ∧ point ≤ 16 then
    shown.take point.toNat ++ '.' :: shown.drop point.toNat
  else if -5 < point ∧ point ≤ 0 then
    '0' :: '.' :: (List.replicate (-point).toNat '0' ++ shown)
  else
    let exponent := exponentText (point - 1)
    match shown with
    | [digit] => digit :: exponent
    | shown => shown.take 1 ++ '.' :: shown.drop 1 ++ exponent

/-- **A finite floating point number**, with a sign if its bits have one. -/
def showFloat (x : Float) : String :=
  let sign := if Nat.pow 2 63 ≤ x.toBits.toNat then ['-'] else []
  let bits := UInt64.ofNat (x.toBits.toNat % Nat.pow 2 63)
  let body :=
    if bits = 0 then ['0', '.', '0']
    else layoutDigits (shortestDigits bits).1 (shortestDigits bits).2
  String.ofList (sign ++ body)

end Bindery.Text
