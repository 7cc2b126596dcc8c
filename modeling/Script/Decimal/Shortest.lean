import Script.Decimal.Basic

/-! # The shortest decimal that reads back

A binary floating-point number is `m * 2 ^ q`.  The reals that round to it form an interval around
it.  Its shortest decimal is found on the coarsest grid of multiples of a power of ten that has a
point in that interval; of two such points the nearer one is taken, and of two equally near ones the
larger.  All comparisons are between natural numbers. -/

namespace Script

/-- A positive number with the interval of reals that round to it, all in units of `2 ^ scale`. -/
structure Rounding where
  /-- The number itself. -/
  centre : Nat
  /-- The lower end of the interval. -/
  low : Nat
  /-- The upper end of the interval. -/
  high : Nat
  /-- The exponent of the unit. -/
  scale : Int
  /-- Whether the ends belong to the interval. -/
  closed : Bool

namespace Rounding

/-- One unit of the grid of multiples of `10 ^ k`, in the common scale. -/
def gridUnit (r : Rounding) (k : Int) : Nat :=
  Nat.pow 10 k.toNat * Nat.pow 2 (-r.scale).toNat

/-- One unit of the interval, in the common scale. -/
def ownUnit (r : Rounding) (k : Int) : Nat :=
  Nat.pow 2 r.scale.toNat * Nat.pow 10 (-k).toNat

/-- Whether the `c`-th point of the grid lies in the interval. -/
def contains (r : Rounding) (k : Int) (c : Nat) : Bool :=
  let point := c * r.gridUnit k
  let low := r.low * r.ownUnit k
  let high := r.high * r.ownUnit k
  if r.closed then low ≤ point ∧ point ≤ high else low < point ∧ point < high

/-- The number's nearest point on the grid of multiples of `10 ^ k`, if it lies in the interval. -/
def onGrid? (r : Rounding) (k : Int) : Option Decimal :=
  let unit := r.gridUnit k
  let centre := r.centre * r.ownUnit k
  let below := centre / unit
  let above := below + 1
  if r.contains k below then
    if r.contains k above ∧ (below + above) * unit ≤ 2 * centre then
      some ⟨above, k⟩
    else
      some ⟨below, k⟩
  else if r.contains k above then
    some ⟨above, k⟩
  else
    none

/-- The decimal on the coarsest grid that has a point in the interval, among the grids of
`10 ^ highest` and the `count - 1` next finer ones. -/
def shortest? (r : Rounding) (highest : Int) (count : Nat) : Option Decimal :=
  (List.range count).findSome? (fun (i : Nat) => r.onGrid? (highest - i))

end Rounding

/-- What a 32-bit floating-point number is. -/
inductive FloatParts where
  | nan
  | infinite (negative : Bool)
  /-- The number `± mantissa * 2 ^ exponent`. -/
  | finite (negative : Bool) (mantissa : Nat) (exponent : Int)

namespace FloatParts

/-- Takes a 32-bit floating-point number apart. -/
def ofFloat (x : Float32) : FloatParts :=
  let bits : Nat := x.toBits.toNat
  let negative := decide (Nat.pow 2 31 ≤ bits)
  let exponent : Nat := bits / Nat.pow 2 23 % Nat.pow 2 8
  let fraction : Nat := bits % Nat.pow 2 23
  if exponent = 255 then
    if fraction = 0 then .infinite negative else .nan
  else if exponent = 0 then
    .finite negative fraction (-149)
  else
    .finite negative (Nat.pow 2 23 + fraction) ((exponent : Int) - 150)

/-- The reals that round to `mantissa * 2 ^ exponent`: half a unit up, and half a unit down, except
that below a power of two the numbers lie twice as densely. -/
def rounding (mantissa : Nat) (exponent : Int) : Rounding where
  centre := 4 * mantissa
  low := if mantissa = Nat.pow 2 23 ∧ -149 < exponent then 4 * mantissa - 1 else 4 * mantissa - 2
  high := 4 * mantissa + 2
  scale := exponent - 2
  closed := mantissa % 2 == 0

/-- The shortest decimal of a positive number.  Every such number is below `10 ^ 39`, and nine
digits always suffice. -/
def shortest (mantissa : Nat) (exponent : Int) : Decimal :=
  ((rounding mantissa exponent).shortest? 39 100).getD ⟨0, 0⟩

end FloatParts

/-- Floats from `10 ^ -4` up to `10 ^ 16` are written positionally. -/
def floatLayout : Decimal.Layout := ⟨-4, 16⟩

/-- The text of a float: the fewest digits that read back as the same number. -/
def floatText (x : Float32) : String :=
  match FloatParts.ofFloat x with
  | .nan => "NaN"
  | .infinite negative => if negative then "-inf" else "inf"
  | .finite negative mantissa exponent =>
    let sign := if negative then "-" else ""
    let decimal := if mantissa = 0 then ⟨0, 0⟩ else FloatParts.shortest mantissa exponent
    sign ++ decimal.text floatLayout

end Script
