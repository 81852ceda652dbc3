import SqlCompose.Numeric.Binary

/-!
# Decimal text of a real

A real is written with the fewest decimal digits that read back as the same real, and of several
such decimals with the nearest one; an exact tie between two goes away from zero. The text is
positional at every magnitude: there is no exponent, and an integer has no point.

## Main definitions

* `Decimal`, `Decimal.text`: `digits · 10 ^ exponent` and its positional text.
* `Interval`: the decimals that round to a given magnitude.
* `shortest`: the shortest decimal of a magnitude.
* `Double.text`: the text of a real.
-/

namespace SqlCompose

/-- The decimal `digits · 10 ^ exponent`. -/
structure Decimal where
  digits : Nat
  exponent : Int
  deriving DecidableEq, Repr

/-- Positional notation: no exponent, a digit on both sides of a point, and no point in an
integer. -/
def Decimal.text (d : Decimal) : String :=
  let digits := toString d.digits
  if 0 ≤ d.exponent then digits ++ String.ofList (List.replicate d.exponent.toNat '0')
  else
    let places := (-d.exponent).toNat
    let padded := List.replicate (places + 1 - digits.length) '0' ++ digits.toList
    let whole := padded.length - places
    String.ofList (padded.take whole) ++ "." ++ String.ofList (padded.drop whole)

/-- The reals that round to a magnitude of the format: those between `low · 2 ^ scale` and
`high · 2 ^ scale`, with the ends where `closed`. The magnitude is `mid · 2 ^ scale`. -/
structure Interval where
  low : Nat
  mid : Nat
  high : Nat
  scale : Int
  closed : Bool
  deriving DecidableEq, Repr

namespace Interval

/-- The reals that round to `m · 2 ^ q` when the smallest exponent of a last place is
`minExponent` and normal significands start at `hidden`. Below a power of two the members of the
format are twice as close, save at the least exponent. A tie goes to the even significand, so an
even one owns both ends. -/
def around (hidden : Nat) (minExponent : Int) (m : Nat) (q : Int) : Interval where
  low := if m = hidden ∧ minExponent < q then 4 * m - 1 else 4 * m - 2
  mid := 4 * m
  high := 4 * m + 2
  scale := q - 2
  closed := m % 2 = 0

/-- The decimal and `n · 2 ^ scale` as multiples of one unit, which is fixed by the two exponents
alone. -/
def scaled (d : Decimal) (scale : Int) (n : Nat) : Nat × Nat :=
  (d.digits * pow10 d.exponent.toNat * pow2 (-scale).toNat,
    n * pow2 scale.toNat * pow10 (-d.exponent).toNat)

/-- Whether the decimal lies in the interval. -/
def holds (I : Interval) (d : Decimal) : Bool :=
  let (x, low) := scaled d I.scale I.low
  let (_, high) := scaled d I.scale I.high
  if I.closed then low ≤ x && x ≤ high else low < x && x < high

/-- The last multiple of `10 ^ exponent` that is at most the magnitude. -/
def floorAt (I : Interval) (exponent : Int) : Decimal :=
  let (unit, mid) := scaled ⟨1, exponent⟩ I.scale I.mid
  ⟨mid / unit, exponent⟩

/-- Whether the magnitude is nearer to the multiple of `10 ^ exponent` below it than to the one
above it. -/
def nearerBelow (I : Interval) (exponent : Int) : Bool :=
  let (unit, mid) := scaled ⟨1, exponent⟩ I.scale I.mid
  2 * (mid % unit) < unit

/-- The multiple of `10 ^ exponent` in the interval that is nearest to the magnitude, if there is
one. Only the two neighbours of the magnitude need a look. -/
def hit (I : Interval) (exponent : Int) : Option Decimal :=
  let below := I.floorAt exponent
  let above : Decimal := ⟨below.digits + 1, exponent⟩
  match decide (below.digits ≠ 0) && I.holds below, I.holds above with
  | true, true => some (if I.nearerBelow exponent then below else above)
  | true, false => some below
  | false, true => some above
  | false, false => none

/-- The first hit on the grids `10 ^ exponent`, `10 ^ (exponent - 1)` and so on, `fuel` of them.
When the fuel ends the digits of the last grid are cut. -/
def search (I : Interval) : Nat → Int → Decimal
  | 0, exponent => I.floorAt exponent
  | fuel + 1, exponent =>
    match I.hit exponent with
    | some d => d
    | none => I.search fuel (exponent - 1)

end Interval

/-- The shortest decimal of a double's magnitude `m · 2 ^ q`. The search starts on a grid coarser
than the magnitude, since `log 2 < 0.30103 · log 10`, and seventeen digits always suffice. -/
def shortest (m : Nat) (q : Int) : Decimal :=
  let I := Interval.around (pow2 52) BinaryFormat.binary64.minExponent m q
  I.search 22 ((m.log2 + q + 1) * 30103 / 100000 + 1)

/-- The text of a real: `NaN` without a sign, `inf`, a zero with its sign, and otherwise the
shortest decimal in positional notation. -/
def Double.text (x : Double) : String :=
  match x.reading with
  | .nan _ _ => "NaN"
  | .infinite negative => (if negative then "-" else "") ++ "inf"
  | .finite negative m q =>
    (if negative then "-" else "") ++ if m = 0 then "0" else (shortest m q).text

end SqlCompose
