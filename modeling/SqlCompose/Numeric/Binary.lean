import SqlCompose.Numeric.Power

/-!
# Binary interchange formats, bit by bit

Reals are held by their bits, so that two of them are equal exactly when their bits are, the sign
of a zero and the payload of a not-a-number included. `Double` has 64 bits and `Single` 32; both
are read through one description of such formats, `BinaryFormat`, whose `round` takes any
magnitude `m · 2 ^ q` to the bits of the nearest member of the format.

## Main definitions

* `BinaryFormat`, `BinaryFormat.round`: a format, and rounding to nearest, ties to even.
* `Double`, `Single`: reals by their bits, with their readings `Double.reading`, `Single.reading`.
* `Double.ofInt`, `Double.toSingle`, `Single.toDouble`: conversions.
-/

namespace SqlCompose

/-- A binary interchange format: the number of significant bits, the leading one included, and
the number of bits of the exponent field. -/
structure BinaryFormat where
  precision : Nat
  exponentBits : Nat
  deriving DecidableEq, Repr

namespace BinaryFormat

/-- The format with 53 significant bits. -/
def binary64 : BinaryFormat := ⟨53, 11⟩

/-- The format with 24 significant bits. -/
def binary32 : BinaryFormat := ⟨24, 8⟩

/-- The number of stored bits of the significand. -/
def fractionBits (F : BinaryFormat) : Nat := F.precision - 1

/-- The exponent of the last place of the least magnitudes. -/
def minExponent (F : BinaryFormat) : Int :=
  2 - pow2 (F.exponentBits - 1) - F.fractionBits

/-- The bits of infinity, without a sign. -/
def infinity (F : BinaryFormat) : Nat := (pow2 F.exponentBits - 1) * pow2 F.fractionBits

/-- The sign bit. -/
def signBit (F : BinaryFormat) : Nat := pow2 (F.exponentBits + F.fractionBits)

/-- The leading fraction bit, which marks a quiet not-a-number. -/
def quietBit (F : BinaryFormat) : Nat := pow2 (F.fractionBits - 1)

/-- Drops the last `s` binary places of `m`, to nearest and on a tie to the even neighbour. -/
def dropPlaces (m s : Nat) : Nat :=
  let kept := m / pow2 s
  let lost := m % pow2 s
  let half := pow2 s / 2
  if s = 0 then m
  else if half < lost then kept + 1
  else if lost = half then kept + kept % 2
  else kept

/-- The bits, without a sign, of the member of the format nearest to `m · 2 ^ q`, on a tie of the
one with an even significand; magnitudes past the greatest member give infinity. A significand
that rounds up to the next power of two carries into the exponent field by the addition. -/
def round (F : BinaryFormat) (m : Nat) (q : Int) : Nat :=
  if m = 0 then 0
  else
    let place := max (m.log2 + q - F.fractionBits) F.minExponent
    let significand := dropPlaces (m * pow2 (q - place).toNat) (place - q).toNat
    min ((place - F.minExponent).toNat * pow2 F.fractionBits + significand) F.infinity

/-- What a bit pattern stands for: a not-a-number with its fraction field, an infinity, or the
magnitude `m · 2 ^ q`; `negative` is the sign bit. -/
inductive Reading where
  | nan (negative : Bool) (fraction : Nat)
  | infinite (negative : Bool)
  | finite (negative : Bool) (m : Nat) (q : Int)
  deriving DecidableEq, Repr

/-- Reads a bit pattern of the format. -/
def read (F : BinaryFormat) (bits : Nat) : Reading :=
  let negative := decide (bits / F.signBit % 2 = 1)
  let exponent := bits / pow2 F.fractionBits % pow2 F.exponentBits
  let fraction := bits % pow2 F.fractionBits
  if exponent = pow2 F.exponentBits - 1 then
    if fraction = 0 then .infinite negative else .nan negative fraction
  else if exponent = 0 then .finite negative fraction F.minExponent
  else .finite negative (pow2 F.fractionBits + fraction) (F.minExponent + (exponent - 1))

/-- The bits of a reading. A magnitude is rounded, and a not-a-number comes out quiet, its
fraction field set to `payload`. -/
def write (F : BinaryFormat) (payload : Nat → Nat) : Reading → Nat
  | .nan negative fraction =>
    negative.toNat * F.signBit + F.infinity + payload fraction % F.quietBit + F.quietBit
  | .infinite negative => negative.toNat * F.signBit + F.infinity
  | .finite negative m q => negative.toNat * F.signBit + F.round m q

end BinaryFormat

open BinaryFormat

/-- A double precision real, by its bits. -/
structure Double where
  bits : UInt64
  deriving DecidableEq, Repr, Inhabited

/-- A single precision real, by its bits. -/
structure Single where
  bits : UInt32
  deriving DecidableEq, Repr, Inhabited

namespace Single

/-- Positive zero. -/
def zero : Single := ⟨0⟩

/-- What the bits stand for. -/
def reading (x : Single) : Reading := binary32.read x.bits.toNat

/-- The double of the same value. The fraction field of a not-a-number keeps its leading places,
and the not-a-number becomes quiet. -/
def toDouble (x : Single) : Double :=
  ⟨.ofNat (binary64.write (· * pow2 29) x.reading)⟩

end Single

namespace Double

/-- Positive zero. -/
def zero : Double := ⟨0⟩

/-- What the bits stand for. -/
def reading (x : Double) : Reading := binary64.read x.bits.toNat

/-- The double nearest to an integer. -/
def ofInt (n : Int) : Double :=
  ⟨.ofNat (binary64.write id (.finite (n < 0) n.natAbs 0))⟩

/-- The nearest single. The fraction field of a not-a-number keeps its leading places, and the
not-a-number becomes quiet. -/
def toSingle (x : Double) : Single :=
  ⟨.ofNat (binary32.write (· / pow2 29) x.reading)⟩

end Double

end SqlCompose
