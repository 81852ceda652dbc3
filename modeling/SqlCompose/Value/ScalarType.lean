import SqlCompose.Numeric.Power

/-!
# Types of fields and of extracted scalars
-/

namespace SqlCompose

/-- The integer types; `word` is an unsigned machine word of 64 bits. -/
inductive IntType where
  | int8
  | int16
  | int32
  | int64
  | uint8
  | uint16
  | uint32
  | uint64
  | word
  deriving DecidableEq, Repr

namespace IntType

/-- The number of bits. -/
def bits : IntType → Nat
  | int8 | uint8 => 8
  | int16 | uint16 => 16
  | int32 | uint32 => 32
  | int64 | uint64 | word => 64

/-- Whether the type holds negative numbers. -/
def signed : IntType → Bool
  | int8 | int16 | int32 | int64 => true
  | uint8 | uint16 | uint32 | uint64 | word => false

/-- The least number of the type. -/
def least (t : IntType) : Int := if t.signed then -pow2 (t.bits - 1) else 0

/-- The greatest number of the type. -/
def greatest (t : IntType) : Int := pow2 (if t.signed then t.bits - 1 else t.bits) - 1

/-- Whether the type holds the number. -/
def holds (t : IntType) (n : Int) : Bool := t.least ≤ n && n ≤ t.greatest

/-- The name of the type in messages. -/
def name : IntType → String
  | int8 => "i8"
  | int16 => "i16"
  | int32 => "i32"
  | int64 => "i64"
  | uint8 => "u8"
  | uint16 => "u16"
  | uint32 => "u32"
  | uint64 => "u64"
  | word => "usize"

end IntType

/-- The type of a field or of an extracted scalar. `any` keeps a value as it is, and an `option`
takes null as absence. -/
inductive ScalarType where
  | any
  | int (t : IntType)
  | double
  | single
  | bool
  | text
  | bytes
  | option (t : ScalarType)
  deriving DecidableEq, Repr

/-- Whether every scalar of the type can be written as a value without loss of range. Unsigned
64-bit numbers can not, since values hold signed ones. -/
def ScalarType.isStorable : ScalarType → Bool
  | int .uint64 | int .word => false
  | option t => t.isStorable
  | _ => true

/-- What a value has to be for a conversion to take it: numbers of every width ask first for a
64-bit one. -/
inductive ConversionTarget where
  | integer
  | real
  | bool
  | text
  | bytes
  deriving DecidableEq, Repr

/-- The name of a conversion's target in messages. -/
def ConversionTarget.name : ConversionTarget → String
  | integer => "i64"
  | real => "f64"
  | bool => "bool"
  | text => "String"
  | bytes => "Vec<u8>"

end SqlCompose
