import SqlCompose.Value.Basic

/-!
# The order of values

Listings keyed by values show the keys in a fixed order: first by kind, then false before true,
integers by number, reals by their bits read as a natural number, texts and blobs by bytes.
-/

namespace SqlCompose

/-- The place of a kind in listings. -/
def Kind.rank : Kind → Nat
  | .null => 0
  | .bool => 1
  | .integer => 2
  | .real => 3
  | .text => 4
  | .blob => 5

namespace Value

/-- The lexicographic order of byte strings. -/
def bytesLE : List UInt8 → List UInt8 → Bool
  | [], _ => true
  | _ :: _, [] => false
  | a :: as, b :: bs => a < b || (a == b && bytesLE as bs)

/-- Whether the first value comes at or before the second. -/
def le : Value → Value → Bool
  | bool a, bool b => !a || b
  | integer a, integer b => a ≤ b
  | real a, real b => a.bits ≤ b.bits
  | text a, text b => bytesLE (Utf8.encode a) (Utf8.encode b)
  | blob a, blob b => bytesLE a b
  | a, b => a.kind.rank ≤ b.kind.rank

end Value

end SqlCompose
