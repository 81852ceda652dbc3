/-!
# UTF-8

Texts are written as UTF-8 bytes, and any bytes can be read as a text: what is not well formed is
read as replacement characters, one for each maximal run of bytes that starts some character and
is cut short, and one for each byte that starts none.

## Main definitions

* `Utf8.encode`: the bytes of a text.
* `Utf8.decode`: the text of any bytes.
-/

namespace SqlCompose.Utf8

/-- The UTF-8 bytes of a text. -/
def encode (text : String) : List UInt8 :=
  text.toList.flatMap String.utf8EncodeChar

/-- Where the reader stands inside a character: the code point bits read so far, the range that
the next byte has to lie in, and the number of bytes due after it. -/
structure Pending where
  bits : Nat
  low : UInt8
  high : UInt8
  more : Nat
  deriving DecidableEq, Repr

/-- What a byte between characters starts. -/
inductive Lead where
  | single (c : Char)
  | open (p : Pending)
  | invalid
  deriving DecidableEq, Repr

/-- The class of a byte between characters. The first byte narrows the range of the second, so
that overlong forms, surrogates and values past the last code point never begin. -/
def lead (b : UInt8) : Lead :=
  if b ≤ 0x7F then .single (Char.ofNat b.toNat)
  else if 0xC2 ≤ b ∧ b ≤ 0xDF then .open ⟨b.toNat - 0xC0, 0x80, 0xBF, 0⟩
  else if b = 0xE0 then .open ⟨0, 0xA0, 0xBF, 1⟩
  else if b = 0xED then .open ⟨0xD, 0x80, 0x9F, 1⟩
  else if 0xE1 ≤ b ∧ b ≤ 0xEF then .open ⟨b.toNat - 0xE0, 0x80, 0xBF, 1⟩
  else if b = 0xF0 then .open ⟨0, 0x90, 0xBF, 2⟩
  else if 0xF1 ≤ b ∧ b ≤ 0xF3 then .open ⟨b.toNat - 0xF0, 0x80, 0xBF, 2⟩
  else if b = 0xF4 then .open ⟨4, 0x80, 0x8F, 2⟩
  else .invalid

/-- The replacement character. -/
def replacement : Char := '\uFFFD'

/-- The characters of the bytes, read from inside the character `state`, or from between
characters when it is `none`. A byte that cannot continue the character ends it as a replacement
character and is then read as a first byte. -/
def decodeFrom : Option Pending → List UInt8 → List Char
  | none, [] => []
  | some _, [] => [replacement]
  | none, b :: bytes =>
    match lead b with
    | .single c => c :: decodeFrom none bytes
    | .open p => decodeFrom (some p) bytes
    | .invalid => replacement :: decodeFrom none bytes
  | some p, b :: bytes =>
    if p.low ≤ b ∧ b ≤ p.high then
      let bits := p.bits * 64 + (b.toNat - 0x80)
      match p.more with
      | 0 => Char.ofNat bits :: decodeFrom none bytes
      | more + 1 => decodeFrom (some ⟨bits, 0x80, 0xBF, more⟩) bytes
    else
      replacement ::
        match lead b with
        | .single c => c :: decodeFrom none bytes
        | .open q => decodeFrom (some q) bytes
        | .invalid => replacement :: decodeFrom none bytes

/-- The text of any bytes. -/
def decode (bytes : List UInt8) : String :=
  String.ofList (decodeFrom none bytes)

end SqlCompose.Utf8
