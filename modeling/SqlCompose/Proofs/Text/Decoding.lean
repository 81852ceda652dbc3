import SqlCompose.Text.Utf8

/-!
# Texts read back from their bytes

The bytes of a text are read as the text, whatever characters it has. A character is written as one
byte that tells how many follow it, and each byte that follows brings six bits. The first of them
lies in a narrower range where a shorter form, a surrogate or a number past the last code point
would begin otherwise. The character itself is none of these, so that its bytes are in the ranges
and the reader stands between characters again behind them.

## Main results

* `Utf8.decodeFrom_encodeChar`: a character is read off the front of any bytes.
* `Utf8.decode_encode`: a text is read back from its bytes.
* `Utf8.encode_eq_toUTF8`: the bytes of a text are the ones that texts are made of.
-/

namespace SqlCompose.Utf8

/-! ### The first byte of a character -/

theorem lead_one {n : Nat} (h : n ≤ 0x7F) : lead (.ofNat n) = .single (Char.ofNat n) := by
  have hn : (UInt8.ofNat n).toNat = n := UInt8.toNat_ofNat_of_lt' (Nat.lt_of_le_of_lt h (by decide))
  have hle : UInt8.ofNat n ≤ 0x7F := by
    rw [UInt8.le_iff_toNat_le, hn]
    exact h
  rw [lead, if_pos hle, hn]

theorem lead_two : ∀ n < 0x20, 2 ≤ n → lead (.ofNat (n + 0xC0)) = .open ⟨n, 0x80, 0xBF, 0⟩ := by
  decide

theorem lead_three : ∀ n < 0x10, lead (.ofNat (n + 0xE0)) =
    .open ⟨n, if n = 0 then 0xA0 else 0x80, if n = 0xD then 0x9F else 0xBF, 1⟩ := by
  decide

theorem lead_four : ∀ n < 5, lead (.ofNat (n + 0xF0)) =
    .open ⟨n, if n = 0 then 0x90 else 0x80, if n = 4 then 0x8F else 0xBF, 2⟩ := by
  decide

/-! ### The bytes that follow -/

/-- Six bits whose byte lies in a range. -/
structure Fits (low high : UInt8) (k : Nat) : Prop where
  lt : k < 0x40
  low_le : low.toNat ≤ k + 0x80
  le_high : k + 0x80 ≤ high.toNat

namespace Fits

variable {bits k : Nat} {low high : UInt8}

theorem any (h : k < 0x40) : Fits 0x80 0xBF k :=
  ⟨h, Nat.le_add_left 0x80 k, Nat.add_le_add_right (Nat.le_of_lt_succ h) 0x80⟩

/-- A character of three bytes has no shorter form and is no surrogate. -/
theorem second_of_three {v : Nat} (hleast : 0x7FF < v) (hgreatest : v ≤ 0xFFFF)
    (hvalid : v < 0xD800 ∨ 0xDFFF < v) :
    Fits (if v / 4096 % 0x10 = 0 then 0xA0 else 0x80)
      (if v / 4096 % 0x10 = 0xD then 0x9F else 0xBF) (v / 64 % 0x40) := by
  refine ⟨by omega, ?_, ?_⟩
  · split <;> simp only [UInt8.reduceToNat] <;> omega
  · split <;> simp only [UInt8.reduceToNat] <;> omega

/-- A character of four bytes has no shorter form and is not past the last code point. -/
theorem second_of_four {v : Nat} (hleast : 0xFFFF < v) (hvalid : v < 0x110000) :
    Fits (if v / 262144 % 8 = 0 then 0x90 else 0x80)
      (if v / 262144 % 8 = 4 then 0x8F else 0xBF) (v / 4096 % 0x40) := by
  refine ⟨by omega, ?_, ?_⟩
  · split <;> simp only [UInt8.reduceToNat] <;> omega
  · split <;> simp only [UInt8.reduceToNat] <;> omega

theorem toNat_eq (h : Fits low high k) : (UInt8.ofNat (k + 0x80)).toNat = k + 0x80 :=
  UInt8.toNat_ofNat_of_lt' (Nat.lt_trans (Nat.add_lt_add_right h.lt 0x80) (by decide))

theorem mem (h : Fits low high k) :
    low ≤ UInt8.ofNat (k + 0x80) ∧ UInt8.ofNat (k + 0x80) ≤ high := by
  rw [UInt8.le_iff_toNat_le, UInt8.le_iff_toNat_le, h.toNat_eq]
  exact ⟨h.low_le, h.le_high⟩

/-- The last byte of a character completes its bits. -/
theorem decodeFrom_last (h : Fits low high k) (bytes : List UInt8) :
    decodeFrom (some ⟨bits, low, high, 0⟩) (.ofNat (k + 0x80) :: bytes) =
      Char.ofNat (bits * 64 + k) :: decodeFrom none bytes := by
  rw [decodeFrom, if_pos h.mem, h.toNat_eq, Nat.add_sub_cancel]

/-- A byte inside a character brings six bits, and those behind it may be any that follow. -/
theorem decodeFrom_inside (h : Fits low high k) (more : Nat) (bytes : List UInt8) :
    decodeFrom (some ⟨bits, low, high, more + 1⟩) (.ofNat (k + 0x80) :: bytes) =
      decodeFrom (some ⟨bits * 64 + k, 0x80, 0xBF, more⟩) bytes := by
  rw [decodeFrom, if_pos h.mem, h.toNat_eq, Nat.add_sub_cancel]

end Fits

/-! ### Characters and texts -/

theorem decodeFrom_open {b : UInt8} {p : Pending} (h : lead b = .open p) (bytes : List UInt8) :
    decodeFrom none (b :: bytes) = decodeFrom (some p) bytes := by
  rw [decodeFrom, h]

/-- A character is read off the front of any bytes. -/
theorem decodeFrom_encodeChar (c : Char) (bytes : List UInt8) :
    decodeFrom none (String.utf8EncodeChar c ++ bytes) = c :: decodeFrom none bytes := by
  have hvalid : c.val.toNat < 0xD800 ∨ 0xDFFF < c.val.toNat ∧ c.val.toNat < 0x110000 := c.valid
  have hc : Char.ofNat c.val.toNat = c := Char.ofNat_toNat c
  have hlast (v : Nat) : Fits 0x80 0xBF (v % 0x40) := .any (Nat.mod_lt v (by decide))
  rw [String.utf8EncodeChar]
  generalize c.val.toNat = v at hvalid hc ⊢
  split
  · next hone =>
    rw [List.singleton_append, decodeFrom, lead_one hone]
    exact congrArg (· :: decodeFrom none bytes) hc
  split
  · next hone htwo =>
    have hlead := lead_two (v / 64 % 0x20) (by omega) (by omega)
    have hbits : v / 64 % 0x20 * 64 + v % 64 = v := by omega
    simp only [List.cons_append, List.nil_append]
    rw [decodeFrom_open hlead, (hlast v).decodeFrom_last, hbits, hc]
  split
  · next hone htwo hthree =>
    have hlead := lead_three (v / 4096 % 0x10) (by omega)
    have hsecond := Fits.second_of_three (Nat.lt_of_not_le htwo) hthree (by omega)
    have hbits : (v / 4096 % 0x10 * 64 + v / 64 % 64) * 64 + v % 64 = v := by omega
    simp only [List.cons_append, List.nil_append]
    rw [decodeFrom_open hlead, hsecond.decodeFrom_inside, (hlast v).decodeFrom_last, hbits, hc]
  · next hone htwo hthree =>
    have hlead := lead_four (v / 262144 % 8) (by omega)
    have hsecond := Fits.second_of_four (Nat.lt_of_not_le hthree) (by omega)
    have hbits : ((v / 262144 % 8 * 64 + v / 4096 % 64) * 64 + v / 64 % 64) * 64 + v % 64 = v := by
      omega
    simp only [List.cons_append, List.nil_append]
    rw [decodeFrom_open hlead, hsecond.decodeFrom_inside, (hlast (v / 64)).decodeFrom_inside,
      (hlast v).decodeFrom_last, hbits, hc]

/-- A text is read back from its bytes. -/
theorem decode_encode (s : String) : decode (encode s) = s := by
  have hchars (cs : List Char) : decodeFrom none (cs.flatMap String.utf8EncodeChar) = cs := by
    induction cs with
    | nil => rfl
    | cons c cs ih => rw [List.flatMap_cons, decodeFrom_encodeChar, ih]
  rw [decode, encode, hchars, String.ofList_toList]

/-- The bytes of a text are the ones that it is made of. -/
theorem encode_eq_toUTF8 (s : String) : encode s = s.toUTF8.data.toList := by
  conv => rhs; rw [← String.ofList_toList (s := s), String.toUTF8, String.toByteArray_ofList]
  rw [List.utf8Encode, List.toList_data_toByteArray, encode]

end SqlCompose.Utf8
