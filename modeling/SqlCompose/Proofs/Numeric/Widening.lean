import Mathlib.Tactic.Ring
import SqlCompose.Numeric.Binary

/-!
# Singles as doubles and back

A single is a double of the same value. Every magnitude is held by a format in one way only, and
rounding a magnitude that the format holds gives this way, however the magnitude is written as
`m · 2 ^ q`. A finite single therefore comes back from its double bit by bit, and so does an
infinity. A not-a-number becomes quiet when it is widened, and what is narrowed from there widens to
the same double once more. What a double was narrowed to is such a single, and comes back whole.

## Main definitions

* `BinaryFormat.code`, `BinaryFormat.Holds`: the bits of a magnitude, and the way a format holds it.
* `BinaryFormat.SameMagnitude`: two ways to write one magnitude.

## Main results

* `BinaryFormat.round_eq_code`: rounding a magnitude that the format holds.
* `Single.toDouble_toSingle_toDouble`: a double that was widened is narrowed without loss.
* `Double.toSingle_toDouble_toSingle`: a single that was narrowed is widened without loss.
-/

namespace SqlCompose

theorem pow2_add (a b : Nat) : pow2 (a + b) = pow2 a * pow2 b := Nat.pow_add 2 a b

theorem log2_mul_pow2 {m : Nat} (hm : m ≠ 0) (k : Nat) : (m * pow2 k).log2 = m.log2 + k := by
  have hne : m * pow2 k ≠ 0 := Nat.mul_ne_zero hm (Nat.ne_of_gt (pow2_pos k))
  refine (Nat.log2_eq_iff hne).mpr ⟨?_, ?_⟩
  · calc 2 ^ (m.log2 + k) = 2 ^ m.log2 * pow2 k := pow2_add m.log2 k
      _ ≤ m * pow2 k := Nat.mul_le_mul_right _ (Nat.log2_self_le hm)
  · calc m * pow2 k < 2 ^ (m.log2 + 1) * pow2 k :=
          Nat.mul_lt_mul_of_pos_right Nat.lt_log2_self (pow2_pos k)
      _ = 2 ^ (m.log2 + k + 1) := by rw [Nat.add_right_comm]; exact (pow2_add _ k).symm

namespace BinaryFormat

/-- The bits, without a sign, of the magnitude `m · 2 ^ q`, if the format holds it this way. A
leading bit of the significand carries into the exponent field. -/
def code (F : BinaryFormat) (m : Nat) (q : Int) : Nat :=
  (q - F.minExponent).toNat * pow2 F.fractionBits + m

/-- The format holds a magnitude as `m · 2 ^ q`: the significand fits, has its leading bit unless
the exponent is the least, and the magnitude is not past the greatest. -/
structure Holds (F : BinaryFormat) (m : Nat) (q : Int) : Prop where
  lt_pow2 : m < pow2 (F.fractionBits + 1)
  minExponent_le : F.minExponent ≤ q
  least_or_leading : q = F.minExponent ∨ pow2 F.fractionBits ≤ m
  code_lt : F.code m q < F.infinity

/-- Two ways to write one magnitude. -/
def SameMagnitude (m : Nat) (q : Int) (m' : Nat) (q' : Int) : Prop :=
  m * pow2 (q - q').toNat = m' * pow2 (q' - q).toNat

theorem SameMagnitude.symm {m m' : Nat} {q q' : Int} (h : SameMagnitude m q m' q') :
    SameMagnitude m' q' m q := Eq.symm h

/-- No place is lost that is zero. -/
theorem dropPlaces_mul (m s : Nat) : dropPlaces (m * pow2 s) s = m := by
  have hpos := pow2_pos s
  rw [dropPlaces]
  split
  · next h => rw [h]; exact Nat.mul_one m
  · next h =>
    have hhalf : 0 < pow2 s / 2 := by
      obtain ⟨k, rfl⟩ := Nat.exists_eq_succ_of_ne_zero h
      rw [pow2_succ]
      have := pow2_pos k
      omega
    rw [Nat.mul_mod_left, Nat.mul_div_cancel m hpos, if_neg (Nat.not_lt_zero _),
      if_neg (Nat.ne_of_lt hhalf)]

/-- Rounding a magnitude that the format holds gives its bits. -/
theorem round_eq_code {F : BinaryFormat} {m m' : Nat} {q q' : Int} (h : F.Holds m q)
    (hsame : SameMagnitude m' q' m q) : F.round m' q' = F.code m q := by
  by_cases hm' : m' = 0
  · have hm : m = 0 := by
      have hzero : m * pow2 (q - q').toNat = 0 := by rw [← hsame, hm', Nat.zero_mul]
      exact (Nat.mul_eq_zero.mp hzero).resolve_right (Nat.ne_of_gt (pow2_pos _))
    have hq : q = F.minExponent := h.least_or_leading.resolve_right fun hlead =>
      absurd (pow2_pos F.fractionBits) (Nat.not_lt.mpr (hm ▸ hlead))
    rw [round, if_pos hm', code, hm, hq, Int.sub_self]
    simp
  · have hm : m ≠ 0 := by
      rintro rfl
      rw [SameMagnitude, Nat.zero_mul] at hsame
      exact hm' ((Nat.mul_eq_zero.mp hsame).resolve_right (Nat.ne_of_gt (pow2_pos _)))
    have hlog : (m'.log2 : Int) + q' = m.log2 + q := by
      have hlogs := congrArg Nat.log2 hsame
      rw [log2_mul_pow2 hm', log2_mul_pow2 hm] at hlogs
      omega
    have hle : m.log2 ≤ F.fractionBits := Nat.le_of_lt_succ ((Nat.log2_lt hm).mpr h.lt_pow2)
    have hplace : max (m'.log2 + q' - F.fractionBits) F.minExponent = q := by
      rw [hlog]
      have hmin := h.minExponent_le
      obtain hq | hlead := h.least_or_leading
      · omega
      · have hge : F.fractionBits ≤ m.log2 := (Nat.le_log2 hm).mpr hlead
        omega
    rw [round, if_neg hm']
    simp only [hplace]
    rw [hsame, dropPlaces_mul]
    exact Nat.min_eq_left (Nat.le_of_lt h.code_lt)

/-! ### Reading and writing bits -/

/-- The bits with the given sign, exponent field and fraction field. -/
def bits (F : BinaryFormat) (negative : Bool) (exponent fraction : Nat) : Nat :=
  negative.toNat * F.signBit + exponent * pow2 F.fractionBits + fraction

variable {F : BinaryFormat}

theorem signBit_eq (F : BinaryFormat) :
    F.signBit = pow2 F.fractionBits * pow2 F.exponentBits := by
  rw [signBit, pow2_add, Nat.mul_comm]

/-- Bits are read by their three fields. -/
theorem read_bits {negative : Bool} {exponent fraction : Nat}
    (he : exponent < pow2 F.exponentBits) (hf : fraction < pow2 F.fractionBits) :
    F.read (F.bits negative exponent fraction) =
      if exponent = pow2 F.exponentBits - 1 then
        if fraction = 0 then .infinite negative else .nan negative fraction
      else if exponent = 0 then .finite negative fraction F.minExponent
      else .finite negative (pow2 F.fractionBits + fraction)
        (F.minExponent + (exponent - 1)) := by
  have hbits : F.bits negative exponent fraction =
      fraction + pow2 F.fractionBits * (exponent + pow2 F.exponentBits * negative.toNat) := by
    rw [bits, signBit_eq]
    ring
  have hfraction : F.bits negative exponent fraction % pow2 F.fractionBits = fraction := by
    rw [hbits, Nat.add_mul_mod_self_left, Nat.mod_eq_of_lt hf]
  have hupper : F.bits negative exponent fraction / pow2 F.fractionBits =
      exponent + pow2 F.exponentBits * negative.toNat := by
    rw [hbits, Nat.add_mul_div_left _ _ (pow2_pos _), Nat.div_eq_of_lt hf, Nat.zero_add]
  have hexponent : F.bits negative exponent fraction / pow2 F.fractionBits %
      pow2 F.exponentBits = exponent := by
    rw [hupper, Nat.add_mul_mod_self_left, Nat.mod_eq_of_lt he]
  have hnegative : decide (F.bits negative exponent fraction / F.signBit % 2 = 1) = negative := by
    rw [signBit_eq, ← Nat.div_div_eq_div_mul, hupper, Nat.add_mul_div_left _ _ (pow2_pos _),
      Nat.div_eq_of_lt he, Nat.zero_add]
    cases negative <;> rfl
  simp only [read, hfraction, hexponent, hnegative]

/-- Every bit pattern has three fields. -/
theorem exists_bits {n : Nat} (h : n < 2 * F.signBit) : ∃ negative exponent fraction,
    exponent < pow2 F.exponentBits ∧ fraction < pow2 F.fractionBits ∧
      n = F.bits negative exponent fraction := by
  refine ⟨decide (n / F.signBit = 1), n / pow2 F.fractionBits % pow2 F.exponentBits,
    n % pow2 F.fractionBits, Nat.mod_lt _ (pow2_pos _), Nat.mod_lt _ (pow2_pos _), ?_⟩
  have hsign : (decide (n / F.signBit = 1)).toNat = n / F.signBit := by
    have hlt : n / F.signBit < 2 := Nat.div_lt_of_lt_mul (by rwa [Nat.mul_comm])
    obtain hsign | hsign := Nat.le_one_iff_eq_zero_or_eq_one.mp (Nat.le_of_lt_succ hlt) <;>
      rw [hsign] <;> rfl
  have hupper := Nat.div_add_mod (n / pow2 F.fractionBits) (pow2 F.exponentBits)
  have hlower := Nat.div_add_mod n (pow2 F.fractionBits)
  rw [Nat.div_div_eq_div_mul, ← signBit_eq] at hupper
  rw [bits, hsign]
  calc n = pow2 F.fractionBits * (pow2 F.exponentBits * (n / F.signBit) +
        n / pow2 F.fractionBits % pow2 F.exponentBits) + n % pow2 F.fractionBits := by
        rw [hupper, hlower]
    _ = n / F.signBit * (pow2 F.fractionBits * pow2 F.exponentBits) +
        n / pow2 F.fractionBits % pow2 F.exponentBits * pow2 F.fractionBits +
        n % pow2 F.fractionBits := by ring
    _ = _ := by rw [← signBit_eq]

/-- What is read from the bits of a magnitude that the format holds. -/
theorem read_code {m : Nat} {q : Int} (h : F.Holds m q) (negative : Bool) :
    F.read (negative.toNat * F.signBit + F.code m q) = .finite negative m q := by
  have hmin := h.minExponent_le
  have hm := h.lt_pow2
  have hlt := h.code_lt
  rw [pow2_succ] at hm
  rw [code, infinity] at hlt
  by_cases hlead : pow2 F.fractionBits ≤ m
  · -- the leading bit of the significand is one more in the exponent field
    obtain ⟨f, rfl⟩ := Nat.exists_eq_add_of_le hlead
    have hcode : F.code (pow2 F.fractionBits + f) q =
        ((q - F.minExponent).toNat + 1) * pow2 F.fractionBits + f := by
      rw [code]
      ring
    have hexponent : (q - F.minExponent).toNat + 1 < pow2 F.exponentBits - 1 := by
      refine Nat.lt_of_mul_lt_mul_right (a := pow2 F.fractionBits) ?_
      rw [Nat.add_mul, Nat.one_mul]
      omega
    have hq : F.minExponent + (((q - F.minExponent).toNat + 1 : Nat) - 1) = q := by omega
    rw [hcode, ← Nat.add_assoc, ← bits, read_bits (by omega) (by omega), if_neg (by omega),
      if_neg (Nat.succ_ne_zero _), hq]
  · have hq := h.least_or_leading.resolve_right hlead
    have hexponent : 0 < pow2 F.exponentBits - 1 := by
      refine Nat.pos_of_ne_zero fun hzero => ?_
      rw [hzero, Nat.zero_mul] at hlt
      exact Nat.not_lt_zero _ hlt
    have hcode : F.code m q = 0 * pow2 F.fractionBits + m := by
      rw [code, hq, Int.sub_self]
      rfl
    rw [hcode, ← Nat.add_assoc, ← bits, read_bits (by omega) (by omega), if_neg (by omega),
      if_pos rfl, hq]

/-- A finite number that is read is held as it is read, and its bits are those of the magnitude. -/
theorem holds_of_read {n m : Nat} {q : Int} {negative : Bool} (hn : n < 2 * F.signBit)
    (h : F.read n = .finite negative m q) :
    F.Holds m q ∧ n = negative.toNat * F.signBit + F.code m q := by
  obtain ⟨sign, exponent, fraction, he, hf, rfl⟩ := exists_bits hn
  rw [read_bits he hf] at h
  split_ifs at h with hmax hzero hleast
  · cases h
    have hcode : F.code m F.minExponent = m := by
      rw [code, Int.sub_self]
      simp
    refine ⟨⟨?_, Int.le_refl _, .inl rfl, ?_⟩, ?_⟩
    · rw [pow2_succ]
      omega
    · rw [hcode, infinity]
      exact Nat.lt_of_lt_of_le hf (Nat.le_mul_of_pos_left _ (by omega))
    · rw [bits, hcode, hleast, Nat.zero_mul, Nat.add_zero]
  · cases h
    have hcode : F.code (pow2 F.fractionBits + fraction) (F.minExponent + (exponent - 1)) =
        exponent * pow2 F.fractionBits + fraction := by
      obtain ⟨e, rfl⟩ := Nat.exists_eq_succ_of_ne_zero hleast
      have he : (F.minExponent + ((e.succ : Nat) - 1) - F.minExponent).toNat = e := by omega
      rw [code, he, Nat.succ_mul]
      omega
    refine ⟨⟨?_, by omega, .inr (Nat.le_add_right _ _), ?_⟩, ?_⟩
    · rw [pow2_succ]
      omega
    · have hexponent : exponent + 1 ≤ pow2 F.exponentBits - 1 := by omega
      have hmul := Nat.mul_le_mul_right (pow2 F.fractionBits) hexponent
      rw [Nat.add_mul, Nat.one_mul] at hmul
      rw [hcode, infinity]
      omega
    · rw [bits, hcode, Nat.add_assoc]

theorem infinity_add (F : BinaryFormat) : F.infinity + pow2 F.fractionBits = F.signBit := by
  obtain ⟨e, he⟩ := Nat.exists_eq_succ_of_ne_zero (Nat.ne_of_gt (pow2_pos F.exponentBits))
  rw [infinity, signBit_eq, he, Nat.succ_sub_one, Nat.mul_succ, Nat.mul_comm]

/-- Bits of a sign and of what is not past infinity with a fraction. -/
theorem sign_add_lt {n : Nat} (h : n < F.infinity + pow2 F.fractionBits) (negative : Bool) :
    negative.toNat * F.signBit + n < 2 * F.signBit := by
  rw [infinity_add] at h
  cases negative
  · rw [Bool.toNat_false, Nat.zero_mul]
    omega
  · rw [Bool.toNat_true, Nat.one_mul]
    omega

/-- A not-a-number is read as it was written, with the fraction field that it was given. -/
theorem read_write_nan (hF : 0 < F.fractionBits) (payload : Nat → Nat) (negative : Bool)
    (fraction : Nat) : F.write payload (.nan negative fraction) < 2 * F.signBit ∧
      F.read (F.write payload (.nan negative fraction)) =
        .nan negative (payload fraction % F.quietBit + F.quietBit) := by
  have hquiet : F.quietBit * 2 = pow2 F.fractionBits := by
    rw [quietBit, ← pow2_succ, Nat.sub_add_cancel hF]
  have hpos : 0 < F.quietBit := pow2_pos _
  have hmod := Nat.mod_lt (payload fraction) hpos
  have hwrite : F.write payload (.nan negative fraction) = F.bits negative
      (pow2 F.exponentBits - 1) (payload fraction % F.quietBit + F.quietBit) := by
    rw [write, bits, infinity, Nat.add_assoc, Nat.add_assoc]
  refine ⟨?_, ?_⟩
  · rw [write, Nat.add_assoc, Nat.add_assoc]
    exact sign_add_lt (by omega) negative
  · rw [hwrite, read_bits (Nat.sub_lt (pow2_pos _) Nat.one_pos) (by omega), if_pos rfl,
      if_neg (by omega)]

/-! ### Singles in doubles -/

/-- What the one format holds the other holds too, with zeros at the end of the significand. -/
theorem exists_holds_binary64 {m : Nat} {q : Int} (h : binary32.Holds m q) :
    ∃ m' q', binary64.Holds m' q' ∧ SameMagnitude m q m' q' := by
  by_cases hm : m = 0
  · subst hm
    refine ⟨0, binary64.minExponent, ⟨pow2_pos _, Int.le_refl _, .inl rfl, by decide⟩, ?_⟩
    rw [SameMagnitude, Nat.zero_mul, Nat.zero_mul]
  · have hlog : m.log2 < 24 := (Nat.log2_lt hm).mpr h.lt_pow2
    have hmin : -149 ≤ q := h.minExponent_le
    have hmax : (q + 149).toNat * 8388608 + m < 2139095040 := h.code_lt
    have hm' : m * pow2 (52 - m.log2) ≠ 0 := Nat.mul_ne_zero hm (Nat.ne_of_gt (pow2_pos _))
    have hlog' : (m * pow2 (52 - m.log2)).log2 = 52 := by
      rw [log2_mul_pow2 hm]
      omega
    have hlt : m * pow2 (52 - m.log2) < pow2 53 := (Nat.log2_lt hm').mp (by omega)
    have hlead : pow2 52 ≤ m * pow2 (52 - m.log2) := (Nat.le_log2 hm').mp (by omega)
    refine ⟨m * pow2 (52 - m.log2), q - (52 - m.log2 : Nat), ⟨hlt, ?_, .inr hlead, ?_⟩, ?_⟩
    · have hmin' : binary64.minExponent = -1074 := by decide
      omega
    · have hcode : binary64.code (m * pow2 (52 - m.log2)) (q - (52 - m.log2 : Nat)) =
          (q - (52 - m.log2 : Nat) + 1074).toNat * 4503599627370496 +
            m * pow2 (52 - m.log2) := rfl
      have hinfinity : binary64.infinity = 9218868437227405312 := by decide
      have hlt : m * pow2 (52 - m.log2) < 9007199254740992 := hlt
      omega
    · have hdown : (q - (q - (52 - m.log2 : Nat))).toNat = 52 - m.log2 := by omega
      have hup : (q - (52 - m.log2 : Nat) - q).toNat = 0 := by omega
      rw [SameMagnitude, hdown, hup]
      exact (Nat.mul_one _).symm

end BinaryFormat

open BinaryFormat

theorem Double.reading_ofNat {n : Nat} (h : n < 2 * binary64.signBit) :
    Double.reading ⟨.ofNat n⟩ = binary64.read n :=
  congrArg binary64.read (UInt64.toNat_ofNat_of_lt h)

theorem Single.reading_ofNat {n : Nat} (h : n < 2 * binary32.signBit) :
    Single.reading ⟨.ofNat n⟩ = binary32.read n :=
  congrArg binary32.read (UInt32.toNat_ofNat_of_lt h)

/-- A finite single is narrowed back from the double that it is widened to. -/
theorem Single.toDouble_toSingle_of_finite {x : Single} {negative : Bool} {m : Nat} {q : Int}
    (hx : x.reading = .finite negative m q) : x.toDouble.toSingle = x := by
  obtain ⟨hheld, hbits⟩ := holds_of_read (F := binary32) x.bits.toNat_lt hx
  obtain ⟨m', q', hheld', hsame⟩ := exists_holds_binary64 hheld
  have hwide : x.toDouble =
      ⟨.ofNat (negative.toNat * binary64.signBit + binary64.code m' q')⟩ := by
    rw [toDouble, hx, write, round_eq_code hheld' hsame]
  have hreading : x.toDouble.reading = .finite negative m' q' := by
    have hlt := hheld'.code_lt
    rw [hwide, Double.reading_ofNat (sign_add_lt (by omega) negative), read_code hheld']
  rw [Double.toSingle, hreading, write, round_eq_code hheld hsame.symm, ← hbits]
  exact congrArg Single.mk UInt32.ofNat_toNat

/-- A single that is widened and narrowed is widened to the same double. -/
theorem Single.toDouble_toSingle_toDouble (x : Single) :
    x.toDouble.toSingle.toDouble = x.toDouble := by
  cases hx : x.reading with
  | finite negative m q =>
    rw [toDouble_toSingle_of_finite hx]
  | infinite negative =>
    have hwide : x.toDouble = ⟨.ofNat (binary64.write (· * pow2 29) (.infinite negative))⟩ := by
      rw [toDouble, hx]
    rw [hwide]
    cases negative <;> decide
  | nan negative fraction =>
    obtain ⟨hlt, hread⟩ :=
      read_write_nan (F := binary64) (by decide) (· * pow2 29) negative fraction
    have hwide : x.toDouble = ⟨.ofNat (binary64.write (· * pow2 29) (.nan negative fraction))⟩ := by
      rw [toDouble, hx]
    have hreading := (Double.reading_ofNat hlt).trans hread
    rw [← hwide] at hreading
    generalize hfield : fraction * pow2 29 % binary64.quietBit + binary64.quietBit = field
      at hreading
    obtain ⟨hlt', hread'⟩ := read_write_nan (F := binary32) (by decide) (· / pow2 29) negative field
    have hreading' := (Single.reading_ofNat hlt').trans hread'
    have hpayload : (field / pow2 29 % binary32.quietBit + binary32.quietBit) * pow2 29 %
        binary64.quietBit = fraction * pow2 29 % binary64.quietBit := by
      have hquiet : binary64.quietBit = 2251799813685248 := by decide
      have hquiet' : binary32.quietBit = 4194304 := by decide
      have hpow : pow2 29 = 536870912 := by decide
      rw [← hfield, hquiet, hquiet', hpow]
      omega
    have hnarrow : x.toDouble.toSingle.toDouble = ⟨.ofNat (binary64.write (· * pow2 29)
        (.nan negative (field / pow2 29 % binary32.quietBit + binary32.quietBit)))⟩ := by
      rw [toDouble, Double.toSingle, hreading, hreading']
    rw [hnarrow, hwide, write, write, hpayload]

theorem BinaryFormat.round_le_infinity (F : BinaryFormat) (m : Nat) (q : Int) :
    F.round m q ≤ F.infinity := by
  rw [round]
  split
  · exact Nat.zero_le _
  · exact Nat.min_le_right _ _

/-- Bits below infinity are read as a finite number. -/
theorem BinaryFormat.exists_finite_of_lt {F : BinaryFormat} {n : Nat} (h : n < F.infinity)
    (negative : Bool) :
    ∃ m q, F.read (negative.toNat * F.signBit + n) = .finite negative m q := by
  have hexponent : n / pow2 F.fractionBits < pow2 F.exponentBits - 1 :=
    Nat.div_lt_of_lt_mul (Nat.mul_comm _ _ ▸ h)
  have hbits : negative.toNat * F.signBit + n =
      F.bits negative (n / pow2 F.fractionBits) (n % pow2 F.fractionBits) := by
    rw [bits, Nat.add_assoc, Nat.mul_comm (n / _), Nat.div_add_mod]
  rw [hbits, read_bits (by omega) (Nat.mod_lt _ (pow2_pos _)), if_neg (Nat.ne_of_lt hexponent)]
  split
  · exact ⟨_, _, rfl⟩
  · exact ⟨_, _, rfl⟩

/-- What a double is narrowed to comes back when it is widened and narrowed once more. -/
theorem Double.toSingle_toDouble_toSingle (x : Double) :
    x.toSingle.toDouble.toSingle = x.toSingle := by
  have hinfinite (negative : Bool) :
      Double.toSingle (Single.toDouble
          ⟨.ofNat (negative.toNat * binary32.signBit + binary32.infinity)⟩) =
        ⟨.ofNat (negative.toNat * binary32.signBit + binary32.infinity)⟩ := by
    cases negative <;> decide
  cases hx : x.reading with
  | finite negative m q =>
    have hnarrow : x.toSingle =
        ⟨.ofNat (negative.toNat * binary32.signBit + binary32.round m q)⟩ := by
      rw [toSingle, hx, write]
    obtain hlt | heq := Nat.lt_or_eq_of_le (binary32.round_le_infinity m q)
    · obtain ⟨m', q', hread⟩ := exists_finite_of_lt hlt negative
      have hfinite : x.toSingle.reading = .finite negative m' q' := by
        rw [hnarrow, Single.reading_ofNat (sign_add_lt (by omega) negative), hread]
      exact Single.toDouble_toSingle_of_finite hfinite
    · rw [hnarrow, heq, hinfinite]
  | infinite negative =>
    have hnarrow : x.toSingle =
        ⟨.ofNat (negative.toNat * binary32.signBit + binary32.infinity)⟩ := by
      rw [toSingle, hx, write]
    rw [hnarrow, hinfinite]
  | nan negative fraction =>
    obtain ⟨hlt, hread⟩ :=
      read_write_nan (F := binary32) (by decide) (· / pow2 29) negative fraction
    have hnarrow : x.toSingle =
        ⟨.ofNat (binary32.write (· / pow2 29) (.nan negative fraction))⟩ := by
      rw [toSingle, hx]
    have hreading := (Single.reading_ofNat hlt).trans hread
    rw [← hnarrow] at hreading
    obtain ⟨hlt', hread'⟩ := read_write_nan (F := binary64) (by decide) (· * pow2 29) negative
      (fraction / pow2 29 % binary32.quietBit + binary32.quietBit)
    have hreading' := (Double.reading_ofNat hlt').trans hread'
    have hpayload : ((fraction / pow2 29 % binary32.quietBit + binary32.quietBit) * pow2 29 %
        binary64.quietBit + binary64.quietBit) / pow2 29 % binary32.quietBit =
          fraction / pow2 29 % binary32.quietBit := by
      have hquiet : binary64.quietBit = 2251799813685248 := by decide
      have hquiet' : binary32.quietBit = 4194304 := by decide
      have hpow : pow2 29 = 536870912 := by decide
      rw [hquiet, hquiet', hpow]
      omega
    rw [Double.toSingle, Single.toDouble, hreading, hreading', hnarrow, write, write, hpayload]

end SqlCompose
