/-!
# Ranges of code points

A class of characters is given by the ranges of their code points. Main statement: a character is
covered exactly when its code point lies in one of the ranges (`covers_iff`).
-/

namespace SqlCompose

/-- Ranges of code points, each by its first and its last one, in ascending order. -/
abbrev CodeRanges := List (Nat × Nat)

namespace CodeRanges

/-- Whether the code point of a character lies in one of the ranges. -/
def covers (ranges : CodeRanges) (c : Char) : Bool :=
  ranges.any fun (first, last) => first ≤ c.toNat && c.toNat ≤ last

theorem covers_iff {ranges : CodeRanges} {c : Char} :
    ranges.covers c = true ↔ ∃ range ∈ ranges, range.1 ≤ c.toNat ∧ c.toNat ≤ range.2 := by
  simp [covers]

/-- Nothing is covered below the first code point of every range. -/
theorem covers_eq_false {ranges : CodeRanges} {bound : Nat} {c : Char}
    (above : ranges.all (fun range => bound ≤ range.1) = true) (below : c.toNat < bound) :
    ranges.covers c = false := by
  rw [← Bool.not_eq_true, covers_iff]
  rintro ⟨range, member, first, -⟩
  have start := List.all_eq_true.mp above range member
  simp only [decide_eq_true_eq] at start
  omega

end CodeRanges

end SqlCompose
