import SqlCompose.Proofs.Expr.Reading

/-!
# What expressions mean

An expression has an integer or null for its value. Sums, differences and products are exact,
quotients are rounded towards zero and null where the divisor is zero, conditions are those of the
logic of three truth values, and what a test makes of the values of its operands is left open.

An operand that continues the chain on the left of it is read with the chain regrouped, which
keeps the value of sums and of conditions. A product goes in front of a quotient: `a * (b / c)`
is then read as `a * b / c`, which is the same only where `a` or `c` is null, zero or a unit.
Conditions have such values; `Expr.isWide` finds the expressions that can have others.

## Main definitions

* `Meaning`, `Expr.value`: what the columns, literals and tests stand for, and the value of an
  expression.
* `Expr.isSigned`, `Expr.isWide`: whether the value can be negative, or greater than a unit.
* `Expr.keepsQuotients`: whether no product is put in front of a quotient where that matters.

## Main results

* `Expr.value_bounds`: the values of an expression that is not wide, or not signed.
* `Expr.value_readBack`: an expression that keeps its quotients is read as one of the same value.
-/

namespace SqlCompose

/-! ### Arithmetic with null -/

/-- The exact sum. -/
def sum : Option Int → Option Int → Option Int
  | some x, some y => some (x + y)
  | _, _ => none

/-- The exact difference. -/
def difference : Option Int → Option Int → Option Int
  | some x, some y => some (x - y)
  | _, _ => none

/-- The exact product. -/
def product : Option Int → Option Int → Option Int
  | some x, some y => some (x * y)
  | _, _ => none

/-- The quotient rounded towards zero, and null for a zero divisor. -/
def quotient : Option Int → Option Int → Option Int
  | some x, some y => if y = 0 then none else some (x.tdiv y)
  | _, _ => none

/-- The truth value of a number, null being unknown. -/
def truth (a : Option Int) : Option Bool := a.map (· != 0)

/-- The number of a truth value. -/
def ofTruth (t : Option Bool) : Option Int := t.map fun b => if b then 1 else 0

/-- The conjunction of three-valued logic. -/
def kleeneAnd : Option Bool → Option Bool → Option Bool
  | some false, _ | _, some false => some false
  | some true, some true => some true
  | _, _ => none

/-- The disjunction of three-valued logic. -/
def kleeneOr : Option Bool → Option Bool → Option Bool
  | some true, _ | _, some true => some true
  | some false, some false => some false
  | _, _ => none

@[simp] theorem truth_ofTruth (t : Option Bool) : truth (ofTruth t) = t := by
  rcases t with _ | _ | _ <;> rfl

theorem kleeneAnd_assoc (s t u : Option Bool) :
    kleeneAnd (kleeneAnd s t) u = kleeneAnd s (kleeneAnd t u) := by
  rcases s with _ | _ | _ <;> rcases t with _ | _ | _ <;> rcases u with _ | _ | _ <;> rfl

theorem kleeneOr_assoc (s t u : Option Bool) :
    kleeneOr (kleeneOr s t) u = kleeneOr s (kleeneOr t u) := by
  rcases s with _ | _ | _ <;> rcases t with _ | _ | _ <;> rcases u with _ | _ | _ <;> rfl

/-- Whether a value is null, zero or a unit. -/
def Narrow (a : Option Int) : Prop := ∀ x ∈ a, x.natAbs ≤ 1

theorem sum_assoc (a b c : Option Int) : sum (sum a b) c = sum a (sum b c) := by
  rcases a with _ | a <;> rcases b with _ | b <;> rcases c with _ | c <;>
    simp [sum, Int.add_assoc]

theorem sum_difference (a b c : Option Int) :
    difference (sum a b) c = sum a (difference b c) := by
  rcases a with _ | a <;> rcases b with _ | b <;> rcases c with _ | c <;>
    simp [sum, difference, Int.add_sub_assoc]

theorem product_assoc (a b c : Option Int) :
    product (product a b) c = product a (product b c) := by
  rcases a with _ | a <;> rcases b with _ | b <;> rcases c with _ | c <;>
    simp [product, Int.mul_assoc]

/-- A product goes in front of a quotient where its factor or the divisor is narrow. -/
theorem product_quotient {a c : Option Int} (h : Narrow a ∨ Narrow c) (b : Option Int) :
    quotient (product a b) c = product a (quotient b c) := by
  rcases a with _ | x
  · rfl
  rcases b with _ | y
  · rfl
  rcases c with _ | z
  · rfl
  have hcases (w : Int) (hw : Narrow (some w)) : w = 0 ∨ w = 1 ∨ w = -1 := by
    have := hw w rfl
    omega
  by_cases hz : z = 0
  · simp [product, quotient, hz]
  · simp only [product, quotient, hz, ↓reduceIte, Option.some.injEq]
    rcases h with h | h
    · rcases hcases x h with rfl | rfl | rfl <;> simp [Int.neg_tdiv]
    · rcases hcases z h with rfl | rfl | rfl
      · exact absurd rfl hz
      · simp
      · rw [Int.tdiv_neg, Int.tdiv_neg, Int.tdiv_one, Int.tdiv_one, Int.mul_neg]

theorem mem_sum {a b : Option Int} {x : Int} (h : x ∈ sum a b) :
    ∃ y ∈ a, ∃ z ∈ b, x = y + z := by
  rcases a with _ | y <;> rcases b with _ | z <;> cases h
  exact ⟨y, rfl, z, rfl, rfl⟩

theorem mem_difference {a b : Option Int} {x : Int} (h : x ∈ difference a b) :
    ∃ y ∈ a, ∃ z ∈ b, x = y - z := by
  rcases a with _ | y <;> rcases b with _ | z <;> cases h
  exact ⟨y, rfl, z, rfl, rfl⟩

theorem mem_product {a b : Option Int} {x : Int} (h : x ∈ product a b) :
    ∃ y ∈ a, ∃ z ∈ b, x = y * z := by
  rcases a with _ | y <;> rcases b with _ | z <;> cases h
  exact ⟨y, rfl, z, rfl, rfl⟩

theorem mem_quotient {a b : Option Int} {x : Int} (h : x ∈ quotient a b) :
    ∃ y ∈ a, ∃ z ∈ b, x = y.tdiv z := by
  rcases a with _ | y
  · cases h
  rcases b with _ | z
  · cases h
  rw [quotient] at h
  split at h
  · cases h
  · exact ⟨y, rfl, z, rfl, (Option.some.inj h).symm⟩

/-! ### Values of expressions -/

/-- What the columns and the literals of an expression stand for, and what its tests make of the
values of their operands. -/
structure Meaning where
  column : String → String → Option Int
  literal : Value → Option Int
  compare : Op → Option Int → Option Int → Option Int
  nullTest : Bool → Option Int → Option Int
  inList : Bool → Option Int → List (Option Int) → Option Int
  between : Bool → Option Int → Option Int → Option Int → Option Int

/-- The value that an operator gives. -/
def Op.value (ν : Meaning) : Op → Option Int → Option Int → Option Int
  | add => sum
  | subtract => difference
  | multiply => product
  | divide => quotient
  | and => fun a b => ofTruth (kleeneAnd (truth a) (truth b))
  | or => fun a b => ofTruth (kleeneOr (truth a) (truth b))
  | op => ν.compare op

namespace Expr

mutual

/-- The value of an expression. -/
def value (ν : Meaning) : Expr → Option Int
  | column c => ν.column c.table c.column
  | literal v => ν.literal v
  | not e => ofTruth ((truth (e.value ν)).map Bool.not)
  | binary left op right => op.value ν (left.value ν) (right.value ν)
  | nullTest e positive => ν.nullTest positive (e.value ν)
  | inList e candidates positive => ν.inList positive (e.value ν) (valueEach ν candidates)
  | between e low high positive =>
    ν.between positive (e.value ν) (low.value ν) (high.value ν)
  | parens e => e.value ν

/-- The value of each of the expressions. -/
def valueEach (ν : Meaning) : List Expr → List (Option Int)
  | [] => []
  | e :: es => e.value ν :: valueEach ν es

end

variable {ν : Meaning}

@[simp] theorem value_enclosed (group : Bool) (e : Expr) :
    (enclosed group e).value ν = e.value ν := by
  cases group <;> rfl

/-! ### Regrouped chains -/

/-- Whether each operator of a chain lets the value `a`, in front of it and the operator `op`, be
moved in front of its right operand. -/
def Regroups (ν : Meaning) (op : Op) (a : Option Int) : Expr → Prop
  | binary left op' right => op'.strength = op.strength →
    Regroups ν op a left ∧ ∀ b, op'.value ν (op.value ν a b) (right.value ν) =
      op.value ν a (op'.value ν b (right.value ν))
  | _ => True

/-- Regrouping keeps the value of a chain whose operators let it. -/
theorem value_graft {op : Op} {acc e : Expr} (h : Regroups ν op (acc.value ν) e) :
    (graft acc op e).value ν = op.value ν (acc.value ν) (e.value ν) := by
  fun_induction graft acc op e with
  | case1 left op' right hs ih =>
    obtain ⟨hleft, hlaw⟩ := h hs
    rw [value, ih hleft, hlaw, value]
  | case2 left op' right hs => rfl
  | case3 e he => rfl

/-- An operator whose law holds in every place regroups every chain. -/
theorem regroups_of_law {op : Op} {a : Option Int}
    (h : ∀ op' : Op, op'.strength = op.strength → ∀ b c,
      op'.value ν (op.value ν a b) c = op.value ν a (op'.value ν b c)) :
    (e : Expr) → Regroups ν op a e
  | binary left op' _ => fun hs => ⟨regroups_of_law h left, fun b => h op' hs b _⟩
  | column _ | literal _ | not _ | nullTest _ _ | inList _ _ _ | between _ _ _ _ | parens _ =>
    trivial

/-- Conditions and sums are regrouped everywhere. -/
theorem regroups_of_ne_multiply {op : Op} (hassoc : op.isAssociative = true)
    (hop : op ≠ .multiply) (a : Option Int) (e : Expr) : Regroups ν op a e := by
  refine regroups_of_law (fun op' hs b c => ?_) e
  cases op with
  | and =>
    obtain rfl : op' = .and := by cases op' <;> first | rfl | exact absurd hs (by decide)
    simp only [Op.value, truth_ofTruth, kleeneAnd_assoc]
  | or =>
    obtain rfl : op' = .or := by cases op' <;> first | rfl | exact absurd hs (by decide)
    simp only [Op.value, truth_ofTruth, kleeneOr_assoc]
  | add =>
    obtain rfl | rfl : op' = .add ∨ op' = .subtract := by
      cases op' <;> first | exact Or.inl rfl | exact Or.inr rfl | exact absurd hs (by decide)
    · exact sum_assoc a b c
    · exact sum_difference a b c
  | multiply => exact absurd rfl hop
  | _ => cases hassoc

theorem multiply_or_divide {op : Op} (h : op.strength = Op.multiply.strength) :
    op = .multiply ∨ op = .divide := by
  cases op <;> first | exact Or.inl rfl | exact Or.inr rfl | exact absurd h (by decide)

/-- Products with a narrow factor are regrouped everywhere. -/
theorem regroups_of_narrow {a : Option Int} (h : Narrow a) (e : Expr) :
    Regroups ν .multiply a e := by
  refine regroups_of_law (fun op' hs b c => ?_) e
  rcases multiply_or_divide hs with rfl | rfl
  · exact product_assoc a b c
  · exact product_quotient (Or.inl h) b

/-- Grafting leaves the operators of both chains in place. -/
theorem regroups_graft {op op' : Op} {a : Option Int} {acc e : Expr}
    (hacc : Regroups ν op a acc) (he : Regroups ν op a e)
    (hop : op'.strength = op.strength → ∀ b c,
      op'.value ν (op.value ν a b) c = op.value ν a (op'.value ν b c)) :
    Regroups ν op a (acc.graft op' e) := by
  fun_induction graft acc op' e with
  | case1 left op'' right hs ih => exact fun hs' => ⟨ih (he hs').1, (he hs').2⟩
  | case2 left op'' right hs => exact fun hs' => ⟨hacc, fun b => hop hs' b _⟩
  | case3 e hne => exact fun hs' => ⟨hacc, fun b => hop hs' b _⟩

/-! ### Bounds on values -/

/-- Whether the value can be negative. -/
def isSigned : Expr → Bool
  | parens e => e.isSigned
  | binary left op right =>
    match op with
    | .and | .or => false
    | .add | .multiply | .divide => left.isSigned || right.isSigned
    | _ => true
  | not _ => false
  | _ => true

/-- Whether the value can be greater than a unit. -/
def isWide : Expr → Bool
  | parens e => e.isWide
  | binary left op right =>
    match op with
    | .and | .or => false
    | .multiply => left.isWide || right.isWide
    | .divide => left.isWide
    | .subtract => left.isWide || right.isWide || left.isSigned || right.isSigned
    | _ => true
  | not _ => false
  | _ => true

theorem ofTruth_bounds (t : Option Bool) : ∀ x ∈ ofTruth t, x.natAbs ≤ 1 ∧ 0 ≤ x := by
  rcases t with _ | _ | _ <;> simp [ofTruth]

/-- The values of an expression that is not wide are units at most, and those of one that is not
signed are not negative. -/
theorem value_bounds (ν : Meaning) : (e : Expr) → ∀ x ∈ e.value ν,
    (e.isWide = false → x.natAbs ≤ 1) ∧ (e.isSigned = false → 0 ≤ x)
  | parens e => value_bounds ν e
  | not e => fun x hx => by
    have hb := ofTruth_bounds _ x hx
    exact ⟨fun _ => hb.1, fun _ => hb.2⟩
  | binary left op right => fun x hx => by
    have hleft := value_bounds ν left
    have hright := value_bounds ν right
    cases op with
    | and | or =>
      have hb := ofTruth_bounds _ x hx
      exact ⟨fun _ => hb.1, fun _ => hb.2⟩
    | add =>
      refine ⟨fun h => Bool.noConfusion h, fun h => ?_⟩
      obtain ⟨y, hy, z, hz, rfl⟩ := mem_sum hx
      rw [isSigned, Bool.or_eq_false_iff] at h
      exact Int.add_nonneg ((hleft y hy).2 h.1) ((hright z hz).2 h.2)
    | subtract =>
      refine ⟨fun h => ?_, fun h => Bool.noConfusion h⟩
      obtain ⟨y, hy, z, hz, rfl⟩ := mem_difference hx
      simp only [isWide, Bool.or_eq_false_iff] at h
      obtain ⟨⟨⟨hyw, hzw⟩, hys⟩, hzs⟩ := h
      have := (hleft y hy).1 hyw
      have := (hleft y hy).2 hys
      have := (hright z hz).1 hzw
      have := (hright z hz).2 hzs
      omega
    | multiply =>
      obtain ⟨y, hy, z, hz, rfl⟩ := mem_product hx
      constructor
      · intro h
        rw [isWide, Bool.or_eq_false_iff] at h
        rw [Int.natAbs_mul]
        exact Nat.mul_le_mul ((hleft y hy).1 h.1) ((hright z hz).1 h.2)
      · intro h
        rw [isSigned, Bool.or_eq_false_iff] at h
        exact Int.mul_nonneg ((hleft y hy).2 h.1) ((hright z hz).2 h.2)
    | divide =>
      obtain ⟨y, hy, z, hz, rfl⟩ := mem_quotient hx
      constructor
      · intro h
        rw [Int.natAbs_tdiv]
        exact Nat.le_trans (Nat.div_le_self _ _) ((hleft y hy).1 h)
      · intro h
        rw [isSigned, Bool.or_eq_false_iff] at h
        exact Int.tdiv_nonneg ((hleft y hy).2 h.1) ((hright z hz).2 h.2)
    | _ => exact ⟨fun h => Bool.noConfusion h, fun h => Bool.noConfusion h⟩
  | column _ | literal _ | nullTest _ _ | inList _ _ _ | between _ _ _ _ => fun _ _ =>
    ⟨fun h => Bool.noConfusion h, fun h => Bool.noConfusion h⟩

theorem narrow_of_isWide {e : Expr} (h : e.isWide = false) : Narrow (e.value ν) :=
  fun x hx => (value_bounds ν e x hx).1 h

/-! ### Quotients in the way of a product -/

/-- Whether a quotient with a wide divisor is in the chain of products that the expression is. -/
def dividesWide : Expr → Bool
  | binary left op right =>
    op.strength == Op.multiply.strength &&
      (left.dividesWide || (op == .divide && right.isWide) ||
        (continues op right && right.dividesWide))
  | _ => false

mutual

/-- Whether no product with a wide factor is put in front of a quotient with a wide divisor. -/
def keepsQuotients : Expr → Bool
  | column _ | literal _ => true
  | not e | nullTest e _ | parens e => e.keepsQuotients
  | binary left op right =>
    !(op == .multiply && continues op right && left.isWide && right.dividesWide) &&
      left.keepsQuotients && right.keepsQuotients
  | inList e candidates _ => e.keepsQuotients && allKeepQuotients candidates
  | between e low high _ => e.keepsQuotients && low.keepsQuotients && high.keepsQuotients

/-- Whether all of the expressions keep their quotients. -/
def allKeepQuotients : List Expr → Bool
  | [] => true
  | e :: es => e.keepsQuotients && allKeepQuotients es

end

theorem regroups_of_strength_ne {op : Op} {e : Expr} (h : e.strength ≠ some op.strength)
    (a : Option Int) : Regroups ν op a e := by
  cases e with
  | binary left op' right => exact fun hs => absurd (congrArg some hs) h
  | _ => trivial

theorem regroups_enclosed {op : Op} {a : Option Int} {e : Expr} (h : Regroups ν op a e)
    (group : Bool) : Regroups ν op a (enclosed group e) := by
  cases group with
  | false => exact h
  | true => trivial

mutual

/-- An expression that keeps its quotients is read as one of the same value. -/
theorem value_readBack (ν : Meaning) : (e : Expr) → e.keepsQuotients = true →
    e.readBack.value ν = e.value ν
  | column _, _ => rfl
  | literal _, _ => rfl
  | not e, h => by
    rw [readBack, value, value_enclosed, value_readBack ν e h, value]
  | binary left op right, h => by
    simp only [keepsQuotients, Bool.and_eq_true, Bool.not_eq_true'] at h
    obtain ⟨⟨hop, hl⟩, hr⟩ := h
    have hleft := value_readBack ν left hl
    have hright := value_readBack ν right hr
    rw [readBack]
    split
    · next hcont =>
      have hgroups : Regroups ν op (left.value ν) right.readBack := by
        obtain ⟨hassoc, -⟩ := exists_of_continues hcont
        by_cases hmul : op = .multiply
        · subst hmul
          rw [hcont] at hop
          cases hw : left.isWide with
          | false => exact regroups_of_narrow (narrow_of_isWide hw) _
          | true =>
            rw [hw] at hop
            exact regroups_readBack ν right hr hop _
        · exact regroups_of_ne_multiply hassoc hmul _ _
      rw [value_graft (by rwa [value_enclosed, hleft]), value_enclosed, hleft, hright, value]
    · rw [value, value_enclosed, value_enclosed, hleft, hright, value]
  | nullTest e positive, h => by
    rw [readBack, value, value_enclosed, value_readBack ν e h, value]
  | inList e candidates positive, h => by
    rw [keepsQuotients, Bool.and_eq_true] at h
    rw [readBack, value, value_enclosed, value_readBack ν e h.1,
      valueEach_readBackEach ν candidates h.2, value]
  | between e low high positive, h => by
    simp only [keepsQuotients, Bool.and_eq_true] at h
    rw [readBack, value, value_enclosed, value_enclosed, value_enclosed,
      value_readBack ν e h.1.1, value_readBack ν low h.1.2, value_readBack ν high h.2, value]
  | parens e, h => by
    rw [readBack, value, value_readBack ν e h, value]

/-- A product can be moved in front of a chain without a wide divisor. -/
theorem regroups_readBack (ν : Meaning) : (e : Expr) → e.keepsQuotients = true →
    e.dividesWide = false → ∀ a, Regroups ν .multiply a e.readBack
  | binary left op right, hk, hd => fun a => by
    by_cases hs : op.strength = Op.multiply.strength
    · simp only [keepsQuotients, Bool.and_eq_true] at hk
      simp only [dividesWide, hs, BEq.rfl, Bool.true_and, Bool.or_eq_false_iff] at hd
      obtain ⟨⟨-, hl⟩, hr⟩ := hk
      obtain ⟨⟨hdl, hdr⟩, hdc⟩ := hd
      have hleft := regroups_enclosed (regroups_readBack ν left hl hdl a)
        (left.groupedUnder op .left)
      rw [readBack]
      rcases multiply_or_divide hs with rfl | rfl
      · split
        · next hcont =>
          rw [hcont, Bool.true_and] at hdc
          exact regroups_graft hleft (regroups_readBack ν right hr hdc a) fun _ b c =>
            product_assoc a b c
        · exact fun _ => ⟨hleft, fun b => product_assoc a b _⟩
      · refine fun _ => ⟨hleft, fun b => product_quotient (Or.inr ?_) b⟩
        rw [value_enclosed, value_readBack ν right hr]
        exact narrow_of_isWide hdr
    · exact regroups_of_strength_ne (by rw [strength_readBack]; simpa [strength] using hs) a
  | column _, _, _ | literal _, _, _ | not _, _, _ | nullTest _ _, _, _ | inList _ _ _, _, _
  | between _ _ _ _, _, _ | parens _, _, _ => fun _ => trivial

theorem valueEach_readBackEach (ν : Meaning) : (es : List Expr) → allKeepQuotients es = true →
    valueEach ν (readBackEach es) = valueEach ν es
  | [], _ => rfl
  | e :: es, h => by
    rw [allKeepQuotients, Bool.and_eq_true] at h
    rw [readBackEach, valueEach, value_readBack ν e h.1, valueEach_readBackEach ν es h.2,
      valueEach]

end

end Expr

end SqlCompose
