import SqlCompose.Proofs.Expr.Meaning

/-!
# The values that expressions of one shape attain

The expressions of one shape differ in their leaves, in which comparison they make and in the
polarity of tests, none of which has a part in where groups are written. All tests are given one
meaning, `Meaning.probe`, under which a test has the value of its operands' sum or, by its
polarity, three times that value less one.

Among the expressions of a shape there is then one that is zero, and one that is one and leaves
alone what it is multiplied to, each of them both as it is built and as it is read. The bounds of
`Expr.value_bounds` are the best ones: a shape that is signed has the value minus one, and a shape
that is wide a value of magnitude two.

## Main definitions

* `Expr.shape`: what groups depend on.
* `Meaning.probe`: the meaning under which values are looked for.
* `Attains`, `Neutral`: the values that an expression of a shape and its reading have together.

## Main results

* `attains_zero_and_neutral`: every shape attains zero and one.
* `attains_neg_one`, `attains_two`: signed shapes and wide shapes attain more.
-/

namespace SqlCompose

/-! ### Shapes -/

/-- The operator, with all comparisons taken for one. -/
def Op.shape (op : Op) : Op := if op.isComparison then .eq else op

theorem Op.strength_shape (op : Op) : op.shape.strength = op.strength := by
  cases op <;> rfl

theorem Op.shape_beq_of_isAssociative {op : Op} (h : op.isAssociative = true) (op' : Op) :
    (op'.shape == op) = (op' == op) := by
  cases op <;> first | (cases op' <;> rfl) | cases h

namespace Expr

mutual

/-- The expression up to its leaves, the choice among comparisons and the polarity of tests. -/
def shape : Expr → Expr
  | column _ | literal _ => literal .null
  | not e => not e.shape
  | binary left op right => binary left.shape op.shape right.shape
  | nullTest e _ => nullTest e.shape true
  | inList e candidates _ => inList e.shape (shapeEach candidates) true
  | between e low high _ => between e.shape low.shape high.shape true
  | parens e => parens e.shape

/-- The shapes of the expressions. -/
def shapeEach : List Expr → List Expr
  | [] => []
  | e :: es => e.shape :: shapeEach es

end

theorem strength_shape (e : Expr) : e.shape.strength = e.strength := by
  cases e with
  | binary left op right => exact congrArg some op.strength_shape
  | _ => rfl

theorem continues_shape (op : Op) (e : Expr) : continues op e.shape = continues op e := by
  rw [continues, continues]
  cases hop : op.isAssociative with
  | false => rfl
  | true =>
    cases e with
    | binary left op' right => exact Op.shape_beq_of_isAssociative hop op'
    | _ => rfl

theorem isSigned_shape : (e : Expr) → e.shape.isSigned = e.isSigned
  | parens e => isSigned_shape e
  | binary left op right => by
    have hleft := isSigned_shape left
    have hright := isSigned_shape right
    cases op <;> simp [shape, Op.shape, Op.isComparison, Op.strength, Op.comparison, isSigned, *]
  | column _ | literal _ | not _ | nullTest _ _ | inList _ _ _ | between _ _ _ _ => rfl

theorem isWide_shape : (e : Expr) → e.shape.isWide = e.isWide
  | parens e => isWide_shape e
  | binary left op right => by
    have hleft := isWide_shape left
    have hright := isWide_shape right
    cases op <;> simp [shape, Op.shape, Op.isComparison, Op.strength, Op.comparison, isWide,
      isSigned_shape, *]
  | column _ | literal _ | not _ | nullTest _ _ | inList _ _ _ | between _ _ _ _ => rfl

/-- The shape of an operator is the operator itself wherever quotients are looked for. -/
theorem continues_op_shape (op : Op) (e : Expr) : continues op.shape e = continues op e := by
  cases op <;> rfl

theorem dividesWide_shape : (e : Expr) → e.shape.dividesWide = e.dividesWide
  | binary left op right => by
    have hop : (op.shape == .divide) = (op == .divide) := by cases op <;> rfl
    rw [shape, dividesWide, dividesWide, Op.strength_shape, dividesWide_shape left, hop,
      isWide_shape, continues_op_shape, continues_shape, dividesWide_shape right]
  | parens _ | column _ | literal _ | not _ | nullTest _ _ | inList _ _ _ | between _ _ _ _ => rfl

mutual

theorem keepsQuotients_shape : (e : Expr) → e.shape.keepsQuotients = e.keepsQuotients
  | column _ | literal _ => rfl
  | not e | nullTest e _ | parens e => keepsQuotients_shape e
  | binary left op right => by
    have hop : (op.shape == .multiply) = (op == .multiply) := by cases op <;> rfl
    rw [shape, keepsQuotients, keepsQuotients, hop, continues_op_shape, continues_shape,
      isWide_shape, dividesWide_shape, keepsQuotients_shape left, keepsQuotients_shape right]
  | inList e candidates _ => by
    rw [shape, keepsQuotients, keepsQuotients, keepsQuotients_shape e,
      allKeepQuotients_shapeEach candidates]
  | between e low high _ => by
    rw [shape, keepsQuotients, keepsQuotients, keepsQuotients_shape e, keepsQuotients_shape low,
      keepsQuotients_shape high]

theorem allKeepQuotients_shapeEach : (es : List Expr) →
    allKeepQuotients (shapeEach es) = allKeepQuotients es
  | [] => rfl
  | e :: es => by
    rw [shapeEach, allKeepQuotients, allKeepQuotients, keepsQuotients_shape e,
      allKeepQuotients_shapeEach es]

end

mutual

theorem hasEmptyIn_shape : (e : Expr) → e.shape.hasEmptyIn = e.hasEmptyIn
  | column _ | literal _ => rfl
  | not e | nullTest e _ | parens e => hasEmptyIn_shape e
  | binary left op right => by
    rw [shape, hasEmptyIn, hasEmptyIn, hasEmptyIn_shape left, hasEmptyIn_shape right]
  | inList e candidates _ => by
    have hempty : (shapeEach candidates).isEmpty = candidates.isEmpty := by
      cases candidates <;> rfl
    rw [shape, hasEmptyIn, hasEmptyIn, hempty, hasEmptyIn_shape e,
      anyEmptyIn_shapeEach candidates]
  | between e low high _ => by
    rw [shape, hasEmptyIn, hasEmptyIn, hasEmptyIn_shape e, hasEmptyIn_shape low,
      hasEmptyIn_shape high]

theorem anyEmptyIn_shapeEach : (es : List Expr) → anyEmptyIn (shapeEach es) = anyEmptyIn es
  | [] => rfl
  | e :: es => by
    rw [shapeEach, anyEmptyIn, anyEmptyIn, hasEmptyIn_shape e, anyEmptyIn_shapeEach es]

end

end Expr

/-! ### The probe -/

/-- The value that the probe gives a test whose operands come to `a`. -/
def probeTest (identity : Bool) (a : Option Int) : Option Int :=
  if identity then a else a.map fun x => 3 * x - 1

/-- The sum of a list of values. -/
def total : List (Option Int) → Option Int
  | [] => some 0
  | a :: as => sum a (total as)

/-- The meaning by which expressions are told from their readings. -/
def Meaning.probe : Meaning where
  column _ _ := none
  literal v := v.integer?.map Int64.toInt
  compare op a b := probeTest (op == .eq) (sum a b)
  nullTest positive a := probeTest positive a
  inList positive a as := probeTest positive (sum a (total as))
  between positive a low high := probeTest positive (sum a (sum low high))

@[simp] theorem sum_zero (a : Option Int) : sum a (some 0) = a := by
  cases a <;> simp [sum]

@[simp] theorem zero_sum (a : Option Int) : sum (some 0) a = a := by
  cases a <;> simp [sum]

@[simp] theorem product_one (a : Option Int) : product a (some 1) = a := by
  cases a <;> simp [product]

@[simp] theorem one_product (a : Option Int) : product (some 1) a = a := by
  cases a <;> simp [product]

@[simp] theorem difference_zero (a : Option Int) : difference a (some 0) = a := by
  cases a <;> simp [difference]

@[simp] theorem quotient_one (a : Option Int) : quotient a (some 1) = a := by
  cases a <;> simp [quotient]

/-- An expression of the shape has the one value, and its reading the other. -/
def Attains (e : Expr) (a b : Option Int) : Prop :=
  ∃ e' : Expr, e'.shape = e.shape ∧ e'.value .probe = a ∧ e'.readBack.value .probe = b

/-- Expressions of the shapes have the one total, and their readings the other. -/
def AttainsTotal (es : List Expr) (a b : Option Int) : Prop :=
  ∃ es', Expr.shapeEach es' = Expr.shapeEach es ∧ total (Expr.valueEach .probe es') = a ∧
    total (Expr.valueEach .probe (Expr.readBackEach es')) = b

/-- An expression of the shape has the value one, and its reading leaves alone what it is
multiplied to. -/
def Neutral (e : Expr) : Prop :=
  ∃ e' : Expr, e'.shape = e.shape ∧ e'.value .probe = some 1 ∧ e'.readBack.value .probe = some 1 ∧
    ∀ acc : Expr, (acc.graft .multiply e'.readBack).value .probe = acc.value .probe

open SqlCompose.Expr

section Attains

variable {e left right low high : Expr} {es : List Expr} {op : Op} {a b c d : Option Int}

theorem Neutral.attains (h : Neutral e) : Attains e (some 1) (some 1) := by
  obtain ⟨e', hs, hv, hr, -⟩ := h
  exact ⟨e', hs, hv, hr⟩

theorem attains_leaf (h : e.shape = literal .null) (n : Int64) :
    Attains e (some n.toInt) (some n.toInt) :=
  ⟨literal (.integer n), h.symm, rfl, rfl⟩

theorem Attains.parens (h : Attains e a b) : Attains (parens e) a b := by
  obtain ⟨e', hs, hv, hr⟩ := h
  exact ⟨.parens e', congrArg Expr.parens hs, hv, hr⟩

theorem Attains.not (h : Attains e a b) :
    Attains (not e) (ofTruth ((truth a).map Bool.not)) (ofTruth ((truth b).map Bool.not)) := by
  obtain ⟨e', hs, rfl, rfl⟩ := h
  exact ⟨.not e', congrArg Expr.not hs, rfl, by rw [readBack, value, value_enclosed]⟩

theorem Attains.nullTest (h : Attains e a b) (positive identity : Bool) :
    Attains (nullTest e positive) (probeTest identity a) (probeTest identity b) := by
  obtain ⟨e', hs, rfl, rfl⟩ := h
  exact ⟨.nullTest e' identity, by rw [shape, hs, shape], rfl,
    by rw [readBack, value, value_enclosed]; rfl⟩

theorem Attains.inList (h : Attains e a b) (hes : AttainsTotal es c d)
    (positive identity : Bool) : Attains (inList e es positive)
      (probeTest identity (sum a c)) (probeTest identity (sum b d)) := by
  obtain ⟨e', hs, rfl, rfl⟩ := h
  obtain ⟨es', hss, rfl, rfl⟩ := hes
  exact ⟨.inList e' es' identity, by rw [shape, hs, hss, shape], rfl,
    by rw [readBack, value, value_enclosed]; rfl⟩

theorem Attains.between {f g : Option Int} (h : Attains e a b) (hlow : Attains low c d)
    (hhigh : Attains high f g) (positive identity : Bool) : Attains (between e low high positive)
      (probeTest identity (sum a (sum c f))) (probeTest identity (sum b (sum d g))) := by
  obtain ⟨e', hs, rfl, rfl⟩ := h
  obtain ⟨low', hls, rfl, rfl⟩ := hlow
  obtain ⟨high', hhs, rfl, rfl⟩ := hhigh
  exact ⟨.between e' low' high' identity, by rw [shape, hs, hls, hhs, shape], rfl,
    by rw [readBack, value, value_enclosed, value_enclosed, value_enclosed]; rfl⟩

theorem Attains.total (h : Attains e a b) (hes : AttainsTotal es c d) :
    AttainsTotal (e :: es) (sum a c) (sum b d) := by
  obtain ⟨e', hs, rfl, rfl⟩ := h
  obtain ⟨es', hss, rfl, rfl⟩ := hes
  exact ⟨e' :: es', by rw [shapeEach, hs, hss, shapeEach], rfl, rfl⟩

/-- Whether an operand continues a chain is seen from its shape. -/
theorem continues_of_shape_eq {e' : Expr} (h : e'.shape = e.shape) :
    continues op e' = continues op e := by
  rw [← continues_shape op e', h, continues_shape]

theorem Attains.compare (hleft : Attains left a b) (hright : Attains right c d)
    (hop : op.isComparison = true) (identity : Bool) : Attains (binary left op right)
      (probeTest identity (sum a c)) (probeTest identity (sum b d)) := by
  obtain ⟨l, hl, rfl, rfl⟩ := hleft
  obtain ⟨r, hr, rfl, rfl⟩ := hright
  have hshape : op.shape = .eq := if_pos hop
  -- equality has the values of the sum, and every other comparison the others
  have hread (op' : Op) (hassoc : op'.isAssociative = false) :
      (binary l op' r).readBack.value .probe =
        op'.value .probe (l.readBack.value .probe) (r.readBack.value .probe) := by
    rw [readBack_binary hassoc, value, value_enclosed, value_enclosed]
  cases identity with
  | true => exact ⟨binary l .eq r, by rw [shape, hl, hr, shape, hshape]; rfl, rfl, hread .eq rfl⟩
  | false =>
    exact ⟨binary l .notEq r, by rw [shape, hl, hr, shape, hshape]; rfl, rfl, hread .notEq rfl⟩

/-- The values of a binary operation that compares nothing, unless it is a product whose regrouping
could matter. -/
theorem Attains.binary (hleft : Attains left a b) (hright : Attains right c d)
    (hop : (op == .multiply) = false ∨ Narrow b) :
    Attains (binary left op right) (op.value .probe a c) (op.value .probe b d) := by
  obtain ⟨l, hl, rfl, rfl⟩ := hleft
  obtain ⟨r, hr, rfl, rfl⟩ := hright
  refine ⟨.binary l op r, by rw [shape, hl, hr, shape], rfl, ?_⟩
  rw [readBack]
  split
  · next hcont =>
    rw [value_graft, value_enclosed]
    rw [value_enclosed]
    by_cases hmul : op = .multiply
    · subst hmul
      exact regroups_of_narrow (hop.resolve_left (by simp)) _
    · exact regroups_of_ne_multiply (exists_of_continues hcont).1 hmul _ _
  · rw [value, value_enclosed, value_enclosed]

end Attains

/-! ### Zero and one -/

/-- Grafting a graft grafts twice. -/
theorem graft_graft (acc e f : Expr) (op : Op) :
    acc.graft op (e.graft op f) = (acc.graft op e).graft op f := by
  fun_induction graft e op f with
  | case1 left op' right hs ih => rw [graft_binary hs, graft_binary hs, ih]
  | case2 left op' right hs => rw [graft_binary rfl, graft, if_neg hs]
  | case3 f hf =>
    rw [graft_binary rfl]
    cases f with
    | binary left op' right => exact (hf left op' right rfl).elim
    | _ => rfl

section Neutral

variable {e left right : Expr} {a b : Option Int}

/-- A group does not keep a neutral expression from being neutral. -/
theorem value_graft_enclosed {acc r : Expr} (hr : r.value .probe = some 1)
    (h : (acc.graft .multiply r).value .probe = acc.value .probe) (group : Bool) :
    (acc.graft .multiply (enclosed group r)).value .probe = acc.value .probe := by
  cases group with
  | false => exact h
  | true =>
    rw [enclosed, if_pos rfl, graft_of_strength_ne (by simp [strength]), value, value, hr]
    exact product_one _

private theorem strength_test_ne {s : Nat} (h : s < 6) : some s ≠ some Op.multiply.strength :=
  fun hs => Nat.ne_of_lt h (Option.some.inj hs)

theorem neutral_of_attains (h : Attains e (some 1) (some 1))
    (hs : e.strength ≠ some Op.multiply.strength) : Neutral e := by
  obtain ⟨e', hshape, hv, hr⟩ := h
  refine ⟨e', hshape, hv, hr, fun acc => ?_⟩
  have hstrength : e'.readBack.strength ≠ some Op.multiply.strength := by
    rwa [strength_readBack, ← strength_shape, hshape, strength_shape]
  rw [graft_of_strength_ne hstrength, value, hr]
  exact product_one _

theorem Neutral.product (hleft : Neutral left) (hright : Neutral right) :
    Neutral (binary left .multiply right) := by
  obtain ⟨l, hl, hlv, hlr, hlg⟩ := hleft
  obtain ⟨r, hr, hrv, hrr, hrg⟩ := hright
  refine ⟨binary l .multiply r, by rw [shape, hl, hr, shape], by rw [value, hlv, hrv]; rfl, ?_⟩
  rw [readBack]
  split
  · refine ⟨by rw [hrg, value_enclosed, hlr], fun acc => ?_⟩
    rw [graft_graft, hrg, value_graft_enclosed hlr (hlg acc)]
  · refine ⟨by rw [value, value_enclosed, value_enclosed, hlr, hrr]; rfl, fun acc => ?_⟩
    rw [graft_binary rfl, value, value_graft_enclosed hlr (hlg acc), value_enclosed, hrr]
    exact product_one _

theorem Neutral.quotient (hleft : Neutral left) (hright : Attains right (some 1) (some 1)) :
    Neutral (binary left .divide right) := by
  obtain ⟨l, hl, hlv, hlr, hlg⟩ := hleft
  obtain ⟨r, hr, hrv, hrr⟩ := hright
  refine ⟨binary l .divide r, by rw [shape, hl, hr, shape], by rw [value, hlv, hrv]; rfl, ?_⟩
  rw [readBack_binary rfl]
  refine ⟨by rw [value, value_enclosed, value_enclosed, hlr, hrr]; rfl, fun acc => ?_⟩
  have hs : Op.divide.strength = Op.multiply.strength := rfl
  rw [graft_binary hs, value, value_graft_enclosed hlr (hlg acc), value_enclosed, hrr]
  exact quotient_one _

/-- What is multiplied by a neutral expression is left alone. -/
theorem Attains.product_neutral (hleft : Attains left a b) (hright : Neutral right) :
    Attains (.binary left .multiply right) a b := by
  obtain ⟨l, hl, rfl, rfl⟩ := hleft
  obtain ⟨r, hr, hrv, hrr, hrg⟩ := hright
  refine ⟨.binary l .multiply r, by rw [shape, hl, hr, shape], ?_, ?_⟩
  · rw [value, hrv]
    exact product_one _
  · rw [readBack]
    split
    · rw [hrg, value_enclosed]
    · rw [value, value_enclosed, value_enclosed, hrr]
      exact product_one _

end Neutral

theorem narrow_one : Narrow (some 1) := fun x hx => by
  cases hx
  decide

theorem narrow_zero : Narrow (some 0) := fun x hx => by
  cases hx
  decide

mutual

/-- Every expression can be zero, and can be one without an effect on what it is multiplied to. -/
theorem attains_zero_and_neutral : (e : Expr) → Attains e (some 0) (some 0) ∧ Neutral e
  | .column c => ⟨attains_leaf rfl 0, neutral_of_attains (attains_leaf rfl 1) nofun⟩
  | .literal v => ⟨attains_leaf rfl 0, neutral_of_attains (attains_leaf rfl 1) nofun⟩
  | .parens e => by
    obtain ⟨hzero, hone⟩ := attains_zero_and_neutral e
    exact ⟨hzero.parens, neutral_of_attains hone.attains.parens nofun⟩
  | .not e => by
    obtain ⟨hzero, hone⟩ := attains_zero_and_neutral e
    exact ⟨hone.attains.not, neutral_of_attains hzero.not (strength_test_ne (by decide))⟩
  | .nullTest e p => by
    obtain ⟨hzero, hone⟩ := attains_zero_and_neutral e
    exact ⟨hzero.nullTest p true,
      neutral_of_attains (hone.attains.nullTest p true) (strength_test_ne (by decide))⟩
  | .inList e es p => by
    obtain ⟨hzero, hone⟩ := attains_zero_and_neutral e
    have hes := attainsTotal_zero es
    exact ⟨hzero.inList hes p true,
      neutral_of_attains (hone.attains.inList hes p true) (strength_test_ne (by decide))⟩
  | .between e low high p => by
    obtain ⟨hzero, hone⟩ := attains_zero_and_neutral e
    have hlow := (attains_zero_and_neutral low).1
    have hhigh := (attains_zero_and_neutral high).1
    exact ⟨hzero.between hlow hhigh p true,
      neutral_of_attains (hone.attains.between hlow hhigh p true) (strength_test_ne (by decide))⟩
  | .binary left op right => by
    obtain ⟨hlzero, hlone⟩ := attains_zero_and_neutral left
    obtain ⟨hrzero, hrone⟩ := attains_zero_and_neutral right
    cases op with
    | multiply =>
      exact ⟨hlzero.binary hrzero (Or.inr narrow_zero), hlone.product hrone⟩
    | divide => exact ⟨hlzero.binary hrone.attains (Or.inl rfl), hlone.quotient hrone.attains⟩
    | add =>
      exact ⟨hlzero.binary hrzero (Or.inl rfl),
        neutral_of_attains (hlone.attains.binary hrzero (Or.inl rfl))
          (strength_test_ne (by decide))⟩
    | subtract =>
      exact ⟨hlzero.binary hrzero (Or.inl rfl),
        neutral_of_attains (hlone.attains.binary hrzero (Or.inl rfl))
          (strength_test_ne (by decide))⟩
    | and | or =>
      exact ⟨hlzero.binary hrzero (Or.inl rfl),
        neutral_of_attains (hlone.attains.binary hrone.attains (Or.inl rfl))
          (strength_test_ne (by decide))⟩
    | eq | notEq | gt | gte | lt | lte | like | notLike =>
      exact ⟨hlzero.compare hrzero rfl true,
        neutral_of_attains (hlone.attains.compare hrzero rfl true)
          (strength_test_ne (by decide))⟩

theorem attainsTotal_zero : (es : List Expr) → AttainsTotal es (some 0) (some 0)
  | [] => ⟨[], rfl, rfl, rfl⟩
  | e :: es => (attains_zero_and_neutral e).1.total (attainsTotal_zero es)

end

/-! ### Signs and widths -/

theorem attains_zero (e : Expr) : Attains e (some 0) (some 0) := (attains_zero_and_neutral e).1

theorem neutral (e : Expr) : Neutral e := (attains_zero_and_neutral e).2

theorem attains_one (e : Expr) : Attains e (some 1) (some 1) := (neutral e).attains

/-- An expression that is signed can be minus one. -/
theorem attains_neg_one : (e : Expr) → e.isSigned = true → Attains e (some (-1)) (some (-1))
  | .column c, _ => attains_leaf rfl (-1)
  | .literal v, _ => attains_leaf rfl (-1)
  | .parens e, h => (attains_neg_one e h).parens
  | .nullTest e p, _ => (attains_zero e).nullTest p false
  | .inList e es p, _ => (attains_zero e).inList (attainsTotal_zero es) p false
  | .between e low high p, _ =>
    (attains_zero e).between (attains_zero low) (attains_zero high) p false
  | .binary left op right, h => by
    cases op with
    | add =>
      rcases Bool.or_eq_true_iff.mp h with h | h
      · exact (attains_neg_one left h).binary (attains_zero right) (Or.inl rfl)
      · exact (attains_zero left).binary (attains_neg_one right h) (Or.inl rfl)
    | subtract => exact (attains_zero left).binary (attains_one right) (Or.inl rfl)
    | multiply =>
      rcases Bool.or_eq_true_iff.mp h with h | h
      · exact (attains_neg_one left h).product_neutral (neutral right)
      · exact (attains_one left).binary (attains_neg_one right h) (Or.inr narrow_one)
    | divide =>
      rcases Bool.or_eq_true_iff.mp h with h | h
      · exact (attains_neg_one left h).binary (attains_one right) (Or.inl rfl)
      · exact (attains_one left).binary (attains_neg_one right h) (Or.inl rfl)
    | and | or => cases h
    | eq | notEq | gt | gte | lt | lte | like | notLike =>
      exact (attains_zero left).compare (attains_zero right) rfl false

/-- An expression that is wide can be two, or minus two. -/
theorem attains_two : (e : Expr) → e.isWide = true →
    ∃ x : Int, x.natAbs = 2 ∧ Attains e (some x) (some x)
  | .column c, _ => ⟨2, rfl, attains_leaf rfl 2⟩
  | .literal v, _ => ⟨2, rfl, attains_leaf rfl 2⟩
  | .parens e, h => by
    obtain ⟨x, hx, he⟩ := attains_two e h
    exact ⟨x, hx, he.parens⟩
  | .nullTest e p, _ => ⟨2, rfl, (attains_one e).nullTest p false⟩
  | .inList e es p, _ => ⟨2, rfl, (attains_one e).inList (attainsTotal_zero es) p false⟩
  | .between e low high p, _ =>
    ⟨2, rfl, (attains_one e).between (attains_zero low) (attains_zero high) p false⟩
  | .binary left op right, h => by
    cases op with
    | add => exact ⟨2, rfl, (attains_one left).binary (attains_one right) (Or.inl rfl)⟩
    | subtract =>
      simp only [isWide, Bool.or_eq_true] at h
      rcases h with ((h | h) | h) | h
      · obtain ⟨x, hx, he⟩ := attains_two left h
        exact ⟨x - 0, by omega, he.binary (attains_zero right) (Or.inl rfl)⟩
      · obtain ⟨x, hx, he⟩ := attains_two right h
        exact ⟨0 - x, by omega, (attains_zero left).binary he (Or.inl rfl)⟩
      · exact ⟨-1 - 1, rfl, (attains_neg_one left h).binary (attains_one right) (Or.inl rfl)⟩
      · exact ⟨1 - -1, rfl, (attains_one left).binary (attains_neg_one right h) (Or.inl rfl)⟩
    | multiply =>
      rcases Bool.or_eq_true_iff.mp h with h | h
      · obtain ⟨x, hx, he⟩ := attains_two left h
        exact ⟨x, hx, he.product_neutral (neutral right)⟩
      · obtain ⟨x, hx, he⟩ := attains_two right h
        exact ⟨1 * x, by omega,
          (attains_one left).binary he (Or.inr narrow_one)⟩
    | divide =>
      obtain ⟨x, hx, he⟩ := attains_two left h
      have hdiv : Attains (.binary left .divide right) (quotient (some x) (some 1))
          (quotient (some x) (some 1)) := he.binary (attains_one right) (Or.inl rfl)
      rw [quotient_one] at hdiv
      exact ⟨x, hx, hdiv⟩
    | and | or => cases h
    | eq | notEq | gt | gte | lt | lte | like | notLike =>
      exact ⟨2, rfl, (attains_one left).compare (attains_zero right) rfl false⟩

end SqlCompose
