import SqlCompose.Proofs.Expr.Attainment

/-!
# Telling an expression from its reading

An expression that does not keep its quotients has a value that its reading has not, for some
leaves, comparisons and polarities. A product with a factor of magnitude two that is put in front
of a quotient by two turns zero into a unit. A difference between an operand and its reading then
shows in the whole: it stays one of zero against a unit, or becomes one of null against zero and of
null against a unit when it gets into a divisor.

## Main definitions

* `Mark`, `Splits`: differences of null, zero and units.
* `Distinguished`: the differences that pass through every operator.

## Main results

* `distinguished_of_keepsQuotients`: an expression that does not keep its quotients is told from
  its reading.
* `Expr.compile_read_value_iff`: the text of the expressions of a shape means what they mean
  exactly if they keep their quotients.
-/

namespace SqlCompose

open SqlCompose.Expr

/-! ### Quotients that a product is put in front of -/

/-- An expression of the shape is zero, and its reading halves what it is multiplied to. -/
def Halves (e : Expr) : Prop :=
  ∃ e' : Expr, e'.shape = e.shape ∧ e'.value .probe = some 0 ∧
    ∀ acc : Expr, ∀ x ∈ acc.value .probe, x.natAbs = 2 →
      ∃ y ∈ (acc.graft .multiply e'.readBack).value .probe, y.natAbs = 1

theorem strength_of_dividesWide {e : Expr} (h : e.dividesWide = true) :
    e.strength = some Op.multiply.strength := by
  cases e with
  | binary left op right =>
    simp only [dividesWide, Bool.and_eq_true] at h
    exact congrArg some (eq_of_beq h.1)
  | _ => cases h

/-- A left operand that binds as its operator does stands without a group. -/
theorem groupedUnder_left_self {e : Expr} {op : Op} (h : e.strength = some op.strength)
    (hop : op.isComparison = false) : e.groupedUnder op .left = false := by
  rw [groupedUnder, h]
  simp [hop]

section Halves

variable {left right : Expr}

theorem halves_of_divisor {x : Int} (hright : Attains right (some x) (some x))
    (hx : x.natAbs = 2) : Halves (.binary left .divide right) := by
  obtain ⟨l, hl, hlv, hlr, hlg⟩ := neutral left
  obtain ⟨r, hr, hrv, hrr⟩ := hright
  have hquot (y : Int) : quotient (some y) (some x) = some (y.tdiv x) :=
    if_neg (by rintro rfl; cases hx)
  refine ⟨.binary l .divide r, by rw [shape, hl, hr, shape], ?_, fun acc y hy hy2 => ?_⟩
  · rw [value, hlv, hrv]
    refine (hquot 1).trans (congrArg some ?_)
    rw [← Int.natAbs_eq_zero, Int.natAbs_tdiv, hx]
    rfl
  · have hs : Op.divide.strength = Op.multiply.strength := rfl
    rw [readBack_binary rfl, graft_binary hs, value, value_graft_enclosed hlr (hlg acc),
      value_enclosed, hrr, hy]
    refine ⟨y.tdiv x, hquot y, ?_⟩
    rw [Int.natAbs_tdiv, hx, hy2]

theorem Halves.quotient (hleft : Halves left) (hs : left.strength = some Op.multiply.strength) :
    Halves (.binary left .divide right) := by
  obtain ⟨l, hl, hlv, hlg⟩ := hleft
  obtain ⟨r, hr, hrv, hrr⟩ := attains_one right
  have hg : l.groupedUnder .divide .left = false := by
    rw [← strength_shape, ← hl, strength_shape] at hs
    exact groupedUnder_left_self hs rfl
  refine ⟨.binary l .divide r, by rw [shape, hl, hr, shape], ?_, fun acc x hx hx2 => ?_⟩
  · rw [value, hlv, hrv]
    rfl
  · obtain ⟨y, hy, hy1⟩ := hlg acc x hx hx2
    have hs : Op.divide.strength = Op.multiply.strength := rfl
    rw [readBack_binary rfl, hg, graft_binary hs, value, value_enclosed, hrr]
    exact ⟨y, (quotient_one _).trans hy, hy1⟩

theorem Halves.product (hleft : Halves left) (hs : left.strength = some Op.multiply.strength) :
    Halves (.binary left .multiply right) := by
  obtain ⟨l, hl, hlv, hlg⟩ := hleft
  obtain ⟨r, hr, hrv, hrr, hrg⟩ := neutral right
  have hg : l.groupedUnder .multiply .left = false := by
    rw [← strength_shape, ← hl, strength_shape] at hs
    exact groupedUnder_left_self hs rfl
  refine ⟨.binary l .multiply r, by rw [shape, hl, hr, shape], ?_, fun acc x hx hx2 => ?_⟩
  · rw [value, hlv, hrv]
    rfl
  · obtain ⟨y, hy, hy1⟩ := hlg acc x hx hx2
    refine ⟨y, ?_, hy1⟩
    rw [readBack, hg]
    split
    · rw [graft_graft, hrg]
      exact hy
    · rw [graft_binary rfl, value, value_enclosed, hrr]
      exact (product_one _).trans hy

theorem Halves.continued (hright : Halves right) (hcont : continues .multiply right = true) :
    Halves (.binary left .multiply right) := by
  obtain ⟨l, hl, hlv, hlr, hlg⟩ := neutral left
  obtain ⟨r, hr, hrv, hrg⟩ := hright
  refine ⟨.binary l .multiply r, by rw [shape, hl, hr, shape], ?_, fun acc x hx hx2 => ?_⟩
  · rw [value, hlv, hrv]
    rfl
  · rw [← continues_of_shape_eq hr] at hcont
    rw [readBack, if_pos hcont, graft_graft]
    exact hrg _ x ((value_graft_enclosed hlr (hlg acc) _).trans hx) hx2

end Halves

/-- A wide divisor in the way of a product makes a difference to it. -/
theorem halves_of_dividesWide : (e : Expr) → e.dividesWide = true → Halves e
  | .binary left op right, h => by
    simp only [dividesWide, Bool.and_eq_true, Bool.or_eq_true] at h
    obtain ⟨hs, h⟩ := h
    have hop := multiply_or_divide (eq_of_beq hs)
    rcases h with (h | ⟨hdiv, h⟩) | ⟨hcont, h⟩
    · have hleft := halves_of_dividesWide left h
      rcases hop with rfl | rfl
      · exact hleft.product (strength_of_dividesWide h)
      · exact hleft.quotient (strength_of_dividesWide h)
    · obtain ⟨x, hx, hright⟩ := attains_two right h
      rw [eq_of_beq hdiv]
      exact halves_of_divisor hright hx
    · have hright := halves_of_dividesWide right h
      rcases hop with rfl | rfl
      · exact hright.continued hcont
      · cases hcont

/-! ### Differences that show -/

/-- The values that differences are made of. -/
inductive Mark where
  | null
  | zero
  | unit

/-- Whether a value is of the kind. -/
def Mark.Of : Mark → Option Int → Prop
  | null, a => a = none
  | zero, a => a = some 0
  | unit, a => a = some 1 ∨ a = some (-1)

/-- Two values with the relation between them are of the two kinds. -/
def Splits (R : Option Int → Option Int → Prop) (m n : Mark) : Prop :=
  ∃ a b, R a b ∧ ((m.Of a ∧ n.Of b) ∨ (n.Of a ∧ m.Of b))

/-- Zero is told from a unit, or null from both. -/
def Distinguished (R : Option Int → Option Int → Prop) : Prop :=
  Splits R .zero .unit ∨ (Splits R .null .zero ∧ Splits R .null .unit)

section Distinguished

variable {R S : Option Int → Option Int → Prop}

theorem Splits.map {m n m' n' : Mark} {f : Option Int → Option Int} (h : Splits R m n)
    (hf : ∀ a b, R a b → S (f a) (f b)) (hm : ∀ a, m.Of a → m'.Of (f a))
    (hn : ∀ a, n.Of a → n'.Of (f a)) : Splits S m' n' := by
  obtain ⟨a, b, hab, h⟩ := h
  exact ⟨f a, f b, hf a b hab, h.imp (And.imp (hm a) (hn b)) (And.imp (hn a) (hm b))⟩

theorem Splits.symm {m n : Mark} (h : Splits R m n) : Splits R n m := by
  obtain ⟨a, b, hab, h⟩ := h
  exact ⟨a, b, hab, h.symm⟩

theorem Distinguished.map {f : Option Int → Option Int} (h : Distinguished R)
    (hf : ∀ a b, R a b → S (f a) (f b)) (hm : ∀ (m : Mark) a, m.Of a → m.Of (f a)) :
    Distinguished S :=
  h.imp (fun h => h.map hf (hm _) (hm _))
    (And.imp (fun h => h.map hf (hm _) (hm _)) fun h => h.map hf (hm _) (hm _))

theorem Distinguished.imp (h : Distinguished R) (hf : ∀ a b, R a b → S a b) : Distinguished S :=
  h.map (f := id) hf fun _ _ => id

/-- The difference that a negation makes of a difference. -/
theorem Distinguished.not (h : Distinguished R)
    (hf : ∀ a b, R a b →
      S (ofTruth ((truth a).map Bool.not)) (ofTruth ((truth b).map Bool.not))) :
    Distinguished S := by
  have hnull (a : Option Int) (ha : Mark.null.Of a) :
      Mark.null.Of (ofTruth ((truth a).map Bool.not)) := by
    rw [show a = none from ha]
    rfl
  have hzero (a : Option Int) (ha : Mark.zero.Of a) :
      Mark.unit.Of (ofTruth ((truth a).map Bool.not)) := by
    rw [show a = some 0 from ha]
    exact Or.inl rfl
  have hunit (a : Option Int) (ha : Mark.unit.Of a) :
      Mark.zero.Of (ofTruth ((truth a).map Bool.not)) := by
    rcases ha with rfl | rfl <;> rfl
  rcases h with h | ⟨h0, h1⟩
  · exact Or.inl (h.map hf hzero hunit).symm
  · exact Or.inr ⟨h1.map hf hnull hunit, h0.map hf hnull hzero⟩

/-- A divisor that is told from its reading has null for a quotient where it is zero or null. -/
theorem Distinguished.divisor (h : Distinguished R)
    (hf : ∀ u a b, (u = 0 ∨ u = 1) → R a b → S (quotient (some u) a) (quotient (some u) b)) :
    Distinguished S := by
  have hnull (u : Int) (a : Option Int) (ha : Mark.null.Of a) :
      Mark.null.Of (quotient (some u) a) := by
    rw [show a = none from ha]
    rfl
  have hzero (u : Int) (a : Option Int) (ha : Mark.zero.Of a) :
      Mark.null.Of (quotient (some u) a) := by
    rw [show a = some 0 from ha]
    rfl
  have hunit0 (a : Option Int) (ha : Mark.unit.Of a) : Mark.zero.Of (quotient (some 0) a) := by
    rcases ha with rfl | rfl <;> rfl
  have hunit1 (a : Option Int) (ha : Mark.unit.Of a) : Mark.unit.Of (quotient (some 1) a) := by
    rcases ha with rfl | rfl
    · exact Or.inl rfl
    · exact Or.inr rfl
  have hf0 (a b : Option Int) := hf 0 a b (Or.inl rfl)
  have hf1 (a b : Option Int) := hf 1 a b (Or.inr rfl)
  rcases h with h | ⟨-, h⟩
  · exact Or.inr ⟨h.map hf0 (hzero 0) hunit0, h.map hf1 (hzero 1) hunit1⟩
  · exact Or.inr ⟨h.map hf0 (hnull 0) hunit0, h.map hf1 (hnull 1) hunit1⟩

theorem Distinguished.exists_ne (h : Distinguished R) : ∃ a b, R a b ∧ a ≠ b := by
  have hne (m : Mark) (hm : m ≠ .unit) (h : Splits R m .unit) : ∃ a b, R a b ∧ a ≠ b := by
    obtain ⟨a, b, hab, h⟩ := h
    refine ⟨a, b, hab, ?_⟩
    rintro rfl
    obtain ⟨ha, hunit⟩ : m.Of a ∧ Mark.unit.Of a := h.elim id And.symm
    cases m with
    | null => rcases hunit with rfl | rfl <;> cases ha
    | zero => rcases hunit with rfl | rfl <;> cases ha
    | unit => exact hm rfl
  rcases h with h | ⟨-, h⟩
  · exact hne .zero nofun h
  · exact hne .null nofun h

end Distinguished

/-! ### Differences of operands -/

theorem mark_negation (m : Mark) (a : Option Int) (h : m.Of a) :
    m.Of (difference (some 0) a) := by
  cases m with
  | null | zero =>
    cases h
    rfl
  | unit =>
    rcases h with rfl | rfl
    · exact Or.inr rfl
    · exact Or.inl rfl

/-- A condition is seen through a conjunction with the truth. -/
theorem mark_kleeneAnd (m : Mark) (a : Option Int) (h : m.Of a) :
    m.Of (ofTruth (kleeneAnd (truth a) (some true))) := by
  cases m with
  | null | zero =>
    cases h
    rfl
  | unit => rcases h with rfl | rfl <;> exact Or.inl rfl

/-- A condition is seen through a disjunction with a falsehood. -/
theorem mark_kleeneOr (m : Mark) (a : Option Int) (h : m.Of a) :
    m.Of (ofTruth (kleeneOr (truth a) (some false))) := by
  cases m with
  | null | zero =>
    cases h
    rfl
  | unit => rcases h with rfl | rfl <;> exact Or.inl rfl

theorem kleeneAnd_comm (s t : Option Bool) : kleeneAnd s t = kleeneAnd t s := by
  rcases s with _ | _ | _ <;> rcases t with _ | _ | _ <;> rfl

theorem kleeneOr_comm (s t : Option Bool) : kleeneOr s t = kleeneOr t s := by
  rcases s with _ | _ | _ <;> rcases t with _ | _ | _ <;> rfl

/-- What tells a left operand from its reading tells the operation. -/
theorem distinguished_left {e : Expr} (h : Distinguished (Attains e)) (op : Op) (right : Expr) :
    Distinguished (Attains (.binary e op right)) := by
  cases op with
  | add =>
    exact h.map (fun a b hab => hab.binary (attains_zero right) (Or.inl rfl)) fun m a ha => by
      rwa [Op.value, sum_zero]
  | subtract =>
    exact h.map (fun a b hab => hab.binary (attains_zero right) (Or.inl rfl)) fun m a ha => by
      rwa [Op.value, difference_zero]
  | multiply => exact h.imp fun a b hab => hab.product_neutral (neutral right)
  | divide =>
    exact h.map (fun a b hab => hab.binary (attains_one right) (Or.inl rfl)) fun m a ha => by
      rwa [Op.value, quotient_one]
  | and =>
    exact h.map (fun a b hab => hab.binary (attains_one right) (Or.inl rfl)) mark_kleeneAnd
  | or =>
    exact h.map (fun a b hab => hab.binary (attains_zero right) (Or.inl rfl)) mark_kleeneOr
  | eq | notEq | gt | gte | lt | lte | like | notLike =>
    exact h.map (fun a b hab => hab.compare (attains_zero right) rfl true) fun m a ha => by
      rwa [probeTest, if_pos rfl, sum_zero]

/-- What tells a right operand from its reading tells the operation. -/
theorem distinguished_right {e : Expr} (h : Distinguished (Attains e)) (op : Op) (left : Expr) :
    Distinguished (Attains (.binary left op e)) := by
  cases op with
  | add =>
    exact h.map (fun a b hab => (attains_zero left).binary hab (Or.inl rfl)) fun m a ha => by
      rwa [Op.value, zero_sum]
  | subtract =>
    exact h.map (fun a b hab => (attains_zero left).binary hab (Or.inl rfl)) mark_negation
  | multiply =>
    exact h.map (fun a b hab => (attains_one left).binary hab (Or.inr narrow_one))
      fun m a ha => by rwa [Op.value, one_product]
  | divide =>
    refine h.divisor fun u a b hu hab => ?_
    rcases hu with rfl | rfl
    · exact (attains_zero left).binary hab (Or.inl rfl)
    · exact (attains_one left).binary hab (Or.inl rfl)
  | and =>
    refine h.map (fun a b hab => (attains_one left).binary hab (Or.inl rfl)) fun m a ha => ?_
    show m.Of (ofTruth (kleeneAnd (some true) (truth a)))
    rw [kleeneAnd_comm]
    exact mark_kleeneAnd m a ha
  | or =>
    refine h.map (fun a b hab => (attains_zero left).binary hab (Or.inl rfl)) fun m a ha => ?_
    show m.Of (ofTruth (kleeneOr (some false) (truth a)))
    rw [kleeneOr_comm]
    exact mark_kleeneOr m a ha
  | eq | notEq | gt | gte | lt | lte | like | notLike =>
    exact h.map (fun a b hab => (attains_zero left).compare hab rfl true) fun m a ha => by
      rwa [probeTest, if_pos rfl, zero_sum]

/-- A wide factor that is put in front of a quotient with a wide divisor is told from it. -/
theorem distinguished_of_dividesWide {left right : Expr} (hleft : left.isWide = true)
    (hright : right.dividesWide = true) (hcont : continues .multiply right = true) :
    Distinguished (Attains (.binary left .multiply right)) := by
  obtain ⟨x, hx, l, hl, hlv, hlr⟩ := attains_two left hleft
  obtain ⟨r, hr, hrv, hrg⟩ := halves_of_dividesWide right hright
  rw [← continues_of_shape_eq hr] at hcont
  obtain ⟨y, hy, hy1⟩ := hrg (enclosed (l.groupedUnder .multiply .left) l.readBack) x
    ((value_enclosed _ _).trans hlr) hx
  refine Or.inl ⟨some 0, some y, ⟨.binary l .multiply r, by rw [shape, hl, hr, shape], ?_, ?_⟩,
    Or.inl ⟨rfl, ?_⟩⟩
  · rw [value, hlv, hrv]
    exact congrArg some (Int.mul_zero x)
  · rw [readBack, if_pos hcont]
    exact hy
  · rcases Int.natAbs_eq y with h | h <;> rw [hy1] at h
    · exact Or.inl (congrArg some h)
    · exact Or.inr (congrArg some h)

mutual

/-- An expression that does not keep its quotients is told from its reading. -/
theorem distinguished_of_keepsQuotients : (e : Expr) → e.keepsQuotients = false →
    Distinguished (Attains e)
  | .parens e, h => (distinguished_of_keepsQuotients e h).imp fun a b hab => hab.parens
  | .not e, h => (distinguished_of_keepsQuotients e h).not fun a b hab => hab.not
  | .nullTest e p, h =>
    (distinguished_of_keepsQuotients e h).imp fun a b hab => hab.nullTest p true
  | .inList e es p, h => by
    rcases Bool.and_eq_false_iff.mp h with h | h
    · refine (distinguished_of_keepsQuotients e h).imp fun a b hab => ?_
      simpa [probeTest] using hab.inList (attainsTotal_zero es) p true
    · refine (distinguishedTotal_of_allKeepQuotients es h).imp fun a b hab => ?_
      simpa [probeTest] using (attains_zero e).inList hab p true
  | .between e low high p, h => by
    simp only [keepsQuotients, Bool.and_eq_false_iff] at h
    rcases h with (h | h) | h
    · refine (distinguished_of_keepsQuotients e h).imp fun a b hab => ?_
      simpa [probeTest] using hab.between (attains_zero low) (attains_zero high) p true
    · refine (distinguished_of_keepsQuotients low h).imp fun a b hab => ?_
      simpa [probeTest] using (attains_zero e).between hab (attains_zero high) p true
    · refine (distinguished_of_keepsQuotients high h).imp fun a b hab => ?_
      simpa [probeTest] using (attains_zero e).between (attains_zero low) hab p true
  | .binary left op right, h => by
    simp only [keepsQuotients, Bool.and_eq_false_iff, Bool.not_eq_false', Bool.and_eq_true] at h
    rcases h with (⟨⟨⟨hop, hcont⟩, hwide⟩, hdiv⟩ | h) | h
    · rw [eq_of_beq hop] at hcont ⊢
      exact distinguished_of_dividesWide hwide hdiv hcont
    · exact distinguished_left (distinguished_of_keepsQuotients left h) op right
    · exact distinguished_right (distinguished_of_keepsQuotients right h) op left

theorem distinguishedTotal_of_allKeepQuotients : (es : List Expr) →
    allKeepQuotients es = false → Distinguished (AttainsTotal es)
  | e :: es, h => by
    rcases Bool.and_eq_false_iff.mp h with h | h
    · refine (distinguished_of_keepsQuotients e h).imp fun a b hab => ?_
      simpa using hab.total (attainsTotal_zero es)
    · refine (distinguishedTotal_of_allKeepQuotients es h).imp fun a b hab => ?_
      simpa using (attains_zero e).total hab

end

/-! ### The meaning of a text -/

namespace Expr

/-- The text of every expression of a shape is read as a whole, as an expression of the same
value whatever its columns, literals and tests stand for, exactly if the shape keeps its
quotients. -/
theorem compile_read_value_iff (ctx : Context) {mark : Char}
    (hc : ctx.quoting.mark? = some mark) (e : Expr) (hin : e.hasEmptyIn = false) :
    (∀ e' : Expr, e'.shape = e.shape → ∃ c r, e'.compile ctx = .ok c ∧ c.read mark = some r ∧
      ∀ ν, r.value ν = e'.value ν) ↔ e.keepsQuotients = true := by
  have hread (e' : Expr) (hs : e'.shape = e.shape) : ∃ c, e'.compile ctx = .ok c ∧
      c.read mark = some e'.readBack := by
    have hin' : e'.hasEmptyIn = false := by
      rw [← hasEmptyIn_shape, hs, hasEmptyIn_shape, hin]
    exact ⟨_, compile_eq_ok hin' ctx, read_render hc hin'⟩
  constructor
  · intro h
    rw [← Bool.not_eq_false]
    intro hkeeps
    obtain ⟨a, b, ⟨e', hs, rfl, rfl⟩, hne⟩ :=
      (distinguished_of_keepsQuotients e hkeeps).exists_ne
    obtain ⟨c, r, hcomp, hr, hval⟩ := h e' hs
    obtain ⟨c', hcomp', hr'⟩ := hread e' hs
    obtain rfl : c = c' := Except.ok.inj (hcomp.symm.trans hcomp')
    obtain rfl : r = e'.readBack := Option.some.inj (hr.symm.trans hr')
    exact hne (hval .probe).symm
  · intro hkeeps e' hs
    obtain ⟨c, hcomp, hr⟩ := hread e' hs
    have hkeeps' : e'.keepsQuotients = true := by
      rw [← keepsQuotients_shape, hs, keepsQuotients_shape, hkeeps]
    exact ⟨c, e'.readBack, hcomp, hr, fun ν => value_readBack ν e' hkeeps'⟩

/-- The product of a negation and a bare product keeps its quotients, whatever is divided. -/
theorem compile_read_value_narrow :
    let column := column ⟨"t", "n", "n"⟩
    let e := mul (not column) (mul (div column column) column)
    ∀ e' : Expr, e'.shape = e.shape → ∃ c r, e'.compile (.ofDialect .mysql) = .ok c ∧
      c.read '\x60' = some r ∧ ∀ ν, r.value ν = e'.value ν :=
  (compile_read_value_iff (.ofDialect .mysql) rfl _ rfl).mpr rfl

/-- Twice the half of one is written without the group that keeps the half together. -/
theorem compile_read_value_ne :
    let lit (n : Int64) := literal (.integer n)
    let e := mul (lit 2) (mul (div (lit 1) (lit 2)) (lit 1))
    ∃ c r ν, e.compile (.ofDialect .sqlite) = .ok c ∧ c.sql = "? * ? / ? * ?" ∧
      c.bindings = [.integer 2, .integer 1, .integer 2, .integer 1] ∧ c.read '"' = some r ∧
      e.value ν = some 0 ∧ r.value ν = some 1 :=
  ⟨_, _, .probe, compile_eq_ok rfl _, rfl, rfl, read_render rfl rfl, rfl, rfl⟩

end Expr

end SqlCompose
