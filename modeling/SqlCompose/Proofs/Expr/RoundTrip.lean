import SqlCompose.Proofs.Expr.Reading

/-!
# Reading undoes writing

An expression is read back as the tree that it was built as, up to the groups and to the nesting
of conjunctions and of disjunctions. Sums and products are read from the left, so that this holds
of the expressions in which no sum has a bare sum for its right operand, and no product a bare
product.

## Main definitions

* `Flat`, `Expr.flat`: expressions without groups, with one list for each chain of conjunctions or
  disjunctions. A column is known by its table and its own name, which is all that is written of
  it.
* `Expr.leansLeft`: whether no sum or product has its like for a bare right operand.

## Main results

* `Expr.flat_readBack`: an expression that leans left is read as itself, up to flattening.
* `Expr.compile_read_flat`: the text of such an expression is read as a whole, as the expression.
-/

namespace SqlCompose

/-- Expressions without groups. A chain of conjunctions, or of disjunctions, is one list. -/
inductive Flat where
  | column (table column : String)
  | literal (v : Value)
  | not (e : Flat)
  | binary (left : Flat) (op : Op) (right : Flat)
  | chain (op : Op) (operands : List Flat)
  | nullTest (e : Flat) (positive : Bool)
  | inList (e : Flat) (candidates : List Flat) (positive : Bool)
  | between (e low high : Flat) (positive : Bool)
  deriving Repr

namespace Flat

/-- The operands of a chain of the operator, of which every other expression is one. -/
def operands (op : Op) : Flat → List Flat
  | chain op' es => if op' = op then es else [chain op' es]
  | e => [e]

@[simp] theorem operands_chain (op : Op) (es : List Flat) : (chain op es).operands op = es :=
  if_pos rfl

/-- The chain of the operands on both sides. -/
def join (left : Flat) (op : Op) (right : Flat) : Flat :=
  chain op (left.operands op ++ right.operands op)

theorem join_assoc (e f g : Flat) (op : Op) :
    (e.join op f).join op g = e.join op (f.join op g) := by
  simp [join]

end Flat

/-- Whether the operator joins conditions, so that its chains are flattened. -/
def Op.isLogical : Op → Bool
  | and | or => true
  | _ => false

/-- Whether the operator is one of the sum or the product. -/
def Op.isAdditive : Op → Bool
  | add | multiply => true
  | _ => false

/-- The logical operators bind unlike every other operator. -/
theorem Op.eq_of_isLogical {op op' : Op} (h : op.isLogical = true)
    (hs : op'.strength = op.strength) : op' = op := by
  cases op <;> cases op' <;> first | rfl | exact absurd hs (by decide) | cases h

theorem Op.isAssociative_eq (op : Op) : op.isAssociative = (op.isLogical || op.isAdditive) := by
  cases op <;> rfl

namespace Expr

mutual

/-- The expression without its groups, and with its chains of conditions flattened. -/
def flat : Expr → Flat
  | column c => .column c.table c.column
  | literal v => .literal v
  | not e => .not e.flat
  | binary left op right =>
    if op.isLogical then left.flat.join op right.flat else .binary left.flat op right.flat
  | nullTest e positive => .nullTest e.flat positive
  | inList e candidates positive => .inList e.flat (flatEach candidates) positive
  | between e low high positive => .between e.flat low.flat high.flat positive
  | parens e => e.flat

/-- Each of the expressions without groups. -/
def flatEach : List Expr → List Flat
  | [] => []
  | e :: es => e.flat :: flatEach es

end

mutual

/-- Whether no sum, and no product, has its like for a bare right operand. -/
def leansLeft : Expr → Bool
  | column _ | literal _ => true
  | not e | nullTest e _ | parens e => e.leansLeft
  | binary left op right =>
    !(op.isAdditive && right.repeats op) && left.leansLeft && right.leansLeft
  | inList e candidates _ => e.leansLeft && allLeanLeft candidates
  | between e low high _ => e.leansLeft && low.leansLeft && high.leansLeft

/-- Whether all of the expressions lean left. -/
def allLeanLeft : List Expr → Bool
  | [] => true
  | e :: es => e.leansLeft && allLeanLeft es

end

theorem flat_enclosed (group : Bool) (e : Expr) : (enclosed group e).flat = e.flat := by
  cases group <;> rfl

theorem flat_binary_of_isLogical {op : Op} (h : op.isLogical = true) (left right : Expr) :
    (binary left op right).flat = left.flat.join op right.flat := by
  rw [flat, if_pos h]

/-- A chain of conditions is flattened to one list wherever it is grafted. -/
theorem flat_graft {op : Op} (h : op.isLogical = true) (acc e : Expr) :
    (acc.graft op e).flat = acc.flat.join op e.flat := by
  fun_induction graft acc op e with
  | case1 left op' right hs ih =>
    obtain rfl := Op.eq_of_isLogical h hs
    rw [flat_binary_of_isLogical h, flat_binary_of_isLogical h, ih, Flat.join_assoc]
  | case2 left op' right hs => exact flat_binary_of_isLogical h _ _
  | case3 e he => exact flat_binary_of_isLogical h _ _

mutual

/-- An expression that leans left is read as itself, up to groups and to the nesting of its
conditions. -/
theorem flat_readBack : (e : Expr) → e.leansLeft = true → e.readBack.flat = e.flat
  | column _, _ => rfl
  | literal _, _ => rfl
  | not e, h => by
    rw [readBack, flat, flat_enclosed, flat_readBack e h, flat]
  | binary left op right, h => by
    simp only [leansLeft, Bool.and_eq_true, Bool.not_eq_true'] at h
    obtain ⟨⟨hop, hl⟩, hr⟩ := h
    have hleft := flat_readBack left hl
    have hright := flat_readBack right hr
    rw [readBack]
    split
    · next hcont =>
      have hlog : op.isLogical = true := by
        rw [continues, op.isAssociative_eq, Bool.and_or_distrib_right, hop, Bool.or_false] at hcont
        exact (Bool.and_eq_true_iff.mp hcont).1
      rw [flat_graft hlog, flat_enclosed, hleft, hright, flat_binary_of_isLogical hlog]
    · rw [flat, flat_enclosed, flat_enclosed, hleft, hright, flat]
  | nullTest e positive, h => by
    rw [readBack, flat, flat_enclosed, flat_readBack e h, flat]
  | inList e candidates positive, h => by
    rw [leansLeft, Bool.and_eq_true] at h
    rw [readBack, flat, flat_enclosed, flat_readBack e h.1, flatEach_readBackEach candidates h.2,
      flat]
  | between e low high positive, h => by
    simp only [leansLeft, Bool.and_eq_true] at h
    rw [readBack, flat, flat_enclosed, flat_enclosed, flat_enclosed, flat_readBack e h.1.1,
      flat_readBack low h.1.2, flat_readBack high h.2, flat]
  | parens e, h => by
    rw [readBack, flat, flat_readBack e h, flat]

theorem flatEach_readBackEach : (es : List Expr) → allLeanLeft es = true →
    flatEach (readBackEach es) = flatEach es
  | [], _ => rfl
  | e :: es, h => by
    rw [allLeanLeft, Bool.and_eq_true] at h
    rw [readBackEach, flatEach, flat_readBack e h.1, flatEach_readBackEach es h.2, flatEach]

end

/-- The text of an expression that leans left is read as a whole, and the expression that is read
is the one that was built, up to groups and to the nesting of conjunctions and disjunctions. -/
theorem compile_read_flat (ctx : Context) {mark : Char} (hc : ctx.quoting.mark? = some mark)
    (e : Expr) (hin : e.hasEmptyIn = false) (hleft : e.leansLeft = true) :
    ∃ c r, e.compile ctx = .ok c ∧ c.read mark = some r ∧ r.flat = e.flat :=
  ⟨_, _, compile_eq_ok hin ctx, read_render hc hin, flat_readBack e hleft⟩

theorem compile_read_flat_range :
    let column := column ⟨"t", "a\"b", "n"⟩
    let range := between column (literal .null) (add column (literal (.integer 1))) false
    let e := binary (not (parens (binary range .or range))) .and (binary range .and range)
    ∃ c r, e.compile (.ofDialect .postgresql) = .ok c ∧ c.read '"' = some r ∧ r.flat = e.flat :=
  compile_read_flat (.ofDialect .postgresql) rfl _ rfl rfl

end Expr

end SqlCompose
