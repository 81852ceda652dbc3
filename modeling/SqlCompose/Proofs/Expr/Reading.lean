import SqlCompose.Proofs.Sql.Grammar
import SqlCompose.Proofs.Sql.Lexeme

/-!
# What a written expression is read as

The text of an expression is read back into a tree that is known in advance. The groups that were
written are groups of the tree that is read, and every operator has its own operands again, with
one exception: a right operand that repeats its operator is written without a group, and is read
as the continuation of the chain on the left of it. `Expr.graft` hangs what stands before such an
operand on the first operand of its chain.

## Main definitions

* `Expr.graft`: what a chain is read as behind other operands.
* `Expr.readBack`: what a written expression is read as.
* `Compiled.read`: the expression that the text of a statement is read as, with the bindings in
  the places of the placeholders.

## Main results

* `Expr.reads_tokens`: the tokens of an expression have the reading `Expr.readBack`.
* `Expr.read_render`: the text of an expression is read as `Expr.readBack` as a whole, in every
  dialect and under both quotings that double their mark.
-/

namespace SqlCompose

/-! ### Levels of expressions -/

/-- The level of the operator. -/
def Op.level : Op → Level
  | or => .chain .or
  | and => .chain .and
  | add | subtract => .chain .sum
  | multiply | divide => .chain .product
  | eq | notEq | gt | gte | lt | lte | like | notLike => .test

theorem Op.strength_level (op : Op) : op.level.strength = op.strength := by
  cases op <;> rfl

/-- An operator that does not compare is written with one token, and chains. -/
theorem Op.chain_or_isComparison (op : Op) :
    (∃ c t, op.level = .chain c ∧ op.tokens = [t] ∧ c.operator? t = some op) ∨
    (op.level = .test ∧ op.isComparison = true ∧ op.isAssociative = false) := by
  cases op with
  | add | subtract | multiply | divide | and | or => exact Or.inl ⟨_, _, rfl, rfl, rfl⟩
  | eq | notEq | gt | gte | lt | lte | like | notLike => exact Or.inr ⟨rfl, rfl, rfl⟩

/-- The level of the outermost operator. -/
def Expr.level : Expr → Level
  | column _ | literal _ | parens _ => .atom
  | not _ => .negation
  | binary _ op _ => op.level
  | nullTest _ _ | inList _ _ _ | between _ _ _ _ => .test

theorem Expr.strength_eq (e : Expr) :
    (e.strength = none ∧ e.level = .atom) ∨ e.strength = some e.level.strength := by
  cases e with
  | column c | literal v | parens e => exact Or.inl ⟨rfl, rfl⟩
  | not e | nullTest e p | inList e es p | between e l h p => exact Or.inr rfl
  | binary left op right => exact Or.inr (congrArg some op.strength_level.symm)

/-- The level that binds tighter by one. -/
def Level.tighter : Level → Level
  | chain c => c.next
  | negation => test
  | test => chain .sum
  | atom => atom

theorem Level.eq_atom_or_strength_tighter (l : Level) :
    l = atom ∨ l.tighter.strength = l.strength + 1 := by
  rcases l with (_ | _ | _ | _) | _ | _ | _
  case atom => exact Or.inl rfl
  all_goals exact Or.inr rfl

theorem Level.strength_or_le (l : Level) : (chain .or).strength ≤ l.strength := by
  rcases l with (_ | _ | _ | _) | _ | _ | _ <;> decide

theorem Level.strength_le_atom (l : Level) : l.strength ≤ atom.strength := by
  rcases l with (_ | _ | _ | _) | _ | _ | _ <;> decide

theorem Reads.of_tighter {l : Level} {ts : List Token} {e : Expr} (h : Reads l.tighter ts e) :
    Reads l ts e := by
  cases l with
  | chain c => exact .operand h
  | negation => exact .positive h
  | test => exact .plain h
  | atom => exact h

/-- A reading at a level is one at every level that binds looser. -/
theorem Reads.loosen {l l' : Level} {ts : List Token} {e : Expr} (h : Reads l ts e)
    (hl : l'.strength ≤ l.strength) : Reads l' ts e := by
  by_cases heq : l' = l
  · rwa [heq]
  · have hlt : l'.strength < l.strength := by
      refine Nat.lt_of_le_of_ne hl fun hs => heq ?_
      rcases l with (_ | _ | _ | _) | _ | _ | _ <;>
        rcases l' with (_ | _ | _ | _) | _ | _ | _ <;> first | rfl | exact absurd hs (by decide)
    have hle := l.strength_le_atom
    rcases l'.eq_atom_or_strength_tighter with rfl | htight
    · exact absurd hlt (Nat.not_lt.mpr hle)
    · exact Reads.of_tighter (h.loosen (by omega))
termination_by 7 - l'.strength
decreasing_by
  rw [show Level.atom.strength = 7 from rfl] at hle
  omega

/-! ### Chains behind other operands -/

namespace Expr

/-- The tree that is read where the operand `e` stands behind `acc` and the operator without a
group: `acc` goes to the first operand of the chain that `e` is. -/
def graft (acc : Expr) (op : Op) : Expr → Expr
  | binary left op' right =>
    if op'.strength = op.strength then binary (graft acc op left) op' right
    else binary acc op (binary left op' right)
  | e => binary acc op e

theorem graft_binary {op op' : Op} (h : op'.strength = op.strength) (acc left right : Expr) :
    graft acc op (binary left op' right) = binary (graft acc op left) op' right := by
  rw [graft, if_pos h]

theorem graft_of_strength_ne {op : Op} {e : Expr} (h : e.strength ≠ some op.strength)
    (acc : Expr) : graft acc op e = binary acc op e := by
  cases e with
  | binary left op' right =>
    have hop : op'.strength ≠ op.strength := fun hs => h (congrArg some hs)
    rw [graft, if_neg hop]
  | _ => rfl

/-- A grafted chain has the operator of the chain outermost, or one as strong. -/
theorem strength_graft (acc : Expr) (op : Op) (e : Expr) :
    (graft acc op e).strength = some op.strength := by
  fun_induction graft acc op e with
  | case1 left op' right hs ih => exact congrArg some hs
  | case2 left op' right hs => rfl
  | case3 e he => rfl

/-- The expression between parentheses, where asked for. -/
def enclosed (group : Bool) (e : Expr) : Expr := if group then parens e else e

/-- Whether a right operand is written as the continuation of the chain on the left of it. -/
def continues (op : Op) (right : Expr) : Bool := op.isAssociative && right.repeats op

theorem exists_of_continues {op : Op} {e : Expr} (h : continues op e = true) :
    op.isAssociative = true ∧ ∃ left right, e = binary left op right := by
  rw [continues, Bool.and_eq_true] at h
  obtain ⟨hassoc, hrep⟩ := h
  cases e with
  | binary left op' right => exact ⟨hassoc, left, right, by rw [← eq_of_beq hrep]⟩
  | _ => cases hrep

theorem groupedUnder_right_self {op : Op} (h : op.isAssociative = true) (left right : Expr) :
    (binary left op right).groupedUnder op .right = false := by
  cases op <;> first | rfl | cases h

mutual

/-- What a written expression is read as. -/
def readBack : Expr → Expr
  | column c => column ⟨c.table, c.column, c.column⟩
  | literal v => literal v
  | not e => not (enclosed (e.groupedBelow Op.negation) e.readBack)
  | binary left op right =>
    if continues op right then
      graft (enclosed (left.groupedUnder op .left) left.readBack) op right.readBack
    else
      binary (enclosed (left.groupedUnder op .left) left.readBack) op
        (enclosed (right.groupedUnder op .right) right.readBack)
  | nullTest e positive =>
    nullTest (enclosed (e.groupedBelow Op.comparison) e.readBack) positive
  | inList e candidates positive =>
    inList (enclosed (e.groupedBelow Op.comparison) e.readBack) (readBackEach candidates) positive
  | between e low high positive =>
    between (enclosed (e.groupedBelow Op.comparison) e.readBack)
      (enclosed (low.groupedBelow Op.comparison) low.readBack)
      (enclosed (high.groupedBelow Op.comparison) high.readBack) positive
  | parens e => parens e.readBack

/-- What each of the expressions is read as. -/
def readBackEach : List Expr → List Expr
  | [] => []
  | e :: es => e.readBack :: readBackEach es

end

/-- An operator for which grouping matters is read with its own operands. -/
theorem readBack_binary {op : Op} (h : op.isAssociative = false) (left right : Expr) :
    (binary left op right).readBack =
      binary (enclosed (left.groupedUnder op .left) left.readBack) op
        (enclosed (right.groupedUnder op .right) right.readBack) := by
  rw [readBack, continues, h, Bool.false_and, if_neg Bool.false_ne_true]

/-- The reading of an expression binds as the expression does. -/
theorem strength_readBack (e : Expr) : e.readBack.strength = e.strength := by
  cases e with
  | binary left op right =>
    rw [readBack]
    split
    · exact strength_graft _ op _
    · rfl
  | _ => rw [readBack] <;> rfl

end Expr

/-- Grafting follows the chain that it continues. -/
theorem Reads.graft {c : Chain} {ts us : List Token} {t : Token} {op : Op} {acc e : Expr}
    (hacc : Reads (.chain c) ts acc) (ht : c.operator? t = some op)
    (h : Reads (.chain c) us e) : Reads (.chain c) (ts ++ t :: us) (acc.graft op e) := by
  cases h with
  | chain op' ht' he hf =>
    have hs : op'.strength = op.strength := by
      rw [Chain.strength_of_operator? ht, Chain.strength_of_operator? ht']
    rw [Expr.graft_binary hs, ← List.cons_append, ← List.append_assoc]
    exact .chain op' ht' (hacc.graft ht he) hf
  | operand h =>
    have hs : e.strength ≠ some op.strength := by
      intro hs
      have hle := h.strength_le _ hs
      rw [Chain.strength_of_operator? ht] at hle
      exact absurd (Level.strength_lt_next c) (Nat.not_lt.mpr hle)
    rw [Expr.graft_of_strength_ne hs]
    exact .chain op ht hacc h

/-! ### The reading of a written expression -/

/-- An operand is read at the level of its place, if it binds tight enough wherever it stands
without a group. -/
theorem Reads.grouped {e r : Expr} {ts : List Token} (h : Reads e.level ts r) (group : Bool)
    {l : Level} (hl : group = false → l.strength ≤ e.level.strength) :
    Reads l (Token.grouped group ts) (Expr.enclosed group r) := by
  cases group with
  | false => exact h.loosen (hl rfl)
  | true =>
    have hin : Reads (.chain .or) ts r := h.loosen (Level.strength_or_le _)
    exact (Reads.parens hin).loosen (Level.strength_le_atom l)

namespace Expr

theorem strength_lt_of_groupedBelow {e : Expr} {s : Nat} (h : e.groupedBelow s = false)
    (hs : s < 7) : s < e.level.strength := by
  unfold groupedBelow at h
  rcases e.strength_eq with ⟨-, hl⟩ | he
  · rwa [hl]
  · rw [he] at h
    simpa using h

theorem strength_le_of_groupedUnder {e : Expr} {op : Op} {side : Side}
    (h : e.groupedUnder op side = false) : op.strength ≤ e.level.strength := by
  unfold groupedUnder at h
  rcases e.strength_eq with ⟨-, hl⟩ | he
  · rw [hl, ← op.strength_level]
    exact Level.strength_le_atom _
  · rw [he] at h
    simp only at h
    split at h
    · cases h
    · next hlt => exact Nat.not_lt.mp hlt

/-- An operand that stands without a group binds tighter than its operator, unless the operator
chains and the operand goes on with the chain. -/
theorem strength_lt_of_groupedUnder {e : Expr} {op : Op} {side : Side}
    (h : e.groupedUnder op side = false)
    (hop : op.isComparison = true ∨ (side = .right ∧ continues op e = false)) :
    op.strength < e.level.strength := by
  refine Nat.lt_of_le_of_ne (strength_le_of_groupedUnder h) fun hs => ?_
  unfold groupedUnder at h
  rcases e.strength_eq with ⟨-, hl⟩ | he
  · rw [hl] at hs
    cases op <;> cases hs
  · rw [he, ← hs] at h
    rcases hop with hop | ⟨rfl, hc⟩
    · simp [hop] at h
    · rw [continues] at hc
      simp [hc] at h

/-- A binary operation is read as the operation of the readings of its operands, the right of
which may go on with the chain. -/
theorem reads_binary {left right : Expr} (op : Op)
    (hleft : Reads left.level left.tokens left.readBack)
    (hright : Reads right.level right.tokens right.readBack) :
    Reads op.level (binary left op right).tokens (binary left op right).readBack := by
  rw [tokens, List.append_assoc]
  rcases op.chain_or_isComparison with ⟨c, t, hl, ht, hc⟩ | ⟨hl, hcmp, hassoc⟩
  · have hloose (side : Side) (e : Expr) (hg : e.groupedUnder op side = false) :
        (Level.chain c).strength ≤ e.level.strength := by
      rw [← hl, op.strength_level]
      exact strength_le_of_groupedUnder hg
    have hacc := hleft.grouped (left.groupedUnder op .left) (hloose .left left)
    rw [hl, ht, List.singleton_append, readBack]
    split
    · next hcont =>
      have hg : right.groupedUnder op .right = false := by
        obtain ⟨hassoc, l, r, rfl⟩ := exists_of_continues hcont
        exact groupedUnder_right_self hassoc l r
      rw [hg]
      exact hacc.graft hc (hright.loosen (hloose .right right hg))
    · next hcont =>
      refine .chain op hc hacc (hright.grouped _ fun hg => ?_)
      have hlt := strength_lt_of_groupedUnder hg (Or.inr ⟨rfl, Bool.eq_false_iff.mpr hcont⟩)
      rw [← op.strength_level, hl] at hlt
      cases c <;> exact hlt
  · have htight (side : Side) (e : Expr) (hg : e.groupedUnder op side = false) :
        (Level.chain .sum).strength ≤ e.level.strength := by
      have hlt := strength_lt_of_groupedUnder hg (Or.inl hcmp)
      rwa [← op.strength_level, hl] at hlt
    rw [hl, readBack_binary hassoc]
    exact .compare op hcmp (hleft.grouped _ (htight .left left))
      (hright.grouped _ (htight .right right))

mutual

/-- The tokens of an expression are read as its tree with continued chains regrouped, at the level
of its outermost operator. -/
theorem reads_tokens : (e : Expr) → e.hasEmptyIn = false → Reads e.level e.tokens e.readBack
  | column c, _ => .column c.table c.column
  | literal v, _ => .literal v
  | not e, h =>
    .not ((reads_tokens e h).grouped _ fun hg =>
      Nat.le_of_lt (strength_lt_of_groupedBelow hg (by decide)))
  | binary left op right, h => by
    rw [hasEmptyIn, Bool.or_eq_false_iff] at h
    exact reads_binary op (reads_tokens left h.1) (reads_tokens right h.2)
  | nullTest e positive, h =>
    .nullTest positive
      ((reads_tokens e h).grouped _ fun hg => strength_lt_of_groupedBelow hg (by decide))
  | inList e candidates positive, h => by
    simp only [hasEmptyIn, Bool.or_eq_false_iff] at h
    have he := (reads_tokens e h.1.2).grouped (l := .chain .sum) (e.groupedBelow Op.comparison)
      fun hg => strength_lt_of_groupedBelow hg (by decide)
    exact .inList positive he (reads_tokensEach candidates h.1.1 h.2)
  | between e low high positive, h => by
    simp only [hasEmptyIn, Bool.or_eq_false_iff] at h
    have hsum (e : Expr) (h : Reads e.level e.tokens e.readBack) :=
      h.grouped (l := .chain .sum) (e.groupedBelow Op.comparison)
        fun hg => strength_lt_of_groupedBelow hg (by decide)
    rw [tokens, List.append_assoc, List.append_assoc]
    exact .between positive (hsum e (reads_tokens e h.1.1)) (hsum low (reads_tokens low h.1.2))
      (hsum high (reads_tokens high h.2))
  | parens e, h => (reads_tokens e h).grouped true fun h => absurd h (by decide)

theorem reads_tokensEach : (es : List Expr) → es.isEmpty = false → anyEmptyIn es = false →
    ReadsEach (Token.commaSeparated (tokensEach es)) (readBackEach es)
  | [e], _, h => by
    rw [anyEmptyIn, Bool.or_eq_false_iff] at h
    exact .one ((reads_tokens e h.1).loosen (Level.strength_or_le _))
  | e :: f :: es, _, h => by
    rw [anyEmptyIn, Bool.or_eq_false_iff] at h
    exact .more ((reads_tokens e h.1).loosen (Level.strength_or_le _))
      (reads_tokensEach (f :: es) rfl h.2)

end

end Expr

/-! ### The reading of a text -/

theorem Op.flatMap_visible_tokens (op : Op) : op.tokens.flatMap Token.visible = op.tokens := by
  cases op <;> rfl

theorem Expr.flatMap_visible_polarity (positive : Bool) :
    (polarity positive).flatMap Token.visible = polarity positive := by
  cases positive <;> rfl

mutual

/-- All that is read of an expression is seen where it is written. -/
theorem Reads.flatMap_visible : {l : Level} → {ts : List Token} → {e : Expr} → Reads l ts e →
    ts.flatMap Token.visible = ts
  | _, _, _, .column _ _ => rfl
  | _, _, _, .literal _ => rfl
  | _, _, _, .parens h => by simp [h.flatMap_visible, Token.visible]
  | _, _, _, .chain op ht he hf => by
    have hop := op.flatMap_visible_tokens
    rw [Chain.tokens_of_operator? ht, List.flatMap_singleton] at hop
    simp [he.flatMap_visible, hf.flatMap_visible, hop]
  | _, _, _, .operand h => h.flatMap_visible
  | _, _, _, .not h => by simp [h.flatMap_visible, Token.visible]
  | _, _, _, .positive h => h.flatMap_visible
  | _, _, _, .compare op _ he hf => by
    simp [he.flatMap_visible, hf.flatMap_visible, op.flatMap_visible_tokens]
  | _, _, _, .nullTest positive h => by
    simp [h.flatMap_visible, Expr.flatMap_visible_polarity, Token.visible]
  | _, _, _, .inList positive he hes => by
    simp [he.flatMap_visible, hes.flatMap_visible, Expr.flatMap_visible_polarity, Token.visible]
  | _, _, _, .between positive he hlow hhigh => by
    simp [he.flatMap_visible, hlow.flatMap_visible, hhigh.flatMap_visible,
      Expr.flatMap_visible_polarity, Token.visible]
  | _, _, _, .plain h => h.flatMap_visible

theorem ReadsEach.flatMap_visible : {ts : List Token} → {es : List Expr} → ReadsEach ts es →
    ts.flatMap Token.visible = ts
  | _, _, .one h => h.flatMap_visible
  | _, _, .more he hes => by simp [he.flatMap_visible, hes.flatMap_visible, Token.visible]

end

/-- The expression that the text of a statement is read as, with the bindings in the places of the
placeholders. Nothing may be left of the text. -/
def Compiled.read (mark : Char) (c : Compiled) : Option Expr := do
  let ls ← Lexeme.lex mark c.sql.toList
  let ts ← Lexeme.fill c.bindings 0 ls
  match parse (.chain .or) ts with
  | some (e, []) => some e
  | _ => none

namespace Expr

theorem compile_eq_ok {e : Expr} (h : e.hasEmptyIn = false) (ctx : Context) :
    e.compile ctx = .ok (Token.render ctx e.tokens) := by
  rw [compile, checked, h]
  rfl

/-- The text of an expression is read as `Expr.readBack`, and nothing is left of it. -/
theorem read_render {ctx : Context} {mark : Char} (hc : ctx.quoting.mark? = some mark) {e : Expr}
    (h : e.hasEmptyIn = false) : (Token.render ctx e.tokens).read mark = some e.readBack := by
  have hreads := reads_tokens e h
  have hfill : Lexeme.fill (Token.bindings e.tokens) 0
      (Token.lexemesFrom ctx.dialect 1 e.tokens) = some e.tokens := by
    have hseen := Lexeme.fill_lexemesFrom ctx.dialect [] e.tokens
    rwa [hreads.flatMap_visible] at hseen
  have hparse : parse (.chain .or) e.tokens = some (e.readBack, []) :=
    parse_eq_some_iff.mpr (hreads.loosen (Level.strength_or_le _))
  rw [Compiled.read, Token.render, Lexeme.lex_textOf hc]
  simp only [bind, Option.bind, hfill, hparse]

end Expr

end SqlCompose
