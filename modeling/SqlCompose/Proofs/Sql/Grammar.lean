import SqlCompose.Expr.Print

/-!
# The grammar of expressions

Expressions are read by levels, each of which binds tighter than the one before it: `OR`, `AND`,
`NOT`, the tests, sums, products, and atoms. The operators of a chain level associate to the left.
A test compares two sums, or asks whether a sum is null, among candidates or in a range; tests do
not chain. `Reads` is the grammar itself, and `parse` the reader that goes down its levels.

A column that is read has no field of its own, so that it is taken to be the field of its column's
name.

## Main definitions

* `Level`, `Chain`: the levels, and those of operators that chain.
* `Reads`, `ReadsEach`: which token lists a tree, or a list of candidates, is the reading of.
* `parse`: the reader.

## Main results

* `Reads.parse_append`: the reader finds the reading of a token list in front of every token list
  that does not continue it, so that a token list has one reading at most.
* `reads_of_parse`: what the reader finds is a reading of the tokens that it takes.
* `parse_eq_some_iff`: the reader takes the whole of a token list for a tree exactly when the
  grammar does.
-/

namespace SqlCompose

/-! ### Levels -/

/-- The levels whose operators chain to the left. -/
inductive Chain where
  | or
  | and
  | sum
  | product
  deriving DecidableEq, Repr

/-- The levels of the grammar. -/
inductive Level where
  | chain (c : Chain)
  | negation
  | test
  | atom
  deriving DecidableEq, Repr

namespace Chain

/-- The level that the operands of a chain are read at. -/
def next : Chain → Level
  | or => .chain .and
  | and => .negation
  | sum => .chain .product
  | product => .atom

/-- The operator of the chain that a token stands for. -/
def operator? : Chain → Token → Option Op
  | or, .keyword .OR => some .or
  | and, .keyword .AND => some .and
  | sum, .sign .plus => some .add
  | sum, .sign .minus => some .subtract
  | product, .sign .star => some .multiply
  | product, .sign .slash => some .divide
  | _, _ => none

end Chain

namespace Level

/-- How tightly the operators of a level bind. -/
def strength : Level → Nat
  | chain .or => 1
  | chain .and => 2
  | negation => Op.negation
  | test => Op.comparison
  | chain .sum => 5
  | chain .product => 6
  | atom => 7

/-- The number of levels below a level. -/
def depth (l : Level) : Nat := 7 - l.strength

theorem depth_next_lt (c : Chain) : c.next.depth < (chain c).depth := by
  cases c <;> decide

theorem strength_lt_next (c : Chain) : (chain c).strength < c.next.strength := by
  cases c <;> decide

end Level

theorem Chain.strength_of_operator? {c : Chain} {t : Token} {op : Op}
    (h : c.operator? t = some op) : op.strength = (Level.chain c).strength := by
  unfold operator? at h
  split at h <;> cases h <;> rfl

theorem Chain.tokens_of_operator? {c : Chain} {t : Token} {op : Op}
    (h : c.operator? t = some op) : op.tokens = [t] := by
  unfold operator? at h
  split at h <;> cases h <;> rfl

/-! ### The grammar -/

mutual

/-- The tree is the reading of the token list at the level. -/
inductive Reads : Level → List Token → Expr → Prop
  | column (table column : String) :
      Reads .atom [.name table, .dot, .name column] (.column ⟨table, column, column⟩)
  | literal (v : Value) : Reads .atom [.bound v] (.literal v)
  | parens {ts e} (h : Reads (.chain .or) ts e) :
      Reads .atom (.opening :: (ts ++ [.closing])) (.parens e)
  | chain {c ts us t e f} (op : Op) (ht : c.operator? t = some op) (he : Reads (.chain c) ts e)
      (hf : Reads c.next us f) : Reads (.chain c) (ts ++ t :: us) (.binary e op f)
  | operand {c ts e} (h : Reads c.next ts e) : Reads (.chain c) ts e
  | not {ts e} (h : Reads .negation ts e) : Reads .negation (.keyword .NOT :: ts) (.not e)
  | positive {ts e} (h : Reads .test ts e) : Reads .negation ts e
  | compare {ts us e f} (op : Op) (hop : op.isComparison = true) (he : Reads (.chain .sum) ts e)
      (hf : Reads (.chain .sum) us f) : Reads .test (ts ++ (op.tokens ++ us)) (.binary e op f)
  | nullTest {ts e} (positive : Bool) (h : Reads (.chain .sum) ts e) :
      Reads .test (ts ++ (.keyword .IS :: Expr.polarity positive ++ [.keyword .NULL]))
        (.nullTest e positive)
  | inList {ts us e es} (positive : Bool) (he : Reads (.chain .sum) ts e) (hes : ReadsEach us es) :
      Reads .test
        (ts ++ (Expr.polarity positive ++ .keyword .IN :: .opening :: (us ++ [.closing])))
        (.inList e es positive)
  | between {ts us vs e low high} (positive : Bool) (he : Reads (.chain .sum) ts e)
      (hlow : Reads (.chain .sum) us low) (hhigh : Reads (.chain .sum) vs high) :
      Reads .test
        (ts ++ (Expr.polarity positive ++ .keyword .BETWEEN :: (us ++ .keyword .AND :: vs)))
        (.between e low high positive)
  | plain {ts e} (h : Reads (.chain .sum) ts e) : Reads .test ts e

/-- The trees are the readings of the token lists between commas. -/
inductive ReadsEach : List Token → List Expr → Prop
  | one {ts e} (h : Reads (.chain .or) ts e) : ReadsEach ts [e]
  | more {ts us e es} (he : Reads (.chain .or) ts e) (hes : ReadsEach us es) :
      ReadsEach (ts ++ .comma :: us) (e :: es)

end

/-- A tree that is read at a level has no outermost operator that binds looser. -/
theorem Reads.strength_le : {l : Level} → {ts : List Token} → {e : Expr} → Reads l ts e →
    ∀ s, e.strength = some s → l.strength ≤ s
  | _, _, _, .column _ _, _, hs => by simp [Expr.strength] at hs
  | _, _, _, .literal _, _, hs => by simp [Expr.strength] at hs
  | _, _, _, .parens _, _, hs => by simp [Expr.strength] at hs
  | _, _, _, .chain op ht _ _, _, hs => by
    rw [Expr.strength, Option.some.injEq, Chain.strength_of_operator? ht] at hs
    exact Nat.le_of_eq hs
  | _, _, _, .operand (c := c) h, s, hs =>
    Nat.le_trans (Nat.le_of_lt (Level.strength_lt_next c)) (h.strength_le s hs)
  | _, _, _, .not _, _, hs => Nat.le_of_eq (Option.some.inj hs)
  | _, _, _, .positive h, s, hs => Nat.le_of_succ_le (h.strength_le s hs)
  | _, _, _, .compare op hop _ _, _, hs => by
    rw [Expr.strength, Option.some.injEq] at hs
    rw [Op.isComparison, beq_iff_eq, hs] at hop
    exact Nat.le_of_eq hop.symm
  | _, _, _, .nullTest _ _, _, hs => Nat.le_of_eq (Option.some.inj hs)
  | _, _, _, .inList _ _ _, _, hs => Nat.le_of_eq (Option.some.inj hs)
  | _, _, _, .between _ _ _ _, _, hs => Nat.le_of_eq (Option.some.inj hs)
  | _, _, _, .plain h, s, hs => Nat.le_of_succ_le (h.strength_le s hs)

/-- A reading takes a token, and none that reads a test begins with `NOT`. -/
theorem Reads.exists_cons : {l : Level} → {ts : List Token} → {e : Expr} → Reads l ts e →
    ∃ t us, ts = t :: us ∧ (Op.comparison ≤ l.strength → t ≠ .keyword .NOT)
  | _, _, _, .column _ _ => ⟨_, _, rfl, fun _ => by simp⟩
  | _, _, _, .literal _ => ⟨_, _, rfl, fun _ => by simp⟩
  | _, _, _, .parens _ => ⟨_, _, rfl, fun _ => by simp⟩
  | _, _, _, .chain _ _ he _ => by
    obtain ⟨t, us, rfl, ht⟩ := he.exists_cons
    exact ⟨t, _, rfl, ht⟩
  | _, _, _, .operand (c := c) h => by
    obtain ⟨t, us, rfl, ht⟩ := h.exists_cons
    exact ⟨t, us, rfl, fun hl => ht (Nat.le_trans hl (Nat.le_of_lt (Level.strength_lt_next c)))⟩
  | _, _, _, .not _ => ⟨_, _, rfl, fun hl => absurd hl (by decide)⟩
  | _, _, _, .positive h => by
    obtain ⟨t, us, rfl, ht⟩ := h.exists_cons
    exact ⟨t, us, rfl, fun _ => ht (Nat.le_refl _)⟩
  | _, _, _, .compare _ _ he _ => by
    obtain ⟨t, us, rfl, ht⟩ := he.exists_cons
    exact ⟨t, _, rfl, fun _ => ht (by decide)⟩
  | _, _, _, .nullTest _ h => by
    obtain ⟨t, us, rfl, ht⟩ := h.exists_cons
    exact ⟨t, _, rfl, fun _ => ht (by decide)⟩
  | _, _, _, .inList _ he _ => by
    obtain ⟨t, us, rfl, ht⟩ := he.exists_cons
    exact ⟨t, _, rfl, fun _ => ht (by decide)⟩
  | _, _, _, .between _ he _ _ => by
    obtain ⟨t, us, rfl, ht⟩ := he.exists_cons
    exact ⟨t, _, rfl, fun _ => ht (by decide)⟩
  | _, _, _, .plain h => by
    obtain ⟨t, us, rfl, ht⟩ := h.exists_cons
    exact ⟨t, us, rfl, fun _ => ht (by decide)⟩

/-! ### The reader -/

/-- What stands behind the first sum of a test. -/
inductive TestHead where
  | compare (op : Op)
  | nullTest (positive : Bool)
  | inList (positive : Bool)
  | between (positive : Bool)
  deriving DecidableEq, Repr

namespace TestHead

/-- The tokens of the head of a test, the opening parenthesis of the candidates among them. -/
def tokens : TestHead → List Token
  | compare op => op.tokens
  | nullTest positive => .keyword .IS :: Expr.polarity positive ++ [.keyword .NULL]
  | inList positive => Expr.polarity positive ++ [.keyword .IN, .opening]
  | between positive => Expr.polarity positive ++ [.keyword .BETWEEN]

/-- Reads the head of a test. -/
def ofTokens? : List Token → Option (TestHead × List Token)
  | .sign .equal :: ts => some (compare .eq, ts)
  | .sign .notEqual :: ts => some (compare .notEq, ts)
  | .sign .greater :: ts => some (compare .gt, ts)
  | .sign .greaterEqual :: ts => some (compare .gte, ts)
  | .sign .less :: ts => some (compare .lt, ts)
  | .sign .lessEqual :: ts => some (compare .lte, ts)
  | .keyword .LIKE :: ts => some (compare .like, ts)
  | .keyword .NOT :: .keyword .LIKE :: ts => some (compare .notLike, ts)
  | .keyword .IS :: .keyword .NULL :: ts => some (nullTest true, ts)
  | .keyword .IS :: .keyword .NOT :: .keyword .NULL :: ts => some (nullTest false, ts)
  | .keyword .IN :: .opening :: ts => some (inList true, ts)
  | .keyword .NOT :: .keyword .IN :: .opening :: ts => some (inList false, ts)
  | .keyword .BETWEEN :: ts => some (between true, ts)
  | .keyword .NOT :: .keyword .BETWEEN :: ts => some (between false, ts)
  | _ => none

/-- Whether the head is one that stands in a statement: only comparisons compare. -/
def IsValid : TestHead → Prop
  | compare op => op.isComparison = true
  | _ => True

theorem ofTokens?_tokens {head : TestHead} (h : head.IsValid) (ts : List Token) :
    ofTokens? (head.tokens ++ ts) = some (head, ts) := by
  cases head with
  | compare op => cases op <;> first | rfl | cases h
  | nullTest positive => cases positive <;> rfl
  | inList positive => cases positive <;> rfl
  | between positive => cases positive <;> rfl

theorem eq_of_ofTokens? {ts us : List Token} {head : TestHead}
    (h : ofTokens? ts = some (head, us)) : head.IsValid ∧ ts = head.tokens ++ us := by
  unfold ofTokens? at h
  split at h <;> cases h <;> exact ⟨by first | rfl | trivial, rfl⟩

end TestHead

mutual

/-- Reads a tree of the level off the front of a token list. -/
def parse (l : Level) (ts : List Token) : Option (Expr × List Token) :=
  match l with
  | .atom =>
    match ts with
    | .name table :: .dot :: .name column :: rest =>
      some (.column ⟨table, column, column⟩, rest)
    | .bound v :: rest => some (.literal v, rest)
    | .opening :: us =>
      match parse (.chain .or) us with
      | some (e, .closing :: rest) => some (.parens e, rest)
      | _ => none
    | _ => none
  | .negation =>
    match ts with
    | .keyword .NOT :: us => (parse .negation us).map fun (e, rest) => (.not e, rest)
    | ts => parse .test ts
  | .test =>
    match parse (.chain .sum) ts with
    | none => none
    | some (e, rest) =>
      match TestHead.ofTokens? rest with
      | none => some (e, rest)
      | some (head, us) => if us.length < ts.length then parseTest e head us else none
  | .chain c =>
    match parse c.next ts with
    | none => none
    | some (e, rest) => if rest.length < ts.length then parseChain c e rest else none
termination_by (ts.length, l.depth)
decreasing_by
  all_goals
    first
    | decreasing_tactic
    | exact Prod.Lex.right _ (Level.depth_next_lt c)
    | exact Prod.Lex.right _ (by decide)

/-- Reads the rest of a chain behind its first operands, which `acc` is the reading of. -/
def parseChain (c : Chain) (acc : Expr) (ts : List Token) : Option (Expr × List Token) :=
  match ts with
  | [] => some (acc, [])
  | t :: us =>
    match c.operator? t with
    | none => some (acc, t :: us)
    | some op =>
      match parse c.next us with
      | none => none
      | some (e, rest) =>
        if rest.length < us.length then parseChain c (.binary acc op e) rest else none
termination_by (ts.length, 0)

/-- Reads the rest of a test of `e` behind its head. -/
def parseTest (e : Expr) (head : TestHead) (ts : List Token) : Option (Expr × List Token) :=
  match head with
  | .compare op => (parse (.chain .sum) ts).map fun (f, rest) => (.binary e op f, rest)
  | .nullTest positive => some (.nullTest e positive, ts)
  | .inList positive => (parseEach ts).map fun (es, rest) => (.inList e es positive, rest)
  | .between positive =>
    match parse (.chain .sum) ts with
    | some (low, .keyword .AND :: us) =>
      if us.length < ts.length then
        (parse (.chain .sum) us).map fun (high, rest) => (.between e low high positive, rest)
      else none
    | _ => none
termination_by (ts.length, 8)
decreasing_by all_goals first | decreasing_tactic | exact Prod.Lex.right _ (by decide)

/-- Reads candidates up to the parenthesis that closes them. -/
def parseEach (ts : List Token) : Option (List Expr × List Token) :=
  match parse (.chain .or) ts with
  | some (e, .closing :: rest) => some ([e], rest)
  | some (e, .comma :: us) =>
    if us.length < ts.length then (parseEach us).map fun (es, rest) => (e :: es, rest) else none
  | _ => none
termination_by (ts.length, 7)
decreasing_by all_goals first | decreasing_tactic | exact Prod.Lex.right _ (by decide)

end

/-! ### The reader finds every reading -/

/-- How tightly what a token begins would bind to the operand before it. -/
def Token.tightness : Token → Nat
  | keyword .OR => 1
  | keyword .AND => 2
  | keyword .NOT | keyword .LIKE | keyword .IS | keyword .IN | keyword .BETWEEN => Op.comparison
  | sign .plus | sign .minus => 5
  | sign .star | sign .slash => 6
  | sign _ => Op.comparison
  | _ => 0

/-- Whether a token list does not continue a reading of the level that it stands behind. -/
def Stops (l : Level) (ts : List Token) : Prop := ∀ t ∈ ts.head?, t.tightness < l.strength

theorem Stops.mono {l l' : Level} {ts : List Token} (h : Stops l ts)
    (hl : l.strength ≤ l'.strength) : Stops l' ts :=
  fun t ht => Nat.lt_of_lt_of_le (h t ht) hl

theorem Stops.next {c : Chain} {ts : List Token} (h : Stops (.chain c) ts) : Stops c.next ts :=
  h.mono (Nat.le_of_lt (Level.strength_lt_next c))

theorem stops_cons {l : Level} {t : Token} (h : t.tightness < l.strength) (ts : List Token) :
    Stops l (t :: ts) := by
  intro t' ht'
  rwa [← Option.some.inj ht']

theorem Chain.tightness_of_operator? {c : Chain} {t : Token} {op : Op}
    (h : c.operator? t = some op) : t.tightness = (Level.chain c).strength := by
  unfold operator? at h
  split at h <;> cases h <;> rfl

theorem TestHead.ofTokens?_cons_of_loose {t : Token} {ts : List Token}
    (h : t.tightness < Op.comparison) : ofTokens? (t :: ts) = none := by
  unfold ofTokens?
  split <;> first | rfl | exact absurd h (by simp_all [Token.tightness])

theorem TestHead.ofTokens?_of_stops {ts : List Token} (h : Stops .test ts) :
    ofTokens? ts = none := by
  cases ts with
  | nil => rfl
  | cons t us => exact ofTokens?_cons_of_loose (h t rfl)

theorem TestHead.exists_cons {head : TestHead} (h : head.IsValid) :
    ∃ t us, head.tokens = t :: us ∧ t.tightness = Op.comparison := by
  cases head with
  | compare op => cases op <;> first | exact ⟨_, _, rfl, rfl⟩ | cases h
  | nullTest positive => exact ⟨_, _, rfl, rfl⟩
  | inList positive => cases positive <;> exact ⟨_, _, rfl, rfl⟩
  | between positive => cases positive <;> exact ⟨_, _, rfl, rfl⟩

/-- A chain ends where its operators do. -/
theorem parseChain_of_stops {c : Chain} {ts : List Token} (acc : Expr)
    (h : Stops (.chain c) ts) : parseChain c acc ts = some (acc, ts) := by
  cases ts with
  | nil => rw [parseChain]
  | cons t us =>
    have hop : c.operator? t = none := by
      cases ht : c.operator? t with
      | none => rfl
      | some op => exact absurd (h t rfl) (by rw [Chain.tightness_of_operator? ht]; omega)
    rw [parseChain, hop]

/-- What the reader does with a reading in front of other tokens: the operands of a chain that are
read are the start of what follows, and every other reading is finished. -/
def Resumes : Level → List Token → Expr → Prop
  | .chain c, ts, e =>
    ∀ rest, Stops c.next rest → parse (.chain c) (ts ++ rest) = parseChain c e rest
  | l, ts, e => ∀ rest, Stops l rest → parse l (ts ++ rest) = some (e, rest)

theorem Resumes.parse_append {l : Level} {ts rest : List Token} {e : Expr} (h : Resumes l ts e)
    (hr : Stops l rest) : parse l (ts ++ rest) = some (e, rest) := by
  cases l with
  | chain c => rw [h rest hr.next, parseChain_of_stops e hr]
  | negation => exact h rest hr
  | test => exact h rest hr
  | atom => exact h rest hr

private theorem stops_sum_of_test {ts : List Token} (h : Stops .test ts) : Stops (.chain .sum) ts :=
  h.mono (by decide)

/-- A sum in front of the head of a test is read up to the head, and the rest of the test next. -/
private theorem parse_test_head {ts : List Token} {e : Expr} (he : Resumes (.chain .sum) ts e)
    (head : TestHead) (hhead : head.IsValid) (us : List Token) :
    parse .test (ts ++ (head.tokens ++ us)) = parseTest e head us := by
  obtain ⟨t, vs, hts, ht⟩ := TestHead.exists_cons hhead
  have hstop : Stops (.chain .sum) (head.tokens ++ us) := by
    rw [hts]
    exact stops_cons (by rw [ht]; decide) _
  have hlt : us.length < (ts ++ (head.tokens ++ us)).length := by
    simp only [hts, List.length_append, List.length_cons]
    omega
  rw [parse, he.parse_append hstop]
  simp only [TestHead.ofTokens?_tokens hhead, hlt, ↓reduceIte]

private theorem parse_positive {ts : List Token} (h : ∀ us, ts ≠ .keyword .NOT :: us) :
    parse .negation ts = parse .test ts := by
  rw [parse.eq_def]
  dsimp only
  split
  · next us => exact absurd rfl (h us)
  · rfl

theorem Reads.length_lt_append {l : Level} {ts : List Token} {e : Expr} (h : Reads l ts e)
    (rest : List Token) : rest.length < (ts ++ rest).length := by
  obtain ⟨t, us, rfl, -⟩ := h.exists_cons
  simp only [List.length_append, List.length_cons]
  omega

mutual

/-- The reader finds a reading in front of all that does not continue it. -/
theorem Reads.resumes : {l : Level} → {ts : List Token} → {e : Expr} → Reads l ts e →
    Resumes l ts e
  | _, _, _, .column _ _ => fun rest _ => by simp [parse]
  | _, _, _, .literal _ => fun rest _ => by simp [parse]
  | _, _, _, .parens h => fun rest _ => by
    have hin := h.resumes.parse_append (stops_cons (t := .closing) (by decide) rest)
    rw [List.cons_append, List.append_assoc, List.singleton_append, parse, hin]
  | _, _, _, .chain op ht he hf => fun rest hr => by
    have hloose := Chain.tightness_of_operator? ht ▸ Level.strength_lt_next _
    rw [List.append_assoc, List.cons_append, he.resumes _ (stops_cons hloose _), parseChain, ht]
    simp only [hf.resumes.parse_append hr, hf.length_lt_append rest, ↓reduceIte]
  | _, _, _, .operand h => fun rest hr => by
    rw [parse, h.resumes.parse_append hr]
    simp only [h.length_lt_append rest, ↓reduceIte]
  | _, _, _, .not h => fun rest hr => by
    rw [List.cons_append, parse, h.resumes rest hr]
    rfl
  | _, ts, _, .positive h => fun rest hr => by
    have hnot : ∀ us, ts ++ rest ≠ .keyword .NOT :: us := by
      intro us hus
      obtain ⟨t, vs, hts, ht⟩ := h.exists_cons
      rw [hts, List.cons_append] at hus
      exact ht (Nat.le_refl _) (List.cons.inj hus).1
    rw [parse_positive hnot, h.resumes rest (hr.mono (by decide))]
  | _, _, _, @Reads.compare ts us e f op hop he hf => fun rest hr => by
    have hhead := parse_test_head he.resumes (.compare op) hop (us ++ rest)
    rw [parseTest, hf.resumes.parse_append (stops_sum_of_test hr)] at hhead
    simpa [TestHead.tokens] using hhead
  | _, _, _, .nullTest positive h => fun rest _ => by
    have hhead := parse_test_head h.resumes (.nullTest positive) trivial rest
    rw [TestHead.tokens, parseTest] at hhead
    rw [List.append_assoc, hhead]
  | _, _, _, @Reads.inList ts us e es positive he hes => fun rest _ => by
    have hhead := parse_test_head he.resumes (.inList positive) trivial (us ++ .closing :: rest)
    rw [parseTest, hes.parse_append rest] at hhead
    simpa [TestHead.tokens] using hhead
  | _, _, _, @Reads.between ts us vs e low high positive he hlow hhigh => fun rest hr => by
    have hhead := parse_test_head he.resumes (.between positive) trivial
      (us ++ .keyword .AND :: (vs ++ rest))
    have hstop : Stops (.chain .sum) (.keyword .AND :: (vs ++ rest)) := stops_cons (by decide) _
    have hlt : (vs ++ rest).length < (us ++ .keyword .AND :: (vs ++ rest)).length := by
      simp only [List.length_append, List.length_cons]
      omega
    rw [parseTest, hlow.resumes.parse_append hstop] at hhead
    simp only [hlt, ↓reduceIte, hhigh.resumes.parse_append (stops_sum_of_test hr)] at hhead
    simpa [TestHead.tokens] using hhead
  | _, _, _, .plain h => fun rest hr => by
    rw [parse, h.resumes.parse_append (stops_sum_of_test hr)]
    simp only [TestHead.ofTokens?_of_stops hr]

/-- The reader finds the candidates in front of the parenthesis that closes them. -/
theorem ReadsEach.parse_append : {ts : List Token} → {es : List Expr} → ReadsEach ts es →
    ∀ rest, parseEach (ts ++ .closing :: rest) = some (es, rest)
  | _, _, .one h => fun rest => by
    rw [parseEach, h.resumes.parse_append (stops_cons (by decide) rest)]
  | _, _, @ReadsEach.more ts us e es he hes => fun rest => by
    have hstop : Stops (.chain .or) (.comma :: (us ++ .closing :: rest)) :=
      stops_cons (by decide) _
    have hlt := he.length_lt_append (.comma :: (us ++ .closing :: rest))
    rw [List.append_assoc, List.cons_append, parseEach, he.resumes.parse_append hstop]
    simp only [Nat.lt_of_succ_lt hlt, hes.parse_append rest, ↓reduceIte]
    rfl

end

theorem Reads.parse_append {l : Level} {ts rest : List Token} {e : Expr} (h : Reads l ts e)
    (hr : Stops l rest) : parse l (ts ++ rest) = some (e, rest) :=
  h.resumes.parse_append hr

/-! ### What the reader finds is a reading -/

section Inversion

variable {ts rest : List Token} {e : Expr}

theorem parse_atom_cases (h : parse .atom ts = some (e, rest)) :
    (∃ table column, ts = .name table :: .dot :: .name column :: rest ∧
      e = .column ⟨table, column, column⟩) ∨
    (∃ v, ts = .bound v :: rest ∧ e = .literal v) ∨
    ∃ us f, ts = .opening :: us ∧ parse (.chain .or) us = some (f, .closing :: rest) ∧
      e = .parens f := by
  rw [parse.eq_def] at h
  dsimp only at h
  split at h
  · cases h
    exact Or.inl ⟨_, _, rfl, rfl⟩
  · cases h
    exact Or.inr (Or.inl ⟨_, rfl, rfl⟩)
  · split at h
    · next hf =>
      cases h
      exact Or.inr (Or.inr ⟨_, _, rfl, hf, rfl⟩)
    · cases h
  · cases h

theorem parse_negation_cases (h : parse .negation ts = some (e, rest)) :
    (∃ us f, ts = .keyword .NOT :: us ∧ parse .negation us = some (f, rest) ∧ e = .not f) ∨
    parse .test ts = some (e, rest) := by
  rw [parse.eq_def] at h
  dsimp only at h
  split at h
  · obtain ⟨⟨f, us⟩, hf, he⟩ := Option.map_eq_some_iff.mp h
    cases he
    exact Or.inl ⟨_, f, rfl, hf, rfl⟩
  · exact Or.inr h

theorem parse_test_cases (h : parse .test ts = some (e, rest)) :
    parse (.chain .sum) ts = some (e, rest) ∨
    ∃ f head us, parse (.chain .sum) ts = some (f, head.tokens ++ us) ∧ head.IsValid ∧
      us.length < ts.length ∧ parseTest f head us = some (e, rest) := by
  rw [parse] at h
  split at h
  · cases h
  · next f us hf =>
    split at h
    · cases h
      exact Or.inl hf
    · next head vs hhead =>
      obtain ⟨hvalid, rfl⟩ := TestHead.eq_of_ofTokens? hhead
      split at h
      · next hlt => exact Or.inr ⟨f, head, vs, hf, hvalid, hlt, h⟩
      · cases h

theorem parse_chain_cases {c : Chain} (h : parse (.chain c) ts = some (e, rest)) :
    ∃ f us, parse c.next ts = some (f, us) ∧ us.length < ts.length ∧
      parseChain c f us = some (e, rest) := by
  rw [parse] at h
  split at h
  · cases h
  · next f us hf =>
    split at h
    · next hlt => exact ⟨f, us, hf, hlt, h⟩
    · cases h

theorem parseChain_cases {c : Chain} {acc : Expr} (h : parseChain c acc ts = some (e, rest)) :
    (e = acc ∧ rest = ts) ∨
    ∃ t us op f vs, ts = t :: us ∧ c.operator? t = some op ∧ parse c.next us = some (f, vs) ∧
      vs.length < us.length ∧ parseChain c (.binary acc op f) vs = some (e, rest) := by
  rw [parseChain.eq_def] at h
  split at h
  · cases h
    exact Or.inl ⟨rfl, rfl⟩
  · next t us =>
    split at h
    · cases h
      exact Or.inl ⟨rfl, rfl⟩
    · next op hop =>
      split at h
      · cases h
      · next f vs hf =>
        split at h
        · next hlt => exact Or.inr ⟨t, us, op, f, vs, rfl, hop, hf, hlt, h⟩
        · cases h

theorem parseTest_between_cases {f : Expr} {positive : Bool}
    (h : parseTest f (.between positive) ts = some (e, rest)) :
    ∃ low us high, parse (.chain .sum) ts = some (low, .keyword .AND :: us) ∧
      us.length < ts.length ∧ parse (.chain .sum) us = some (high, rest) ∧
      e = .between f low high positive := by
  rw [parseTest] at h
  split at h
  · next low us hlow =>
    split at h
    · next hlt =>
      obtain ⟨⟨high, vs⟩, hhigh, he⟩ := Option.map_eq_some_iff.mp h
      cases he
      exact ⟨low, us, high, hlow, hlt, hhigh, rfl⟩
    · cases h
  · cases h

theorem parseEach_cases {es : List Expr} (h : parseEach ts = some (es, rest)) :
    (∃ e, parse (.chain .or) ts = some (e, .closing :: rest) ∧ es = [e]) ∨
    ∃ e us fs, parse (.chain .or) ts = some (e, .comma :: us) ∧ us.length < ts.length ∧
      parseEach us = some (fs, rest) ∧ es = e :: fs := by
  rw [parseEach.eq_def] at h
  split at h
  · next e us he =>
    cases h
    exact Or.inl ⟨e, he, rfl⟩
  · next e us he =>
    split at h
    · next hlt =>
      obtain ⟨⟨fs, vs⟩, hfs, hes⟩ := Option.map_eq_some_iff.mp h
      cases hes
      exact Or.inr ⟨e, us, fs, he, hlt, hfs, rfl⟩
    · cases h
  · cases h

end Inversion

mutual

/-- What the reader finds is the reading of the tokens that it takes. -/
theorem reads_of_parse (l : Level) (ts : List Token) {e : Expr} {rest : List Token}
    (h : parse l ts = some (e, rest)) : ∃ us, ts = us ++ rest ∧ Reads l us e := by
  match l with
  | .atom =>
    rcases parse_atom_cases h with ⟨table, column, hts, rfl⟩ | ⟨v, hts, rfl⟩ | ⟨us, f, hts, hf, rfl⟩
    · exact ⟨_, hts, .column table column⟩
    · exact ⟨_, hts, .literal v⟩
    · obtain ⟨vs, hus, hvs⟩ := reads_of_parse (.chain .or) us hf
      exact ⟨.opening :: (vs ++ [.closing]), by simp [hts, hus], .parens hvs⟩
  | .negation =>
    rcases parse_negation_cases h with ⟨us, f, hts, hf, rfl⟩ | hf
    · obtain ⟨vs, hus, hvs⟩ := reads_of_parse .negation us hf
      exact ⟨.keyword .NOT :: vs, by simp [hts, hus], .not hvs⟩
    · obtain ⟨us, hts, hus⟩ := reads_of_parse .test ts hf
      exact ⟨us, hts, .positive hus⟩
  | .test =>
    rcases parse_test_cases h with hf | ⟨f, head, us, hf, hhead, hlt, ht⟩
    · obtain ⟨us, hts, hus⟩ := reads_of_parse (.chain .sum) ts hf
      exact ⟨us, hts, .plain hus⟩
    · obtain ⟨vs, hts, hvs⟩ := reads_of_parse (.chain .sum) ts hf
      obtain ⟨ws, hus, hws⟩ := reads_of_parseTest head us hhead ht hvs
      exact ⟨vs ++ (head.tokens ++ ws), by simp [hts, hus], hws⟩
  | .chain c =>
    obtain ⟨f, us, hf, hlt, hc⟩ := parse_chain_cases h
    obtain ⟨vs, hts, hvs⟩ := reads_of_parse c.next ts hf
    obtain ⟨ws, hus, hws⟩ := reads_of_parseChain c us hc (.operand hvs)
    exact ⟨vs ++ ws, by simp [hts, hus], hws⟩
termination_by (ts.length, l.depth)
decreasing_by
  all_goals
    first
    | decreasing_tactic
    | exact Prod.Lex.right _ (Level.depth_next_lt c)
    | exact Prod.Lex.right _ (by decide)

theorem reads_of_parseChain (c : Chain) (ts : List Token) {acc e : Expr} {us rest : List Token}
    (h : parseChain c acc ts = some (e, rest)) (hacc : Reads (.chain c) us acc) :
    ∃ vs, ts = vs ++ rest ∧ Reads (.chain c) (us ++ vs) e := by
  rcases parseChain_cases h with ⟨rfl, rfl⟩ | ⟨t, vs, op, f, ws, hts, hop, hf, hlt, hc⟩
  · exact ⟨[], rfl, by rwa [List.append_nil]⟩
  · obtain ⟨xs, hvs, hxs⟩ := reads_of_parse c.next vs hf
    obtain ⟨ys, hws, hys⟩ := reads_of_parseChain c ws hc (.chain op hop hacc hxs)
    exact ⟨t :: (xs ++ ys), by simp [hts, hvs, hws], by simpa using hys⟩
termination_by (ts.length, 0)
decreasing_by
  · exact Prod.Lex.left _ _ (by simp [hts])
  · exact Prod.Lex.left _ _ (by simp only [hts, List.length_cons]; omega)

theorem reads_of_parseTest (head : TestHead) (ts : List Token) {e f : Expr}
    {us rest : List Token} (hhead : head.IsValid) (h : parseTest e head ts = some (f, rest))
    (he : Reads (.chain .sum) us e) :
    ∃ vs, ts = vs ++ rest ∧ Reads .test (us ++ (head.tokens ++ vs)) f := by
  match head with
  | .compare op =>
    rw [parseTest] at h
    obtain ⟨⟨g, vs⟩, hg, hfg⟩ := Option.map_eq_some_iff.mp h
    cases hfg
    obtain ⟨ws, hts, hws⟩ := reads_of_parse (.chain .sum) ts hg
    exact ⟨ws, hts, .compare op hhead he hws⟩
  | .nullTest positive =>
    rw [parseTest] at h
    cases h
    exact ⟨[], rfl, by simpa [TestHead.tokens] using Reads.nullTest positive he⟩
  | .inList positive =>
    rw [parseTest] at h
    obtain ⟨⟨es, vs⟩, hes, hfg⟩ := Option.map_eq_some_iff.mp h
    cases hfg
    obtain ⟨ws, hts, hws⟩ := reads_of_parseEach ts hes
    exact ⟨ws ++ [.closing], by simp [hts],
      by simpa [TestHead.tokens] using Reads.inList positive he hws⟩
  | .between positive =>
    obtain ⟨low, vs, high, hlow, hlt, hhigh, rfl⟩ := parseTest_between_cases h
    obtain ⟨ws, hts, hws⟩ := reads_of_parse (.chain .sum) ts hlow
    obtain ⟨xs, hvs, hxs⟩ := reads_of_parse (.chain .sum) vs hhigh
    exact ⟨ws ++ .keyword .AND :: xs, by simp [hts, hvs],
      by simpa [TestHead.tokens] using Reads.between positive he hws hxs⟩
termination_by (ts.length, 8)
decreasing_by
  · exact Prod.Lex.right _ (by decide)
  · exact Prod.Lex.right _ (by decide)
  · exact Prod.Lex.right _ (by decide)
  · exact Prod.Lex.left _ _ hlt

theorem reads_of_parseEach (ts : List Token) {es : List Expr} {rest : List Token}
    (h : parseEach ts = some (es, rest)) :
    ∃ us, ts = us ++ .closing :: rest ∧ ReadsEach us es := by
  rcases parseEach_cases h with ⟨e, he, rfl⟩ | ⟨e, us, fs, he, hlt, hfs, rfl⟩
  · obtain ⟨us, hts, hus⟩ := reads_of_parse (.chain .or) ts he
    exact ⟨us, hts, .one hus⟩
  · obtain ⟨vs, hts, hvs⟩ := reads_of_parse (.chain .or) ts he
    obtain ⟨ws, hus, hws⟩ := reads_of_parseEach us hfs
    exact ⟨vs ++ .comma :: ws, by simp [hts, hus], .more hvs hws⟩
termination_by (ts.length, 7)
decreasing_by
  · exact Prod.Lex.right _ (by decide)
  · exact Prod.Lex.right _ (by decide)
  · exact Prod.Lex.left _ _ hlt

end

/-- The reader takes the whole of a token list for a tree exactly when the tree is its reading. -/
theorem parse_eq_some_iff {l : Level} {ts : List Token} {e : Expr} :
    parse l ts = some (e, []) ↔ Reads l ts e := by
  constructor
  · intro h
    obtain ⟨us, hts, hus⟩ := reads_of_parse l ts h
    rw [List.append_nil] at hts
    rwa [hts]
  · intro h
    simpa using h.parse_append (show Stops l [] from fun t ht => absurd ht (by simp))

end SqlCompose
