import SqlCompose.Proofs.Expr.Reading
import SqlCompose.Query.Basic

/-!
# The grammar of statements

A statement is a select list and a source, then joins, and then clauses each of which may be
absent, always in one order. `Sentence` is this grammar. It takes a token list apart into the token
runs of its expressions and what stands between them; an expression is any run that has a reading.

What is read at a place, and where it ends, depends on the tokens that may stand behind it. These
are given as a condition on the rest of the token list, and every rule of the grammar determines
what it reads under such a condition as long as its parts do. From one clause to the next the
condition is that the rest begins with a word of a later clause.

## Main definitions

* `Clauses`: the parts that a token list is taken apart into.
* `Sentence`: the grammar, made of `Sentence.Clause`, `Sentence.Listed`, `Sentence.Repeated` and
  `Sentence.Optionally`.
* `Sentence.Determined`: what is read is determined by the tokens, as is where it ends.

## Main results

* `Sentence.Determined.listed`, `Sentence.Determined.repeated`, `Sentence.Determined.optionally`:
  lists, repetitions and optional parts of what is determined.
* `Sentence.unique`: a token list is taken apart in one way at most.
-/

namespace SqlCompose

/-! ### The parts of a statement -/

/-- An entry of a select or group list: the tokens of its expression, and its name if it has one. -/
structure ItemRun where
  expr : List Token
  aliasName : Option String
  deriving DecidableEq, Repr

/-- A join: the table with its alias, and the tokens of its predicate. -/
structure JoinRun where
  table : String
  aliasName : String
  on : List Token
  deriving DecidableEq, Repr

/-- An entry of an order list: the tokens of its expression, and its direction. -/
structure OrderRun where
  expr : List Token
  direction : Direction
  deriving DecidableEq, Repr

/-- The clauses of a statement. The clauses behind the joins are `none` where they are absent. -/
@[ext]
structure Clauses where
  items : List ItemRun
  source : SourceClause
  joins : List JoinRun
  filter : Option (List Token)
  groups : Option (List ItemRun)
  groupFilter : Option (List Token)
  orders : Option (List OrderRun)
  limit : Option Int
  offset : Option Int
  deriving DecidableEq, Repr

/-! ### The grammar -/

namespace Sentence

section Rules

variable {α : Type} (R : List Token → α → Prop)

/-- Reserved words, and what is read behind them. -/
inductive Clause (words : List Keyword) : List Token → α → Prop
  | mk {ts : List Token} {a : α} (h : R ts a) : Clause words (words.map .keyword ++ ts) a

/-- One or more of what is read, with commas between them. -/
inductive Listed : List Token → List α → Prop
  | one {ts : List Token} {a : α} (h : R ts a) : Listed ts [a]
  | more {ts us : List Token} {a : α} {as : List α} (h : R ts a) (hs : Listed us as) :
      Listed (ts ++ .comma :: us) (a :: as)

/-- Any number of what is read, one behind the other. -/
inductive Repeated : List Token → List α → Prop
  | done : Repeated [] []
  | more {ts us : List Token} {a : α} {as : List α} (h : R ts a) (hs : Repeated us as) :
      Repeated (ts ++ us) (a :: as)

/-- What is read, or nothing. -/
inductive Optionally : List Token → Option α → Prop
  | absent : Optionally [] none
  | present {ts : List Token} {a : α} (h : R ts a) : Optionally ts (some a)

end Rules

/-- A token run that has a reading as an expression. -/
inductive Expression : List Token → List Token → Prop
  | run {ts : List Token} {e : Expr} (h : Reads (.chain .or) ts e) : Expression ts ts

/-- An expression, perhaps under a name: `expr [AS name]`. -/
inductive Item : List Token → ItemRun → Prop
  | plain {ts run : List Token} (h : Expression ts run) : Item ts ⟨run, none⟩
  | named {ts run : List Token} (h : Expression ts run) (aliasName : String) :
      Item (ts ++ [.keyword .AS, .name aliasName]) ⟨run, some aliasName⟩

/-- A table, perhaps under an alias: `table [AS alias]`. -/
inductive Source : List Token → SourceClause → Prop
  | plain (table : String) : Source [.name table] ⟨table, none⟩
  | aliased (table aliasName : String) :
      Source [.name table, .keyword .AS, .name aliasName] ⟨table, some aliasName⟩

/-- A table under an alias, joined on an expression: `table AS alias ON expr`. -/
inductive Join : List Token → JoinRun → Prop
  | mk (table aliasName : String) {ts run : List Token} (h : Expression ts run) :
      Join (.name table :: .keyword .AS :: .name aliasName :: .keyword .ON :: ts)
        ⟨table, aliasName, run⟩

/-- An expression with a direction: `expr ASC` or `expr DESC`. -/
inductive Order : List Token → OrderRun → Prop
  | mk {ts run : List Token} (h : Expression ts run) (direction : Direction) :
      Order (ts ++ [.keyword direction.keyword]) ⟨run, direction⟩

/-- A number, perhaps behind a minus sign. -/
inductive Number : List Token → Int → Prop
  | plain (n : Nat) : Number [.number n] n
  | negative (n : Nat) : Number [.sign .minus, .number n] (-n)

end Sentence

/-- The token list is a statement with the clauses:
`SELECT item, … FROM table [AS alias] INNER JOIN table AS alias ON expr … [WHERE expr]
[GROUP BY item, …] [HAVING expr] [ORDER BY expr ASC|DESC, …] [LIMIT number] [OFFSET number]`. -/
inductive Sentence : List Token → Clauses → Prop
  | select {is ss js fs gs hs os ls ks : List Token} {p : Clauses}
      (hitems : Sentence.Clause (Sentence.Listed Sentence.Item) [.SELECT] is p.items)
      (hsource : Sentence.Clause Sentence.Source [.FROM] ss p.source)
      (hjoins : Sentence.Repeated (Sentence.Clause Sentence.Join [.INNER, .JOIN]) js p.joins)
      (hfilter : Sentence.Optionally (Sentence.Clause Sentence.Expression [.WHERE]) fs p.filter)
      (hgroups : Sentence.Optionally
        (Sentence.Clause (Sentence.Listed Sentence.Item) [.GROUP, .BY]) gs p.groups)
      (hgroupFilter : Sentence.Optionally (Sentence.Clause Sentence.Expression [.HAVING]) hs
        p.groupFilter)
      (horders : Sentence.Optionally
        (Sentence.Clause (Sentence.Listed Sentence.Order) [.ORDER, .BY]) os p.orders)
      (hlimit : Sentence.Optionally (Sentence.Clause Sentence.Number [.LIMIT]) ls p.limit)
      (hoffset : Sentence.Optionally (Sentence.Clause Sentence.Number [.OFFSET]) ks p.offset) :
      Sentence (is ++ (ss ++ (js ++ (fs ++ (gs ++ (hs ++ (os ++ (ls ++ ks)))))))) p

namespace Sentence

/-! ### What is determined by the tokens -/

/-- In front of token lists of a kind, what is read is determined by the tokens, and so is where it
ends. -/
def Determined {α : Type} (R : List Token → α → Prop) (after : List Token → Prop) : Prop :=
  ∀ ⦃ts us rest rest' : List Token⦄ ⦃a b : α⦄, R ts a → R us b → after rest → after rest' →
    ts ++ rest = us ++ rest' → a = b ∧ rest = rest'

section Rules

variable {α : Type} {R : List Token → α → Prop} {after after' : List Token → Prop}

theorem Determined.clause (h : Determined R after) (words : List Keyword) :
    Determined (Clause R words) after := by
  rintro _ _ rest rest' a b ⟨ha⟩ ⟨hb⟩ hrest hrest' heq
  rw [List.append_assoc, List.append_assoc] at heq
  exact h ha hb hrest hrest' (List.append_cancel_left heq)

/-- A list ends where no comma follows. -/
theorem Determined.listed (h : Determined R after) (hafter : ∀ rest, after' rest → after rest)
    (hcomma : ∀ rest, after (.comma :: rest)) (hend : ∀ rest, ¬ after' (.comma :: rest)) :
    Determined (Listed R) after' := by
  intro ts us rest rest' as bs has hbs hrest hrest' heq
  -- the first entries agree whatever is behind them, and if only one list goes on, then the other
  -- has a comma behind it
  induction has generalizing us bs with
  | one ha =>
    cases hbs with
    | one hb =>
      obtain ⟨rfl, hrests⟩ := h ha hb (hafter _ hrest) (hafter _ hrest') heq
      exact ⟨rfl, hrests⟩
    | more hb hbs =>
      rw [List.append_assoc, List.cons_append] at heq
      obtain ⟨-, rfl⟩ := h ha hb (hafter _ hrest) (hcomma _) heq
      exact absurd hrest (hend _)
  | more ha _ ih =>
    rw [List.append_assoc, List.cons_append] at heq
    cases hbs with
    | one hb =>
      obtain ⟨-, rfl⟩ := h ha hb (hcomma _) (hafter _ hrest') heq
      exact absurd hrest' (hend _)
    | more hb hbs =>
      rw [List.append_assoc, List.cons_append] at heq
      obtain ⟨rfl, htail⟩ := h ha hb (hcomma _) (hcomma _) heq
      obtain ⟨rfl, hrests⟩ := ih hbs (List.cons.inj htail).2
      exact ⟨rfl, hrests⟩

/-- An optional part is there exactly if what it begins with is. -/
theorem Determined.optionally (h : Determined R after)
    (hend : ∀ ts a rest, R ts a → ¬ after (ts ++ rest)) : Determined (Optionally R) after := by
  rintro _ _ rest rest' _ _ (_ | ha) (_ | hb) hrest hrest' heq
  · exact ⟨rfl, heq⟩
  · rw [List.nil_append] at heq
    exact absurd (heq ▸ hrest) (hend _ _ _ hb)
  · rw [List.nil_append] at heq
    exact absurd (heq ▸ hrest') (hend _ _ _ ha)
  · obtain ⟨rfl, hrests⟩ := h ha hb hrest hrest' heq
    exact ⟨rfl, hrests⟩

/-- A repetition ends where nothing follows that one more part could begin with. -/
theorem Determined.repeated (h : Determined R after) (hafter : ∀ rest, after' rest → after rest)
    (hmore : ∀ ts a rest, R ts a → after (ts ++ rest))
    (hend : ∀ ts a rest, R ts a → ¬ after' (ts ++ rest)) : Determined (Repeated R) after' := by
  have hbehind {ts : List Token} {as : List α} (has : Repeated R ts as) {rest : List Token}
      (hrest : after' rest) : after (ts ++ rest) := by
    cases has with
    | done => exact hafter _ hrest
    | more ha _ =>
      rw [List.append_assoc]
      exact hmore _ _ _ ha
  intro ts us rest rest' as bs has hbs hrest hrest' heq
  induction has generalizing us bs with
  | done =>
    cases hbs with
    | done => exact ⟨rfl, heq⟩
    | more hb _ =>
      rw [List.nil_append, List.append_assoc] at heq
      exact absurd (heq ▸ hrest) (hend _ _ _ hb)
  | more ha has ih =>
    rw [List.append_assoc] at heq
    cases hbs with
    | done =>
      rw [List.nil_append] at heq
      exact absurd (heq ▸ hrest') (hend _ _ _ ha)
    | more hb hbs =>
      rw [List.append_assoc] at heq
      obtain ⟨rfl, htail⟩ := h ha hb (hbehind has hrest) (hbehind hbs hrest') heq
      obtain ⟨rfl, hrests⟩ := ih hbs htail
      exact ⟨rfl, hrests⟩

end Rules

/-! ### Where clauses begin -/

end Sentence

/-- The place of a clause among all clauses by the word that it begins with, from one on; no clause
begins with a token of place zero. -/
def Token.place : Token → Nat
  | keyword .FROM => 1
  | keyword .INNER => 2
  | keyword .WHERE => 3
  | keyword .GROUP => 4
  | keyword .HAVING => 5
  | keyword .ORDER => 6
  | keyword .LIMIT => 7
  | keyword .OFFSET => 8
  | _ => 0

namespace Sentence

/-- Whether a token list is empty or begins with a clause of a later place. -/
def Follows (place : Nat) (ts : List Token) : Prop := ∀ t ∈ ts.head?, place < t.place

theorem follows_nil (place : Nat) : Follows place [] := fun _ ht => nomatch ht

@[simp] theorem follows_cons {place : Nat} {t : Token} {ts : List Token} :
    Follows place (t :: ts) ↔ place < t.place := by
  simp [Follows]

theorem Follows.mono {place place' : Nat} {ts : List Token} (h : Follows place ts)
    (hle : place' ≤ place) : Follows place' ts := fun t ht => Nat.lt_of_le_of_lt hle (h t ht)

/-- Where a later clause begins, no expression goes on. -/
theorem Follows.stops {place : Nat} {ts : List Token} (h : Follows place ts) :
    Stops (.chain .or) ts := by
  intro t ht
  have hplace := h t ht
  unfold Token.place at hplace
  split at hplace <;> first | exact absurd hplace (Nat.not_lt_zero _) | exact Nat.one_pos

/-- Where a later clause begins, no name is given. -/
theorem Follows.head?_ne_as {place : Nat} {ts : List Token} (h : Follows place ts) :
    ts.head? ≠ some (.keyword .AS) := fun hts => Nat.not_lt_zero _ (h _ hts)

section Rules

variable {α : Type} {R : List Token → α → Prop} {place : Nat} {word : Keyword}
  {words : List Keyword} {ts rest : List Token} {a : α}

theorem Clause.follows_iff (h : Clause R (word :: words) ts a) :
    Follows place (ts ++ rest) ↔ place < (Token.keyword word).place := by
  cases h
  exact follows_cons

theorem Optionally.follows {o : Option α} (h : Optionally (Clause R (word :: words)) ts o)
    (hrest : Follows place rest) (hword : place < (Token.keyword word).place) :
    Follows place (ts ++ rest) := by
  cases h with
  | absent => exact hrest
  | present h => exact h.follows_iff.mpr hword

theorem Repeated.follows {as : List α} (h : Repeated (Clause R (word :: words)) ts as)
    (hrest : Follows place rest) (hword : place < (Token.keyword word).place) :
    Follows place (ts ++ rest) := by
  cases h with
  | done => exact hrest
  | more h _ =>
    rw [List.append_assoc]
    exact h.follows_iff.mpr hword

/-- An optional clause is determined in front of the clauses behind it. -/
theorem Determined.optionalClause (h : Determined R (Follows place))
    (hword : (Token.keyword word).place ≤ place) :
    Determined (Optionally (Clause R (word :: words))) (Follows place) :=
  (h.clause _).optionally fun _ _ _ hts hfollows =>
    Nat.not_lt.mpr hword (hts.follows_iff.mp hfollows)

end Rules

/-! ### The parts of clauses -/

theorem determined_expression : Determined Expression (Stops (.chain .or)) := by
  rintro ts us rest rest' _ _ ⟨he⟩ ⟨hf⟩ hrest hrest' heq
  have hts := he.parse_append hrest
  rw [heq, hf.parse_append hrest'] at hts
  cases hts
  exact ⟨List.append_cancel_right heq, rfl⟩

/-- An entry ends where neither its expression goes on nor a name is given. -/
theorem determined_item :
    Determined Item fun rest => Stops (.chain .or) rest ∧ rest.head? ≠ some (.keyword .AS) := by
  have hnamed (aliasName : String) (rest : List Token) :
      Stops (.chain .or) (.keyword .AS :: .name aliasName :: rest) := stops_cons (by decide) _
  rintro _ _ rest rest' _ _ (ha | ⟨ha, aliasName⟩) (hb | ⟨hb, aliasName'⟩) hrest hrest' heq
  · obtain ⟨rfl, hrests⟩ := determined_expression ha hb hrest.1 hrest'.1 heq
    exact ⟨rfl, hrests⟩
  · rw [List.append_assoc] at heq
    obtain ⟨-, rfl⟩ := determined_expression ha hb hrest.1 (hnamed aliasName' rest') heq
    exact absurd rfl hrest.2
  · rw [List.append_assoc] at heq
    obtain ⟨-, rfl⟩ := determined_expression ha hb (hnamed aliasName rest) hrest'.1 heq
    exact absurd rfl hrest'.2
  · rw [List.append_assoc, List.append_assoc] at heq
    obtain ⟨rfl, htail⟩ :=
      determined_expression ha hb (hnamed aliasName rest) (hnamed aliasName' rest') heq
    cases htail
    exact ⟨rfl, rfl⟩

theorem determined_items (place : Nat) : Determined (Listed Item) (Follows place) := by
  refine determined_item.listed (fun rest h => ⟨h.stops, h.head?_ne_as⟩) (fun rest => ?_)
    fun rest h => Nat.not_lt_zero _ (follows_cons.mp h)
  exact ⟨stops_cons (by decide) _, by simp⟩

theorem determined_source (place : Nat) : Determined Source (Follows place) := by
  rintro _ _ rest rest' _ _ (table | ⟨table, aliasName⟩) (table' | ⟨table', aliasName'⟩) hrest
    hrest' heq
  · cases heq
    exact ⟨rfl, rfl⟩
  · cases heq
    exact absurd rfl hrest.head?_ne_as
  · cases heq
    exact absurd rfl hrest'.head?_ne_as
  · cases heq
    exact ⟨rfl, rfl⟩

theorem determined_join (place : Nat) : Determined Join (Follows place) := by
  rintro _ _ rest rest' _ _ ⟨table, aliasName, ha⟩ ⟨table', aliasName', hb⟩ hrest hrest' heq
  simp only [List.cons_append, List.cons.injEq, Token.name.injEq, true_and] at heq
  obtain ⟨rfl, rfl, htail⟩ := heq
  obtain ⟨rfl, hrests⟩ := determined_expression ha hb hrest.stops hrest'.stops htail
  exact ⟨rfl, hrests⟩

theorem stops_direction (direction : Direction) (rest : List Token) :
    Stops (.chain .or) (.keyword direction.keyword :: rest) := by
  cases direction <;> exact stops_cons (by decide) _

theorem determined_order (after : List Token → Prop) : Determined Order after := by
  rintro _ _ rest rest' _ _ ⟨ha, direction⟩ ⟨hb, direction'⟩ - - heq
  rw [List.append_assoc, List.append_assoc] at heq
  obtain ⟨rfl, htail⟩ := determined_expression ha hb (stops_direction direction rest)
    (stops_direction direction' rest') heq
  obtain ⟨hkeyword, hrests⟩ := List.cons.inj htail
  have hdirection : direction = direction' := by
    cases direction <;> cases direction' <;> first | rfl | cases hkeyword
  exact ⟨congrArg (OrderRun.mk _) hdirection, hrests⟩

theorem determined_orders (place : Nat) : Determined (Listed Order) (Follows place) :=
  (determined_order fun _ => True).listed (fun _ _ => trivial) (fun _ => trivial)
    fun _ h => Nat.not_lt_zero _ (follows_cons.mp h)

theorem determined_number (after : List Token → Prop) : Determined Number after := by
  rintro _ _ rest rest' _ _ (n | n) (m | m) - - heq <;> cases heq <;> exact ⟨rfl, rfl⟩

/-! ### Statements -/

theorem determined_joins : Determined (Repeated (Clause Join [.INNER, .JOIN])) (Follows 2) :=
  ((determined_join 1).clause _).repeated (fun _ h => h.mono (by decide))
    (fun _ _ _ h => h.follows_iff.mpr (by decide))
    fun _ _ _ h hfollows => absurd (h.follows_iff.mp hfollows) (by decide)

theorem determined_predicate (place : Nat) : Determined Expression (Follows place) :=
  fun _ _ _ _ _ _ ha hb hrest hrest' => determined_expression ha hb hrest.stops hrest'.stops

/-- Behind every clause of a statement, the rest begins with a later one. -/
private theorem follows_rest {ss js fs gs hs os ls ks : List Token} {p : Clauses}
    (hsource : Clause Source [.FROM] ss p.source)
    (hjoins : Repeated (Clause Join [.INNER, .JOIN]) js p.joins)
    (hfilter : Optionally (Clause Expression [.WHERE]) fs p.filter)
    (hgroups : Optionally (Clause (Listed Item) [.GROUP, .BY]) gs p.groups)
    (hgroupFilter : Optionally (Clause Expression [.HAVING]) hs p.groupFilter)
    (horders : Optionally (Clause (Listed Order) [.ORDER, .BY]) os p.orders)
    (hlimit : Optionally (Clause Number [.LIMIT]) ls p.limit)
    (hoffset : Optionally (Clause Number [.OFFSET]) ks p.offset) :
    Follows 0 (ss ++ (js ++ (fs ++ (gs ++ (hs ++ (os ++ (ls ++ ks))))))) ∧
    Follows 1 (js ++ (fs ++ (gs ++ (hs ++ (os ++ (ls ++ ks)))))) ∧
    Follows 2 (fs ++ (gs ++ (hs ++ (os ++ (ls ++ ks))))) ∧
    Follows 3 (gs ++ (hs ++ (os ++ (ls ++ ks)))) ∧
    Follows 4 (hs ++ (os ++ (ls ++ ks))) ∧ Follows 5 (os ++ (ls ++ ks)) ∧
    Follows 6 (ls ++ ks) ∧ Follows 7 ks := by
  have hks : Follows 7 ks := List.append_nil ks ▸ hoffset.follows (follows_nil 7) (by decide)
  have hls := hlimit.follows (hks.mono (show 6 ≤ 7 by decide)) (by decide)
  have hos := horders.follows (hls.mono (show 5 ≤ 6 by decide)) (by decide)
  have hhs := hgroupFilter.follows (hos.mono (show 4 ≤ 5 by decide)) (by decide)
  have hgs := hgroups.follows (hhs.mono (show 3 ≤ 4 by decide)) (by decide)
  have hfs := hfilter.follows (hgs.mono (show 2 ≤ 3 by decide)) (by decide)
  have hjs := hjoins.follows (hfs.mono (show 1 ≤ 2 by decide)) (by decide)
  exact ⟨hsource.follows_iff.mpr (by decide), hjs, hfs, hgs, hhs, hos, hls, hks⟩

/-- A token list is taken apart in one way at most. -/
theorem unique {ts : List Token} {p p' : Clauses} (h : Sentence ts p) (h' : Sentence ts p') :
    p = p' := by
  cases h with
  | @select is ss js fs gs vs os ls ks p hi hs hj hf hg hh ho hl hk =>
    generalize heq : is ++ (ss ++ (js ++ (fs ++ (gs ++ (vs ++ (os ++ (ls ++ ks))))))) = ts at h'
    cases h' with
    | @select is' ss' js' fs' gs' vs' os' ls' ks' p' hi' hs' hj' hf' hg' hh' ho' hl' hk' =>
      obtain ⟨hss, hjs, hfs, hgs, hvs, hos, hls, hks⟩ := follows_rest hs hj hf hg hh ho hl hk
      obtain ⟨hss', hjs', hfs', hgs', hvs', hos', hls', hks'⟩ :=
        follows_rest hs' hj' hf' hg' hh' ho' hl' hk'
      -- clause by clause from the front, each leaving the same rest in both ways
      obtain ⟨hitems, heq⟩ := (determined_items 0).clause _ hi hi' hss hss' heq
      obtain ⟨hsource, heq⟩ := (determined_source 1).clause _ hs hs' hjs hjs' heq
      obtain ⟨hjoins, heq⟩ := determined_joins hj hj' hfs hfs' heq
      obtain ⟨hfilter, heq⟩ :=
        (determined_predicate 3).optionalClause (by decide) hf hf' hgs hgs' heq
      obtain ⟨hgroups, heq⟩ := (determined_items 4).optionalClause (by decide) hg hg' hvs hvs' heq
      obtain ⟨hgroupFilter, heq⟩ :=
        (determined_predicate 5).optionalClause (by decide) hh hh' hos hos' heq
      obtain ⟨horders, heq⟩ := (determined_orders 6).optionalClause (by decide) ho ho' hls hls' heq
      obtain ⟨hlimit, heq⟩ :=
        (determined_number (Follows 7)).optionalClause (by decide) hl hl' hks hks' heq
      have hlast : ks ++ [] = ks' ++ [] := congrArg (· ++ []) heq
      obtain ⟨hoffset, -⟩ := (determined_number (Follows 8)).optionalClause (by decide) hk hk'
        (follows_nil 8) (follows_nil 8) hlast
      exact Clauses.ext hitems hsource hjoins hfilter hgroups hgroupFilter horders hlimit hoffset

end Sentence

end SqlCompose
