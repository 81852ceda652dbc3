import SqlCompose.Sql.Statement

/-!
# Reading the select list of a statement

The entries of a select list are what stands between the first word of a statement and its `FROM`,
cut at the commas outside all parentheses. The tokens of an expression have neither a comma nor a
`FROM` of that kind, so that every entry that was written is found, and no other.

## Main definitions

* `Token.entriesFrom`, `Token.selectEntries`: the entries of a list, and those of a statement.
* `Token.Opaque`: token lists that are never cut.

## Main results

* `Expr.opaque_tokens`: the tokens of an expression are never cut.
* `Statement.selectEntries_tokens`: the entries that are read are the ones of the statement.
-/

namespace SqlCompose

namespace Token

/-- The number of open parentheses behind a token, of which `depth` are open before it. -/
def depthAfter (depth : Nat) : Token → Nat
  | opening => depth + 1
  | closing => depth - 1
  | _ => depth

/-- Puts tokens at the front of the first entry. -/
def prepend (ts : List Token) : List (List Token) → List (List Token)
  | [] => [ts]
  | entry :: entries => (ts ++ entry) :: entries

/-- The entries up to a `FROM`, where `depth` parentheses are open before the first token. -/
def entriesFrom : Nat → List Token → List (List Token)
  | _, [] => [[]]
  | 0, comma :: ts => [] :: entriesFrom 0 ts
  | 0, keyword .FROM :: _ => [[]]
  | depth, t :: ts => prepend [t] (entriesFrom (t.depthAfter depth) ts)

/-- The entries of the select list of a statement; an empty place is not an entry. -/
def selectEntries : List Token → List (List Token)
  | keyword .SELECT :: ts =>
    if entriesFrom 0 ts = [[nothing]] then [] else entriesFrom 0 ts
  | _ => []

@[simp] theorem prepend_nil (entries : List (List Token)) (h : entries ≠ []) :
    prepend [] entries = entries := by
  cases entries with
  | nil => exact absurd rfl h
  | cons entry entries => rfl

theorem prepend_append (ts us : List Token) (entries : List (List Token)) :
    prepend (ts ++ us) entries = prepend ts (prepend us entries) := by
  cases entries with
  | nil => rfl
  | cons entry entries => simp [prepend]

theorem entriesFrom_ne_nil (depth : Nat) (ts : List Token) : entriesFrom depth ts ≠ [] := by
  have hprepend (us : List Token) (entries : List (List Token)) : prepend us entries ≠ [] := by
    cases entries <;> simp [prepend]
  fun_cases entriesFrom depth ts <;> first | exact List.cons_ne_nil _ _ | exact hprepend _ _

/-- Whether a token is neither a comma, a parenthesis nor the `FROM`. -/
def isPlain : Token → Bool
  | comma | opening | closing | keyword .FROM => false
  | _ => true

theorem depthAfter_of_isPlain {t : Token} (h : t.isPlain = true) (depth : Nat) :
    t.depthAfter depth = depth := by
  cases t <;> first | rfl | cases h

/-- Whether a token list begins with something other than an empty place. -/
def BeginsSeen (ts : List Token) : Prop := ∃ t us, ts = t :: us ∧ t ≠ nothing

/-- Whether a token list, with at least so many parentheses open before it, stays in one entry and
leaves the parentheses open that were. -/
def Opaque (least : Nat) (ts : List Token) : Prop :=
  ∀ depth, least ≤ depth → ∀ rest,
    entriesFrom depth (ts ++ rest) = prepend ts (entriesFrom depth rest)

section Opaque

variable {least : Nat} {ts us : List Token}

theorem Opaque.append (hts : Opaque least ts) (hus : Opaque least us) :
    Opaque least (ts ++ us) := fun depth hd rest => by
  rw [List.append_assoc, hts depth hd, hus depth hd, prepend_append]

theorem Opaque.deeper (h : Opaque 0 ts) : Opaque least ts := fun depth _ rest =>
  h depth (Nat.zero_le _) rest

/-- Commas inside parentheses cut nothing. -/
theorem opaque_comma : Opaque 1 [comma] := fun depth hd rest => by
  cases depth with
  | zero => cases hd
  | succ depth => rfl

theorem opaque_of_isPlain (h : ts.all isPlain = true) : Opaque least ts := fun depth _ rest => by
  induction ts with
  | nil => exact (prepend_nil _ (entriesFrom_ne_nil depth rest)).symm
  | cons t ts ih =>
    rw [List.all_cons, Bool.and_eq_true] at h
    obtain ⟨ht, hts⟩ := h
    have hstep : entriesFrom depth (t :: (ts ++ rest)) =
        prepend [t] (entriesFrom depth (ts ++ rest)) := by
      rw [entriesFrom, depthAfter_of_isPlain ht]
      · rintro - rfl
        cases ht
      · rintro - rfl
        cases ht
    rw [List.cons_append, hstep, ih hts, ← prepend_append]
    rfl

/-- What only inside parentheses is not cut is not cut anywhere with parentheses around it. -/
theorem Opaque.enclosed (h : Opaque 1 ts) : Opaque least (opening :: ts ++ [closing]) :=
  fun depth _ rest => by
    have hopen : entriesFrom depth (opening :: (ts ++ closing :: rest)) =
        prepend [opening] (entriesFrom (depth + 1) (ts ++ closing :: rest)) := by
      rw [entriesFrom] <;> first | rfl | simp
    have hclose : entriesFrom (depth + 1) (closing :: rest) =
        prepend [closing] (entriesFrom depth rest) := rfl
    rw [List.cons_append, List.cons_append, List.append_assoc, List.singleton_append, hopen,
      h (depth + 1) (Nat.le_add_left 1 depth), hclose, ← prepend_append, ← prepend_append]
    rfl

end Opaque

end Token

/-! ### Expressions stay in one entry -/

namespace Expr

open Token

theorem opaque_grouped {ts : List Token} (h : Opaque 0 ts) (group : Bool) :
    Opaque 0 (grouped group ts) := by
  cases group with
  | false => exact h
  | true => exact h.deeper.enclosed

theorem opaque_commaSeparated {items : List (List Token)} (h : ∀ ts ∈ items, Opaque 0 ts) :
    Opaque 1 (commaSeparated items) := by
  fun_induction commaSeparated items with
  | case1 => exact opaque_of_isPlain rfl
  | case2 item => exact (h item List.mem_cons_self).deeper
  | case3 item items hne ih =>
    have hitems := ih fun ts hts => h ts (List.mem_cons_of_mem _ hts)
    exact (h item List.mem_cons_self).deeper.append (opaque_comma.append hitems)

theorem opaque_op (op : Op) : Opaque 0 op.tokens :=
  opaque_of_isPlain (by cases op <;> rfl)

theorem opaque_polarity (positive : Bool) : Opaque 0 (polarity positive) :=
  opaque_of_isPlain (by cases positive <;> rfl)

theorem opaque_keyword (k : Keyword) (h : (Token.keyword k).isPlain = true) :
    Opaque 0 [.keyword k] :=
  opaque_of_isPlain (by rw [List.all_cons, h]; rfl)

mutual

/-- The tokens of an expression stay in one entry wherever they stand. -/
theorem opaque_tokens : (e : Expr) → Opaque 0 e.tokens
  | column _ => opaque_of_isPlain rfl
  | literal _ => opaque_of_isPlain rfl
  | not e => (opaque_keyword .NOT rfl).append (opaque_grouped (opaque_tokens e) _)
  | binary left op right =>
    ((opaque_grouped (opaque_tokens left) _).append (opaque_op op)).append
      (opaque_grouped (opaque_tokens right) _)
  | nullTest e positive =>
    (opaque_grouped (opaque_tokens e) _).append
      (((opaque_keyword .IS rfl).append (opaque_polarity positive)).append
        (opaque_keyword .NULL rfl))
  | inList e candidates positive =>
    (opaque_grouped (opaque_tokens e) _).append
      ((opaque_polarity positive).append ((opaque_keyword .IN rfl).append
        (opaque_commaSeparated (opaque_tokensEach candidates)).enclosed))
  | between e low high positive =>
    ((opaque_grouped (opaque_tokens e) _).append
      ((opaque_polarity positive).append
        ((opaque_keyword .BETWEEN rfl).append (opaque_grouped (opaque_tokens low) _)))).append
      ((opaque_keyword .AND rfl).append (opaque_grouped (opaque_tokens high) _))
  | parens e => (opaque_tokens e).deeper.enclosed

theorem opaque_tokensEach : (es : List Expr) → ∀ ts ∈ tokensEach es, Opaque 0 ts
  | [], _, h => nomatch h
  | e :: es, ts, h => by
    rcases List.mem_cons.mp h with rfl | h
    · exact opaque_tokens e
    · exact opaque_tokensEach es ts h

end

theorem beginsSeen_grouped {ts : List Token} (h : BeginsSeen ts) (group : Bool)
    (rest : List Token) : BeginsSeen (grouped group ts ++ rest) := by
  cases group with
  | false =>
    obtain ⟨t, us, rfl, ht⟩ := h
    exact ⟨t, us ++ rest, rfl, ht⟩
  | true => exact ⟨.opening, _, rfl, nofun⟩

/-- The tokens of an expression do not begin with an empty place. -/
theorem beginsSeen_tokens : (e : Expr) → BeginsSeen e.tokens
  | column _ | literal _ | not _ | parens _ => ⟨_, _, rfl, nofun⟩
  | binary left op right => by
    rw [tokens, List.append_assoc]
    exact beginsSeen_grouped (beginsSeen_tokens left) _ _
  | nullTest e _ | inList e _ _ => beginsSeen_grouped (beginsSeen_tokens e) _ _
  | between e low high positive => by
    rw [tokens, List.append_assoc]
    exact beginsSeen_grouped (beginsSeen_tokens e) _ _

end Expr

/-! ### The select list of a statement -/

theorem OutputItem.opaque_tokens (i : OutputItem) : Token.Opaque 0 i.tokens := by
  refine (Expr.opaque_tokens i.expr).append (Token.opaque_of_isPlain ?_)
  cases i.aliasName <;> rfl

/-- The entries between commas are found again, where what follows ends the last of them. -/
theorem entriesFrom_commaSeparated {items : List (List Token)} (hne : items ≠ [])
    (h : ∀ ts ∈ items, Token.Opaque 0 ts) {rest : List Token}
    (hrest : Token.entriesFrom 0 rest = [[]]) :
    Token.entriesFrom 0 (Token.commaSeparated items ++ rest) = items := by
  fun_induction Token.commaSeparated items with
  | case1 => exact absurd rfl hne
  | case2 item =>
    rw [h item List.mem_cons_self 0 (Nat.le_refl _), hrest]
    exact congrArg (· :: []) (List.append_nil item)
  | case3 item items hitems ih =>
    have htail := ih (fun h => hitems h) fun ts hts => h ts (List.mem_cons_of_mem _ hts)
    rw [List.append_assoc, h item List.mem_cons_self 0 (Nat.le_refl _), List.cons_append,
      Token.entriesFrom, htail]
    exact congrArg (· :: items) (List.append_nil item)

/-- The entries that are read in the tokens of a statement are the ones that it has. -/
theorem Statement.selectEntries_tokens (s : Statement) (d : Dialect) :
    Token.selectEntries (s.tokens d) = s.items.map OutputItem.tokens := by
  obtain ⟨rest, htokens⟩ : ∃ rest, s.tokens d = .keyword .SELECT ::
      (Token.commaSeparated (s.items.map OutputItem.tokens) ++ .keyword .FROM :: rest) :=
    ⟨_, by simp only [tokens, List.cons_append, List.append_assoc]; rfl⟩
  rw [htokens, Token.selectEntries]
  cases hitems : s.items with
  | nil => rfl
  | cons i is =>
    have hopaque : ∀ ts ∈ (i :: is).map OutputItem.tokens, Token.Opaque 0 ts := by
      intro ts hts
      obtain ⟨j, -, rfl⟩ := List.mem_map.mp hts
      exact j.opaque_tokens
    have hne : (i :: is).map OutputItem.tokens ≠ [] := List.cons_ne_nil _ _
    rw [entriesFrom_commaSeparated hne hopaque rfl, if_neg]
    intro hnothing
    have hi : i.tokens = [.nothing] := (List.cons.inj hnothing).1
    obtain ⟨t, us, ht, hseen⟩ := i.expr.beginsSeen_tokens
    rw [OutputItem.tokens, ht, List.cons_append] at hi
    exact hseen (List.cons.inj hi).1

end SqlCompose
