import SqlCompose.Expr.Print
import SqlCompose.Proofs.Sql.Lexeme

/-!
# References to columns

A reference to a column is the name of its table and its own name, each between marks, with a dot
between them. It is read off the front of a text: a name ends at the first mark that is not doubled,
whatever runs of marks the name begins with, ends with or consists of. A text therefore begins with
one reference at most, which is found as long as no mark follows it, and what a statement writes
behind a reference never begins with a mark.

The text of a reference may begin another one. The longer name then goes on with a mark, which is
doubled, so that the reader does not stop where the shorter name ends.

## Main definitions

* `Column.text`: the text of a reference.
* `readQuoted`, `readReference`: reading a quoted name, and a reference, off the front of a text.

## Main results

* `readReference_eq_some_iff`: the texts that a reference is read from.
* `Token.textAfter_columnList`: the text of a list of references.
* `Column.text_append_inj`: references are told apart, whatever stands behind them.
* `Column.text_prefix_iff`: the references that begin another one.
* `Column.text_decodable`: the references of expressions are read back in every text.
-/

namespace SqlCompose

/-- The text of a column reference. -/
def Column.text (ctx : Context) (c : Column) : String :=
  ctx.quoting.apply c.table ++ "." ++ ctx.quoting.apply c.column

theorem Expr.compile_column (ctx : Context) (c : Column) :
    (column c).compile ctx = .ok ⟨c.text ctx, []⟩ := by
  have htext : Token.textOf ctx c.tokens = c.text ctx := by
    simp [Column.tokens, Column.text, Token.textOf, Token.textAfter, Token.text, Token.spaced,
      String.append_assoc]
  rw [← htext]
  rfl

/-- A reference among other tokens is written with its text, whatever stands around it. -/
theorem Token.textAfter_tokens_append (ctx : Context) (index : Nat) (before : Token) (c : Column)
    (ts : List Token) : textAfter ctx index before (c.tokens ++ ts) =
      (if spaced before (.name c.table) then " " else "") ++ c.text ctx ++
        textAfter ctx index (.name c.column) ts := by
  simp [Column.tokens, Column.text, textAfter, text, nextIndex, spaced, String.append_assoc]

namespace Token

variable (ctx : Context)

theorem comma_space (s : String) : "," ++ (" " ++ s) = ", " ++ s :=
  (String.append_assoc).symm

theorem textAfter_column {before : Token} (hb : ∀ s, spaced before (.name s) = true)
    (index : Nat) (c : Column) (rest : List Token) :
    textAfter ctx index before (c.tokens ++ rest) =
      " " ++ c.text ctx ++ textAfter ctx index (.name c.column) rest := by
  rw [textAfter_tokens_append, hb, if_pos rfl]

/-- Columns with commas between them, up to a reserved word. -/
theorem textAfter_columns {before : Token} (hb : ∀ s, spaced before (.name s) = true)
    (index : Nat) (c : Column) (cs : List Column) (k : Keyword) (rest : List Token) :
    textAfter ctx index before
        (commaSeparated ((c :: cs).map Column.tokens) ++ .keyword k :: rest) =
      " " ++ ", ".intercalate ((c :: cs).map (Column.text ctx)) ++ " " ++ k.text ++
        textAfter ctx index (.keyword k) rest := by
  induction cs generalizing before c with
  | nil =>
    rw [List.map_singleton, List.map_singleton, commaSeparated, textAfter_column ctx hb,
      String.intercalate_singleton]
    simp [textAfter, text, nextIndex, spaced, String.append_assoc]
  | cons d ds ih =>
    have hlist : commaSeparated ((c :: d :: ds).map Column.tokens) =
        c.tokens ++ .comma :: commaSeparated ((d :: ds).map Column.tokens) := rfl
    have hcomma (us : List Token) : textAfter ctx index (.name c.column) (.comma :: us) =
        "," ++ textAfter ctx index .comma us := by
      simp [textAfter, text, nextIndex, spaced]
    have hmap : (c :: d :: ds).map (Column.text ctx) =
        c.text ctx :: (d :: ds).map (Column.text ctx) := rfl
    have hne : (d :: ds).map (Column.text ctx) ≠ [] := List.cons_ne_nil _ _
    rw [hlist, List.append_assoc, textAfter_column ctx hb, List.cons_append, hcomma,
      ih (fun _ => rfl) d, hmap, String.intercalate_cons_of_ne_nil hne]
    simp only [String.append_assoc, comma_space]

/-- Columns with commas between them behind a reserved word, up to another one. There may be
none. -/
theorem textAfter_columnList (index : Nat) (k : Keyword) (cs : List Column) (k' : Keyword)
    (rest : List Token) :
    textAfter ctx index (.keyword k)
        (commaSeparated (cs.map Column.tokens) ++ .keyword k' :: rest) =
      " " ++ ", ".intercalate (cs.map (Column.text ctx)) ++ " " ++ k'.text ++
        textAfter ctx index (.keyword k') rest := by
  cases cs with
  | nil => simp [commaSeparated, textAfter, text, nextIndex, spaced, String.append_assoc,
      -String.reduceAppend]
  | cons c cs => exact textAfter_columns ctx (fun _ => rfl) index c cs k' rest

end Token

/-! ### Quoted names -/

/-- Reads a quoted name with both its marks, and gives the name and what follows it. -/
def readQuoted (mark : Char) : List Char → Option (String × List Char)
  | [] => none
  | c :: cs => if c = mark then (unquote mark cs).map (Prod.map String.ofList id) else none

section Quoted

variable {mark : Char} {name : String} {text rest : List Char}

theorem Quoting.toList_enclose_append (cs : List Char) : (enclose mark name).toList ++ cs =
    mark :: ((name.toList.flatMap fun c => if c = mark then [mark, c] else [c]) ++ mark :: cs) := by
  simp [enclose]

theorem readQuoted_enclose (h : rest.head? ≠ some mark) :
    readQuoted mark ((Quoting.enclose mark name).toList ++ rest) = some (name, rest) := by
  rw [Quoting.toList_enclose_append, readQuoted, if_pos rfl, unquote_enclose mark _ h]
  simp

theorem eq_of_readQuoted (h : readQuoted mark text = some (name, rest)) :
    text = (Quoting.enclose mark name).toList ++ rest ∧ rest.head? ≠ some mark := by
  cases text with
  | nil => cases h
  | cons c cs =>
    by_cases hc : c = mark
    · rw [readQuoted, if_pos hc, Option.map_eq_some_iff] at h
      obtain ⟨⟨name, rest⟩, hread, heq⟩ := h
      cases heq
      obtain ⟨rfl, hrest⟩ := eq_of_unquote hread
      exact ⟨by simp [Quoting.enclose, hc], hrest⟩
    · rw [readQuoted, if_neg hc] at h
      cases h

/-- Quoted names in front of texts that do not begin with a mark are told apart. -/
theorem Quoting.enclose_append_inj {name' : String} {rest' : List Char}
    (hrest : rest.head? ≠ some mark) (hrest' : rest'.head? ≠ some mark)
    (h : (enclose mark name).toList ++ rest = (enclose mark name').toList ++ rest') :
    name = name' ∧ rest = rest' := by
  have hread : readQuoted mark ((enclose mark name).toList ++ rest) = some (name, rest) :=
    readQuoted_enclose hrest
  rw [h, readQuoted_enclose hrest'] at hread
  exact Prod.mk.inj (Option.some.inj hread.symm)

/-- A quoted name that is followed by a mark begins a longer one, which goes on with the mark. -/
theorem Quoting.exists_of_enclose_append {longer : String}
    (h : (enclose mark longer).toList = (enclose mark name).toList ++ mark :: rest) :
    ∃ more, longer.toList = name.toList ++ mark :: more := by
  have hread : unquote mark ((name.toList.flatMap fun c => if c = mark then [mark, c] else [c]) ++
      mark :: mark :: rest) = some (longer.toList, []) := by
    rw [← List.append_nil (enclose mark longer).toList, toList_enclose_append,
      toList_enclose_append, List.cons_inj_right] at h
    rw [← h]
    exact unquote_enclose mark longer.toList (by simp)
  rw [unquote_append, unquote_doubled, Option.map_map, Option.map_eq_some_iff] at hread
  obtain ⟨⟨more, _⟩, -, heq⟩ := hread
  exact ⟨more, (congrArg Prod.fst heq).symm⟩

end Quoted

/-! ### References -/

/-- Reads two quoted names with a dot between them, and gives the names and what follows them. -/
def readReference (mark : Char) (text : List Char) : Option ((String × String) × List Char) :=
  match readQuoted mark text with
  | some (table, '.' :: rest) =>
    (readQuoted mark rest).map fun (column, rest) => ((table, column), rest)
  | _ => none

section Reference

variable {ctx : Context} {mark : Char} (hc : ctx.quoting.mark? = some mark)

include hc

theorem Column.toList_text_append (a : Column) (rest : List Char) : (a.text ctx).toList ++ rest =
    (Quoting.enclose mark a.table).toList ++
      '.' :: ((Quoting.enclose mark a.column).toList ++ rest) := by
  simp [text, Quoting.apply_eq_enclose hc]

theorem Column.head?_dot_ne (rest : List Char) : ('.' :: rest).head? ≠ some mark := by
  rcases Quoting.isMark_of_mark? hc with rfl | rfl <;> simp

/-- A reference is read off exactly the texts that it begins with no mark behind it. -/
theorem readReference_eq_some_iff {a : Column} {text rest : List Char} :
    readReference mark text = some ((a.table, a.column), rest) ↔
      text = (a.text ctx).toList ++ rest ∧ rest.head? ≠ some mark := by
  rw [a.toList_text_append hc]
  constructor
  · intro h
    unfold readReference at h
    split at h
    · next table after htable =>
      obtain ⟨⟨column, rest⟩, hcolumn, heq⟩ := Option.map_eq_some_iff.mp h
      cases heq
      obtain ⟨rfl, -⟩ := eq_of_readQuoted htable
      obtain ⟨rfl, hrest⟩ := eq_of_readQuoted hcolumn
      exact ⟨rfl, hrest⟩
    · cases h
  · rintro ⟨rfl, hrest⟩
    rw [readReference, readQuoted_enclose (Column.head?_dot_ne hc _)]
    exact congrArg (Option.map _) (readQuoted_enclose hrest)

namespace Column

variable {a b : Column}

/-- References in front of texts that do not begin with a mark are told apart. -/
theorem text_append_inj {rest rest' : List Char} (hrest : rest.head? ≠ some mark)
    (hrest' : rest'.head? ≠ some mark)
    (h : (a.text ctx).toList ++ rest = (b.text ctx).toList ++ rest') :
    a.table = b.table ∧ a.column = b.column ∧ rest = rest' := by
  rw [toList_text_append hc, toList_text_append hc] at h
  obtain ⟨htable, h⟩ := Quoting.enclose_append_inj (head?_dot_ne hc _) (head?_dot_ne hc _) h
  exact ⟨htable, Quoting.enclose_append_inj hrest hrest' (List.cons.inj h).2⟩

theorem text_inj (h : a.text ctx = b.text ctx) : a.table = b.table ∧ a.column = b.column := by
  have happend : (a.text ctx).toList ++ [] = (b.text ctx).toList ++ [] := by rw [h]
  obtain ⟨htable, hcolumn, -⟩ := text_append_inj hc (by simp) (by simp) happend
  exact ⟨htable, hcolumn⟩

/-- A reference begins another one only of the same table, and of a column whose name begins with
that of the first and goes on with a mark. -/
theorem text_prefix_iff : (a.text ctx).toList <+: (b.text ctx).toList ↔
    a.table = b.table ∧
      (a.column = b.column ∨ a.column.toList ++ [mark] <+: b.column.toList) := by
  constructor
  · rintro ⟨rest, hrest⟩
    rw [← List.append_nil (b.text ctx).toList] at hrest
    by_cases hmark : rest.head? = some mark
    · obtain ⟨rest, rfl⟩ := List.head?_eq_some_iff.mp hmark
      rw [toList_text_append hc, toList_text_append hc] at hrest
      obtain ⟨htable, h⟩ :=
        Quoting.enclose_append_inj (head?_dot_ne hc _) (head?_dot_ne hc _) hrest
      rw [List.cons_inj_right, List.append_nil] at h
      obtain ⟨more, hmore⟩ := Quoting.exists_of_enclose_append h.symm
      exact ⟨htable, .inr ⟨more, by simp [hmore]⟩⟩
    · obtain ⟨htable, hcolumn, -⟩ := text_append_inj hc hmark (by simp) hrest
      exact ⟨htable, .inl hcolumn⟩
  · rintro ⟨htable, hcolumn | ⟨more, hmore⟩⟩
    · have htext : a.text ctx = b.text ctx := by rw [text, text, htable, hcolumn]
      exact htext ▸ List.prefix_rfl
    · simp [text, htable, Quoting.apply_eq_enclose hc, Quoting.enclose, ← hmore]

/-- Where a reference begins a longer one, the longer one goes on with a mark. -/
theorem head?_of_text_append {more : List Char} (hmore : more ≠ [])
    (h : (b.text ctx).toList = (a.text ctx).toList ++ more) : more.head? = some mark := by
  refine Decidable.byContradiction fun hmark => hmore ?_
  rw [← List.append_nil (b.text ctx).toList] at h
  exact (text_append_inj hc hmark (by simp) h.symm).2.2

/-- A reference that begins a longer one is not read in its place, whatever follows: the reader
would leave a mark. -/
theorem readReference_ne_of_text_append {more : List Char} (hmore : more ≠ [])
    (h : (b.text ctx).toList = (a.text ctx).toList ++ more) (rest rest' : List Char) :
    readReference mark ((b.text ctx).toList ++ rest) ≠ some ((a.table, a.column), rest') := by
  intro hshort
  obtain ⟨hrest, hmark⟩ := (readReference_eq_some_iff hc).mp hshort
  rw [h, List.append_assoc, List.append_cancel_left_eq] at hrest
  rw [← hrest, List.head?_append, head?_of_text_append hc hmore h] at hmark
  exact hmark rfl

/-- What a statement writes behind a reference does not begin with a mark. -/
theorem head?_textAfter_ne (index : Nat) (c : Column) (ts : List Token) :
    (Token.textAfter ctx index (.name c.column) ts).toList.head? ≠ some mark := by
  apply (Lexeme.delimits_textAfter index (.name c.column) ts rfl).head?_ne
  rcases Quoting.isMark_of_mark? hc with rfl | rfl <;> decide

end Column

end Reference

/-- A column is written as the names of its table and its own with a dot between them, in an
expression and among the tokens of a statement, where no mark follows. In front of any text that
does not begin with a mark both names are read back, and just that text is left; nothing else is
read as the two names. References that are followed by such texts are therefore told apart with what
follows them, and so are references with nothing behind them. A reference begins another one only
of the same table, and of a column whose name goes on with a mark. The other one then goes on with a
mark, so that the shorter reference is never read there, whatever follows. -/
theorem Column.text_decodable {ctx : Context} {mark : Char}
    (hc : ctx.quoting.mark? = some mark) :
    (∀ a : Column, (Expr.column a).compile ctx = .ok ⟨a.text ctx, []⟩ ∧
      ∀ index before ts, Token.textAfter ctx index before (a.tokens ++ ts) =
          (if Token.spaced before (.name a.table) then " " else "") ++ a.text ctx ++
            Token.textAfter ctx index (.name a.column) ts ∧
        (Token.textAfter ctx index (.name a.column) ts).toList.head? ≠ some mark) ∧
    (∀ (a : Column) rest, rest.head? ≠ some mark →
      readReference mark ((a.text ctx).toList ++ rest) = some ((a.table, a.column), rest)) ∧
    (∀ (a : Column) text rest, readReference mark text = some ((a.table, a.column), rest) →
      text = (a.text ctx).toList ++ rest ∧ rest.head? ≠ some mark) ∧
    (∀ (a b : Column) rest rest', rest.head? ≠ some mark → rest'.head? ≠ some mark →
      (a.text ctx).toList ++ rest = (b.text ctx).toList ++ rest' →
      a.table = b.table ∧ a.column = b.column ∧ rest = rest') ∧
    (∀ a b : Column, a.text ctx = b.text ctx → a.table = b.table ∧ a.column = b.column) ∧
    (∀ a b : Column, (a.text ctx).toList <+: (b.text ctx).toList ↔ a.table = b.table ∧
      (a.column = b.column ∨ a.column.toList ++ [mark] <+: b.column.toList)) ∧
    ∀ (a b : Column) more, more ≠ [] → (b.text ctx).toList = (a.text ctx).toList ++ more →
      more.head? = some mark ∧ ∀ rest rest',
        readReference mark ((b.text ctx).toList ++ rest) ≠ some ((a.table, a.column), rest') := by
  refine ⟨fun a => ⟨Expr.compile_column ctx a, fun index before ts =>
      ⟨Token.textAfter_tokens_append ctx index before a ts, head?_textAfter_ne hc index a ts⟩⟩,
    fun a rest hrest => (readReference_eq_some_iff hc).mpr ⟨rfl, hrest⟩,
    fun a text rest h => (readReference_eq_some_iff hc).mp h,
    fun a b rest rest' hrest hrest' h => text_append_inj hc hrest hrest' h,
    fun a b h => text_inj hc h, fun a b => text_prefix_iff hc, fun a b more hmore h => ?_⟩
  exact ⟨head?_of_text_append hc hmore h, readReference_ne_of_text_append hc hmore h⟩

/-- A table named by one mark, and columns whose names end with runs of marks. -/
theorem Column.text_decodable_marks :
    let ctx : Context := .ofDialect .sqlite
    let a : Column := ⟨"\"", "c", "f"⟩
    let b : Column := ⟨"\"", "c\"\"", "g"⟩
    let b' : Column := ⟨"\"", "c\"\"", "h"⟩
    let more := ['"', '"', '"', '"']
    let rest := [' ', '"']
    ctx.quoting.mark? = some '"' ∧ rest.head? ≠ some '"' ∧
      (Expr.column b).compile ctx = .ok ⟨b.text ctx, []⟩ ∧
      b.text ctx = "\"\"\"\".\"c\"\"\"\"\"" ∧
      readReference '"' ((b.text ctx).toList ++ rest) = some (("\"", "c\"\""), rest) ∧
      b.text ctx = b'.text ctx ∧ b.table = b'.table ∧ b.column = b'.column ∧
      (b.text ctx).toList = (a.text ctx).toList ++ more ∧ more ≠ [] ∧ more.head? = some '"' ∧
      ∀ rest rest',
        readReference '"' ((b.text ctx).toList ++ rest) ≠ some (("\"", "c"), rest') := by
  intro ctx a b b' more rest
  have hc : ctx.quoting.mark? = some '"' := rfl
  obtain ⟨hwritten, hread, -, -, hinj, -, hshort⟩ := text_decodable hc
  have hrest : rest.head? ≠ some '"' := by decide
  have hmore : (b.text ctx).toList = (a.text ctx).toList ++ more := by decide
  obtain ⟨hmark, hne⟩ := hshort a b more (by decide) hmore
  obtain ⟨htable, hcolumn⟩ := hinj b b' rfl
  exact ⟨hc, hrest, (hwritten b).1, by decide, hread b rest hrest, rfl, htable, hcolumn, hmore,
    by decide, hmark, hne⟩

end SqlCompose
