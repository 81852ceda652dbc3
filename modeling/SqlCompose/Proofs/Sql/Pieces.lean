import SqlCompose.Proofs.Sql.Lexeme

/-!
# The pieces of a text

The text of a token list is made of pieces: what is written alike for every context, the names, and
the placeholders, each with the index of its binding. The pieces are the same for all contexts. The
quoting writes the names and nothing else, and the dialect writes the placeholders and, behind all
pieces, the bounds on the rows.

Where names stand between marks, the numbers of placeholders can be taken out of a text itself:
outside names a dollar sign begins a placeholder, and the digits behind it are its number.

## Main definitions

* `Piece`, `Piece.textOf`: pieces, and their text for a way to write names and placeholders.
* `Token.piecesOf`: the pieces of a token list.
* `Dialect.tail`: the text of the bounds on the rows.
* `unnumbered`: a text without the numbers of its placeholders.

## Main results

* `Token.textOf_piecesOf`: a text is the text of its pieces.
* `Token.textOf_append_window`: the bounds on the rows stand behind the same pieces for all
  dialects.
* `Token.unnumbered_textOf`: without the numbers of its placeholders, the text for one dialect is
  the text for another.
-/

namespace SqlCompose

/-- A piece of a text: what is written alike for every context, a name, or the placeholder of the
binding with an index. -/
inductive Piece where
  | fixed (text : String)
  | name (s : String)
  | placeholder (index : Nat)
  deriving DecidableEq, Repr

namespace Piece

/-- The name that a piece is. -/
def name? : Piece → Option String
  | name s => some s
  | _ => none

/-- The index of the binding that a piece is the placeholder of. -/
def index? : Piece → Option Nat
  | placeholder index => some index
  | _ => none

section Text

variable (writeName : String → String) (writePlaceholder : Nat → String)

/-- The text of a piece. -/
def text : Piece → String
  | fixed text => text
  | name s => writeName s
  | placeholder index => writePlaceholder index

/-- The text of pieces, one behind the other. -/
def textOf : List Piece → String
  | [] => ""
  | p :: ps => p.text writeName writePlaceholder ++ textOf ps

theorem textOf_append (ps qs : List Piece) :
    textOf writeName writePlaceholder (ps ++ qs) =
      textOf writeName writePlaceholder ps ++ textOf writeName writePlaceholder qs := by
  induction ps with
  | nil => exact String.empty_append.symm
  | cons p ps ih => rw [List.cons_append, textOf, textOf, ih, String.append_assoc]

end Text

end Piece

namespace Token

/-- The piece that a token is written as; `index` is the number of the next binding. -/
def piece (index : Nat) : Token → Piece
  | keyword k => .fixed k.text
  | sign s => .fixed s.text
  | comma => .fixed ","
  | dot => .fixed "."
  | opening => .fixed "("
  | closing => .fixed ")"
  | name s => .name s
  | number n => .fixed (toString n)
  | bound _ => .placeholder index
  | nothing => .fixed ""

/-- What stands between a token and the next. -/
def gap (before t : Token) : String := if spaced before t then " " else ""

/-- The pieces of what follows a token, spaces included; `index` is the number of the next
binding. -/
def piecesAfter : Nat → Token → List Token → List Piece
  | _, _, [] => []
  | index, before, t :: rest =>
    .fixed (gap before t) :: t.piece index :: piecesAfter (t.nextIndex index) t rest

/-- The pieces of a token list. -/
def piecesOf : List Token → List Piece
  | [] => []
  | t :: rest => t.piece 1 :: piecesAfter (t.nextIndex 1) t rest

theorem text_piece (ctx : Context) (index : Nat) (t : Token) :
    (t.piece index).text ctx.quoting.apply ctx.dialect.placeholder = t.text ctx index := by
  cases t <;> rfl

theorem textOf_piecesAfter (ctx : Context) (index : Nat) (before : Token) (ts : List Token) :
    Piece.textOf ctx.quoting.apply ctx.dialect.placeholder (piecesAfter index before ts) =
      textAfter ctx index before ts := by
  induction ts generalizing index before with
  | nil => rfl
  | cons t ts ih =>
    rw [piecesAfter, Piece.textOf, Piece.textOf, text_piece, ih, textAfter, String.append_assoc]
    rfl

/-- A text is the text of its pieces, which no context has a part in. -/
theorem textOf_piecesOf (ctx : Context) (ts : List Token) :
    Piece.textOf ctx.quoting.apply ctx.dialect.placeholder (piecesOf ts) = textOf ctx ts := by
  cases ts with
  | nil => rfl
  | cons t ts => rw [piecesOf, Piece.textOf, text_piece, textOf_piecesAfter, textOf]

/-- The placeholders in a text are numbered in the order in which they stand. -/
theorem filterMap_index?_piecesAfter (index : Nat) (before : Token) (ts : List Token) :
    (piecesAfter index before ts).filterMap Piece.index? =
      List.range' index (bindings ts).length := by
  induction ts generalizing index before with
  | nil => rfl
  | cons t ts ih =>
    rw [piecesAfter, List.filterMap_cons_none rfl]
    cases t with
    | bound v =>
      rw [bindings_bound, List.length_cons, List.range'_succ]
      exact congrArg (index :: ·) (ih (index + 1) (bound v))
    | _ => exact ih index _

theorem filterMap_index?_piecesOf (ts : List Token) :
    (piecesOf ts).filterMap Piece.index? = List.range' 1 (bindings ts).length := by
  cases ts with
  | nil => rfl
  | cons t ts =>
    have hafter := filterMap_index?_piecesAfter 1 nothing (t :: ts)
    rwa [piecesAfter, List.filterMap_cons_none rfl] at hafter

end Token

/-! ### Behind the pieces -/

/-- The text of the bounds on the rows, which is empty without a bound. -/
def Dialect.tail (d : Dialect) (limit offset : Option UInt64) : String :=
  (d.windowText limit offset).getD ""

/-- Only a lone offset is written in other ways by other dialects. -/
theorem Dialect.tail_eq {limit offset : Option UInt64} (h : limit ≠ none ∨ offset = none)
    (d d' : Dialect) : d.tail limit offset = d'.tail limit offset := by
  cases limit with
  | none =>
    obtain rfl : offset = none := h.resolve_left fun hnone => hnone rfl
    rfl
  | some n => cases offset <;> rfl

namespace Token

theorem textAfter_append (ctx : Context) (index : Nat) (before : Token) (ts us : List Token) :
    textAfter ctx index before (ts ++ us) = textAfter ctx index before ts ++
      textAfter ctx (index + (bindings ts).length) (ts.getLastD before) us := by
  induction ts generalizing index before with
  | nil => exact String.empty_append.symm
  | cons t ts ih =>
    have hindex : t.nextIndex index + (bindings ts).length =
        index + (bindings (t :: ts)).length := by
      cases t with
      | bound v => exact Nat.add_right_comm index 1 _
      | _ => rfl
    rw [List.cons_append, textAfter, ih, hindex, textAfter, List.getLastD_cons]
    simp only [String.append_assoc]

theorem gap_keyword (before : Token) (k : Keyword) :
    gap before (keyword k) = gap before (keyword .LIMIT) := by
  cases before <;> rfl

/-- The bounds on the rows are written alike behind every token, but for the space before them. -/
theorem textAfter_window (ctx : Context) (index : Nat) (before : Token) (d : Dialect)
    (limit offset : Option UInt64) :
    textAfter ctx index before (d.windowTokens limit offset) =
      (if limit = none ∧ offset = none then "" else gap before (keyword .LIMIT)) ++
        d.tail limit offset := by
  have hcons (k : Keyword) (ts : List Token) : textAfter ctx index before (keyword k :: ts) =
      gap before (keyword .LIMIT) ++ (k.text ++ textAfter ctx index (keyword k) ts) := by
    rw [← gap_keyword before k, textAfter, String.append_assoc]
    rfl
  cases limit with
  | none =>
    cases offset with
    | none => rfl
    | some m =>
      rw [if_neg fun h => Option.some_ne_none m h.2]
      cases d <;> exact hcons _ _
  | some n =>
    rw [if_neg fun h => Option.some_ne_none n h.1]
    cases offset <;> exact hcons _ _

/-- The bounds on the rows, as any dialect writes them, stand behind the same pieces. -/
theorem textOf_append_window {ts : List Token} (hne : ts ≠ []) (limit offset : Option UInt64) :
    ∃ space, ∀ (ctx : Context) (d : Dialect), textOf ctx (ts ++ d.windowTokens limit offset) =
      Piece.textOf ctx.quoting.apply ctx.dialect.placeholder (piecesOf ts ++ [.fixed space]) ++
        d.tail limit offset := by
  obtain ⟨t, ts, rfl⟩ := List.exists_cons_of_ne_nil hne
  refine ⟨if limit = none ∧ offset = none then "" else gap (ts.getLastD t) (keyword .LIMIT),
    fun ctx d => ?_⟩
  rw [List.cons_append, textOf, textAfter_append, textAfter_window, Piece.textOf_append,
    textOf_piecesOf, textOf]
  simp only [Piece.textOf, Piece.text, String.append_assoc, String.empty_append]

end Token

/-! ### Placeholders without numbers -/

/-- What a reader of a text stands in: nothing that goes on, a quoted name, or the number of a
placeholder. -/
inductive Reading where
  | plain
  | quoted
  | numbered
  deriving DecidableEq, Repr

/-- A text in which `mark` quotes names, with a question mark for each placeholder with a number. -/
def unnumbered (mark : Char) : Reading → List Char → List Char
  | _, [] => []
  | reading, c :: cs =>
    if reading = .quoted then c :: unnumbered mark (if c = mark then .plain else .quoted) cs
    else if reading = .numbered ∧ c.isDigit then unnumbered mark .numbered cs
    else if c = mark then c :: unnumbered mark .quoted cs
    else if c = '$' then '?' :: unnumbered mark .numbered cs
    else c :: unnumbered mark .plain cs

section Unnumbered

open Lexeme (Delimits)

variable {mark : Char} {rest : List Char}

theorem unnumbered_plain {cs : List Char} (h : ∀ c ∈ cs, c ≠ mark ∧ c ≠ '$') :
    unnumbered mark .plain (cs ++ rest) = cs ++ unnumbered mark .plain rest := by
  induction cs with
  | nil => rfl
  | cons c cs ih =>
    obtain ⟨⟨hmark, hdollar⟩, hcs⟩ := List.forall_mem_cons.mp h
    simp [unnumbered, hmark, hdollar, ih hcs]

/-- The marks in a name are doubled, so that the name goes on behind them. -/
theorem unnumbered_quoted (name : List Char) :
    unnumbered mark .quoted ((name.flatMap fun c => if c = mark then [mark, c] else [c]) ++
        mark :: rest) =
      (name.flatMap fun c => if c = mark then [mark, c] else [c]) ++
        mark :: unnumbered mark .plain rest := by
  induction name with
  | nil => simp [unnumbered]
  | cons c cs ih =>
    by_cases hc : c = mark
    · simp [unnumbered, hc, ih]
    · simp [unnumbered, hc, ih]

theorem unnumbered_enclose (name : String) :
    unnumbered mark .plain ((Quoting.enclose mark name).toList ++ rest) =
      (Quoting.enclose mark name).toList ++ unnumbered mark .plain rest := by
  have hopen (cs : List Char) :
      unnumbered mark .plain (mark :: cs) = mark :: unnumbered mark .quoted cs := by
    simp [unnumbered]
  simp only [Quoting.enclose, String.toList_ofList, List.cons_append, List.append_assoc, hopen,
    List.nil_append, unnumbered_quoted]

/-- A number goes no further than to what delimits it. -/
theorem unnumbered_of_delimits (h : Delimits rest) :
    unnumbered mark .numbered rest = unnumbered mark .plain rest := by
  cases rest with
  | nil => rfl
  | cons c cs => simp [unnumbered, h.not_digit c rfl]

theorem unnumbered_placeholder (hm : IsMark mark) (index : Nat) (h : Delimits rest) :
    unnumbered mark .plain ((Dialect.postgresql.placeholder index).toList ++ rest) =
      '?' :: unnumbered mark .plain rest := by
  have hdigits {cs : List Char} (hcs : ∀ c ∈ cs, c.isDigit = true) :
      unnumbered mark .numbered (cs ++ rest) = unnumbered mark .numbered rest := by
    induction cs with
    | nil => rfl
    | cons c cs ih =>
      obtain ⟨hc, hcs⟩ := List.forall_mem_cons.mp hcs
      simp [unnumbered, hc, ih hcs]
  have htext : (Dialect.postgresql.placeholder index).toList = '$' :: Nat.toDigits 10 index := by
    simp [Dialect.placeholder]
  have hmark : '$' ≠ mark := by
    rintro rfl
    rcases hm with h | h <;> cases h
  have hindex : ∀ c ∈ Nat.toDigits 10 index, c.isDigit = true := fun c hc =>
    Nat.isDigit_of_mem_toDigits (by decide) (by decide) hc
  have hrun := hdigits hindex
  rw [htext, List.cons_append, ← unnumbered_of_delimits h, ← hrun]
  simp [unnumbered, hmark]

end Unnumbered

/-- Whether a character neither quotes a name nor begins a placeholder with a number. -/
def isPlainChar (c : Char) : Bool := c != '"' && c != '\x60' && c != '$'

theorem Keyword.all_isPlainChar_text (k : Keyword) : k.text.toList.all isPlainChar = true := by
  cases k <;> decide

theorem Sign.all_isPlainChar_text (s : Sign) : s.text.toList.all isPlainChar = true := by
  cases s <;> decide

namespace Token

theorem isPlainChar_of_isDigit {c : Char} (h : c.isDigit = true) : isPlainChar c = true := by
  have hne (d : Char) (hd : d.isDigit = false) : (c != d) = true :=
    bne_iff_ne.mpr fun hcd => Bool.eq_false_iff.mp hd (hcd ▸ h)
  rw [isPlainChar, hne '"' rfl, hne '\x60' rfl, hne '$' rfl]
  rfl

theorem all_isPlainChar_toDigits (n : Nat) : (Nat.toDigits 10 n).all isPlainChar = true :=
  List.all_eq_true.mpr fun _ hc =>
    isPlainChar_of_isDigit (Nat.isDigit_of_mem_toDigits (by decide) (by decide) hc)

theorem all_isPlainChar_toString (n : Int) : (toString n).toList.all isPlainChar = true := by
  cases n with
  | ofNat n =>
    have htext : (toString (Int.ofNat n)).toList = Nat.toDigits 10 n := by
      simp [Int.toString_eq_repr, Int.repr]
    rw [htext, all_isPlainChar_toDigits]
  | negSucc n =>
    have htext : (toString (Int.negSucc n)).toList = '-' :: Nat.toDigits 10 (n + 1) := by
      simp [Int.toString_eq_repr, Int.repr]
    rw [htext, List.all_cons, all_isPlainChar_toDigits]
    rfl

variable {quoting : Quoting} {mark : Char} (hmark : quoting.mark? = some mark)

include hmark

theorem unnumbered_of_isPlainChar {text : String} (h : text.toList.all isPlainChar = true)
    (rest : List Char) :
    unnumbered mark .plain (text.toList ++ rest) =
      text.toList ++ unnumbered mark .plain rest := by
  refine unnumbered_plain fun c hc => ?_
  have hplain := List.all_eq_true.mp h c hc
  simp only [isPlainChar, Bool.and_eq_true, bne_iff_ne] at hplain
  obtain ⟨⟨hdouble, hbacktick⟩, hdollar⟩ := hplain
  rcases Quoting.isMark_of_mark? hmark with rfl | rfl
  · exact ⟨hdouble, hdollar⟩
  · exact ⟨hbacktick, hdollar⟩

theorem unnumbered_text (index : Nat) (t : Token) {rest : List Char}
    (hr : t.isOpen = false → Lexeme.Delimits rest) :
    unnumbered mark .plain ((t.text ⟨.postgresql, quoting⟩ index).toList ++ rest) =
      (t.text ⟨.sqlite, quoting⟩ index).toList ++ unnumbered mark .plain rest := by
  cases t with
  | name s =>
    rw [text, text, Quoting.apply_eq_enclose hmark]
    exact unnumbered_enclose s
  | bound v =>
    have hsqlite : (text ⟨.sqlite, quoting⟩ index (bound v)).toList = ['?'] := by
      simp [text, Dialect.placeholder]
    rw [hsqlite]
    exact unnumbered_placeholder (Quoting.isMark_of_mark? hmark) index (hr rfl)
  | keyword k => exact unnumbered_of_isPlainChar hmark k.all_isPlainChar_text rest
  | sign s => exact unnumbered_of_isPlainChar hmark s.all_isPlainChar_text rest
  | number n => exact unnumbered_of_isPlainChar hmark (all_isPlainChar_toString n) rest
  | comma | dot | opening | closing | nothing =>
    exact unnumbered_of_isPlainChar hmark (by simp [text, isPlainChar]) rest

theorem unnumbered_textAfter (index : Nat) (before : Token) (ts : List Token) :
    unnumbered mark .plain (textAfter ⟨.postgresql, quoting⟩ index before ts).toList =
      (textAfter ⟨.sqlite, quoting⟩ index before ts).toList := by
  induction ts generalizing index before with
  | nil => rfl
  | cons t ts ih =>
    have hgap : (if spaced before t then " " else "").toList.all isPlainChar = true := by
      split <;> simp [isPlainChar]
    rw [textAfter, textAfter]
    simp only [String.toList_append, List.append_assoc]
    rw [unnumbered_of_isPlainChar hmark hgap,
      unnumbered_text hmark index t (Lexeme.delimits_textAfter _ t ts), ih]

/-- Without the numbers of its placeholders, the text for one dialect is the text for another. -/
theorem unnumbered_textOf (ts : List Token) :
    unnumbered mark .plain (textOf ⟨.postgresql, quoting⟩ ts).toList =
      (textOf ⟨.sqlite, quoting⟩ ts).toList := by
  cases ts with
  | nil => rfl
  | cons t ts =>
    rw [textOf, textOf, String.toList_append, String.toList_append,
      unnumbered_text hmark 1 t (Lexeme.delimits_textAfter _ t ts), unnumbered_textAfter hmark]

end Token

end SqlCompose
