import SqlCompose.Sql.Statement

/-!
# Reading statement text

The text of a statement is read back into its tokens by the rules that databases read it by: a
name stands between marks, and a mark inside it is doubled; words are runs of capitals, numbers
and the digits of a placeholder are runs of digits; spaces only separate. Nothing is known of what
a placeholder stands for, so that it is read as the text it is written with, and
`Lexeme.fill` puts the values of the bindings in the places of the placeholders.

A token is read off the front of the text by `Lexeme.next`. What follows it matters only where it
could run on: the text after a token therefore begins with a delimiter, unless the token is an
opening parenthesis or a dot, which nothing continues.

## Main definitions

* `Quoting.mark?`: the mark of the two quotings that double it.
* `unquote`: reading a quoted name.
* `Lexeme`, `Lexeme.lex`: what text is read into, and the reader.
* `Token.lexemesFrom`: the lexemes that a token list is written as.
* `Lexeme.fill`: the tokens that lexemes stand for with the bindings in place.

## Main results

* `unquote_enclose`, `eq_of_unquote`: a quoted name is read back, whatever follows it but another
  mark, and nothing else is read as the name.
* `Lexeme.lex_textOf`: the text of a token list is read into the lexemes of the list.
* `Lexeme.fill_lexemesFrom`: with its own bindings in place, they are the tokens again.
-/

namespace SqlCompose

/-- The mark that a quoting writes around a name and doubles inside it. -/
def Quoting.mark? : Quoting → Option Char
  | double => some '"'
  | backtick => some '\x60'
  | custom _ => none

/-- The marks that names are quoted with. -/
def IsMark (mark : Char) : Prop := mark = '"' ∨ mark = '\x60'

theorem Quoting.isMark_of_mark? {q : Quoting} {mark : Char} (h : q.mark? = some mark) :
    IsMark mark := by
  cases q with
  | double => exact Or.inl (Option.some.inj h).symm
  | backtick => exact Or.inr (Option.some.inj h).symm
  | custom write => cases h

theorem Quoting.apply_eq_enclose {q : Quoting} {mark : Char} (h : q.mark? = some mark)
    (name : String) : q.apply name = Quoting.enclose mark name := by
  cases q with
  | double => cases h; rfl
  | backtick => cases h; rfl
  | custom write => cases h

/-! ### Quoted names -/

/-- Reads a name after its opening mark, and gives the name and what follows the closing mark. -/
def unquote (mark : Char) : List Char → Option (List Char × List Char)
  | [] => none
  | c :: cs =>
    if c = mark then
      match cs with
      | [] => some ([], [])
      | d :: ds =>
        if d = mark then (unquote mark ds).map fun (name, rest) => (mark :: name, rest)
        else some ([], d :: ds)
    else (unquote mark cs).map fun (name, rest) => (c :: name, rest)

private theorem unquote_closing (mark : Char) {rest : List Char} (h : rest.head? ≠ some mark) :
    unquote mark (mark :: rest) = some ([], rest) := by
  cases rest with
  | nil => simp [unquote]
  | cons d ds =>
    have hd : d ≠ mark := fun hd => h (by simp [hd])
    simp [unquote, hd]

theorem unquote_doubled (mark : Char) (cs : List Char) :
    unquote mark (mark :: mark :: cs) =
      (unquote mark cs).map fun (name, rest) => (mark :: name, rest) := by
  simp [unquote]

private theorem unquote_other {mark c : Char} (h : c ≠ mark) (cs : List Char) :
    unquote mark (c :: cs) = (unquote mark cs).map fun (name, rest) => (c :: name, rest) := by
  rw [unquote.eq_def]
  exact if_neg h

/-- A name with its marks doubled is read, and reading goes on behind it: its runs of marks have an
even number of them, so that it ends between characters. -/
theorem unquote_append (mark : Char) (name cs : List Char) :
    unquote mark ((name.flatMap fun c => if c = mark then [mark, c] else [c]) ++ cs) =
      (unquote mark cs).map (Prod.map (name ++ ·) id) := by
  induction name with
  | nil => exact Option.map_id'.symm
  | cons c name ih =>
    by_cases hc : c = mark
    · subst hc
      simp only [List.flatMap_cons, ↓reduceIte, List.cons_append, List.nil_append]
      rw [unquote_doubled, ih, Option.map_map]
      rfl
    · simp only [List.flatMap_cons, if_neg hc, List.cons_append, List.nil_append]
      rw [unquote_other hc, ih, Option.map_map]
      rfl

/-- A name with its marks doubled is read back up to the first mark that is not, whatever runs of
marks the name has. -/
theorem unquote_enclose (mark : Char) (name : List Char) {rest : List Char}
    (h : rest.head? ≠ some mark) :
    unquote mark ((name.flatMap fun c => if c = mark then [mark, c] else [c]) ++ mark :: rest) =
      some (name, rest) := by
  rw [unquote_append, unquote_closing mark h]
  simp

/-- Nothing else is read as the name: it stands with its marks doubled in front of a mark, and
another mark does not follow. -/
theorem eq_of_unquote {mark : Char} {cs name rest : List Char}
    (h : unquote mark cs = some (name, rest)) :
    cs = (name.flatMap fun c => if c = mark then [mark, c] else [c]) ++ mark :: rest ∧
      rest.head? ≠ some mark := by
  fun_induction unquote mark cs generalizing name with
  | case1 => cases h
  | case2 =>
    cases h
    simp
  | case3 ds ih =>
    obtain ⟨⟨name, rest⟩, hds, heq⟩ := Option.map_eq_some_iff.mp h
    cases heq
    obtain ⟨rfl, hrest⟩ := ih hds
    simp [hrest]
  | case4 d ds hd =>
    cases h
    simp [hd]
  | case5 c cs hc ih =>
    obtain ⟨⟨name, rest⟩, hcs, heq⟩ := Option.map_eq_some_iff.mp h
    cases heq
    obtain ⟨rfl, hrest⟩ := ih hcs
    simp [hc, hrest]

/-! ### Lexemes -/

/-- The reserved words. -/
def Keyword.all : List Keyword :=
  [SELECT, FROM, AS, INNER, JOIN, ON, WHERE, GROUP, BY, HAVING, ORDER, ASC, DESC, LIMIT, OFFSET,
    NOT, AND, OR, LIKE, IS, NULL, IN, BETWEEN]

/-- The reserved word of a spelling. -/
def Keyword.ofText? (text : List Char) : Option Keyword :=
  Keyword.all.find? fun k => k.text.toList == text

@[simp] theorem Keyword.ofText?_text (k : Keyword) : ofText? k.text.toList = some k := by
  cases k <;> decide

theorem Keyword.all_isUpper_text (k : Keyword) : k.text.toList.all Char.isUpper = true := by
  cases k <;> rfl

/-- What text is read into: tokens, and placeholders with their spelling. -/
inductive Lexeme where
  | token (t : Token)
  | placeholder (text : String)
  deriving DecidableEq, Repr

namespace Lexeme

/-- The spelling of a placeholder. -/
def placeholder? : Lexeme → Option String
  | token _ => none
  | placeholder text => some text

/-- Reads a run of digits as a number. -/
def readNumber (cs : List Char) : Lexeme × List Char :=
  (token (.number (Nat.ofDigitChars 10 (cs.takeWhile Char.isDigit) 0)),
    cs.dropWhile Char.isDigit)

/-- Reads a run of capitals as a reserved word. -/
def readWord (cs : List Char) : Option (Lexeme × List Char) :=
  (Keyword.ofText? (cs.takeWhile Char.isUpper)).map fun k =>
    (token (.keyword k), cs.dropWhile Char.isUpper)

/-- Reads one lexeme, or a space, off the front of a text in which `mark` quotes names. -/
def next (mark : Char) : List Char → Option (Option Lexeme × List Char)
  | [] => none
  | ' ' :: cs => some (none, cs)
  | ',' :: cs => some (some (token .comma), cs)
  | '.' :: cs => some (some (token .dot), cs)
  | '(' :: cs => some (some (token .opening), cs)
  | ')' :: cs => some (some (token .closing), cs)
  | '=' :: cs => some (some (token (.sign .equal)), cs)
  | '<' :: '>' :: cs => some (some (token (.sign .notEqual)), cs)
  | '<' :: '=' :: cs => some (some (token (.sign .lessEqual)), cs)
  | '<' :: cs => some (some (token (.sign .less)), cs)
  | '>' :: '=' :: cs => some (some (token (.sign .greaterEqual)), cs)
  | '>' :: cs => some (some (token (.sign .greater)), cs)
  | '+' :: cs => some (some (token (.sign .plus)), cs)
  | '-' :: cs => some (some (token (.sign .minus)), cs)
  | '*' :: cs => some (some (token (.sign .star)), cs)
  | '/' :: cs => some (some (token (.sign .slash)), cs)
  | '?' :: cs => some (some (placeholder "?"), cs)
  | '$' :: cs =>
    some (some (placeholder (String.ofList ('$' :: cs.takeWhile Char.isDigit))),
      cs.dropWhile Char.isDigit)
  | c :: cs =>
    if c = mark then
      (unquote mark cs).map fun (name, rest) => (some (token (.name (String.ofList name))), rest)
    else if c.isDigit then
      let (l, rest) := readNumber (c :: cs)
      some (some l, rest)
    else (readWord (c :: cs)).map fun (l, rest) => (some l, rest)

/-- Reads a whole text. A text that can not be read has no lexemes. -/
def lex (mark : Char) (cs : List Char) : Option (List Lexeme) :=
  if cs = [] then some []
  else
    match next mark cs with
    | none => none
    | some (l, rest) =>
      -- every lexeme takes a character, so that the guard never fails
      if rest.length < cs.length then (lex mark rest).map (l.toList ++ ·) else none
termination_by cs.length

/-! ### Reading one token -/

/-- A text that nothing before it but a parenthesis or a dot runs on into: it is empty or begins
with a space or with the punctuation that stands without one. -/
def Delimits (cs : List Char) : Prop := ∀ c ∈ cs.head?, c = ' ' ∨ c = ')' ∨ c = ',' ∨ c = '.'

theorem Delimits.head?_ne {cs : List Char} (h : Delimits cs) {c : Char}
    (hc : c ≠ ' ' ∧ c ≠ ')' ∧ c ≠ ',' ∧ c ≠ '.') : cs.head? ≠ some c := by
  intro hcs
  rcases h c (by simp [hcs]) with rfl | rfl | rfl | rfl <;> simp at hc

private theorem lex_append {mark : Char} {text rest : List Char} {l : Option Lexeme}
    (h : next mark (text ++ rest) = some (l, rest)) (ht : text ≠ []) :
    lex mark (text ++ rest) = (lex mark rest).map (l.toList ++ ·) := by
  have hpos : 0 < text.length := List.length_pos_iff.mpr ht
  rw [lex, if_neg (List.append_ne_nil_of_left_ne_nil ht rest), h]
  exact if_pos (by rw [List.length_append]; omega)

private theorem next_mark {mark : Char} (h : IsMark mark) (cs : List Char) :
    next mark (mark :: cs) = (unquote mark cs).map fun (name, rest) =>
      (some (token (.name (String.ofList name))), rest) := by
  rcases h with rfl | rfl <;> simp [next]

private theorem next_digit {mark c : Char} (hm : IsMark mark) (hc : c.isDigit = true)
    (cs : List Char) :
    next mark (c :: cs) = some (some (readNumber (c :: cs)).1, (readNumber (c :: cs)).2) := by
  have hcm : c ≠ mark := by
    rintro rfl
    rcases hm with rfl | rfl <;> simp at hc
  rw [next.eq_def]
  split <;> simp_all

private theorem next_capital {mark c : Char} (hm : IsMark mark) (hc : c.isUpper = true)
    (cs : List Char) :
    next mark (c :: cs) = (readWord (c :: cs)).map fun (l, rest) => (some l, rest) := by
  have hcm : c ≠ mark := by
    rintro rfl
    rcases hm with rfl | rfl <;> simp at hc
  have hd : c.isDigit = false := by
    have hupper : 'A'.val ≤ c.val ∧ c.val ≤ 'Z'.val := of_decide_eq_true hc
    refine Bool.eq_false_iff.mpr fun hdigit => ?_
    have hnine : c.val ≤ '9'.val := of_decide_eq_true (Bool.and_eq_true_iff.mp hdigit).2
    exact absurd (UInt32.le_trans hupper.1 hnine) (by decide)
  rw [next.eq_def]
  split <;> simp_all

private theorem takeWhile_run {p : Char → Bool} {run rest : List Char} (h : ∀ c ∈ run, p c = true)
    (hr : ∀ c ∈ rest.head?, p c = false) :
    (run ++ rest).takeWhile p = run ∧ (run ++ rest).dropWhile p = rest := by
  have hrest : rest.takeWhile p = [] ∧ rest.dropWhile p = rest := by
    cases rest with
    | nil => exact ⟨rfl, rfl⟩
    | cons c cs => simp [hr c rfl]
  rw [List.takeWhile_append_of_pos h, List.dropWhile_append_of_pos h, hrest.1, hrest.2]
  exact ⟨List.append_nil run, rfl⟩

theorem Delimits.not_digit {cs : List Char} (h : Delimits cs) :
    ∀ c ∈ cs.head?, c.isDigit = false := by
  intro c hc
  rcases h c hc with rfl | rfl | rfl | rfl <;> decide

theorem Delimits.not_capital {cs : List Char} (h : Delimits cs) :
    ∀ c ∈ cs.head?, c.isUpper = false := by
  intro c hc
  rcases h c hc with rfl | rfl | rfl | rfl <;> decide

section Token

variable {mark : Char} {rest : List Char}

theorem lex_space (rest : List Char) : lex mark (' ' :: rest) = lex mark rest := by
  have hnext : next mark ([' '] ++ rest) = some (none, rest) := by simp [next]
  rw [← List.singleton_append, lex_append hnext (List.cons_ne_nil _ _)]
  cases lex mark rest <;> rfl

theorem lex_keyword (hm : IsMark mark) (k : Keyword) (hr : Delimits rest) :
    lex mark (k.text.toList ++ rest) = (lex mark rest).map (token (.keyword k) :: ·) := by
  have hrun : ∀ c ∈ k.text.toList, c.isUpper = true := List.all_eq_true.mp k.all_isUpper_text
  obtain ⟨htake, hdrop⟩ := takeWhile_run hrun hr.not_capital
  obtain ⟨c, cs, hcs⟩ : ∃ c cs, k.text.toList = c :: cs := by
    cases k <;> exact ⟨_, _, rfl⟩
  have hnext : next mark (k.text.toList ++ rest) = some (some (token (.keyword k)), rest) := by
    have hcap : c.isUpper = true := hrun c (by simp [hcs])
    rw [hcs, List.cons_append, next_capital hm hcap, ← List.cons_append, ← hcs, readWord, htake,
      hdrop, Keyword.ofText?_text]
    rfl
  rw [lex_append hnext (by simp [hcs])]
  rfl

theorem lex_sign (s : Sign) (hr : Delimits rest) :
    lex mark (s.text.toList ++ rest) = (lex mark rest).map (token (.sign s) :: ·) := by
  have heq : rest.head? ≠ some '=' := hr.head?_ne (by decide)
  have hgt : rest.head? ≠ some '>' := hr.head?_ne (by decide)
  have hnext : next mark (s.text.toList ++ rest) = some (some (token (.sign s)), rest) := by
    cases rest with
    | nil => cases s <;> simp [Sign.text, next]
    | cons c cs =>
      simp only [List.head?_cons, ne_eq, Option.some.injEq] at heq hgt
      cases s <;> simp [Sign.text, next, heq, hgt]
  rw [lex_append hnext (by cases s <;> decide)]
  rfl

theorem lex_number (hm : IsMark mark) (n : Nat) (hr : Delimits rest) :
    lex mark (Nat.toDigits 10 n ++ rest) = (lex mark rest).map (token (.number n) :: ·) := by
  have hrun : ∀ c ∈ Nat.toDigits 10 n, c.isDigit = true := fun c hc =>
    Nat.isDigit_of_mem_toDigits (by decide) (by decide) hc
  obtain ⟨htake, hdrop⟩ := takeWhile_run hrun hr.not_digit
  obtain ⟨c, cs, hcs⟩ : ∃ c cs, Nat.toDigits 10 n = c :: cs :=
    List.exists_cons_of_ne_nil Nat.toDigits_ne_nil
  have hnext : next mark (Nat.toDigits 10 n ++ rest) = some (some (token (.number n)), rest) := by
    have hdig : c.isDigit = true := hrun c (by simp [hcs])
    rw [hcs, List.cons_append, next_digit hm hdig, ← List.cons_append, ← hcs, readNumber, htake,
      hdrop, Nat.ofDigitChars_ten_toDigits]
  rw [lex_append hnext (by simp [hcs])]
  rfl

theorem lex_name (hm : IsMark mark) (name : String) (hr : Delimits rest) :
    lex mark ((Quoting.enclose mark name).toList ++ rest) =
      (lex mark rest).map (token (.name name) :: ·) := by
  have hmark : rest.head? ≠ some mark := by
    apply hr.head?_ne
    rcases hm with rfl | rfl <;> decide
  have hnext : next mark ((Quoting.enclose mark name).toList ++ rest) =
      some (some (token (.name name)), rest) := by
    simp only [Quoting.enclose, String.toList_ofList, List.cons_append, List.append_assoc,
      List.nil_append]
    rw [next_mark hm, unquote_enclose mark name.toList hmark]
    simp
  rw [lex_append hnext (by simp [Quoting.enclose])]
  rfl

theorem lex_placeholder (d : Dialect) (index : Nat) (hr : Delimits rest) :
    lex mark ((d.placeholder index).toList ++ rest) =
      (lex mark rest).map (placeholder (d.placeholder index) :: ·) := by
  have hnext : next mark ((d.placeholder index).toList ++ rest) =
      some (some (placeholder (d.placeholder index)), rest) := by
    cases d with
    | sqlite => simp [Dialect.placeholder, next]
    | mysql => simp [Dialect.placeholder, next]
    | postgresql =>
      have hrun : ∀ c ∈ Nat.toDigits 10 index, c.isDigit = true := fun c hc =>
        Nat.isDigit_of_mem_toDigits (by decide) (by decide) hc
      obtain ⟨htake, hdrop⟩ := takeWhile_run hrun hr.not_digit
      have htext : (Dialect.postgresql.placeholder index).toList =
          '$' :: Nat.toDigits 10 index := by
        simp [Dialect.placeholder]
      rw [htext, List.cons_append, next, htake, hdrop, ← htext, String.ofList_toList]
  rw [lex_append hnext (by cases d <;> simp [Dialect.placeholder])]
  rfl

private theorem lex_punctuation {t : Token} {text : List Char} (ht : text ≠ [])
    (h : next mark (text ++ rest) = some (some (token t), rest)) :
    lex mark (text ++ rest) = (lex mark rest).map (token t :: ·) := by
  rw [lex_append h ht]
  rfl

end Token

end Lexeme

/-! ### Reading a token list -/

namespace Token

/-- Whether the next token follows a token without a space, whatever it is. -/
def isOpen : Token → Bool
  | opening | dot => true
  | _ => false

/-- The lexemes of a token; `index` is the number of the next binding. An empty place has none,
and the sign of a number is a lexeme of its own. -/
def lexemes (d : Dialect) (index : Nat) : Token → List Lexeme
  | bound _ => [.placeholder (d.placeholder index)]
  | nothing => []
  | number (.negSucc n) => [.token (.sign .minus), .token (.number (n + 1))]
  | t => [.token t]

/-- The lexemes of a token list; `index` is the number of the next binding. -/
def lexemesFrom (d : Dialect) : Nat → List Token → List Lexeme
  | _, [] => []
  | index, t :: ts => t.lexemes d index ++ lexemesFrom d (t.nextIndex index) ts

end Token

namespace Lexeme

section Text

variable {ctx : Context} {mark : Char} (hc : ctx.quoting.mark? = some mark)

include hc

/-- One token is read off the front of a text that it does not run on into. -/
theorem lex_text (t : Token) (index : Nat) {rest : List Char}
    (hr : t.isOpen = false → Delimits rest) :
    lex mark ((t.text ctx index).toList ++ rest) =
      (lex mark rest).map (t.lexemes ctx.dialect index ++ ·) := by
  have hm : IsMark mark := Quoting.isMark_of_mark? hc
  cases t with
  | keyword k => exact lex_keyword hm k (hr rfl)
  | sign s => exact lex_sign s (hr rfl)
  | comma => exact lex_punctuation (by simp [Token.text]) (by simp [Token.text, next])
  | dot => exact lex_punctuation (by simp [Token.text]) (by simp [Token.text, next])
  | opening => exact lex_punctuation (by simp [Token.text]) (by simp [Token.text, next])
  | closing => exact lex_punctuation (by simp [Token.text]) (by simp [Token.text, next])
  | name s =>
    rw [Token.text, Quoting.apply_eq_enclose hc]
    exact lex_name hm s (hr rfl)
  | number n =>
    cases n with
    | ofNat n =>
      have htext : (toString (Int.ofNat n)).toList = Nat.toDigits 10 n := by
        simp [Int.toString_eq_repr, Int.repr]
      rw [Token.text, htext]
      exact lex_number hm n (hr rfl)
    | negSucc n =>
      have htext : (toString (Int.negSucc n)).toList = '-' :: Nat.toDigits 10 (n + 1) := by
        simp [Int.toString_eq_repr, Int.repr]
      have hsign : next mark (['-'] ++ (Nat.toDigits 10 (n + 1) ++ rest)) =
          some (some (token (.sign .minus)), Nat.toDigits 10 (n + 1) ++ rest) := by
        simp [next]
      rw [Token.text, htext, ← List.singleton_append, List.append_assoc,
        lex_punctuation (List.cons_ne_nil _ _) hsign, lex_number hm (n + 1) (hr rfl),
        Option.map_map]
      rfl
  | bound v => exact lex_placeholder ctx.dialect index (hr rfl)
  | nothing =>
    simp only [Token.text, Token.lexemes, String.toList_empty, List.nil_append]
    exact Option.map_id'.symm

omit hc in
/-- What follows a token delimits it, unless nothing has to. -/
theorem delimits_textAfter (index : Nat) (before : Token) (ts : List Token)
    (hb : before.isOpen = false) : Delimits (Token.textAfter ctx index before ts).toList := by
  cases ts with
  | nil => simp [Token.textAfter, Delimits]
  | cons t ts =>
    cases before <;> cases t <;>
      simp_all [Token.textAfter, Token.spaced, Token.isOpen, Token.text, Delimits]

theorem lex_textAfter (index : Nat) (before : Token) (ts : List Token) :
    lex mark (Token.textAfter ctx index before ts).toList =
      some (Token.lexemesFrom ctx.dialect index ts) := by
  induction ts generalizing index before with
  | nil =>
    rw [Token.textAfter, String.toList_empty, lex]
    rfl
  | cons t ts ih =>
    have hspace (cs : List Char) : lex mark
        ((if Token.spaced before t then " " else "").toList ++ cs) = lex mark cs := by
      split
      · exact lex_space cs
      · rfl
    rw [Token.textAfter, String.toList_append, String.toList_append, List.append_assoc, hspace,
      lex_text hc t index (delimits_textAfter _ t ts), ih]
    rfl

/-- The text of a token list is read into the lexemes of the list, whatever its names are. -/
theorem lex_textOf (ts : List Token) :
    lex mark (Token.textOf ctx ts).toList = some (Token.lexemesFrom ctx.dialect 1 ts) := by
  cases ts with
  | nil =>
    rw [Token.textOf, String.toList_empty, lex]
    rfl
  | cons t ts =>
    rw [Token.textOf, String.toList_append, lex_text hc t 1 (delimits_textAfter _ t ts),
      lex_textAfter hc]
    rfl

end Text

/-! ### Putting the bindings back -/

/-- The value that a placeholder stands for, behind `seen` other placeholders: the binding of its
number if it has one, and otherwise the next one. Bindings are numbered from one. -/
def boundValue (bindings : List Value) (seen : Nat) (text : String) : Option Value :=
  match text.toList with
  | '$' :: digits =>
    match Nat.ofDigitChars 10 digits 0 with
    | 0 => none
    | n + 1 => bindings[n]?
  | _ => bindings[seen]?

/-- The tokens that lexemes stand for once the bindings are in the places of the placeholders, of
which `seen` stand before. -/
def fill (bindings : List Value) : Nat → List Lexeme → Option (List Token)
  | _, [] => some []
  | seen, token t :: ls => (fill bindings seen ls).map (t :: ·)
  | seen, placeholder text :: ls => do
    let v ← boundValue bindings seen text
    return .bound v :: (← fill bindings (seen + 1) ls)

/-- A placeholder stands for the binding that it is written for in every dialect. -/
theorem boundValue_placeholder (d : Dialect) (before after : List Value) (v : Value) :
    boundValue (before ++ v :: after) before.length (d.placeholder (before.length + 1)) =
      some v := by
  cases d with
  | sqlite => simp [boundValue, Dialect.placeholder]
  | mysql => simp [boundValue, Dialect.placeholder]
  | postgresql =>
    have htext : (Dialect.postgresql.placeholder (before.length + 1)).toList =
        '$' :: Nat.toDigits 10 (before.length + 1) := by
      simp [Dialect.placeholder]
    rw [boundValue, htext]
    simp [Nat.ofDigitChars_ten_toDigits]

end Lexeme

namespace Token

/-- The tokens that are seen where a token is written: nothing of an empty place, and the sign of
a number apart from it. -/
def visible : Token → List Token
  | nothing => []
  | number (.negSucc n) => [.sign .minus, .number (n + 1)]
  | t => [t]

/-- A token that binds no value is read as what is seen of it, and takes no number. -/
theorem bound_or_lexemes_eq (d : Dialect) (index : Nat) (t : Token) :
    (∃ v, t = bound v) ∨ (t.lexemes d index = t.visible.map .token ∧ t.nextIndex index = index ∧
      ∀ ts, bindings (t :: ts) = bindings ts) := by
  cases t with
  | bound v => exact Or.inl ⟨v, rfl⟩
  | number n => cases n <;> exact Or.inr ⟨rfl, rfl, fun _ => rfl⟩
  | _ => exact Or.inr ⟨rfl, rfl, fun _ => rfl⟩

end Token

namespace Lexeme

theorem fill_append_tokens (bindings : List Value) (seen : Nat) (ts : List Token)
    (ls : List Lexeme) :
    fill bindings seen (ts.map token ++ ls) = (fill bindings seen ls).map (ts ++ ·) := by
  induction ts with
  | nil => exact Option.map_id'.symm
  | cons t ts ih =>
    rw [List.map_cons, List.cons_append, fill, ih, Option.map_map]
    rfl

/-- With the bindings of a token list in the places of its placeholders, its lexemes are its tokens
again. -/
theorem fill_lexemesFrom (d : Dialect) (before : List Value) (ts : List Token) :
    fill (before ++ Token.bindings ts) before.length
      (Token.lexemesFrom d (before.length + 1) ts) = some (ts.flatMap Token.visible) := by
  induction ts generalizing before with
  | nil => rfl
  | cons t ts ih =>
    rw [List.flatMap_cons, Token.lexemesFrom]
    rcases t.bound_or_lexemes_eq d (before.length + 1) with ⟨v, rfl⟩ | ⟨hl, hn, hb⟩
    · have htail : fill (before ++ v :: Token.bindings ts) (before.length + 1)
          (Token.lexemesFrom d (before.length + 1 + 1) ts) = some (ts.flatMap Token.visible) := by
        simpa using ih (before ++ [v])
      rw [Token.bindings_bound, Token.lexemes, List.singleton_append, fill,
        boundValue_placeholder, Token.nextIndex, htail]
      rfl
    · rw [hl, hn, hb, fill_append_tokens, ih]
      rfl

end Lexeme

end SqlCompose
